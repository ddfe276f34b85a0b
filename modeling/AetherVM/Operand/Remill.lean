import AetherVM.MetaData.Layout

/-!
# Remill の operand（`remill/Arch/Instruction.h` と `src/OpcodeEngine.cpp` の `RemillRegister`）

decode した命令の operand。register の名前は `std::string` なので byte 列で表す。
`type` の tag と、それで選ばれる member は、一つの帰納型にまとめる。

`initOffsets` は、register の `size` の上位 32 bit を CPU state の中の offset に書き換える。
ここでは初めから `size` と `offset` を別の field にしておく。
-/

namespace AetherVM

open Infra

/-- register の名前。 -/
abbrev Name := Bytes

/-- 列挙型 `ShiftRegister::Shift`。 -/
inductive Shift where
  | invalid
  | leftWithZeroes
  | leftWithOnes
  | unsignedRight
  | signedRight
  | leftAround
  | rightAround
deriving DecidableEq, Repr

def Shift.toByte : Shift → UInt8
  | invalid => 0
  | leftWithZeroes => 1
  | leftWithOnes => 2
  | unsignedRight => 3
  | signedRight => 4
  | leftAround => 5
  | rightAround => 6

/-- 列挙型 `ShiftRegister::Extend`。 -/
inductive Extend where
  | invalid
  | unsigned
  | signed
deriving DecidableEq, Repr

def Extend.toByte : Extend → UInt8
  | invalid => 0
  | unsigned => 1
  | signed => 2

/-- `RemillRegister`。`size` は bit、`offset` は CPU state の先頭からの byte である。 -/
structure RemillRegister where
  name : Name
  size : UInt32
  offset : UInt32
deriving DecidableEq

/--
`remill::OperandExpression` を pointer の先まで含めて木にしたもの。`null` は `nullptr` である。
`type` は `op->type` の bit 幅で、`none` は `nullptr`、`constant` の `none` は `ConstantInt` でないことを表す。
-/
inductive RemillExpr where
  | null
  | llvmOp (opcode : UInt32) (op1 op2 : RemillExpr) (type : Option Nat)
  | register (reg : Option (Name × UInt64))
  | constant (value : Option ((w : Nat) × BitVec w))
  | name (s : Name)
deriving DecidableEq

/-- どの演算にも型がある木。 -/
def RemillExpr.Typed : RemillExpr → Prop
  | llvmOp _ op1 op2 type => type.isSome ∧ op1.Typed ∧ op2.Typed
  | _ => True

structure RemillShiftRegister where
  reg : RemillRegister
  shiftSize : UInt64
  extractSize : UInt64
  shiftFirst : Bool
  canShiftOpSize : Bool
  shiftOp : Shift
  extendOp : Extend
deriving DecidableEq

structure RemillAddress where
  segmentBaseReg : RemillRegister
  baseReg : RemillRegister
  indexReg : RemillRegister
  scale : Int64
  displacement : Int64
  addressSize : UInt64
  kind : UInt8
deriving DecidableEq

/-- `type` の選ぶ member。expression は、その address（`expr`）と中身を持つ。 -/
inductive RemillValue where
  | invalid
  | reg (r : RemillRegister)
  | shiftReg (s : RemillShiftRegister)
  | imm (val : UInt64) (isSigned : Bool)
  | addr (a : RemillAddress)
  | expr (t : { t : OperandType // t.isExpression = true }) (ptr : UInt64) (e : RemillExpr)
deriving DecidableEq

/-- `RemillOperand`。`size` は bit である。 -/
structure RemillOperand where
  size : UInt64
  action : OperandAction
  value : RemillValue
deriving DecidableEq

def RemillValue.Typed : RemillValue → Prop
  | expr _ _ e => e.Typed
  | _ => True

def RemillValue.type : RemillValue → OperandType
  | invalid => .invalid
  | reg _ => .register
  | shiftReg _ => .shiftRegister
  | imm _ _ => .immediate
  | addr _ => .address
  | expr t _ _ => t.val

end AetherVM
