import AetherVM.Operand.Convert
import AetherVM.Opcode.Handler

/-!
# operand の値（`src/OpcodeEngine.cpp` の `Lift*OperandRaw` と `interpRemill`）

直接の interpreter は、共有の operand table の operand から、実装に渡す 64 bit の引数を作る。
事前符号化の interpreter（`src/InterpMetaData.cpp`）は同じ計算を metadata の operand に対して行う。
二つの source に同じ形で書かれている計算は、値を引数にした一つの定義にし、それぞれの関数は
自分の field を渡す形で書く。

64 以上の shift は、どちらの側でも shift 量を 64 で割った余りとして扱う。
-/

namespace AetherVM

open Infra

/-- 値が得られない理由。`undefined` は C++ の未定義の動作である。 -/
inductive Fault where
  | abort
  | undefined
deriving DecidableEq, Repr

/-- CPU state。`base` は memory 上の address、`bytes` は先頭からの offset の byte である。 -/
structure CpuState where
  base : UInt64
  bytes : Nat → UInt8

/-! ## 二つの interpreter に共通の計算 -/

/-- `MaskToBits`。下位 `bits` bit だけを残す。 -/
def maskToBits (val : UInt64) (bits : Nat) : UInt64 :=
  if bits = 0 then 0
  else if 64 ≤ bits then val
  else val &&& ((1 <<< UInt64.ofNat bits) - 1)

/-- `SignExtend`。下位 `bits` bit を 64 bit に符号拡張する。 -/
def signExtend (val : UInt64) (bits : Nat) : UInt64 :=
  if bits = 0 ∨ 64 ≤ bits then val
  else
    let signBit : UInt64 := 1 <<< UInt64.ofNat (bits - 1)
    (maskToBits val bits ^^^ signBit) - signBit

/-- `LoadRegValueRaw`。64 bit を越える register は、値ではなく address を返す。 -/
def loadRegValueRaw (st : CpuState) (offset size : Nat) : UInt64 :=
  let numBytes := (size + 7) / 8
  if 8 < numBytes then st.base + UInt64.ofNat offset
  else UInt64.ofNat (ofLE ((List.range numBytes).map fun i => st.bytes (offset + i)))

/-- `static_cast<unsigned>`。幅は 32 bit に切り詰められることがある。 -/
def toUnsigned (n : Nat) : Nat := n % 2 ^ 32

/-- shift の種類の byte に応じた計算。知らない種類では何もしない。 -/
def shiftValue (op : UInt8) (reg shiftSize : UInt64) (size : Nat) : UInt64 :=
  let bits := toUnsigned size
  let around := (~~~shiftSize + 1) &&& (UInt64.ofNat size - 1)
  if op = Shift.leftWithZeroes.toByte then maskToBits (reg <<< shiftSize) bits
  else if op = Shift.leftWithOnes.toByte then
    maskToBits ((reg <<< shiftSize) ||| ~~~((~~~0) <<< shiftSize)) bits
  else if op = Shift.unsignedRight.toByte then maskToBits (reg >>> shiftSize) bits
  else if op = Shift.signedRight.toByte then
    maskToBits ((signExtend reg bits).toInt64 >>> shiftSize.toInt64).toUInt64 bits
  else if op = Shift.leftAround.toByte then
    maskToBits ((reg >>> around) ||| (reg <<< shiftSize)) bits
  else if op = Shift.rightAround.toByte then
    maskToBits ((reg >>> shiftSize) ||| (reg <<< around)) bits
  else reg

/-- 拡張の段。値と、いまの幅を返す。 -/
def extendValue (op : UInt8) (reg : UInt64) (regSize extractSize size : Nat) :
    Except Fault (UInt64 × Nat) :=
  if op = Extend.invalid.toByte then .ok (reg, regSize)
  else
    let extract := toUnsigned extractSize
    let extracted := if extract < regSize then maskToBits reg extract else reg
    let currSize := if extract < regSize then extract else regSize
    if extractSize < size then
      if op = Extend.signed.toByte then .ok (signExtend extracted extract, toUnsigned size)
      else if op = Extend.unsigned.toByte then .ok (extracted, toUnsigned size)
      else .error .abort
    else .ok (extracted, currSize)

/-- `LiftShiftRegisterOperandRaw` の計算。`reg` は読んだ register の値である。 -/
def shiftRegisterValue (reg : UInt64) (regSize extractSize size : Nat) (shiftSize : UInt64)
    (shiftOp extendOp : UInt8) : Except Fault UInt64 := do
  let (reg, currSize) ← extendValue extendOp reg regSize extractSize size
  let reg := if currSize < size then maskToBits reg currSize else reg
  let reg := if shiftOp = Shift.invalid.toByte then reg else shiftValue shiftOp reg shiftSize size
  .ok (if size < 64 then maskToBits reg (toUnsigned size) else reg)

/-- `LiftImmediateOperandRaw` の計算。 -/
def immediateValue (val : UInt64) (isSigned : Bool) (size : Nat) : UInt64 :=
  if isSigned then signExtend val (toUnsigned size) else maskToBits val (toUnsigned size)

/-- `LiftAddressOperandRaw` の計算。 -/
def addressValue (segment base index : UInt64) (scale displacement : Int64) (addressSize : Nat) :
    UInt64 :=
  let addr := if index ≠ 0 then maskToBits (base + index * scale.toUInt64) 64 else base
  let addr :=
    if displacement ≠ 0 then
      if 0 < displacement then maskToBits (addr + displacement.toUInt64) 64
      else maskToBits (addr - (-displacement).toUInt64) 64
    else addr
  let addr := if segment ≠ 0 then maskToBits (addr + segment) 64 else addr
  if addressSize < 64 then maskToBits addr addressSize else addr

/-- `llvm::Instruction` の opcode のうち、operand の expression が使うもの。 -/
inductive LLVMOpcode where
  | add | sub | mul | urem | shl | lshr | ashr | and | or | xor | trunc | zext | sext
deriving DecidableEq, Repr

def LLVMOpcode.ofOpcode (n : Nat) : Option LLVMOpcode :=
  if n = 13 then some .add
  else if n = 15 then some .sub
  else if n = 17 then some .mul
  else if n = 22 then some .urem
  else if n = 25 then some .shl
  else if n = 26 then some .lshr
  else if n = 27 then some .ashr
  else if n = 28 then some .and
  else if n = 29 then some .or
  else if n = 30 then some .xor
  else if n = 38 then some .trunc
  else if n = 39 then some .zext
  else if n = 40 then some .sext
  else none

/-- 演算の値。幅を見るのは `ZExt`・`SExt`・`Trunc` だけである。 -/
def evalLLVMOp (opcode : Nat) (width : Except Fault Nat) (lhs rhs : UInt64) :
    Except Fault UInt64 :=
  match LLVMOpcode.ofOpcode opcode with
  | some .add => .ok (lhs + rhs)
  | some .sub => .ok (lhs - rhs)
  | some .mul => .ok (lhs * rhs)
  | some .shl => .ok (lhs <<< rhs)
  | some .lshr => .ok (lhs >>> rhs)
  | some .ashr => .ok (lhs.toInt64 >>> rhs.toInt64).toUInt64
  | some .zext | some .trunc => do .ok (maskToBits lhs (← width))
  | some .sext => do .ok (signExtend lhs (← width))
  | some .and => .ok (lhs &&& rhs)
  | some .or => .ok (lhs ||| rhs)
  | some .urem => .ok (if rhs ≠ 0 then lhs % rhs else 0)
  | some .xor => .ok (lhs ^^^ rhs)
  | none => .error .abort

/-! ## 直接の interpreter -/

/-- `LoadWordRegValOrZeroRaw`。名前が空なら 0 である。 -/
def loadWordRegValOrZero (st : CpuState) (reg : RemillRegister) : UInt64 :=
  if reg.name = [] then 0
  else maskToBits (loadRegValueRaw st reg.offset.toNat reg.size.toNat) 64

/-- `LiftShiftRegisterOperandRaw`。 -/
def liftShiftRegisterOperandRaw (st : CpuState) (size : UInt64) (s : RemillShiftRegister) :
    Except Fault UInt64 :=
  shiftRegisterValue (loadRegValueRaw st s.reg.offset.toNat s.reg.size.toNat) s.reg.size.toNat
    s.extractSize.toNat size.toNat s.shiftSize s.shiftOp.toByte s.extendOp.toByte

/-- `LiftRegisterOperandRaw`。pointer で渡すなら、register の address を返す。 -/
def liftRegisterOperandRaw (st : CpuState) (r : RemillRegister) (pointer : Bool) : UInt64 :=
  if pointer then st.base + UInt64.ofNat r.offset.toNat
  else loadRegValueRaw st r.offset.toNat r.size.toNat

/-- `LiftAddressOperandRaw`。 -/
def liftAddressOperandRaw (st : CpuState) (a : RemillAddress) : UInt64 :=
  addressValue (loadWordRegValOrZero st a.segmentBaseReg) (loadWordRegValOrZero st a.baseReg)
    (loadWordRegValOrZero st a.indexReg) a.scale a.displacement a.addressSize.toNat

/-- `GetOffset`。知らない register では打ち切る。 -/
def getOffset (regoffs : RegOffs) (name : Name) : Except Fault Nat :=
  match regoffs name with
  | none => .error .abort
  | some off => .ok (off % 2 ^ 32)

/-- `getTypeSizeInBits(op->type)`。 -/
def typeSizeInBits : Option Nat → Except Fault Nat
  | none => .error .undefined
  | some width => .ok width

/-- `LiftExpressionOperandRecRaw`。 -/
def liftExpressionOperandRecRaw (regoffs : RegOffs) (st : CpuState) :
    RemillExpr → Except Fault UInt64
  | .null => .error .abort
  | .llvmOp opcode op1 op2 type => do
    let lhs ← liftExpressionOperandRecRaw regoffs st op1
    let rhs ← (if op2 = .null then .ok 0 else liftExpressionOperandRecRaw regoffs st op2)
    evalLLVMOp opcode.toNat (typeSizeInBits type) lhs rhs
  | .register none => .error .undefined
  | .register (some (name, size)) => do
    let off ← getOffset regoffs name
    .ok (loadRegValueRaw st off (toUnsigned size.toNat))
  | .constant none => .error .abort
  | .constant (some ⟨_, integer⟩) =>
    if integer.toNat < 2 ^ 64 then .ok (UInt64.ofNat integer.toNat) else .error .undefined
  -- `at(0)` が投げる例外は、どこでも受けられない。
  | .name [] => .error .abort
  | .name (c :: s) => do
    let off ← getOffset regoffs (c :: s)
    .ok (loadRegValueRaw st off (if c = 0x77 then 32 else 64))

/-- operand 一つの値（`interpRemill` の loop の中の `switch`）。 -/
def liftOperand (regoffs : RegOffs) (st : CpuState) (op : RemillOperand) (pointer : Bool) :
    Except Fault UInt64 :=
  match op.value with
  | .reg r => .ok (liftRegisterOperandRaw st r pointer)
  | .shiftReg s => liftShiftRegisterOperandRaw st op.size s
  | .imm val isSigned => .ok (immediateValue val isSigned op.size.toNat)
  | .addr a => .ok (liftAddressOperandRaw st a)
  | .expr _ _ e => liftExpressionOperandRecRaw regoffs st e
  | .invalid => .error .abort

/-! ## 実装の呼び出し -/

/-- CPU state の中の pc と `NEXT_PC` の位置。 -/
structure StateLayout where
  pc : Nat
  nextPc : Nat

/-- `SetNextPC`。次の命令の address を `NEXT_PC` に書く。 -/
def setNextPC (layout : StateLayout) (st : CpuState) (oplen : Nat) : CpuState :=
  let pc := ofLE ((List.range 8).map fun i => st.bytes (layout.pc + i))
  let next := toLE 8 (pc + oplen)
  { st with
    bytes := fun i =>
      if layout.nextPc ≤ i ∧ i < layout.nextPc + 8 then next.getD (i - layout.nextPc) 0
      else st.bytes i }

/-- 実装と、それに渡す引数の列。 -/
structure Call where
  impl : UInt64
  params : List UInt64
deriving DecidableEq

/-- 値の列を順に作る。途中で失敗すれば、そこで止まる。 -/
def liftAll {α : Type} (lift : α → Except Fault UInt64) : List α → Except Fault (List UInt64)
  | [] => .ok []
  | a :: rest => do
    let v ← lift a
    let vs ← liftAll lift rest
    .ok (v :: vs)

/-- 配列の要素を番号で読む。範囲の外を読むのは未定義である。 -/
def elementAt {α : Type} (xs : List α) (index : Nat) : Except Fault α :=
  match xs[index]? with
  | none => .error .undefined
  | some x => .ok x

/--
`OpcodeHandler::interpRemill`。引数は memory（0）、CPU state、operand の順である。
`params` は 16 個までで、呼び分けは 15 個までしか無い。16 個のときは `false` を返す（`none`）。
-/
def OpcodeHandler.interpRemill (h : OpcodeHandler) (regoffs : RegOffs) (layout : StateLayout)
    (operands : List RemillOperand) (st : CpuState) : Except Fault (Option Call) := do
  let st := setNextPC layout st h.oplen.toNat
  let params ← liftAll (fun opi : OperandInfo => do
    liftOperand regoffs st (← elementAt operands opi.index) opi.pointer) h.args
  if 14 < params.length then .error .undefined
  else if 13 < params.length then .ok none
  else .ok (some ⟨h.impl, 0 :: st.base :: params⟩)

end AetherVM
