import AetherVM.Infra.Codec

/-!
# `.aevm` file の形（`src/IMetaData.h`）

struct の field と、その byte 表現（codec）を写す。読み書きの往復は codec が持っている。

* union と、それを見分ける tag（`Operand::type`、`Expression::kind`）は、一つの帰納型にまとめる。
  こうすると tag と食い違う member を持つ値は作れない。
* bit-field は幅を持った `BitVec` にする。
* pointer を返す accessor（`insns()` など）は、file の先頭からの offset を返す関数にする。
-/

namespace AetherVM

open Infra

/-- guest と host の architecture。対応しているのはこの二つだけである。 -/
inductive ArchType where
  | arm64
  | x86_64
deriving DecidableEq, Repr

/-! ## Remill の列挙型

`remill/Arch/Instruction.h` の列挙子。metadata には番号がそのまま書かれる。
-/

/-- 列挙型 `remill::Operand::Type`。 -/
inductive OperandType where
  | invalid
  | register
  | shiftRegister
  | immediate
  | address
  | expression
  | registerExpression
  | immediateExpression
  | addressExpression
deriving DecidableEq, Repr

namespace OperandType

def toByte : OperandType → UInt8
  | invalid => 0
  | register => 1
  | shiftRegister => 2
  | immediate => 3
  | address => 4
  | expression => 5
  | registerExpression => 6
  | immediateExpression => 7
  | addressExpression => 8

def ofByte (b : UInt8) : Option OperandType :=
  if b = 0 then some invalid
  else if b = 1 then some register
  else if b = 2 then some shiftRegister
  else if b = 3 then some immediate
  else if b = 4 then some address
  else if b = 5 then some expression
  else if b = 6 then some registerExpression
  else if b = 7 then some immediateExpression
  else if b = 8 then some addressExpression
  else none

theorem ofByte_toByte (t : OperandType) : ofByte t.toByte = some t := by cases t <;> rfl

/-- 中身が expression である四つの種類。 -/
def isExpression : OperandType → Bool
  | expression | registerExpression | immediateExpression | addressExpression => true
  | _ => false

end OperandType

/-- 列挙型 `remill::Operand::Action`。 -/
inductive OperandAction where
  | invalid
  | read
  | write
deriving DecidableEq, Repr

namespace OperandAction

def toByte : OperandAction → UInt8
  | invalid => 0
  | read => 1
  | write => 2

def ofByte (b : UInt8) : Option OperandAction :=
  if b = 0 then some invalid else if b = 1 then some read else if b = 2 then some write else none

theorem ofByte_toByte (a : OperandAction) : ofByte a.toByte = some a := by cases a <;> rfl

end OperandAction

namespace IMetaData

/-! ## 定数 -/

/-- 定数 `'MVEA'`。little endian なので file の先頭は `AEVM` と読める。 -/
def kMagic : UInt32 := 0x4D564541

def kVersion : UInt32 := 1

/-- 書き込みも実行もできる memory を持てる。 -/
def kFlagHasWX : UInt32 := 1

def kFlagARM64 : UInt32 := 2

def kFlagX64 : UInt32 := 4

/-! ## register と expression -/

/-- CPU state の中の register の位置（byte）と幅（bit）。 -/
structure Register where
  offset : UInt16
  size : UInt16
deriving DecidableEq, Repr

def registerCodec : Codec Register :=
  (Codec.uint16.seq Codec.uint16).map (fun r => (r.offset, r.size)) (fun p => some ⟨p.1, p.2⟩)
    (fun _ => rfl)

/-- 子の無いことを表す番号。 -/
def noChild : UInt32 := 0xFFFFFFFF

/-- `Expression::Payload` と `Expression::kind`。子は node の列の中の番号で指す。 -/
inductive Payload where
  | invalid
  | operation (lhs rhs : UInt32)
  | reg (r : Register)
  | constant (low high : UInt32)
deriving DecidableEq, Repr

structure Expression where
  payload : Payload
  opcode : UInt8
  width : UInt8
  reserved : UInt8
deriving DecidableEq, Repr

namespace Payload

def kind : Payload → UInt8
  | invalid => 0
  | operation _ _ => 1
  | reg _ => 2
  | constant _ _ => 3

/-- 子の番号、または定数の上下。どちらも `uint32_t` 二つである。 -/
def pairCodec : Codec (UInt32 × UInt32) := Codec.uint32.seq Codec.uint32

def toBlob : Payload → { bs : Bytes // bs.length = 8 }
  | invalid => ⟨zeros 8, length_zeros 8⟩
  | operation lhs rhs => pairCodec.toBlob 8 (by decide) (lhs, rhs)
  | reg r => registerCodec.toBlob 8 (by decide) r
  | constant low high => pairCodec.toBlob 8 (by decide) (low, high)

def ofBlob (kind : UInt8) (bs : { bs : Bytes // bs.length = 8 }) : Option Payload :=
  if kind = 0 then some invalid
  else if kind = 1 then (pairCodec.ofBlob bs).map fun p => operation p.1 p.2
  else if kind = 2 then (registerCodec.ofBlob bs).map reg
  else if kind = 3 then (pairCodec.ofBlob bs).map fun p => constant p.1 p.2
  else none

theorem ofBlob_toBlob (p : Payload) : ofBlob p.kind p.toBlob = some p := by
  cases p with
  | invalid => rfl
  | operation lhs rhs => simp [ofBlob, kind, toBlob]
  | reg r => simp [ofBlob, kind, toBlob]
  | constant low high => simp [ofBlob, kind, toBlob]

end Payload

def expressionCodec : Codec Expression :=
  ((Codec.blob 8).seq (Codec.uint8.seq (Codec.uint8.seq (Codec.uint8.seq Codec.uint8)))).map
    (fun e => (e.payload.toBlob, e.payload.kind, e.opcode, e.width, e.reserved))
    (fun p => (Payload.ofBlob p.2.1 p.1).map fun pl => ⟨pl, p.2.2.1, p.2.2.2.1, p.2.2.2.2⟩)
    (fun e => by simp [Payload.ofBlob_toBlob])

/-! ## operand -/

structure ShiftRegister where
  reg : Register
  shiftSize : UInt8
  extractSize : UInt8
  shiftFirst : UInt8
  canShiftOpSize : UInt8
  shiftOp : UInt8
  extendOp : UInt8
deriving DecidableEq, Repr

structure Immediate where
  value : UInt64
  isSigned : UInt8
deriving DecidableEq, Repr

/-- `regs[0]` が segment、`regs[1]` が base、`regs[2]` が index である。 -/
structure Address where
  segment : Register
  base : Register
  index : Register
  scale : Int64
  displacement : Int64
  addressSize : UInt8
  kind : UInt8
deriving DecidableEq

def shiftRegisterCodec : Codec ShiftRegister :=
  (registerCodec.seq (Codec.uint8.seq (Codec.uint8.seq (Codec.uint8.seq
    (Codec.uint8.seq (Codec.uint8.seq Codec.uint8)))))).map
    (fun s => (s.reg, s.shiftSize, s.extractSize, s.shiftFirst, s.canShiftOpSize, s.shiftOp,
      s.extendOp))
    (fun p => some ⟨p.1, p.2.1, p.2.2.1, p.2.2.2.1, p.2.2.2.2.1, p.2.2.2.2.2.1, p.2.2.2.2.2.2⟩)
    (fun _ => rfl)

/-- `uint64_t` に合わせた整列のため、後ろに 7 byte の padding が入る。 -/
def immediateCodec : Codec Immediate :=
  ((Codec.uint64.seq Codec.uint8).map (fun i => (i.value, i.isSigned))
    (fun p => some ⟨p.1, p.2⟩) (fun _ => rfl)).padRight 7

/-- 三つの register の後ろに 4 byte、末尾に 6 byte の padding が入る。 -/
def addressCodec : Codec Address :=
  (((registerCodec.seq (registerCodec.seq registerCodec)).padRight 4).seq
    (Codec.int64.seq (Codec.int64.seq ((Codec.uint8.seq Codec.uint8).padRight 6)))).map
    (fun a => ((a.segment, a.base, a.index), a.scale, a.displacement, a.addressSize, a.kind))
    (fun p => some ⟨p.1.1, p.1.2.1, p.1.2.2, p.2.1, p.2.2.1, p.2.2.2.1, p.2.2.2.2⟩)
    (fun _ => rfl)

/-- `Operand::Value` と `Operand::type`。 -/
inductive Value where
  | invalid
  | reg (r : Register)
  | shiftRegister (s : ShiftRegister)
  | immediate (i : Immediate)
  | address (a : Address)
  | expression (t : { t : OperandType // t.isExpression = true }) (e : Expression)
deriving DecidableEq

structure Operand where
  size : UInt16
  action : OperandAction
  value : Value
deriving DecidableEq

namespace Value

def type : Value → OperandType
  | invalid => .invalid
  | reg _ => .register
  | shiftRegister _ => .shiftRegister
  | immediate _ => .immediate
  | address _ => .address
  | expression t _ => t.val

def toBlob : Value → { bs : Bytes // bs.length = 40 }
  | invalid => ⟨zeros 40, length_zeros 40⟩
  | reg r => registerCodec.toBlob 40 (by decide) r
  | shiftRegister s => shiftRegisterCodec.toBlob 40 (by decide) s
  | immediate i => immediateCodec.toBlob 40 (by decide) i
  | address a => addressCodec.toBlob 40 (by decide) a
  | expression _ e => expressionCodec.toBlob 40 (by decide) e

def ofBlob (t : OperandType) (bs : { bs : Bytes // bs.length = 40 }) : Option Value :=
  if h : t.isExpression = true then (expressionCodec.ofBlob bs).map (expression ⟨t, h⟩)
  else match t with
    | .register => (registerCodec.ofBlob bs).map reg
    | .shiftRegister => (shiftRegisterCodec.ofBlob bs).map shiftRegister
    | .immediate => (immediateCodec.ofBlob bs).map immediate
    | .address => (addressCodec.ofBlob bs).map address
    | _ => some invalid

theorem ofBlob_toBlob (v : Value) : ofBlob v.type v.toBlob = some v := by
  cases v with
  | invalid => rfl
  | reg r => simp [ofBlob, type, toBlob, OperandType.isExpression]
  | shiftRegister s => simp [ofBlob, type, toBlob, OperandType.isExpression]
  | immediate i => simp [ofBlob, type, toBlob, OperandType.isExpression]
  | address a => simp [ofBlob, type, toBlob, OperandType.isExpression]
  | expression t e => simp [ofBlob, type, toBlob, t.property]

end Value

def Operand.type (op : Operand) : OperandType := op.value.type

/-- 先頭 4 byte の後ろは、union の 8 byte 整列のため 4 byte の padding である。 -/
def operandCodec : Codec Operand :=
  (((Codec.uint16.seq (Codec.uint8.seq Codec.uint8)).padRight 4).seq (Codec.blob 40)).map
    (fun op => ((op.size, op.value.type.toByte, op.action.toByte), op.value.toBlob))
    (fun p => (OperandType.ofByte p.1.2.1).bind fun t => (OperandAction.ofByte p.1.2.2).bind
      fun a => (Value.ofBlob t p.2).map fun v => ⟨p.1.1, a, v⟩)
    (fun op => by
      simp [OperandType.ofByte_toByte, OperandAction.ofByte_toByte, Value.ofBlob_toBlob])

/-! ## 命令の表と header -/

/-- 命令一つ。`handler` は handler section の先頭からの offset である。 -/
structure InsnMeta where
  rva : UInt32
  handler : UInt32
deriving DecidableEq, Repr

def insnMetaCodec : Codec InsnMeta :=
  (Codec.uint32.seq Codec.uint32).map (fun i => (i.rva, i.handler)) (fun p => some ⟨p.1, p.2⟩)
    (fun _ => rfl)

/-- handler を持たない命令に書かれる番兵。 -/
def noHandler : UInt32 := 0xFFFFFFFF

structure Header where
  magic : UInt32
  version : UInt32
  size : UInt32
  flags : UInt32
  offInstruction : UInt32
  numInstruction : UInt32
  offOperands : UInt32
  numOperands : UInt32
  offExpressions : UInt32
  numExpressions : UInt32
  offHandlers : UInt32
  numHandlers : UInt32
deriving DecidableEq, Repr

def headerCodec : Codec Header :=
  let u32 := Codec.uint32
  (u32.seq (u32.seq (u32.seq (u32.seq (u32.seq (u32.seq (u32.seq (u32.seq (u32.seq (u32.seq
    (u32.seq u32))))))))))).map
    (fun m => (m.magic, m.version, m.size, m.flags, m.offInstruction, m.numInstruction,
      m.offOperands, m.numOperands, m.offExpressions, m.numExpressions, m.offHandlers,
      m.numHandlers))
    (fun (a, b, c, d, e, f, g, h, i, j, k, l) => some ⟨a, b, c, d, e, f, g, h, i, j, k, l⟩)
    (fun _ => rfl)

/-! ## handler の record -/

/-- record の先頭の固定部分。`type` と `oplen` は一つの byte を 4 bit ずつ分け合う。 -/
structure Handler where
  impl : UInt16
  type : BitVec 4
  oplen : BitVec 4
  oprnum : UInt8
deriving DecidableEq, Repr

/-- 二つの 4 bit field。宣言の順に下位から詰める。 -/
def nibbleCodec : Codec (BitVec 4 × BitVec 4) :=
  Codec.uint8.map (fun p => UInt8.ofNat (p.1.toNat + 16 * p.2.toNat))
    (fun b => some (BitVec.ofNat 4 (b.toNat % 16), BitVec.ofNat 4 (b.toNat / 16)))
    (fun p => by
      have h1 : p.1.toNat < 16 := p.1.isLt
      have h2 : p.2.toNat < 16 := p.2.isLt
      have hb : (UInt8.ofNat (p.1.toNat + 16 * p.2.toNat)).toNat = p.1.toNat + 16 * p.2.toNat := by
        rw [UInt8.toNat_ofNat']
        exact Nat.mod_eq_of_lt (by omega)
      have hlo : (p.1.toNat + 16 * p.2.toNat) % 16 = p.1.toNat := by omega
      have hhi : (p.1.toNat + 16 * p.2.toNat) / 16 = p.2.toNat := by omega
      rw [hb, hlo, hhi, BitVec.ofNat_toNat, BitVec.ofNat_toNat, BitVec.setWidth_eq,
        BitVec.setWidth_eq])

def handlerCodec : Codec Handler :=
  (Codec.uint16.seq (nibbleCodec.seq Codec.uint8)).map
    (fun h => (h.impl, (h.type, h.oplen), h.oprnum))
    (fun p => some ⟨p.1, p.2.1.1, p.2.1.2, p.2.2⟩) (fun _ => rfl)

/-- operand の番号 15 bit と、pointer で渡すかどうか 1 bit。 -/
structure OperandInfo where
  index : BitVec 15
  pointer : Bool
deriving DecidableEq, Repr

def operandInfoCodec : Codec OperandInfo :=
  Codec.uint16.map (fun o => UInt16.ofNat (o.index.toNat + if o.pointer then 0x8000 else 0))
    (fun v => some ⟨BitVec.ofNat 15 (v.toNat % 0x8000), decide (0x8000 ≤ v.toNat)⟩)
    (fun o => by
      have hi : o.index.toNat < 0x8000 := o.index.isLt
      obtain ⟨index, pointer⟩ := o
      cases pointer with
      | false =>
        have hv : (UInt16.ofNat index.toNat).toNat = index.toNat := by
          rw [UInt16.toNat_ofNat']
          exact Nat.mod_eq_of_lt (by simp only at hi; omega)
        simp only [Bool.false_eq_true, if_false, Nat.add_zero, hv]
        rw [Nat.mod_eq_of_lt hi, BitVec.ofNat_toNat, BitVec.setWidth_eq,
          decide_eq_false (by simp only at hi; omega)]
      | true =>
        have hv : (UInt16.ofNat (index.toNat + 0x8000)).toNat = index.toNat + 0x8000 := by
          rw [UInt16.toNat_ofNat']
          exact Nat.mod_eq_of_lt (by simp only at hi; omega)
        simp only [if_true, hv]
        rw [Nat.add_mod_right, Nat.mod_eq_of_lt hi, BitVec.ofNat_toNat, BitVec.setWidth_eq,
          decide_eq_true (by omega)])

/-! ## 大きさ（`src/IMetaData.cpp` の `static_assert`） -/

example : headerCodec.size = 48 := rfl
example : registerCodec.size = 4 := rfl
example : shiftRegisterCodec.size = 10 := rfl
example : immediateCodec.size = 16 := rfl
example : addressCodec.size = 40 := rfl
example : operandCodec.size = 48 := rfl
example : expressionCodec.size = 12 := rfl

/-! ## accessor

どれも `this` からの byte 数で pointer を作る。file は先頭から map されるので、
ここでの値は file の中の offset である。
-/

namespace Header

/-- 命令の表の先頭。 -/
def insns (md : Header) : Nat := md.offInstruction.toNat

def operands (md : Header) : Nat := md.offOperands.toNat

def expressions (md : Header) : Nat := md.offExpressions.toNat

/-- 命令の handler の record の先頭。`insn->handler` の値は確かめない。 -/
def handler (md : Header) (insn : InsnMeta) : Nat := md.offHandlers.toNat + insn.handler.toNat

end Header

namespace Handler

/-- 可変長部分の始まり `offsetof(Handler, opcode)`。 -/
def fixedSize : Nat := handlerCodec.size

/-- opcode の直後。`self` は record の先頭である。 -/
def operand (h : Handler) (self : Nat) : Nat := self + fixedSize + h.oplen.toNat

/-- operand の列の直後。native code がここから始まるものとして読まれる。 -/
def handler (h : Handler) (self : Nat) : Nat :=
  h.operand self + h.oprnum.toNat * operandInfoCodec.size

end Handler

end IMetaData

end AetherVM
