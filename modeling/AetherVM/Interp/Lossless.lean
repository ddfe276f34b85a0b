import AetherVM.Interp.RemillRefine

/-!
# operand の変換で失われる field（`src/OpcodeEngine.cpp` の `ConvertExpression`・`ConvertOperand`）

変換は、metadata の field に入らない値を拒むことになっている。ところが operand の `size` だけは調べずに 16 bit に切り詰める。
`size` を読むのは immediate と shift register の値なので、失われるのはこの二つの種類に限る。

名前の空な address の register は無いものであり（`LoadWordRegValOrZeroRaw`）、metadata では幅 0 がその印になる。
型の無い演算の幅も同じく 0 で表す。
-/

namespace AetherVM

open Infra IMetaData

/-! ## 読まれる field が元と同じこと -/

structure SameRegister (reg : RemillRegister) (r : Register) : Prop where
  offset : r.offset.toNat = reg.offset.toNat
  size : r.size.toNat = reg.size.toNat

/-- address の register。無い register は幅 0 になる。 -/
def SameAddressRegister (reg : RemillRegister) (r : Register) : Prop :=
  if reg.name = [] then r.size = 0 else SameRegister reg r

structure SameShiftRegister (s : RemillShiftRegister) (shift : ShiftRegister) : Prop where
  reg : SameRegister s.reg shift.reg
  shiftSize : shift.shiftSize.toNat = s.shiftSize.toNat
  extractSize : shift.extractSize.toNat = s.extractSize.toNat
  shiftFirst : shift.shiftFirst = s.shiftFirst.toUInt8
  canShiftOpSize : shift.canShiftOpSize = s.canShiftOpSize.toUInt8
  shiftOp : shift.shiftOp = s.shiftOp.toByte
  extendOp : shift.extendOp = s.extendOp.toByte

structure SameAddress (a : RemillAddress) (address : Address) : Prop where
  segment : SameAddressRegister a.segmentBaseReg address.segment
  base : SameAddressRegister a.baseReg address.base
  index : SameAddressRegister a.indexReg address.index
  scale : address.scale = a.scale
  displacement : address.displacement = a.displacement
  addressSize : address.addressSize.toNat = a.addressSize.toNat
  kind : address.kind = a.kind

/-- `nodes` の上で、`e` を根とする node の木が、元の木と同じ field を持つこと。 -/
inductive SameExpression (regoffs : RegOffs) (nodes : List Expression) :
    RemillExpr → Expression → Prop
  | unary {opcode : UInt32} {op1 : RemillExpr} {type : Option Nat} {lhs : UInt32}
      {e left : Expression} (payload : e.payload = .operation lhs noChild)
      (opcode_eq : e.opcode.toNat = opcode.toNat) (width : e.width.toNat = type.getD 0)
      (hleft : nodes[lhs.toNat]? = some left) (left_same : SameExpression regoffs nodes op1 left) :
      SameExpression regoffs nodes (.llvmOp opcode op1 .null type) e
  | binary {opcode : UInt32} {op1 op2 : RemillExpr} {type : Option Nat} {lhs rhs : UInt32}
      {e left right : Expression} (payload : e.payload = .operation lhs rhs)
      (hrhs : rhs ≠ noChild) (opcode_eq : e.opcode.toNat = opcode.toNat)
      (width : e.width.toNat = type.getD 0)
      (hleft : nodes[lhs.toNat]? = some left) (left_same : SameExpression regoffs nodes op1 left)
      (hright : nodes[rhs.toNat]? = some right)
      (right_same : SameExpression regoffs nodes op2 right) :
      SameExpression regoffs nodes (.llvmOp opcode op1 op2 type) e
  | register {name : Name} {size : UInt64} {off : Nat} {r : Register} {e : Expression}
      (payload : e.payload = .reg r) (hoff : regoffs name = some off)
      (offset : r.offset.toNat = off) (size_eq : r.size.toNat = size.toNat) :
      SameExpression regoffs nodes (.register (some (name, size))) e
  | constant {w : Nat} {integer : BitVec w} {low high : UInt32} {e : Expression}
      (payload : e.payload = .constant low high) (width : e.width.toNat = w)
      (value : high.toNat * UInt32.size + low.toNat = integer.toNat) :
      SameExpression regoffs nodes (.constant (some ⟨w, integer⟩)) e
  | name {c : UInt8} {s : Name} {off : Nat} {r : Register} {e : Expression}
      (payload : e.payload = .reg r) (hoff : regoffs (c :: s) = some off)
      (offset : r.offset.toNat = off) (size_eq : r.size = if c = 0x77 then 32 else 64) :
      SameExpression regoffs nodes (.name (c :: s)) e

/-- union の値。`size` を読むのは、immediate と shift register の値である。 -/
inductive SameValue (regoffs : RegOffs) (nodes : List Expression) (size : UInt64)
    (converted : UInt16) : RemillValue → Value → Prop
  | invalid : SameValue regoffs nodes size converted .invalid .invalid
  | reg {r : RemillRegister} {r' : Register} (h : SameRegister r r') :
      SameValue regoffs nodes size converted (.reg r) (.reg r')
  | shiftReg {s : RemillShiftRegister} {shift : ShiftRegister}
      (size_eq : converted.toNat = size.toNat) (h : SameShiftRegister s shift) :
      SameValue regoffs nodes size converted (.shiftReg s) (.shiftRegister shift)
  | imm {val : UInt64} {isSigned : Bool} (size_eq : converted.toNat = size.toNat) :
      SameValue regoffs nodes size converted (.imm val isSigned)
        (.immediate ⟨val, isSigned.toUInt8⟩)
  | addr {a : RemillAddress} {address : Address} (h : SameAddress a address) :
      SameValue regoffs nodes size converted (.addr a) (.address address)
  | expr {t : { t : OperandType // t.isExpression = true }} {ptr : UInt64} {e : RemillExpr}
      {root : Expression} (h : SameExpression regoffs nodes e root) :
      SameValue regoffs nodes size converted (.expr t ptr e) (.expression t root)

/-- interpreter の読む field が、どれも元の operand の field と同じこと。 -/
structure SameOperand (regoffs : RegOffs) (nodes : List Expression) (op : RemillOperand)
    (operand : Operand) : Prop where
  action : operand.action = op.action
  value : SameValue regoffs nodes op.size operand.size op.value operand.value

/--
`ConvertOperand` が、何も失わずに変換するか、拒むこと。node の列は、後の operand がさらに伸ばす。
-/
def LosslessOrRefuses (regoffs : RegOffs) (op : RemillOperand) (nodes : List Expression) : Prop :=
  ∀ operand nodes', convertOperand regoffs op nodes = .ok (operand, nodes') →
    ∀ final, nodes' <+: final → SameOperand regoffs final op operand

/-! ## 切り詰めで失われる条件 -/

/-- metadata に入る register。 -/
def RemillRegister.Convertible (reg : RemillRegister) : Prop :=
  reg.offset.toNat ≤ 65535 ∧ reg.size.toNat ≤ 65535

/-- metadata に入る shift register。 -/
def RemillShiftRegister.Convertible (s : RemillShiftRegister) : Prop :=
  s.shiftSize.toNat ≤ 255 ∧ s.extractSize.toNat ≤ 255 ∧ s.reg.Convertible

/-- `size` を読む operand で、ほかの field が入るなら、`size` も 16 bit に入ること。 -/
def RemillOperand.SizeFits (op : RemillOperand) : Prop :=
  match op.value with
  | .imm _ _ => op.size.toNat ≤ 65535
  | .shiftReg s => s.Convertible → op.size.toNat ≤ 65535
  | _ => True

variable {regoffs : RegOffs} {op : RemillOperand} {nodes nodes' final : List Expression}
  {root : Expression}

/-! ## register -/

theorem convertRegister_same {reg : RemillRegister} {r : Register}
    (h : convertRegister reg = .ok r) : SameRegister reg r :=
  ⟨(InterpMetaData.convertRegister_toNat h).1, (InterpMetaData.convertRegister_toNat h).2⟩

theorem convertRegister_ok {reg : RemillRegister} (h : reg.Convertible) :
    ∃ r, convertRegister reg = .ok r := by
  obtain ⟨hoff, hsize⟩ := h
  unfold convertRegister
  rw [if_neg (by omega)]
  exact ⟨_, rfl⟩

theorem convertAddressRegister_same {reg : RemillRegister} {r : Register}
    (h : convertAddressRegister reg = .ok r) : SameAddressRegister reg r := by
  unfold convertAddressRegister at h
  unfold SameAddressRegister
  split at h
  · next hname =>
    cases h
    rw [if_pos hname]
  · next hname =>
    rw [if_neg hname]
    exact convertRegister_same h

theorem convertShiftRegister_same {s : RemillShiftRegister} {shift : ShiftRegister}
    (h : convertShiftRegister s = .ok shift) : SameShiftRegister s shift := by
  obtain ⟨shiftSize, hshift, h⟩ := ok_of_bind_eq_ok h
  obtain ⟨extractSize, hextract, h⟩ := ok_of_bind_eq_ok h
  obtain ⟨reg, hreg, h⟩ := ok_of_bind_eq_ok h
  cases h
  exact ⟨convertRegister_same hreg, InterpMetaData.fitsU8_toNat hshift,
    InterpMetaData.fitsU8_toNat hextract, rfl, rfl, rfl, rfl⟩

theorem fitsU8_ok {value : UInt64} {field : String} :
    (∃ b, fitsU8 value field = .ok b) ↔ value.toNat ≤ 255 := by
  unfold fitsU8
  split
  · next hle => simp [hle]
  · next hgt => simp [hgt]

theorem convertShiftRegister_ok {s : RemillShiftRegister} (h : s.Convertible) :
    ∃ shift, convertShiftRegister s = .ok shift := by
  obtain ⟨hshift, hextract, hreg⟩ := h
  obtain ⟨shiftSize, hshift⟩ : ∃ b, fitsU8 s.shiftSize "shift size" = .ok b := fitsU8_ok.mpr hshift
  obtain ⟨extractSize, hextract⟩ : ∃ b, fitsU8 s.extractSize "extract size" = .ok b :=
    fitsU8_ok.mpr hextract
  obtain ⟨reg, hreg⟩ := convertRegister_ok hreg
  simp only [convertShiftRegister, hshift, hextract, hreg]
  exact ⟨_, rfl⟩

theorem convertible_of_ok {s : RemillShiftRegister} {shift : ShiftRegister}
    (h : convertShiftRegister s = .ok shift) : s.Convertible := by
  obtain ⟨shiftSize, hshift, h⟩ := ok_of_bind_eq_ok h
  obtain ⟨extractSize, hextract, h⟩ := ok_of_bind_eq_ok h
  obtain ⟨reg, hreg, h⟩ := ok_of_bind_eq_ok h
  refine ⟨fitsU8_ok.mp ⟨_, hshift⟩, fitsU8_ok.mp ⟨_, hextract⟩, ?_⟩
  unfold convertRegister at hreg
  split at hreg
  · cases hreg
  · exact ⟨by omega, by omega⟩

theorem convertAddress_same {a : RemillAddress} {address : Address}
    (h : convertAddress a = .ok address) : SameAddress a address := by
  obtain ⟨addressSize, haddress, h⟩ := ok_of_bind_eq_ok h
  obtain ⟨segment, hsegment, h⟩ := ok_of_bind_eq_ok h
  obtain ⟨base, hbase, h⟩ := ok_of_bind_eq_ok h
  obtain ⟨index, hindex, h⟩ := ok_of_bind_eq_ok h
  cases h
  exact ⟨convertAddressRegister_same hsegment, convertAddressRegister_same hbase,
    convertAddressRegister_same hindex, rfl, rfl, InterpMetaData.fitsU8_toNat haddress, rfl⟩

/-! ## expression -/

/-- 変換は、列の末尾に積むだけである。 -/
theorem convertExpression_grows {expr : RemillExpr}
    (h : convertExpression regoffs expr nodes = .ok (root, nodes')) : nodes <+: nodes' :=
  (InterpMetaData.convertExpression_represents ⟨0, fun _ => 0⟩ expr h).grows

/-- 積んだ子は、その番号で読める。番号は番兵にならない。 -/
theorem appendChild_getElem {convert : List Expression →
    Except ConvertError (Expression × List Expression)} {i : UInt32}
    (h : appendChild convert nodes = .ok (i, nodes')) :
    ∃ child nodes₁, convert nodes = .ok (child, nodes₁) ∧ nodes₁ <+: nodes' ∧ i ≠ noChild ∧
      ∀ final, nodes' <+: final → final[i.toNat]? = some child := by
  obtain ⟨child, nodes₁, hconv, rfl, hi, hne⟩ := InterpMetaData.appendChild_ok h
  refine ⟨child, nodes₁, hconv, List.prefix_append _ _, hne, ?_⟩
  rintro final ⟨rest, rfl⟩
  rw [hi]
  simp

theorem convertWidth_toNat {type : Option Nat} {width : UInt8}
    (h : convertWidth type = .ok width) : width.toNat = type.getD 0 := by
  cases type with
  | none =>
    cases h
    rfl
  | some w =>
    simp only [convertWidth] at h
    split at h
    · cases h
    · next hle =>
      cases h
      exact InterpMetaData.toNat_ofNat_uint8 (by omega)

/-- 上下に分けた定数は、元の値を表す。 -/
theorem constant_value {value : Nat} (h : value < 2 ^ 64) :
    (UInt32.ofNat (value / 2 ^ 32)).toNat * UInt32.size + (UInt32.ofNat value).toNat = value := by
  have hsize : UInt32.size = 2 ^ 32 := rfl
  rw [hsize, UInt32.toNat_ofNat', UInt32.toNat_ofNat']
  omega

/-- 変換した expression は、後で列が伸びても、元の木と同じ field を持つ。 -/
theorem convertExpression_same (expr : RemillExpr) :
    ∀ {nodes nodes' : List Expression} {root : Expression},
    convertExpression regoffs expr nodes = .ok (root, nodes') →
    ∀ final, nodes' <+: final → SameExpression regoffs final expr root := by
  induction expr with
  | null =>
    intro nodes nodes' root h
    cases h
  | llvmOp opcode op1 op2 type ih1 ih2 =>
    intro nodes nodes' root h final hp
    obtain ⟨lhs, rhs, width, nodes₁, hop, h1, h2, hwidth, rfl⟩ :=
      InterpMetaData.convertExpression_llvmOp h
    have hopcode := InterpMetaData.toNat_ofNat_uint8 hop
    obtain ⟨left, _, hleft, hgrows, -, hlhs⟩ := appendChild_getElem h1
    have hw := convertWidth_toNat hwidth
    split at h2
    · next hnull =>
      cases h2
      subst hnull
      exact .unary rfl hopcode hw (hlhs final hp) (ih1 hleft final (hgrows.trans hp))
    · obtain ⟨right, _, hright, hgrows', hne, hrhs⟩ := appendChild_getElem h2
      -- 左の子は、右の子を積んだ後も同じ番号にある
      have hp₁ := ((convertExpression_grows hright).trans hgrows').trans hp
      exact .binary rfl hne hopcode hw (hlhs final hp₁) (ih1 hleft final (hgrows.trans hp₁))
        (hrhs final hp) (ih2 hright final (hgrows'.trans hp))
  | register reg =>
    intro nodes nodes' root h final _
    obtain ⟨name, size, off, rfl, hoff, hoffle, hsizele, rfl, rfl⟩ :=
      InterpMetaData.convertExpression_register h
    exact .register rfl hoff (InterpMetaData.toNat_ofNat_uint16 hoffle)
      (InterpMetaData.toNat_ofNat_uint16 hsizele)
  | constant value =>
    intro nodes nodes' root h final _
    obtain ⟨width, integer, rfl, hwidth, hlt, rfl, rfl⟩ :=
      InterpMetaData.convertExpression_constant h
    exact .constant rfl (InterpMetaData.toNat_ofNat_uint8 (by omega)) (constant_value hlt)
  | name s =>
    intro nodes nodes' root h final _
    obtain ⟨c, s, off, rfl, hoff, hoffle, rfl, rfl⟩ := InterpMetaData.convertExpression_name h
    exact .name rfl hoff (InterpMetaData.toNat_ofNat_uint16 hoffle) rfl

/-! ## operand -/

/-- 何も失わないのは、`size` を読む operand の `size` が 16 bit に入るときに限る。 -/
theorem convertOperand_lossless_iff (regoffs : RegOffs) (op : RemillOperand)
    (nodes : List Expression) : LosslessOrRefuses regoffs op nodes ↔ op.SizeFits := by
  have hsize : ∀ {n : Nat}, (UInt16.ofNat n).toNat = n → n ≤ 65535 := fun {n} hn => by
    have hlt := (UInt16.ofNat n).toNat_lt
    omega
  obtain ⟨size, action, value⟩ := op
  constructor
  · intro h
    cases value with
    | invalid | reg | addr | expr => trivial
    | imm val isSigned =>
      have hsame := (h _ _ rfl _ (List.prefix_refl _)).value
      cases hsame with
      | imm hs => exact hsize hs
    | shiftReg s =>
      intro hconvertible
      obtain ⟨shift, hshift⟩ := convertShiftRegister_ok hconvertible
      have hsame := (h ⟨UInt16.ofNat size.toNat, action, .shiftRegister shift⟩ nodes
        (by simp only [convertOperand, convertValue, hshift]; rfl) _ (List.prefix_refl _)).value
      cases hsame with
      | shiftReg hs => exact hsize hs
  · intro hfits operand nodes' h final hp
    obtain ⟨⟨converted, nodes₁⟩, hvalue, h⟩ := ok_of_bind_eq_ok h
    cases h
    refine ⟨rfl, ?_⟩
    cases value with
    | invalid =>
      cases hvalue
      exact .invalid
    | reg r =>
      obtain ⟨r', hr, hvalue⟩ := ok_of_bind_eq_ok hvalue
      cases hvalue
      exact .reg (convertRegister_same hr)
    | shiftReg s =>
      obtain ⟨shift, hshift, hvalue⟩ := ok_of_bind_eq_ok hvalue
      cases hvalue
      exact .shiftReg (InterpMetaData.toNat_ofNat_uint16 (hfits (convertible_of_ok hshift)))
        (convertShiftRegister_same hshift)
    | imm val isSigned =>
      cases hvalue
      exact .imm (InterpMetaData.toNat_ofNat_uint16 hfits)
    | addr a =>
      obtain ⟨address, haddress, hvalue⟩ := ok_of_bind_eq_ok hvalue
      cases hvalue
      exact .addr (convertAddress_same haddress)
    | expr t ptr e =>
      obtain ⟨⟨root, nodes₂⟩, hexpr, hvalue⟩ := ok_of_bind_eq_ok hvalue
      cases hvalue
      exact .expr (convertExpression_same e hexpr final hp)

/-- 幅 65544 の immediate。 -/
def wideImmediate : RemillOperand := ⟨65544, .read, .imm 0x1FF false⟩

/-- 幅 65544 は 8 になり、事前符号化の interpreter は 9 bit の値を 8 bit に切り詰める。 -/
theorem wideImmediate_not_lossless : ∃ operand,
    convertOperand (fun _ => none) wideImmediate [] = .ok (operand, []) ∧ operand.size = 8 ∧
      (∀ st, liftOperand (fun _ => none) st wideImmediate false = .ok 0x1FF ∧
        InterpMetaData.liftOperandRaw st [] operand false = .ok 0xFF) ∧
      ¬ LosslessOrRefuses (fun _ => none) wideImmediate [] := by
  refine ⟨_, rfl, rfl, fun st => ⟨rfl, rfl⟩, fun h => ?_⟩
  have hsame := (h _ _ rfl _ (List.prefix_refl _)).value
  cases hsame with
  | imm hs => exact absurd hs (by decide)

end AetherVM
