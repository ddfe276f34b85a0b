import AetherVM.Interp.Remill
import AetherVM.Operand.Typed

/-!
# shift する register の operand（`LiftShiftRegisterOperandRaw` の意味）

operand の定義では、register から下位の bit を取り出し、operand の幅に拡張してから shift か rotate をする。
二つの interpreter は、同じ計算を 64 bit の整数の上で mask を挟みながら行う。ここでは、定義を operand の
幅の bitvector の上で書き、二つの関数の値がそれに等しいことを示す。

## shift 量

64 以上の shift は C++ では未定義である。`Checked` は同じ計算を、そこで失敗する形に書き直したもので、
途中の shift 量が 64 に届かないことは、この計算が失敗しないこととして述べる。
-/

namespace AetherVM

open Infra

/-! ## 定義 -/

/-- register の値。64 bit を越える register では、`LoadRegValueRaw` が返す address である。 -/
def registerValue (st : CpuState) (offset regSize : Nat) : BitVec regSize :=
  if regSize ≤ 64 then
    BitVec.ofNat regSize
      (ofLE ((List.range ((regSize + 7) / 8)).map fun i => st.bytes (offset + i)))
  else BitVec.ofNat regSize (st.base + UInt64.ofNat offset).toNat

/-- 拡張の定義。下位の `extractSize` bit を取り出し、幅 `size` に拡張する。 -/
def Extend.reference {regSize : Nat} (e : Extend) (extractSize size : Nat) (x : BitVec regSize) :
    BitVec size :=
  match e with
  | .invalid => x.setWidth size
  | .unsigned => (x.setWidth extractSize).setWidth size
  | .signed => (x.setWidth extractSize).signExtend size

/-- shift の定義。`leftWithOnes` は、空いた下位の bit を 1 で埋める。 -/
def Shift.reference {size : Nat} (k : Shift) (x : BitVec size) (shiftSize : Nat) : BitVec size :=
  match k with
  | .invalid => x
  | .leftWithZeroes => x <<< shiftSize
  | .leftWithOnes => ~~~(~~~x <<< shiftSize)
  | .unsignedRight => x >>> shiftSize
  | .signedRight => x.sshiftRight shiftSize
  | .leftAround => x.rotateLeft shiftSize
  | .rightAround => x.rotateRight shiftSize

/-- operand の値の定義。結果は 64 bit に 0 で拡張する。 -/
def shiftRegisterReference (st : CpuState) (offset regSize extractSize size shiftSize : Nat)
    (shiftOp : Shift) (extendOp : Extend) : UInt64 :=
  .ofBitVec ((shiftOp.reference
    (extendOp.reference extractSize size (registerValue st offset regSize)) shiftSize).setWidth 64)

/-- 値が定まる operand の形。 -/
structure ShiftForm (regSize extractSize size shiftSize : Nat) (shiftOp : Shift)
    (extendOp : Extend) : Prop where
  size_eq : size = 32 ∨ size = 64
  shift_lt : shiftSize < size
  plain : extendOp = .invalid → regSize = size
  extend : extendOp ≠ .invalid →
    (extractSize = 8 ∨ extractSize = 16 ∨ extractSize = 32 ∨ extractSize = 64) ∧
      extractSize ≤ regSize ∧ extractSize ≤ size ∧ (shiftOp = .invalid ∨ shiftOp = .leftWithZeroes)

/-! ## 64 以上の shift で失敗する計算 -/

namespace Checked

/-- C++ の shift。64 以上の量では未定義である。 -/
def shiftBy (f : UInt64 → UInt64 → UInt64) (val shiftSize : UInt64) : Except Fault UInt64 :=
  if shiftSize < 64 then .ok (f val shiftSize) else .error .undefined

def maskToBits (val : UInt64) (bits : Nat) : Except Fault UInt64 :=
  if bits = 0 then .ok 0
  else if 64 ≤ bits then .ok val
  else do
    let bound ← shiftBy (· <<< ·) 1 (UInt64.ofNat bits)
    .ok (val &&& (bound - 1))

def signExtend (val : UInt64) (bits : Nat) : Except Fault UInt64 :=
  if bits = 0 ∨ 64 ≤ bits then .ok val
  else do
    let val ← maskToBits val bits
    let signBit ← shiftBy (· <<< ·) 1 (UInt64.ofNat (bits - 1))
    .ok ((val ^^^ signBit) - signBit)

def shiftValue (op : UInt8) (reg shiftSize : UInt64) (size : Nat) : Except Fault UInt64 :=
  let bits := toUnsigned size
  let around := (~~~shiftSize + 1) &&& (UInt64.ofNat size - 1)
  if op = Shift.leftWithZeroes.toByte then do
    maskToBits (← shiftBy (· <<< ·) reg shiftSize) bits
  else if op = Shift.leftWithOnes.toByte then do
    let ones ← shiftBy (· <<< ·) (~~~0) shiftSize
    maskToBits ((← shiftBy (· <<< ·) reg shiftSize) ||| ~~~ones) bits
  else if op = Shift.unsignedRight.toByte then do
    maskToBits (← shiftBy (· >>> ·) reg shiftSize) bits
  else if op = Shift.signedRight.toByte then do
    let signed ← signExtend reg bits
    maskToBits (← shiftBy (fun v s => (v.toInt64 >>> s.toInt64).toUInt64) signed shiftSize) bits
  else if op = Shift.leftAround.toByte then do
    let val1 ← shiftBy (· >>> ·) reg around
    let val2 ← shiftBy (· <<< ·) reg shiftSize
    maskToBits (val1 ||| val2) bits
  else if op = Shift.rightAround.toByte then do
    let val1 ← shiftBy (· >>> ·) reg shiftSize
    let val2 ← shiftBy (· <<< ·) reg around
    maskToBits (val1 ||| val2) bits
  else .ok reg

def extendValue (op : UInt8) (reg : UInt64) (regSize extractSize size : Nat) :
    Except Fault (UInt64 × Nat) :=
  if op = Extend.invalid.toByte then .ok (reg, regSize)
  else do
    let extract := toUnsigned extractSize
    let extracted ← if extract < regSize then maskToBits reg extract else .ok reg
    let currSize := if extract < regSize then extract else regSize
    if extractSize < size then
      if op = Extend.signed.toByte then do
        .ok (← signExtend extracted extract, toUnsigned size)
      else if op = Extend.unsigned.toByte then .ok (extracted, toUnsigned size)
      else .error .abort
    else .ok (extracted, currSize)

def shiftRegisterValue (reg : UInt64) (regSize extractSize size : Nat) (shiftSize : UInt64)
    (shiftOp extendOp : UInt8) : Except Fault UInt64 := do
  let (reg, currSize) ← extendValue extendOp reg regSize extractSize size
  let reg ← if currSize < size then maskToBits reg currSize else .ok reg
  let reg ← if shiftOp = Shift.invalid.toByte then .ok reg
    else shiftValue shiftOp reg shiftSize size
  if size < 64 then maskToBits reg (toUnsigned size) else .ok reg

/-! `MaskToBits` と `SignExtend` は、幅が 0 と 64 以上のときを先に返すので、失敗しない。 -/

theorem shiftBy_eq {f : UInt64 → UInt64 → UInt64} {val shiftSize : UInt64}
    (h : shiftSize.toNat < 64) : shiftBy f val shiftSize = .ok (f val shiftSize) := by
  unfold shiftBy
  rw [if_pos (UInt64.lt_iff_toNat_lt.mpr h)]

theorem toNat_ofNat_lt {bits : Nat} (h : bits < 64) : (UInt64.ofNat bits).toNat < 64 := by
  rw [UInt64.toNat_ofNat_of_lt' (Nat.lt_trans h (by decide))]
  exact h

@[simp] theorem maskToBits_eq (val : UInt64) (bits : Nat) :
    maskToBits val bits = .ok (AetherVM.maskToBits val bits) := by
  unfold maskToBits AetherVM.maskToBits
  split
  · rfl
  · split
    · rfl
    · next h =>
      rw [shiftBy_eq (toNat_ofNat_lt (Nat.lt_of_not_le h))]
      rfl

@[simp] theorem signExtend_eq (val : UInt64) (bits : Nat) :
    signExtend val bits = .ok (AetherVM.signExtend val bits) := by
  unfold signExtend AetherVM.signExtend
  split
  · rfl
  · next h =>
    rw [maskToBits_eq, shiftBy_eq (toNat_ofNat_lt (by omega))]
    rfl

@[simp] theorem extendValue_eq (op : UInt8) (reg : UInt64) (regSize extractSize size : Nat) :
    extendValue op reg regSize extractSize size
      = AetherVM.extendValue op reg regSize extractSize size := by
  unfold extendValue AetherVM.extendValue
  simp only [maskToBits_eq, signExtend_eq]
  split
  · rfl
  · split <;> rfl

theorem shiftValue_eq {op : UInt8} {reg shiftSize : UInt64} {size : Nat}
    (hshift : shiftSize.toNat < 64)
    (haround : ((~~~shiftSize + 1) &&& (UInt64.ofNat size - 1)).toNat < 64) :
    shiftValue op reg shiftSize size = .ok (AetherVM.shiftValue op reg shiftSize size) := by
  unfold shiftValue AetherVM.shiftValue
  simp only [maskToBits_eq, signExtend_eq, shiftBy_eq hshift, shiftBy_eq haround]
  repeat' split
  all_goals rfl

/-- shift 量が 64 に届かなければ、二つの計算は等しい。 -/
theorem shiftRegisterValue_eq {reg : UInt64} {regSize extractSize size : Nat} {shiftSize : UInt64}
    {shiftOp extendOp : UInt8} (hshift : shiftSize.toNat < 64)
    (haround : ((~~~shiftSize + 1) &&& (UInt64.ofNat size - 1)).toNat < 64) :
    shiftRegisterValue reg regSize extractSize size shiftSize shiftOp extendOp
      = AetherVM.shiftRegisterValue reg regSize extractSize size shiftSize shiftOp extendOp := by
  unfold shiftRegisterValue AetherVM.shiftRegisterValue
  simp only [extendValue_eq, maskToBits_eq, shiftValue_eq hshift haround]
  congr 1
  funext r
  split
  all_goals split
  all_goals split
  all_goals rfl

end Checked

/-! ## 回転の量 -/

/-- 回転の反対向きの shift 量。 -/
theorem toNat_around {size : Nat} (hsize : size = 32 ∨ size = 64) {shiftSize : UInt64}
    (h : shiftSize.toNat < size) :
    ((~~~shiftSize + 1) &&& (UInt64.ofNat size - 1)).toNat = (size - shiftSize.toNat) % size := by
  have hneg : (~~~shiftSize + 1).toNat = (2 ^ 64 - shiftSize.toNat) % 2 ^ 64 := by
    rw [← UInt64.neg_eq_not_add, UInt64.toNat_neg]
    rfl
  rcases hsize with rfl | rfl
  · rw [UInt64.toNat_and, hneg, show (UInt64.ofNat 32 - 1).toNat = 2 ^ 5 - 1 from rfl,
      Nat.and_two_pow_sub_one_eq_mod]
    omega
  · rw [UInt64.toNat_and, hneg, show (UInt64.ofNat 64 - 1).toNat = 2 ^ 6 - 1 from rfl,
      Nat.and_two_pow_sub_one_eq_mod]
    omega

/-! ## register を読む -/

theorem ofLE_bytes_lt (st : CpuState) (offset regSize : Nat) (h : regSize ≤ 64) :
    ofLE ((List.range ((regSize + 7) / 8)).map fun i => st.bytes (offset + i)) < 2 ^ 64 := by
  have hlt := ofLE_lt ((List.range ((regSize + 7) / 8)).map fun i => st.bytes (offset + i))
  rw [List.length_map, List.length_range] at hlt
  have hle : 256 ^ ((regSize + 7) / 8) ≤ 256 ^ 8 := Nat.pow_le_pow_right (by decide) (by omega)
  exact Nat.lt_of_lt_of_le hlt hle

/-- 読んだ 64 bit の下位が register の値である。 -/
theorem setWidth_loadRegValueRaw (st : CpuState) (offset regSize : Nat) :
    (loadRegValueRaw st offset regSize).toBitVec.setWidth regSize
      = registerValue st offset regSize := by
  apply BitVec.eq_of_toNat_eq
  unfold loadRegValueRaw registerValue
  dsimp only
  by_cases h : regSize ≤ 64
  · rw [if_neg (by omega), if_pos h, BitVec.toNat_setWidth, UInt64.toNat_toBitVec,
      UInt64.toNat_ofNat_of_lt' (ofLE_bytes_lt st offset regSize h), BitVec.toNat_ofNat]
  · rw [if_pos (by omega), if_neg h, BitVec.toNat_setWidth, UInt64.toNat_toBitVec,
      BitVec.toNat_ofNat]

/-- 幅が byte の倍数なら、読んだ 64 bit に余分な bit は無い。 -/
theorem loadRegValueRaw_eq (st : CpuState) (offset : Nat) {regSize : Nat} (h8 : 8 ∣ regSize)
    (h : regSize ≤ 64) :
    (loadRegValueRaw st offset regSize).toBitVec
      = (registerValue st offset regSize).setWidth 64 := by
  obtain ⟨k, rfl⟩ := h8
  have hk : (8 * k + 7) / 8 = k := by omega
  have hlt := ofLE_lt ((List.range k).map fun i => st.bytes (offset + i))
  rw [List.length_map, List.length_range, show (256 : Nat) = 2 ^ 8 from rfl, ← Nat.pow_mul] at hlt
  have hlt64 := Nat.lt_of_lt_of_le hlt (Nat.pow_le_pow_right (by decide) h)
  apply BitVec.eq_of_toNat_eq
  unfold loadRegValueRaw registerValue
  dsimp only
  rw [hk, if_neg (by omega), if_pos h, UInt64.toNat_toBitVec, UInt64.toNat_ofNat_of_lt' hlt64,
    BitVec.toNat_setWidth, BitVec.toNat_ofNat, Nat.mod_eq_of_lt hlt, Nat.mod_eq_of_lt hlt64]

/-! ## 拡張の段 -/

/-- 取り出した値は、register の下位の bit である。 -/
theorem toBitVec_extracted (st : CpuState) (offset : Nat) {regSize extractSize : Nat}
    (h1 : 1 ≤ extractSize) (h8 : 8 ∣ extractSize) (hle : extractSize ≤ regSize)
    (h64 : extractSize ≤ 64) :
    (if extractSize < regSize then maskToBits (loadRegValueRaw st offset regSize) extractSize
      else loadRegValueRaw st offset regSize).toBitVec
      = ((registerValue st offset regSize).setWidth extractSize).setWidth 64 := by
  split
  · rw [toBitVec_maskToBits _ h1 h64, ← setWidth_loadRegValueRaw,
      BitVec.setWidth_setWidth_of_le _ hle]
  · have heq : extractSize = regSize := by omega
    subst heq
    rw [loadRegValueRaw_eq st offset h8 h64, BitVec.setWidth_eq]

theorem toUnsigned_of_le {n : Nat} (h : n ≤ 64) : toUnsigned n = n :=
  Nat.mod_eq_of_lt (Nat.lt_of_le_of_lt h (by decide))

/-- 拡張した値の下位 `size` bit は定義のとおりで、幅は operand の幅になる。 -/
theorem extendValue_spec (st : CpuState) (offset : Nat) {regSize extractSize size : Nat}
    {extendOp : Extend} (hext : extendOp ≠ .invalid) (h1 : 1 ≤ extractSize)
    (h8 : 8 ∣ extractSize) (hreg : extractSize ≤ regSize) (hsize : extractSize ≤ size)
    (h64 : size ≤ 64) :
    ∃ w, extendValue extendOp.toByte (loadRegValueRaw st offset regSize) regSize extractSize size
        = .ok (w, size) ∧
      w.toBitVec.setWidth size
        = extendOp.reference extractSize size (registerValue st offset regSize) := by
  have hle := Nat.le_trans hsize h64
  have hextract := toBitVec_extracted st offset h1 h8 hreg hle
  unfold extendValue
  dsimp only
  rw [toUnsigned_of_le hle, toUnsigned_of_le h64,
    if_neg (show extendOp.toByte ≠ Extend.invalid.toByte by
      cases extendOp
      · exact absurd rfl hext
      all_goals decide)]
  generalize (if extractSize < regSize then maskToBits (loadRegValueRaw st offset regSize)
    extractSize else loadRegValueRaw st offset regSize) = extracted at hextract ⊢
  by_cases hlt : extractSize < size
  · rw [if_pos hlt]
    cases extendOp with
    | invalid => exact absurd rfl hext
    | signed =>
      refine ⟨_, if_pos rfl, ?_⟩
      rw [toBitVec_signExtend _ h1 hle, setWidth_signExtend _ h64, hextract,
        BitVec.setWidth_setWidth_of_le _ hle, BitVec.setWidth_eq]
      rfl
    | unsigned =>
      refine ⟨extracted, rfl, ?_⟩
      rw [hextract, BitVec.setWidth_setWidth_of_le _ h64]
      rfl
  · have heq : extractSize = size := by omega
    subst heq
    rw [if_neg hlt]
    refine ⟨extracted, ?_, ?_⟩
    · split
      · rfl
      · rw [show regSize = extractSize by omega]
    · rw [hextract, BitVec.setWidth_setWidth_of_le _ h64]
      cases extendOp with
      | invalid => exact absurd rfl hext
      | signed =>
        show _ = BitVec.signExtend extractSize _
        rw [BitVec.signExtend_eq, BitVec.setWidth_eq]
      | unsigned => rfl

/-! ## shift の段 -/

/-- 左への shift は、上位の bit に何が残っていてもよい。 -/
theorem shiftValue_leftWithZeroes {w shiftSize : UInt64} {size : Nat} (h1 : 1 ≤ size)
    (h64 : size ≤ 64) (hshift : shiftSize.toNat < 64) :
    (shiftValue Shift.leftWithZeroes.toByte w shiftSize size).toBitVec =
      (Shift.leftWithZeroes.reference (w.toBitVec.setWidth size) shiftSize.toNat).setWidth 64 := by
  unfold shiftValue
  dsimp only
  rw [if_pos rfl, toUnsigned_of_le h64, toBitVec_maskToBits _ h1 h64, toBitVec_shiftLeft hshift,
    BitVec.setWidth_shiftLeft_of_le h64]
  rfl

/-- 上位の bit が 0 なら、どの種類の shift も定義のとおりである。 -/
theorem shiftValue_spec {w shiftSize : UInt64} {size : Nat} (hsize : size = 32 ∨ size = 64)
    (hshift : shiftSize.toNat < size) {x : BitVec size} (hx : w.toBitVec = x.setWidth 64)
    {shiftOp : Shift} (hop : shiftOp ≠ .invalid) :
    (shiftValue shiftOp.toByte w shiftSize size).toBitVec
      = (shiftOp.reference x shiftSize.toNat).setWidth 64 := by
  have h1 : 1 ≤ size := by omega
  have h64 : size ≤ 64 := by omega
  have hs : shiftSize.toNat < 64 := by omega
  have haround := toNat_around hsize hshift
  have ha : ((~~~shiftSize + 1) &&& (UInt64.ofNat size - 1)).toNat < 64 := by
    rw [haround]
    exact Nat.lt_of_lt_of_le (Nat.mod_lt _ h1) h64
  have hw : w.toBitVec.setWidth size = x := by
    rw [hx, BitVec.setWidth_setWidth_of_le _ h64, BitVec.setWidth_eq]
  have hbits := toUnsigned_of_le h64
  cases shiftOp with
  | invalid => exact absurd rfl hop
  | leftWithZeroes => rw [shiftValue_leftWithZeroes h1 h64 hs, hw]
  | leftWithOnes =>
    show (maskToBits ((w <<< shiftSize) ||| ~~~((~~~0) <<< shiftSize)) _).toBitVec = _
    rw [hbits, toBitVec_maskToBits _ h1 h64, UInt64.toBitVec_or, UInt64.toBitVec_not,
      toBitVec_shiftLeft hs, toBitVec_shiftLeft hs, UInt64.toBitVec_not, UInt64.toBitVec_zero,
      setWidth_shiftLeft_ones _ h64, hw]
    rfl
  | unsignedRight =>
    show (maskToBits (w >>> shiftSize) _).toBitVec = _
    rw [hbits, toBitVec_maskToBits _ h1 h64, toBitVec_shiftRight hs, hx,
      setWidth_ushiftRight _ h64]
    rfl
  | signedRight =>
    show (maskToBits ((signExtend w _).toInt64 >>> shiftSize.toInt64).toUInt64 _).toBitVec = _
    rw [hbits, toBitVec_maskToBits _ h1 h64, toBitVec_sshiftRight hs,
      toBitVec_signExtend _ h1 h64, hw, setWidth_sshiftRight _ h64]
    rfl
  | leftAround =>
    show (maskToBits ((w >>> ((~~~shiftSize + 1) &&& (UInt64.ofNat size - 1)))
      ||| (w <<< shiftSize)) _).toBitVec = _
    rw [hbits, toBitVec_maskToBits _ h1 h64, UInt64.toBitVec_or, toBitVec_shiftRight ha,
      toBitVec_shiftLeft hs, haround, BitVec.setWidth_or, BitVec.setWidth_shiftLeft_of_le h64, hw,
      hx, setWidth_ushiftRight _ h64, rotateLeft_around x hshift]
    rfl
  | rightAround =>
    show (maskToBits ((w >>> shiftSize)
      ||| (w <<< ((~~~shiftSize + 1) &&& (UInt64.ofNat size - 1)))) _).toBitVec = _
    rw [hbits, toBitVec_maskToBits _ h1 h64, UInt64.toBitVec_or, toBitVec_shiftRight hs,
      toBitVec_shiftLeft ha, haround, BitVec.setWidth_or, BitVec.setWidth_shiftLeft_of_le h64, hw,
      hx, setWidth_ushiftRight _ h64, rotateRight_around x hshift]
    rfl

/-! ## operand の値 -/

/-- 最後の mask は、operand の幅に届かない bit を落とす。 -/
theorem toBitVec_masked {w : UInt64} {size : Nat} (h1 : 1 ≤ size) (h64 : size ≤ 64)
    {x : BitVec size} (hx : w.toBitVec.setWidth size = x) :
    (if size < 64 then maskToBits w (toUnsigned size) else w) = .ofBitVec (x.setWidth 64) := by
  rw [← hx, toUnsigned_of_le h64]
  apply UInt64.toBitVec_inj.mp
  split
  · exact toBitVec_maskToBits w h1 h64
  · have heq : size = 64 := by omega
    subst heq
    rw [BitVec.setWidth_eq, BitVec.setWidth_eq]

theorem shiftRegisterValue_spec (st : CpuState) (offset : Nat) {regSize extractSize size : Nat}
    {shiftSize : UInt64} {shiftOp : Shift} {extendOp : Extend}
    (form : ShiftForm regSize extractSize size shiftSize.toNat shiftOp extendOp) :
    shiftRegisterValue (loadRegValueRaw st offset regSize) regSize extractSize size shiftSize
        shiftOp.toByte extendOp.toByte
      = .ok (shiftRegisterReference st offset regSize extractSize size shiftSize.toNat shiftOp
          extendOp) := by
  obtain ⟨hsize, hshift, hplain, hextend⟩ := form
  have h1 : 1 ≤ size := by omega
  have h64 : size ≤ 64 := by omega
  have hinvalid : ∀ k : Shift, k.toByte = Shift.invalid.toByte ↔ k = .invalid := by
    intro k
    cases k <;> decide
  by_cases hext : extendOp = .invalid
  · -- 拡張が無ければ、register は operand と同じ幅で、余分な bit を持たない
    subst hext
    have hreg := hplain rfl
    subst hreg
    have hx : (loadRegValueRaw st offset regSize).toBitVec = _ :=
      loadRegValueRaw_eq st offset (by omega) h64
    have hw := setWidth_loadRegValueRaw st offset regSize
    show Except.ok _ = Except.ok _
    rw [if_neg (Nat.lt_irrefl regSize)]
    congr 1
    apply toBitVec_masked h1 h64
    split
    · next h =>
      rw [hw, (hinvalid shiftOp).mp h]
      exact (BitVec.setWidth_eq _).symm
    · next h =>
      rw [shiftValue_spec hsize hshift hx fun hop => h ((hinvalid shiftOp).mpr hop),
        BitVec.setWidth_setWidth_of_le _ h64, BitVec.setWidth_eq]
      show _ = shiftOp.reference (BitVec.setWidth regSize _) _
      rw [BitVec.setWidth_eq]
  · obtain ⟨hextract, hreg, hle, hop⟩ := hextend hext
    obtain ⟨w, hw, href⟩ :=
      extendValue_spec st offset hext (by omega) (by omega) hreg hle h64
    unfold shiftRegisterValue
    rw [hw]
    show Except.ok _ = Except.ok _
    rw [if_neg (Nat.lt_irrefl size)]
    congr 1
    apply toBitVec_masked h1 h64
    rw [← href]
    rcases hop with rfl | rfl
    · rfl
    · rw [if_neg (by decide), shiftValue_leftWithZeroes h1 h64 (by omega),
        BitVec.setWidth_setWidth_of_le _ h64, BitVec.setWidth_eq]

/-- 二つの `LiftShiftRegisterOperandRaw` を、64 以上の shift で失敗する計算に置き換えたもの。 -/
def Checked.liftShiftRegisterOperandRaw (st : CpuState) (size : UInt64) (s : RemillShiftRegister) :
    Except Fault UInt64 :=
  Checked.shiftRegisterValue (loadRegValueRaw st s.reg.offset.toNat s.reg.size.toNat)
    s.reg.size.toNat s.extractSize.toNat size.toNat s.shiftSize s.shiftOp.toByte s.extendOp.toByte

def Checked.liftShiftRegisterOperandRawMetaData (st : CpuState) (size : UInt16)
    (shift : IMetaData.ShiftRegister) : Except Fault UInt64 :=
  Checked.shiftRegisterValue (loadRegValueRaw st shift.reg.offset.toNat shift.reg.size.toNat)
    shift.reg.size.toNat shift.extractSize.toNat size.toNat (UInt64.ofNat shift.shiftSize.toNat)
    shift.shiftOp shift.extendOp

theorem Checked.shiftRegisterValue_spec (st : CpuState) (offset : Nat)
    {regSize extractSize size : Nat} {shiftSize : UInt64} {shiftOp : Shift} {extendOp : Extend}
    (form : ShiftForm regSize extractSize size shiftSize.toNat shiftOp extendOp) :
    Checked.shiftRegisterValue (loadRegValueRaw st offset regSize) regSize extractSize size
        shiftSize shiftOp.toByte extendOp.toByte
      = .ok (shiftRegisterReference st offset regSize extractSize size shiftSize.toNat shiftOp
          extendOp) := by
  have hsize := form.size_eq
  have hshift := form.shift_lt
  have haround := toNat_around hsize hshift
  have hlt := Nat.mod_lt (size - shiftSize.toNat) (show 0 < size by omega)
  rw [Checked.shiftRegisterValue_eq (by omega) (by omega),
    AetherVM.shiftRegisterValue_spec st offset form]

/--
**shift する register の operand は、どちらの interpreter でも定義のとおりの値になる。**

`Checked` の等式は、途中の C++ の shift 量がどれも 64 に届かないことを言う。
-/
theorem liftShiftRegisterOperandRaw_reference (st : CpuState) :
    (∀ (size : UInt64) (s : RemillShiftRegister),
      ShiftForm s.reg.size.toNat s.extractSize.toNat size.toNat s.shiftSize.toNat s.shiftOp
          s.extendOp →
        liftShiftRegisterOperandRaw st size s
            = .ok (shiftRegisterReference st s.reg.offset.toNat s.reg.size.toNat
                s.extractSize.toNat size.toNat s.shiftSize.toNat s.shiftOp s.extendOp) ∧
          Checked.liftShiftRegisterOperandRaw st size s
            = .ok (shiftRegisterReference st s.reg.offset.toNat s.reg.size.toNat
                s.extractSize.toNat size.toNat s.shiftSize.toNat s.shiftOp s.extendOp)) ∧
    (∀ (size : UInt16) (shift : IMetaData.ShiftRegister) (shiftOp : Shift) (extendOp : Extend),
      shift.shiftOp = shiftOp.toByte → shift.extendOp = extendOp.toByte →
        ShiftForm shift.reg.size.toNat shift.extractSize.toNat size.toNat shift.shiftSize.toNat
          shiftOp extendOp →
        InterpMetaData.liftShiftRegisterOperandRaw st size shift
            = .ok (shiftRegisterReference st shift.reg.offset.toNat shift.reg.size.toNat
                shift.extractSize.toNat size.toNat shift.shiftSize.toNat shiftOp extendOp) ∧
          Checked.liftShiftRegisterOperandRawMetaData st size shift
            = .ok (shiftRegisterReference st shift.reg.offset.toNat shift.reg.size.toNat
                shift.extractSize.toNat size.toNat shift.shiftSize.toNat shiftOp extendOp)) := by
  refine ⟨?_, ?_⟩
  · intro size s form
    exact ⟨shiftRegisterValue_spec st _ form, Checked.shiftRegisterValue_spec st _ form⟩
  · intro size shift shiftOp extendOp hop hext form
    have hshift : (UInt64.ofNat shift.shiftSize.toNat).toNat = shift.shiftSize.toNat :=
      UInt64.toNat_ofNat_of_lt' (Nat.lt_trans shift.shiftSize.toNat_lt (by decide))
    rw [← hshift] at form ⊢
    unfold InterpMetaData.liftShiftRegisterOperandRaw Checked.liftShiftRegisterOperandRawMetaData
    rw [hop, hext]
    exact ⟨shiftRegisterValue_spec st _ form, Checked.shiftRegisterValue_spec st _ form⟩

/-- 先頭の byte だけが 0x81 の CPU state。 -/
def byteState : CpuState := ⟨0x1000, fun i => if i = 0 then 0x81 else 0⟩

/-- 32 bit の register を右に 4 bit 回す operand。 -/
def rotateOperand : RemillShiftRegister :=
  ⟨⟨[], 32, 0⟩, 4, 0, false, false, .rightAround, .invalid⟩

/-- 64 bit の register の下位 8 bit を符号拡張し、左へ 1 bit shift する operand。 -/
def extendOperand : IMetaData.ShiftRegister :=
  ⟨⟨0, 64⟩, 1, 8, 1, 0, Shift.leftWithZeroes.toByte, Extend.signed.toByte⟩

theorem byteState_reference :
    liftShiftRegisterOperandRaw byteState 32 rotateOperand = .ok 0x10000008 ∧
    InterpMetaData.liftShiftRegisterOperandRaw byteState 32 extendOperand = .ok 0xFFFFFF02 := by
  obtain ⟨hdirect, hmeta⟩ := liftShiftRegisterOperandRaw_reference byteState
  refine ⟨(hdirect 32 rotateOperand ?_).1.trans ?_,
    (hmeta 32 extendOperand .leftWithZeroes .signed rfl rfl ?_).1.trans ?_⟩
  · exact ⟨.inl rfl, by decide, fun _ => rfl, fun h => absurd rfl h⟩
  · rfl
  · exact ⟨.inl rfl, by decide, nofun, fun _ => by decide⟩
  · rfl

end AetherVM
