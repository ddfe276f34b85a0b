import AetherVM.Operand.Intern
import AetherVM.Operand.Typed

/-!
# 値の決まり方が同じ operand

共有が値を変えないかどうかを、operand の field だけで言う。register の operand は、読む場所と byte 数で値が決まる。
即値は、二つの幅のあいだの bit が符号（符号の無いものでは 0）で埋まっていれば、幅が違っても同じ値になる。残りの
種類では、値に関わる field がどれも等しいことを求める。

register と即値では、この条件は値が等しいことと同じである。
-/

namespace AetherVM

open Infra

/-! ## register の読み方 -/

/-- register の operand が CPU state から読むもの。 -/
inductive RegisterRead where
  | unknown
  | zero
  | address (offset : Nat)
  | bytes (offset count : Nat)
deriving DecidableEq, Repr

namespace RegisterRead

/-- 読んだ値。名前の分からない register では打ち切る。 -/
def value (st : CpuState) : RegisterRead → Except Fault UInt64
  | unknown => .error .abort
  | zero => .ok 0
  | address offset => .ok (st.base + UInt64.ofNat offset)
  | bytes offset count =>
    .ok (UInt64.ofNat (ofLE ((List.range count).map fun i => st.bytes (offset + i))))

/-- operand から作られる読み方。 -/
def Valid : RegisterRead → Prop
  | unknown | zero => True
  | address offset => offset < 2 ^ 32
  | bytes _ count => 1 ≤ count ∧ count ≤ 8

end RegisterRead

/-- register の読み方。pointer で渡すものと 64 bit を越えるものは、番地になる。 -/
def RemillRegister.read (regoffs : RegOffs) (r : RemillRegister) (pointer : Bool) : RegisterRead :=
  match regoffs r.name with
  | none => .unknown
  | some off =>
    let count := (r.size.toNat + 7) / 8
    if pointer = true ∨ 8 < count then .address (off % 2 ^ 32)
    else if count = 0 then .zero
    else .bytes (off % 2 ^ 32) count

/-- address の register。名前が空なら 0 である。 -/
def RemillRegister.readOptional (regoffs : RegOffs) (r : RemillRegister) : RegisterRead :=
  if r.name = [] then .zero else r.read regoffs false

/-! ## 即値の幅 -/

/-- 即値のうち、値になる下位の bit の数。 -/
def immediateWidth (isSigned : Bool) (size : UInt64) : Nat :=
  let bits := toUnsigned size.toNat
  if isSigned = true ∧ bits = 0 then 64 else min bits 64

/-- 二つの幅のあいだの bit が、狭い方の符号で埋まっていること。符号の無いものでは 0 である。 -/
def FilledBetween (val : UInt64) (isSigned : Bool) (w w' : Nat) : Prop :=
  ∀ j < max w w', min w w' ≤ j →
    val.toBitVec.getLsbD j = (isSigned && val.toBitVec.getLsbD (min w w' - 1))

instance (val : UInt64) (isSigned : Bool) (w w' : Nat) :
    Decidable (FilledBetween val isSigned w w') := by
  unfold FilledBetween
  infer_instance

/-! ## operand -/

/-- shift の値に関わる field が等しいこと。 -/
structure RemillShiftRegister.Agrees (regoffs : RegOffs) (s s' : RemillShiftRegister) : Prop where
  read : s.reg.read regoffs false = s'.reg.read regoffs false
  regSize : s.reg.size = s'.reg.size
  shiftSize : s.shiftSize = s'.shiftSize
  extractSize : s.extractSize = s'.extractSize
  shiftOp : s.shiftOp = s'.shiftOp
  extendOp : s.extendOp = s'.extendOp

/-- address の値に関わる field が等しいこと。`scale` は index の register があるときだけ使う。 -/
structure RemillAddress.Agrees (regoffs : RegOffs) (a a' : RemillAddress) : Prop where
  segment : a.segmentBaseReg.readOptional regoffs = a'.segmentBaseReg.readOptional regoffs
  base : a.baseReg.readOptional regoffs = a'.baseReg.readOptional regoffs
  index : a.indexReg.readOptional regoffs = a'.indexReg.readOptional regoffs
  scale : a.indexReg.readOptional regoffs = .zero ∨ a.scale = a'.scale
  displacement : a.displacement = a'.displacement
  addressSize : min a.addressSize.toNat 64 = min a'.addressSize.toNat 64

/-- 二つの operand が、同じ種類で、値に関わる field で一致すること。 -/
def RemillOperand.Agrees (regoffs : RegOffs) (a b : RemillOperand × Bool) : Prop :=
  match a.1.value, b.1.value with
  | .invalid, .invalid => True
  | .reg r, .reg r' => r.read regoffs a.2 = r'.read regoffs b.2
  | .shiftReg s, .shiftReg s' => a.1.size = b.1.size ∧ s.Agrees regoffs s'
  | .imm val isSigned, .imm val' isSigned' => val = val' ∧ isSigned = isSigned' ∧
      FilledBetween val isSigned (immediateWidth isSigned a.1.size)
        (immediateWidth isSigned b.1.size)
  | .addr x, .addr y => x.Agrees regoffs y
  | .expr _ _ e, .expr _ _ e' => e = e'
  | _, _ => False

/-- operand を、それ自身の pointer の flag で評価した値。 -/
def RemillEnv.ownLift (env : RemillEnv) (st : CpuState) (arg : RemillOperand × Bool) :
    Except Fault UInt64 :=
  arg.1.initOffsets env.regoffs >>= fun op => liftOperand env.regoffs st op arg.2

theorem RemillOperand.Agrees.refl (regoffs : RegOffs) (a : RemillOperand × Bool) :
    RemillOperand.Agrees regoffs a a := by
  obtain ⟨⟨size, action, value⟩, pointer⟩ := a
  cases value with
  | invalid => trivial
  | reg r => rfl
  | shiftReg s => exact ⟨rfl, rfl, rfl, rfl, rfl, rfl, rfl⟩
  | imm val isSigned =>
    refine ⟨rfl, rfl, fun j hj hmin => ?_⟩
    rw [Nat.max_self] at hj
    rw [Nat.min_self] at hmin
    exact absurd hj (Nat.not_lt.mpr hmin)
  | addr x => exact ⟨rfl, rfl, rfl, .inr rfl, rfl, rfl⟩
  | expr t ptr e => rfl

/-! ## 読み方と値 -/

section Read

variable {regoffs : RegOffs} {r : RemillRegister} {st : CpuState}

theorem toNat_offset (off : Nat) : (UInt32.ofNat (off % 2 ^ 32)).toNat = off % 2 ^ 32 := by
  rw [UInt32.toNat_ofNat', Nat.mod_mod]

theorem setOffset_none (h : regoffs r.name = none) : setOffset regoffs r = .error .abort := by
  rw [setOffset, getOffset, h]
  rfl

theorem setOffset_some {off : Nat} (h : regoffs r.name = some off) :
    setOffset regoffs r = .ok { r with offset := UInt32.ofNat (off % 2 ^ 32) } := by
  rw [setOffset, getOffset, h]
  rfl

theorem loadRegValueRaw_def (st : CpuState) (off size : Nat) : loadRegValueRaw st off size =
    if 8 < (size + 7) / 8 then st.base + UInt64.ofNat off
    else UInt64.ofNat (ofLE ((List.range ((size + 7) / 8)).map fun i => st.bytes (off + i))) := rfl

/-- offset を決めた register を、operand の渡し方で読んだ値。 -/
theorem setOffset_lift (regoffs : RegOffs) (st : CpuState) (r : RemillRegister) (pointer : Bool) :
    (setOffset regoffs r >>= fun r => .ok (liftRegisterOperandRaw st r pointer))
      = (r.read regoffs pointer).value st := by
  cases h : regoffs r.name with
  | none =>
    rw [setOffset_none h, RemillRegister.read, h]
    rfl
  | some off =>
    rw [setOffset_some h, RemillRegister.read, h]
    show Except.ok (liftRegisterOperandRaw st _ pointer) = _
    rw [liftRegisterOperandRaw, loadRegValueRaw_def, toNat_offset]
    dsimp only
    cases pointer with
    | true => rfl
    | false =>
      rw [if_neg Bool.false_ne_true]
      by_cases hbig : 8 < (r.size.toNat + 7) / 8
      · rw [if_pos hbig, if_pos (.inr hbig)]
        rfl
      · rw [if_neg hbig, if_neg (by simpa using hbig)]
        split
        · next hzero =>
          rw [hzero]
          rfl
        · rfl

/-- pointer でない register は、そのまま読み込む。 -/
theorem setOffset_load (regoffs : RegOffs) (st : CpuState) (r : RemillRegister) :
    (setOffset regoffs r >>= fun r => .ok (loadRegValueRaw st r.offset.toNat r.size.toNat))
      = (r.read regoffs false).value st := setOffset_lift regoffs st r false

/-- address の register の値。 -/
theorem setOffsetOptional_load (regoffs : RegOffs) (st : CpuState) (r : RemillRegister) :
    (setOffsetOptional regoffs r >>= fun r => .ok (loadWordRegValOrZero st r))
      = (r.readOptional regoffs).value st := by
  unfold setOffsetOptional RemillRegister.readOptional
  split
  · next hname =>
    show Except.ok (loadWordRegValOrZero st r) = _
    rw [loadWordRegValOrZero, if_pos hname]
    rfl
  · next hname =>
    rw [← setOffset_load]
    cases h : regoffs r.name with
    | none => rw [setOffset_none h]; rfl
    | some off =>
      rw [setOffset_some h]
      show Except.ok (loadWordRegValOrZero st _) = Except.ok _
      rw [loadWordRegValOrZero, if_neg hname]
      rfl

end Read

/-! ## 一致すれば値は等しい -/

section Agrees

open RemillEnv

variable {env : RemillEnv} {st : CpuState} {pointer : Bool} {size : UInt64}
  {action : OperandAction}

theorem ownLift_reg (r : RemillRegister) :
    env.ownLift st (⟨size, action, .reg r⟩, pointer) = (r.read env.regoffs pointer).value st := by
  rw [← setOffset_lift]
  cases h : env.regoffs r.name with
  | none => simp [ownLift, RemillOperand.initOffsets, setOffset_none h, bind, Except.bind]
  | some off =>
    simp [ownLift, RemillOperand.initOffsets, setOffset_some h, bind, Except.bind, liftOperand]

theorem ownLift_imm (val : UInt64) (isSigned : Bool) :
    env.ownLift st (⟨size, action, .imm val isSigned⟩, pointer)
      = .ok (immediateValue val isSigned size.toNat) := rfl

theorem ownLift_shiftReg (s : RemillShiftRegister) :
    env.ownLift st (⟨size, action, .shiftReg s⟩, pointer)
      = (s.reg.read env.regoffs false).value st >>= fun v =>
          shiftRegisterValue v s.reg.size.toNat s.extractSize.toNat size.toNat s.shiftSize
            s.shiftOp.toByte s.extendOp.toByte := by
  rw [← setOffset_load]
  cases h : env.regoffs s.reg.name with
  | none => simp [ownLift, RemillOperand.initOffsets, setOffset_none h, bind, Except.bind]
  | some off =>
    simp [ownLift, RemillOperand.initOffsets, setOffset_some h, bind, Except.bind, liftOperand,
      liftShiftRegisterOperandRaw]

theorem ownLift_addr (a : RemillAddress) :
    env.ownLift st (⟨size, action, .addr a⟩, pointer) = (do
      let segment ← (a.segmentBaseReg.readOptional env.regoffs).value st
      let base ← (a.baseReg.readOptional env.regoffs).value st
      let index ← (a.indexReg.readOptional env.regoffs).value st
      .ok (addressValue segment base index a.scale a.displacement a.addressSize.toNat)) := by
  simp only [← setOffsetOptional_load]
  cases hs : setOffsetOptional env.regoffs a.segmentBaseReg with
  | error err => simp [ownLift, RemillOperand.initOffsets, hs, bind, Except.bind]
  | ok segment =>
    cases hb : setOffsetOptional env.regoffs a.baseReg with
    | error err => simp [ownLift, RemillOperand.initOffsets, hs, hb, bind, Except.bind]
    | ok base =>
      cases hi : setOffsetOptional env.regoffs a.indexReg with
      | error err => simp [ownLift, RemillOperand.initOffsets, hs, hb, hi, bind, Except.bind]
      | ok index =>
        simp [ownLift, RemillOperand.initOffsets, hs, hb, hi, bind, Except.bind, liftOperand,
          liftAddressOperandRaw]

/-- 64 bit を越える address の幅は、どれも同じである。 -/
theorem addressValue_min (segment base index : UInt64) (scale displacement : Int64) (n : Nat) :
    addressValue segment base index scale displacement n
      = addressValue segment base index scale displacement (min n 64) := by
  unfold addressValue
  by_cases h : n < 64
  · rw [Nat.min_eq_left (Nat.le_of_lt h)]
  · rw [Nat.min_eq_right (Nat.le_of_not_lt h), if_neg h, if_neg (Nat.lt_irrefl 64)]

/-- index が 0 なら、`scale` は使わない。 -/
theorem addressValue_index_zero (segment base : UInt64) (scale scale' displacement : Int64)
    (n : Nat) : addressValue segment base 0 scale displacement n
      = addressValue segment base 0 scale' displacement n := rfl

theorem ownLift_addr_congr {a a' : RemillAddress} (h : a.Agrees env.regoffs a')
    {size' : UInt64} {action' : OperandAction} {pointer' : Bool} :
    env.ownLift st (⟨size, action, .addr a⟩, pointer)
      = env.ownLift st (⟨size', action', .addr a'⟩, pointer') := by
  rw [ownLift_addr, ownLift_addr, h.segment, h.base, h.displacement]
  refine bind_congr fun segment => bind_congr fun base => ?_
  rw [← h.index]
  rcases h.scale with hzero | hscale
  · rw [hzero]
    show Except.ok (addressValue segment base 0 _ _ _) = .ok (addressValue segment base 0 _ _ _)
    rw [addressValue_min _ _ _ _ _ a.addressSize.toNat, h.addressSize, ← addressValue_min,
      addressValue_index_zero]
  · rw [hscale]
    refine bind_congr fun index => ?_
    rw [addressValue_min _ _ _ _ _ a.addressSize.toNat, h.addressSize, ← addressValue_min]

/-! ### 即値 -/

theorem immediateWidth_le (isSigned : Bool) (size : UInt64) : immediateWidth isSigned size ≤ 64 := by
  unfold immediateWidth
  dsimp only
  split
  · exact Nat.le_refl 64
  · exact Nat.min_le_right _ _

theorem immediateWidth_pos (size : UInt64) : 1 ≤ immediateWidth true size := by
  unfold immediateWidth
  dsimp only
  split
  · decide
  · next h =>
    have : toUnsigned size.toNat ≠ 0 := fun hzero => h ⟨rfl, hzero⟩
    omega

/-- 即値は、幅の中の bit と、その上を埋める符号からなる。 -/
theorem getLsbD_immediateValue (val : UInt64) (isSigned : Bool) (size : UInt64) {j : Nat}
    (hj : j < 64) : (immediateValue val isSigned size.toNat).toBitVec.getLsbD j =
      if j < immediateWidth isSigned size then val.toBitVec.getLsbD j
      else isSigned && val.toBitVec.getLsbD (immediateWidth isSigned size - 1) := by
  have hbits : ∀ bits, 64 ≤ bits → signExtend val bits = val ∧ maskToBits val bits = val := by
    intro bits hbits
    refine ⟨if_pos (.inr hbits), ?_⟩
    rw [maskToBits, if_neg (by omega), if_pos hbits]
  unfold immediateValue immediateWidth
  generalize toUnsigned size.toNat = bits
  cases isSigned with
  | true =>
    rw [if_pos rfl]
    by_cases hfull : bits = 0 ∨ 64 ≤ bits
    · have hval : signExtend val bits = val := if_pos hfull
      have hwidth : (if true = true ∧ bits = 0 then 64 else min bits 64) = 64 := by
        split
        · rfl
        · next h =>
          have : 64 ≤ bits := hfull.resolve_left fun hzero => h ⟨rfl, hzero⟩
          omega
      rw [hval, hwidth, if_pos hj]
    · have hwidth : (if true = true ∧ bits = 0 then 64 else min bits 64) = bits := by
        rw [if_neg (by omega)]
        omega
      rw [hwidth, toBitVec_signExtend val (by omega) (by omega), BitVec.getLsbD_signExtend,
        decide_eq_true hj, Bool.true_and, BitVec.msb_eq_getLsbD_last, BitVec.getLsbD_setWidth,
        BitVec.getLsbD_setWidth, decide_eq_true (show bits - 1 < bits by omega), Bool.true_and]
      by_cases hlt : j < bits
      · simp [hlt]
      · simp [hlt]
  | false =>
    rw [if_neg Bool.false_ne_true, if_neg (show ¬(false = true ∧ bits = 0) by simp)]
    simp only [Bool.false_and]
    by_cases hzero : bits = 0
    · subst hzero
      simp [maskToBits]
    · by_cases hbig : 64 ≤ bits
      · rw [(hbits bits hbig).2, Nat.min_eq_right hbig, if_pos hj]
      · rw [toBitVec_maskToBits val (by omega) (by omega), Nat.min_eq_left (by omega),
          BitVec.getLsbD_setWidth, BitVec.getLsbD_setWidth, decide_eq_true hj, Bool.true_and]
        by_cases hlt : j < bits
        · simp [hlt]
        · simp [hlt]

/-- 幅の違う即値が等しいのは、あいだの bit が符号で埋まっているときに限る。 -/
theorem immediateValue_eq_iff (val : UInt64) (isSigned : Bool) (size size' : UInt64) :
    immediateValue val isSigned size.toNat = immediateValue val isSigned size'.toNat ↔
      FilledBetween val isSigned (immediateWidth isSigned size)
        (immediateWidth isSigned size') := by
  have hle := immediateWidth_le isSigned size
  have hle' := immediateWidth_le isSigned size'
  have hpos : isSigned = true → 1 ≤ immediateWidth isSigned size ∧
      1 ≤ immediateWidth isSigned size' := by
    rintro rfl
    exact ⟨immediateWidth_pos size, immediateWidth_pos size'⟩
  have hbit := fun j hj => getLsbD_immediateValue val isSigned size (j := j) hj
  have hbit' := fun j hj => getLsbD_immediateValue val isSigned size' (j := j) hj
  have heq : immediateValue val isSigned size.toNat = immediateValue val isSigned size'.toNat ↔
      ∀ j < 64, (immediateValue val isSigned size.toNat).toBitVec.getLsbD j
        = (immediateValue val isSigned size'.toNat).toBitVec.getLsbD j := by
    rw [← UInt64.toBitVec_inj]
    exact ⟨fun h j _ => by rw [h], BitVec.eq_of_getLsbD_eq⟩
  rw [heq]
  generalize immediateWidth isSigned size = w at *
  generalize immediateWidth isSigned size' = w' at *
  constructor
  · intro h j hj hmin
    have hj64 : j < 64 := by omega
    have hvals := h j hj64
    rw [hbit j hj64, hbit' j hj64] at hvals
    -- 広い方はその bit を、狭い方は符号を返す
    rcases Nat.le_total w w' with hww | hww
    · rw [Nat.min_eq_left hww] at hmin ⊢
      rw [Nat.max_eq_right hww] at hj
      rw [if_neg (by omega), if_pos hj] at hvals
      exact hvals.symm
    · rw [Nat.min_eq_right hww] at hmin ⊢
      rw [Nat.max_eq_left hww] at hj
      rw [if_pos hj, if_neg (by omega)] at hvals
      exact hvals
  · intro h j hj64
    rw [hbit j hj64, hbit' j hj64]
    have hsign : (isSigned && val.toBitVec.getLsbD (w - 1))
        = (isSigned && val.toBitVec.getLsbD (w' - 1)) := by
      cases isSigned with
      | false => rfl
      | true =>
        obtain ⟨h1, h1'⟩ := hpos rfl
        have hfilled := fun k hk hmin => h k hk hmin
        simp only [Bool.true_and] at hfilled ⊢
        rcases Nat.lt_trichotomy w w' with hlt | heq | hgt
        · rw [hfilled (w' - 1) (by omega) (by omega), Nat.min_eq_left (by omega)]
        · rw [heq]
        · rw [hfilled (w - 1) (by omega) (by omega), Nat.min_eq_right (by omega)]
    by_cases h1 : j < w
    · by_cases h2 : j < w'
      · rw [if_pos h1, if_pos h2]
      · rw [if_pos h1, if_neg h2, h j (by omega) (by omega), Nat.min_eq_right (by omega)]
    · by_cases h2 : j < w'
      · rw [if_neg h1, if_pos h2, h j (by omega) (by omega), Nat.min_eq_left (by omega)]
      · rw [if_neg h1, if_neg h2, hsign]

/-- 一致する operand は、どの CPU state でも同じ値になる。 -/
theorem ownLift_congr {a b : RemillOperand × Bool} (h : RemillOperand.Agrees env.regoffs a b)
    (st : CpuState) : env.ownLift st a = env.ownLift st b := by
  obtain ⟨⟨size, action, value⟩, pointer⟩ := a
  obtain ⟨⟨size', action', value'⟩, pointer'⟩ := b
  unfold RemillOperand.Agrees at h
  dsimp only at h
  split at h
  · rfl
  · rw [ownLift_reg, ownLift_reg, h]
  · next s s' =>
    obtain ⟨hsize, hs⟩ := h
    rw [ownLift_shiftReg, ownLift_shiftReg, hs.read, hs.regSize, hs.shiftSize, hs.extractSize,
      hs.shiftOp, hs.extendOp, hsize]
  · next val isSigned val' isSigned' =>
    obtain ⟨rfl, rfl, hfilled⟩ := h
    rw [ownLift_imm, ownLift_imm, (immediateValue_eq_iff val isSigned size size').mpr hfilled]
  · exact ownLift_addr_congr h
  · next e _ _ e' =>
    subst h
    rfl
  · cases h

end Agrees

/-! ## 値が等しければ一致する -/

/-- `p` の byte だけが 1 の CPU state。 -/
def probe (base : UInt64) (p : Nat) : CpuState := ⟨base, fun i => if i = p then 1 else 0⟩

/-- 一つの byte だけが 1 の memory を読むと、その byte の重みになる。 -/
theorem ofLE_probe (p : Nat) : ∀ count offset : Nat,
    ofLE ((List.range count).map fun i => if offset + i = p then (1 : UInt8) else 0)
      = if offset ≤ p ∧ p < offset + count then 256 ^ (p - offset) else 0
  | 0, offset => by
    rw [if_neg (by omega)]
    rfl
  | count + 1, offset => by
    have ih := ofLE_probe p count (offset + 1)
    have hshift : (fun i => if offset + 1 + i = p then (1 : UInt8) else 0)
        = (fun i => if offset + i = p then 1 else 0) ∘ Nat.succ := by
      funext i
      simp only [Function.comp, Nat.succ_eq_add_one, Nat.add_assoc, Nat.add_comm 1 i]
    rw [List.range_succ_eq_map, List.map_cons, List.map_map, ← hshift, ofLE, ih, Nat.add_zero]
    by_cases h0 : offset = p
    · rw [if_pos h0, if_neg (by omega), if_pos (by omega), h0, Nat.sub_self]
      rfl
    · rw [if_neg h0]
      by_cases hin : offset + 1 ≤ p ∧ p < offset + 1 + count
      · obtain ⟨k, rfl⟩ : ∃ k, p = offset + 1 + k := ⟨p - (offset + 1), by omega⟩
        have hsub : offset + 1 + k - offset = k + 1 := by omega
        rw [if_pos hin, if_pos (by omega), hsub, Nat.add_sub_cancel_left, Nat.pow_succ']
        exact Nat.zero_add _
      · rw [if_neg hin, if_neg (by omega)]
        rfl

namespace RegisterRead

theorem value_probe (base : UInt64) (p offset count : Nat) :
    (bytes offset count).value (probe base p) = .ok (UInt64.ofNat
      (if offset ≤ p ∧ p < offset + count then 256 ^ (p - offset) else 0)) := by
  rw [← ofLE_probe]
  rfl

theorem ofNat_inj {m n : Nat} (hm : m < 2 ^ 64) (hn : n < 2 ^ 64)
    (h : UInt64.ofNat m = UInt64.ofNat n) : m = n := by
  rw [← UInt64.toNat_ofNat_of_lt' hm, h, UInt64.toNat_ofNat_of_lt' hn]

/-- 8 byte までの読み方では、byte の重みは桁あふれしない。 -/
theorem weight_lt {p offset count : Nat} (hcount : count ≤ 8) :
    (if offset ≤ p ∧ p < offset + count then 256 ^ (p - offset) else 0) < 2 ^ 64 := by
  split
  · have hpow : 256 ^ (p - offset) ≤ 256 ^ 7 := Nat.pow_le_pow_right (by decide) (by omega)
    exact Nat.lt_of_le_of_lt hpow (by decide)
  · decide

/-- 長く読む方だけが、短い方の終わりの byte を見る。 -/
theorem count_le_of_value_eq {offset count count' : Nat} (h8 : count ≤ 8) (h8' : count' ≤ 8)
    (h : ∀ st, (bytes offset count).value st = (bytes offset count').value st) :
    count' ≤ count := by
  by_contra hlt
  have hval := Except.ok.inj ((value_probe 0 (offset + count) offset count).symm.trans
    ((h _).trans (value_probe 0 (offset + count) offset count')))
  have hnat := ofNat_inj (weight_lt h8) (weight_lt h8') hval
  rw [if_neg (by omega), if_pos (by omega)] at hnat
  exact absurd hnat (Nat.ne_of_lt (Nat.pow_pos (by decide)))

/-- どの CPU state でも同じ値になる読み方は、同じものである。 -/
theorem eq_of_value_eq {x y : RegisterRead} (hx : x.Valid) (hy : y.Valid)
    (h : ∀ st, x.value st = y.value st) : x = y := by
  -- 番地は `base` と共に動くが、読んだ値は動かない
  have hbase : ∀ {offset : Nat} {z : RegisterRead} (v : UInt64),
      (∀ st, (address offset).value st = z.value st) →
      z.value (probe 0 0) = .ok v → z.value (probe 1 0) = .ok v → False := by
    intro offset z v hz h0 h1
    have he0 : (0 : UInt64) + UInt64.ofNat offset = v := Except.ok.inj ((hz _).trans h0)
    have he1 : (1 : UInt64) + UInt64.ofNat offset = v := Except.ok.inj ((hz _).trans h1)
    rw [← he1] at he0
    exact absurd ((UInt64.add_left_inj _).mp he0) (by decide)
  -- 一 byte でも読むなら、0 とは限らない
  have hzero : ∀ {offset count : Nat}, 1 ≤ count →
      ¬ ∀ st, (bytes offset count).value st = zero.value st := by
    intro offset count hcount hz
    have hval := Except.ok.inj ((value_probe 0 offset offset count).symm.trans (hz _))
    rw [if_pos (by omega), Nat.sub_self] at hval
    exact absurd hval (by decide)
  cases x with
  | unknown => cases y <;> first | rfl | exact absurd (h (probe 0 0)) (by simp [value])
  | zero =>
    cases y with
    | unknown => exact absurd (h (probe 0 0)) (by simp [value])
    | zero => rfl
    | address offset => exact (hbase 0 (fun st => (h st).symm) rfl rfl).elim
    | bytes offset count => exact absurd (fun st => (h st).symm) (hzero hy.1)
  | address offset =>
    cases y with
    | unknown => exact absurd (h (probe 0 0)) (by simp [value])
    | zero => exact (hbase 0 h rfl rfl).elim
    | address offset' =>
      have hval : (0 : UInt64) + UInt64.ofNat offset = 0 + UInt64.ofNat offset' :=
        Except.ok.inj (h (probe 0 0))
      rw [UInt64.zero_add, UInt64.zero_add] at hval
      rw [ofNat_inj (Nat.lt_trans hx (by decide)) (Nat.lt_trans hy (by decide)) hval]
    | bytes offset' count => exact (hbase _ h (value_probe 0 0 _ _) (value_probe 1 0 _ _)).elim
  | bytes offset count =>
    cases y with
    | unknown => exact absurd (h (probe 0 0)) (by simp [value])
    | zero => exact absurd h (hzero hx.1)
    | address offset' =>
      exact (hbase _ (fun st => (h st).symm) (value_probe 0 0 _ _) (value_probe 1 0 _ _)).elim
    | bytes offset' count' =>
      obtain ⟨h1, h8⟩ := hx
      obtain ⟨h1', h8'⟩ := hy
      have hval := Except.ok.inj ((value_probe 0 offset offset count).symm.trans
        ((h _).trans (value_probe 0 offset offset' count')))
      have hnat := ofNat_inj (weight_lt h8) (weight_lt h8') hval
      rw [if_pos (by omega), Nat.sub_self, Nat.pow_zero] at hnat
      have hin : offset' ≤ offset ∧ offset < offset' + count' := by
        by_contra hout
        rw [if_neg hout] at hnat
        cases hnat
      rw [if_pos hin] at hnat
      have hoff : offset = offset' := by
        rcases Nat.eq_zero_or_pos (offset - offset') with hz | hpos
        · omega
        · have := Nat.one_lt_pow (Nat.pos_iff_ne_zero.mp hpos) (show 1 < 256 by decide)
          omega
      subst hoff
      rw [Nat.le_antisymm (count_le_of_value_eq h8' h8 fun st => (h st).symm)
        (count_le_of_value_eq h8 h8' h)]

end RegisterRead

theorem RemillRegister.read_valid (regoffs : RegOffs) (r : RemillRegister) (pointer : Bool) :
    (r.read regoffs pointer).Valid := by
  unfold RemillRegister.read
  split
  · trivial
  · dsimp only
    split
    · exact Nat.mod_lt _ (by decide)
    · next hsmall =>
      split
      · trivial
      · exact ⟨by omega, by omega⟩

section Converse

variable {env : RemillEnv} {a b : RemillOperand × Bool}

/-- 同じ即値では、ID の等しさが値と符号の有無の等しさになる。 -/
theorem imm_eq_of_id {op op' : RemillOperand} {pointer pointer' : Bool} {val val' : UInt64}
    {isSigned isSigned' : Bool} {hash : Bytes → UInt64} (hop : op.value = .imm val isSigned)
    (hop' : op'.value = .imm val' isSigned') (hid : op.id hash pointer = op'.id hash pointer') :
    val = val' ∧ isSigned = isSigned' := by
  simp only [RemillOperand.id, hop, hop', RemillValue.idWords, RemillValue.type,
    Uint128.mk.injEq] at hid
  obtain ⟨hlow, hhigh⟩ := hid
  refine ⟨hlow, ?_⟩
  clear hop hop'
  revert hhigh
  generalize decide (op.action = .write) = w
  generalize decide (op'.action = .write) = w'
  revert isSigned isSigned' w w'
  decide

/-- register どうし、即値どうしでは、ID も値も等しい operand は一致する。 -/
theorem agrees_of_ownLift_eq (hkind : a.1.value.type = b.1.value.type)
    (hplain : a.1.value.type = .register ∨ a.1.value.type = .immediate)
    (hid : env.id a = env.id b) (h : ∀ st, env.ownLift st a = env.ownLift st b) :
    RemillOperand.Agrees env.regoffs a b := by
  obtain ⟨⟨size, action, value⟩, pointer⟩ := a
  obtain ⟨⟨size', action', value'⟩, pointer'⟩ := b
  dsimp only at hkind hplain
  have hexpr : ∀ t : { t : OperandType // t.isExpression = true },
      t.val ≠ .register ∧ t.val ≠ .immediate := by
    rintro ⟨t, ht⟩
    constructor
    · rintro rfl
      cases ht
    · rintro rfl
      cases ht
  cases value with
  | reg r =>
    cases value' with
    | reg r' =>
      simp only [ownLift_reg] at h
      exact RegisterRead.eq_of_value_eq (r.read_valid _ _) (r'.read_valid _ _) h
    | expr t _ _ => exact absurd hkind.symm (hexpr t).1
    | _ => cases hkind
  | imm val isSigned =>
    cases value' with
    | imm val' isSigned' =>
      obtain ⟨rfl, rfl⟩ := imm_eq_of_id rfl rfl hid
      refine ⟨rfl, rfl, (immediateValue_eq_iff _ _ _ _).mp ?_⟩
      exact Except.ok.inj (h (probe 0 0))
    | expr t _ _ => exact absurd hkind.symm (hexpr t).2
    | _ => cases hkind
  | expr t _ _ =>
    rcases hplain with hplain | hplain
    · exact absurd hplain (hexpr t).1
    · exact absurd hplain (hexpr t).2
  | _ => rcases hplain with hplain | hplain <;> cases hplain

end Converse

end AetherVM
