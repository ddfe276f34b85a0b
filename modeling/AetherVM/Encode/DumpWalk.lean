import AetherVM.Encode.Dump
import AetherVM.Encode.Roundtrip

/-!
# `dump` は書いた file を辿れるか

`dump` が record を辿るときの歩幅（`dumpAdvance`）は、書き手の `recordSize` とは別の規則で決まる。
歩幅が書き手と合うかぎり、辿った offset は `serializeHandler` の割り当てた offset である。

合わないのは、x86-64 の guest を `haswx` で書き出したときだけである。書き手は詰め物も native code も
置かないのに、`dump` は header の `kFlag_HasWX` を見て両方を読み飛ばそうとする。
-/

namespace AetherVM.PreEncoder

open Infra IMetaData

variable {disas : ArchType → Bytes → String × Nat} {e : PreEncoder} {operands : List Operand}
  {expressions : List Expression} {file : Bytes} {out : List (Nat × Bytes)}
  {insns : List InsnMeta} {md : Header}

/-! ## record 一つ -/

/-- `dump` が record 一つに必要とする byte 数。 -/
def dumpNeed (e : PreEncoder) (h : OpcodeHandler) (impl : UInt16) : Nat :=
  if e.haswx ∧ h.type = .dynamic then align4 (plainSize h) + impl.toNat else plainSize h

/-- `dump` が record 一つで進む byte 数。 -/
def dumpAdvance (e : PreEncoder) (h : OpcodeHandler) (impl : UInt16) : Nat :=
  if e.haswx then align4 (dumpNeed e h impl) else plainSize h

theorem dumpNeed_le_dumpAdvance (h : OpcodeHandler) (impl : UInt16) :
    dumpNeed e h impl ≤ dumpAdvance e h impl := by
  unfold dumpAdvance
  split
  · exact le_align4 _
  · next hwx =>
    have hneed : dumpNeed e h impl = plainSize h := if_neg fun hc => hwx hc.1
    rw [hneed]

theorem flags_haswx : (e.flags &&& kFlagHasWX = 0) ↔ e.haswx = false := by
  unfold flags
  cases e.haswx <;> cases e.arch <;> decide

/-- 読み手の `recordSize` は、詰め物より前の長さである。 -/
theorem dumpRecordSize_recordHead {source : Handler} (hf : Fits source) (impl : UInt16) :
    dumpRecordSize (recordHead source.ptr impl) = plainSize source.ptr := by
  have hlen := length_metaArgs source.ptr
  rw [dumpRecordSize, recordHead_oplen hf, recordHead_type, recordHead_oprnum hf, plainSize]
  by_cases hty : source.ptr.type = .remill
  · rw [if_pos (by rw [hty]), ← hlen]
    rfl
  · rw [if_neg fun hc => hty (HandlerType.toNat_inj hc), operandBytes, if_neg hty]

/-- 書いた record を `dump` が読む一回分。 -/
theorem dumpHandler_recordBytes (disas : ArchType → Bytes → String × Nat)
    (hmd : md.flags = e.flags) {source : Handler} (hf : Fits source) (impl : UInt16) (p q : Bytes)
    (i : Nat) (hfile : file = p ++ e.recordBytes source.ptr impl ++ q) :
    (dumpNeed e source.ptr impl ≤ file.length - p.length →
      ∃ record, dumpHandler disas file md i p.length
          = .ok (record, p.length + dumpAdvance e source.ptr impl) ∧
        record.offset = p.length - md.offHandlers.toNat) ∧
    (¬ dumpNeed e source.ptr impl ≤ file.length - p.length →
      dumpHandler disas file md i p.length = .error (.truncatedAot i)) := by
  have hread : handlerCodec.read file p.length = some (recordHead source.ptr impl) := by
    rw [hfile]
    exact read_recordHead source.ptr impl p q
  have hplain : plainSize source.ptr ≤ file.length - p.length := by
    have h1 := plainSize_le_aotimplOffset (e := e) source.ptr
    have h2 := aotimplOffset_le_recordSize (e := e) source.ptr
    have h3 := length_recordBytes (e := e) hf impl
    rw [hfile, List.length_append, List.length_append]
    omega
  have hty := source.ptr.type.toNat_lt
  have hguard : ¬ (HandlerType.prebuiltMapped.toNat < (recordHead source.ptr impl).type.toNat ∨
      file.length - p.length < plainSize source.ptr) := by
    have hpm : HandlerType.prebuiltMapped.toNat = 4 := rfl
    rw [recordHead_type, hpm]
    omega
  simp only [dumpHandler, hread, dumpRecordSize_recordHead hf, if_neg hguard, hmd, flags_haswx]
  have himpl : (recordHead source.ptr impl).impl = impl := rfl
  -- 実装の code を読むのは、code を持つ file の dynamic の record だけである
  by_cases hwx : e.haswx = false
  · have hadv : dumpAdvance e source.ptr impl = plainSize source.ptr := if_neg (by simp [hwx])
    have hneed : dumpNeed e source.ptr impl = plainSize source.ptr :=
      if_neg fun hc => by simp [hwx] at hc
    rw [if_pos hwx, hadv, hneed]
    exact ⟨fun _ => ⟨_, rfl, rfl⟩, fun hc => absurd hplain hc⟩
  · rw [if_neg hwx]
    have hwx : e.haswx = true := Bool.not_eq_false _ ▸ hwx
    have hadv : dumpAdvance e source.ptr impl = align4 (dumpNeed e source.ptr impl) := if_pos hwx
    by_cases hdyn : source.ptr.type = .dynamic
    · have hneed : dumpNeed e source.ptr impl = align4 (plainSize source.ptr) + impl.toNat :=
        if_pos ⟨hwx, hdyn⟩
      rw [recordHead_type, if_pos (by rw [hdyn]), himpl, hadv, hneed]
      refine ⟨fun hle => ?_, fun hlt => ?_⟩
      · rw [if_neg (Nat.not_lt.mpr hle)]
        exact ⟨_, rfl, rfl⟩
      · rw [if_pos (Nat.lt_of_not_le hlt)]
    · have hneed : dumpNeed e source.ptr impl = plainSize source.ptr :=
        if_neg fun hc => hdyn hc.2
      rw [recordHead_type, if_neg fun hc => hdyn (HandlerType.toNat_inj hc), hadv, hneed]
      exact ⟨fun _ => ⟨_, rfl, rfl⟩, fun hc => absurd hplain hc⟩

theorem dumpHandler_offset {i ho next : Nat} {record : DumpRecord}
    (h : dumpHandler disas file md i ho = .ok (record, next)) :
    record.offset = ho - md.offHandlers.toNat := by
  unfold dumpHandler at h
  split at h
  · cases h
  simp only at h
  split at h
  · cases h
  split at h
  · cases h; rfl
  split at h
  · split at h
    · cases h
    · cases h; rfl
  · cases h; rfl

/-! ## record の列 -/

/-- `ho` から辿ると、残りの record の offset が書き手の割り当てと一致すること。 -/
def Walks (disas : ArchType → Bytes → String × Nat) (file : Bytes) (md : Header) (i ho : Nat)
    (out : List (Nat × Bytes)) : Prop :=
  ∃ records, dumpHandlers disas file md out.length i ho = .ok records ∧
    records.map DumpRecord.offset = out.map Prod.fst

theorem walks_nil (i ho : Nat) : Walks disas file md i ho [] := ⟨[], rfl, rfl⟩

/-- 一致していれば、いまの位置は先頭の record の offset である。 -/
theorem Walks.head_offset {i ho off : Nat} {record : Bytes}
    (h : Walks disas file md i ho ((off, record) :: out)) : ho - md.offHandlers.toNat = off := by
  obtain ⟨records, hrun, hmap⟩ := h
  rw [List.length_cons, dumpHandlers] at hrun
  split at hrun
  · cases hrun
  next r next hr =>
  split at hrun
  · cases hrun
  next rest hrest =>
  rw [Except.ok.injEq] at hrun
  rw [← hrun, List.map_cons, List.map_cons, List.cons.injEq] at hmap
  rw [← dumpHandler_offset hr, hmap.1]

/-- record 一つ分の前進。 -/
theorem walks_cons (hmd : md.flags = e.flags) {source : Handler} (hf : Fits source)
    (impl : UInt16) (p q : Bytes) (i : Nat) {off : Nat}
    (hfile : file = p ++ e.recordBytes source.ptr impl ++ q)
    (hp : p.length = md.offHandlers.toNat + off) :
    Walks disas file md i p.length ((off, e.recordBytes source.ptr impl) :: out) ↔
      dumpNeed e source.ptr impl ≤ file.length - p.length ∧
        Walks disas file md (i + 1) (p.length + dumpAdvance e source.ptr impl) out := by
  obtain ⟨hok, herr⟩ := dumpHandler_recordBytes disas hmd hf impl p q i hfile
  by_cases hneed : dumpNeed e source.ptr impl ≤ file.length - p.length
  · obtain ⟨record, hrun, hoff⟩ := hok hneed
    have hoff : record.offset = off := by omega
    refine ⟨fun ⟨records, hwalk, hmap⟩ => ⟨hneed, ?_⟩, fun ⟨_, records, hwalk, hmap⟩ => ?_⟩
    · rw [List.length_cons, dumpHandlers, hrun] at hwalk
      simp only at hwalk
      split at hwalk
      · cases hwalk
      next rest hrest =>
      rw [Except.ok.injEq] at hwalk
      rw [← hwalk, List.map_cons, List.map_cons, List.cons.injEq] at hmap
      exact ⟨rest, hrest, hmap.2⟩
    · refine ⟨record :: records, ?_, ?_⟩
      · rw [List.length_cons, dumpHandlers, hrun]
        simp only [hwalk]
      · rw [List.map_cons, List.map_cons, hoff, hmap]
  · refine ⟨fun ⟨records, hwalk, _⟩ => ?_, fun ⟨hc, _⟩ => absurd hc hneed⟩
    rw [List.length_cons, dumpHandlers, herr hneed] at hwalk
    cases hwalk

/-- 歩幅がいつも書き手の record の長さなら、最後まで辿れる。 -/
theorem Serialized.walks_of_advance (hmd : md.flags = e.flags)
    (hadv : ∀ (h : OpcodeHandler) (dyn dyn' : Nat) (impl : UInt16),
      e.implField h dyn = some (impl, dyn') → dumpAdvance e h impl = e.recordSize h)
    {hs : List Handler} {off dyn : Nat} (h : Serialized e hs off dyn out) :
    ∀ (i : Nat) (p : Bytes), file = p ++ (out.map Prod.snd).flatten →
      p.length = md.offHandlers.toNat + off → Walks disas file md i p.length out := by
  induction h with
  | nil => intro i p _ _; exact walks_nil i _
  | @cons source rest off dyn dyn' impl out himpl hf hlim hrest ih =>
    intro i p hfile hp
    simp only [List.map_cons, List.flatten_cons, ← List.append_assoc] at hfile
    have hlen := length_recordBytes (e := e) hf impl
    have hnext := hadv _ _ _ _ himpl
    rw [walks_cons hmd hf impl p _ i hfile hp]
    refine ⟨?_, ?_⟩
    · have hle := dumpNeed_le_dumpAdvance (e := e) source.ptr impl
      rw [hfile, List.length_append, List.length_append]
      omega
    · have := ih (i + 1) _ hfile (by rw [List.length_append, hlen, hp, Nat.add_assoc])
      rwa [List.length_append, hlen, ← hnext] at this

/-! ## 歩幅の合う構成 -/

theorem dumpAdvance_of_not_haswx (hwx : e.haswx = false) (h : OpcodeHandler) (impl : UInt16) :
    dumpAdvance e h impl = e.recordSize h := by
  have haot : e.aotimpl = false := by rw [aotimpl, hwx, Bool.false_and]
  rw [dumpAdvance, recordSize, if_neg (by simp [hwx]), if_neg (by simp [haot])]
  rfl

theorem implField_of_aotimpl (ha : e.aotimpl = true) {h : OpcodeHandler}
    (hty : h.type = .dynamic) {dyn dyn' : Nat} {impl : UInt16}
    (himpl : e.implField h dyn = some (impl, dyn')) : impl = h.implsize := by
  simp only [implField, hty, if_pos ha] at himpl
  split at himpl
  · cases himpl
  · cases himpl; rfl

/-- native code を埋める file では、`impl` が native code の長さなので歩幅が合う。 -/
theorem dumpAdvance_of_aotimpl (ha : e.aotimpl = true) {h : OpcodeHandler} {dyn dyn' : Nat}
    {impl : UInt16} (himpl : e.implField h dyn = some (impl, dyn')) :
    dumpAdvance e h impl = e.recordSize h := by
  have hwx : e.haswx = true := by
    rw [aotimpl, Bool.and_eq_true] at ha
    exact ha.1
  have hoff : e.aotimplOffset h = align4 (plainSize h) := if_pos ha
  rw [dumpAdvance, if_pos hwx, recordSize, if_pos ha, hoff]
  by_cases hty : h.type = .dynamic
  · rw [dumpNeed, if_pos ⟨hwx, hty⟩, codeSize, if_pos ⟨ha, hty⟩, implField_of_aotimpl ha hty himpl]
  · rw [dumpNeed, if_neg fun hc => hty hc.2, codeSize, if_neg fun hc => hty hc.2, Nat.add_zero,
      align4_align4]

/-! ## x86-64 の guest を `haswx` で書き出した file -/

theorem implField_dyn_of_ne {h : OpcodeHandler} (hty : h.type ≠ .dynamic) {dyn dyn' : Nat}
    {impl : UInt16} (himpl : e.implField h dyn = some (impl, dyn')) : dyn' = dyn := by
  unfold implField at himpl
  split at himpl
  · split at himpl
    · cases himpl
    · split at himpl
      · cases himpl
      · cases himpl; rfl
  · split at himpl
    · split at himpl
      · cases himpl
      · cases himpl; rfl
    · cases himpl
  · next hc => exact absurd hc hty
  · cases himpl

/-- native code を埋めない file では、Dynamic の `impl` は通し番号である。 -/
theorem implField_of_not_aotimpl (ha : e.aotimpl = false) {h : OpcodeHandler}
    (hty : h.type = .dynamic) {dyn dyn' : Nat} {impl : UInt16}
    (himpl : e.implField h dyn = some (impl, dyn')) : impl.toNat = dyn ∧ dyn' = dyn + 1 := by
  simp only [implField, hty, ha] at himpl
  split at himpl
  · next hc => cases hc
  split at himpl
  · cases himpl
  next hlt =>
  have hno : noImpl = 65535 := rfl
  cases himpl
  rw [UInt16.toNat_ofNat', Nat.mod_eq_of_lt (by omega)]
  exact ⟨rfl, rfl⟩

section X86

variable (hwx : e.haswx = true) (ha : e.aotimpl = false)

include hwx ha

theorem dumpNeed_le_plainSize_iff {h : OpcodeHandler} {dyn dyn' : Nat} {impl : UInt16}
    (himpl : e.implField h dyn = some (impl, dyn')) :
    dumpNeed e h impl ≤ plainSize h ↔
      (h.type = .dynamic → plainSize h % 4 = 0 ∧ dyn = 0) := by
  by_cases hty : h.type = .dynamic
  · obtain ⟨hidx, -⟩ := implField_of_not_aotimpl ha hty himpl
    have hle := le_align4 (plainSize h)
    rw [dumpNeed, if_pos ⟨hwx, hty⟩, hidx, ← align4_eq_self]
    constructor
    · intro hneed _
      omega
    · intro hc
      have := hc hty
      omega
  · rw [dumpNeed, if_neg fun hc => hty hc.2]
    exact ⟨fun _ hc => absurd hc hty, fun _ => Nat.le_refl _⟩

theorem dumpAdvance_eq_plainSize_iff {h : OpcodeHandler} {dyn dyn' : Nat} {impl : UInt16}
    (himpl : e.implField h dyn = some (impl, dyn')) :
    dumpAdvance e h impl = plainSize h ↔
      plainSize h % 4 = 0 ∧ (h.type = .dynamic → dyn = 0) := by
  rw [dumpAdvance, if_pos hwx]
  by_cases hty : h.type = .dynamic
  · obtain ⟨hidx, -⟩ := implField_of_not_aotimpl ha hty himpl
    have hle := le_align4 (plainSize h)
    have hle' := le_align4 (align4 (plainSize h) + dyn)
    rw [dumpNeed, if_pos ⟨hwx, hty⟩, hidx, ← align4_eq_self]
    constructor
    · intro hadv
      exact ⟨by omega, fun _ => by omega⟩
    · rintro ⟨halign, hdyn⟩
      rw [hdyn hty, Nat.add_zero, align4_align4, halign]
  · rw [dumpNeed, if_neg fun hc => hty hc.2, align4_eq_self]
    exact ⟨fun h => ⟨h, fun hc => absurd hc hty⟩, fun h => h.1⟩

end X86

/--
x86-64 の file の record を最後まで辿れる条件。後ろに record の続く record と、Dynamic の record は
4 の倍数の長さで、Dynamic は通し番号 0 のもの一つだけである。
-/
def InStep : Nat → List Handler → Prop
  | _, [] => True
  | dyn, source :: rest =>
    (rest ≠ [] ∨ source.ptr.type = .dynamic → plainSize source.ptr % 4 = 0) ∧
      (source.ptr.type = .dynamic → dyn = 0) ∧
      InStep (if source.ptr.type = .dynamic then dyn + 1 else dyn) rest

theorem Serialized.walks_iff_inStep (hmd : md.flags = e.flags) (hwx : e.haswx = true)
    (ha : e.aotimpl = false) {hs : List Handler} {off dyn : Nat}
    (h : Serialized e hs off dyn out) :
    ∀ (i : Nat) (p : Bytes), file = p ++ (out.map Prod.snd).flatten →
      p.length = md.offHandlers.toNat + off →
      (Walks disas file md i p.length out ↔ InStep dyn hs) := by
  induction h with
  | nil => intro i p _ _; exact ⟨fun _ => trivial, fun _ => walks_nil i _⟩
  | @cons source rest off dyn dyn' impl out himpl hf hlim hrest ih =>
    intro i p hfile hp
    simp only [List.map_cons, List.flatten_cons, ← List.append_assoc] at hfile
    have hsize : e.recordSize source.ptr = plainSize source.ptr := if_neg (by simp [ha])
    have hlen := length_recordBytes (e := e) hf impl
    have hdyn : dyn' = if source.ptr.type = .dynamic then dyn + 1 else dyn := by
      by_cases hty : source.ptr.type = .dynamic
      · rw [if_pos hty, (implField_of_not_aotimpl ha hty himpl).2]
      · rw [if_neg hty, implField_dyn_of_ne hty himpl]
    have hneed := dumpNeed_le_plainSize_iff hwx ha himpl
    have hadv := dumpAdvance_eq_plainSize_iff hwx ha himpl
    rw [walks_cons hmd hf impl p _ i hfile hp, InStep, ← hdyn]
    cases hrest with
    | nil =>
      -- 最後の record は file の終わりまでである
      have hrem : file.length - p.length = plainSize source.ptr := by
        rw [hfile]
        simp [hlen, hsize]
      rw [hrem, hneed]
      constructor
      · rintro ⟨hc, -⟩
        exact ⟨fun hor => (hc (hor.resolve_left fun h => h rfl)).1, fun hty => (hc hty).2, trivial⟩
      · rintro ⟨h1, h2, -⟩
        exact ⟨fun hty => ⟨h1 (Or.inr hty), h2 hty⟩, walks_nil _ _⟩
    | @cons source' rest' _ _ dyn'' impl' out' himpl' hf' hlim' hrest' =>
      have hih := ih (i + 1) _ hfile (by rw [List.length_append, hlen, hp, Nat.add_assoc])
      rw [List.length_append, hlen, hsize] at hih
      constructor
      · rintro ⟨-, hwalk⟩
        have hnext : dumpAdvance e source.ptr impl = plainSize source.ptr := by
          have hhead := hwalk.head_offset
          omega
        rw [hnext] at hwalk
        obtain ⟨h1, h2⟩ := hadv.mp hnext
        rw [hsize] at hwalk
        exact ⟨fun _ => h1, h2, hih.mp hwalk⟩
      · rintro ⟨h1, h2, h3⟩
        have hnext := hadv.mpr ⟨h1 (Or.inl (List.cons_ne_nil _ _)), h2⟩
        refine ⟨?_, ?_⟩
        · have hle := dumpNeed_le_dumpAdvance (e := e) source.ptr impl
          rw [hfile, List.length_append, List.length_append]
          omega
        · rw [hnext, hsize]
          exact hih.mpr h3

/-- 詰め物も native code も無いと読んでよい handler の列。 -/
structure Unpadded (hs : List Handler) : Prop where
  inner : ∀ source ∈ hs.dropLast, plainSize source.ptr % 4 = 0
  dynamic : ∀ source ∈ hs, source.ptr.type = .dynamic → plainSize source.ptr % 4 = 0
  single : hs.countP (fun source => source.ptr.type = .dynamic) ≤ 1

theorem inStep_iff : ∀ (hs : List Handler) (dyn : Nat), InStep dyn hs ↔
    (∀ source ∈ hs.dropLast, plainSize source.ptr % 4 = 0) ∧
      (∀ source ∈ hs, source.ptr.type = .dynamic → plainSize source.ptr % 4 = 0) ∧
      (hs.countP (fun source => source.ptr.type = .dynamic) = 0 ∨
        dyn + hs.countP (fun source => source.ptr.type = .dynamic) ≤ 1)
  | [], dyn => by simp [InStep]
  | [source], dyn => by
    by_cases hty : source.ptr.type = .dynamic <;> simp [InStep, hty]
  | source :: source' :: rest, dyn => by
    -- 後ろに record が続くので、先頭の長さは 4 の倍数でなければならない
    rw [InStep, inStep_iff (source' :: rest), List.dropLast_cons_cons,
      List.forall_mem_cons (l := (source' :: rest).dropLast),
      List.forall_mem_cons (a := source) (l := source' :: rest)]
    by_cases hty : source.ptr.type = .dynamic
    · rw [List.countP_cons_of_pos (a := source) (by simpa using hty), if_pos hty]
      constructor
      · rintro ⟨h1, h2, h3, h4, h5⟩
        have h1 := h1 (Or.inr hty)
        have h2 := h2 hty
        exact ⟨⟨h1, h3⟩, ⟨fun _ => h1, h4⟩, by omega⟩
      · rintro ⟨⟨h1, h3⟩, ⟨-, h4⟩, h5⟩
        exact ⟨fun _ => h1, fun _ => by omega, h3, h4, by omega⟩
    · rw [List.countP_cons_of_neg (a := source) (by simpa using hty), if_neg hty]
      constructor
      · rintro ⟨h1, -, h3, h4, h5⟩
        exact ⟨⟨h1 (Or.inl (List.cons_ne_nil _ _)), h3⟩, ⟨fun hc => absurd hc hty, h4⟩, h5⟩
      · rintro ⟨⟨h1, h3⟩, ⟨-, h4⟩, h5⟩
        exact ⟨fun _ => h1, fun hc => absurd hc hty, h3, h4, h5⟩

theorem inStep_zero_iff (hs : List Handler) : InStep 0 hs ↔ Unpadded hs := by
  rw [inStep_iff]
  constructor
  · rintro ⟨h1, h2, h3⟩
    exact ⟨h1, h2, by omega⟩
  · rintro ⟨h1, h2, h3⟩
    exact ⟨h1, h2, by omega⟩

/-! ## file 全体 -/

namespace Written

theorem sectionsValid (h : Written e operands expressions file out insns) :
    PreEncoder.sectionsValid file h.metadata := by
  obtain ⟨h1, h2, h3, h4, h5⟩ := h.sections
  obtain ⟨hsize, -⟩ := h.metadata_toNat
  exact ⟨h1.symm, h2, h3, h4, by omega⟩

/-- header と section の検査は必ず通る。 -/
theorem dump_eq (disas : ArchType → Bytes → String × Nat)
    (h : Written e operands expressions file out insns) :
    dump disas file = match dumpHandlers disas file h.metadata out.length 0
        h.metadata.offHandlers.toNat with
      | .error err => .error err
      | .ok records =>
        .ok ⟨h.metadata, dumpInsns file h.metadata, records,
          referencedOffsets (dumpInsns file h.metadata) \ computedOffsets records⟩ := by
  obtain ⟨hsize, -, -, -, -, -, -, -, hnum⟩ := h.metadata_toNat
  have hlen := h.length_eq
  have hle := h.size_le
  have hmagic : ¬ h.metadata.magic ≠ kMagic := not_not.mpr rfl
  have hversion : ¬ h.metadata.version ≠ kVersion := not_not.mpr rfl
  rw [dump, if_neg (by omega), if_neg (Nat.not_lt.mpr hle), h.read_header]
  cases hrun : dumpHandlers disas file h.metadata out.length 0 h.metadata.offHandlers.toNat with
  | error err =>
    simp only [if_neg hmagic, if_neg hversion, if_neg (not_not.mpr hsize),
      if_neg (not_not.mpr h.sectionsValid), hnum, hrun]
  | ok records =>
    simp only [if_neg hmagic, if_neg hversion, if_neg (not_not.mpr hsize),
      if_neg (not_not.mpr h.sectionsValid), hnum, hrun]

theorem dumpInsns_eq (h : Written e operands expressions file out insns) :
    dumpInsns file h.metadata = insns := by
  obtain ⟨-, hoi, hni, -⟩ := h.metadata_toNat
  have hb := h.bytes
  rw [List.append_assoc, List.append_assoc] at hb
  rw [dumpInsns, hoi, hni]
  refine List.ext_getElem (by simp) fun i h1 h2 => ?_
  have hread := Codec.read_encArray_getElem insnMetaCodec hb (List.getElem?_eq_getElem h2)
  rw [Codec.length_enc] at hread
  rw [List.getElem_map, List.getElem_range, hread, Option.getD_some]

/-- 命令の指す offset は、どれも書き手の割り当てた offset である。 -/
theorem referenced_subset (h : Written e operands expressions file out insns)
    {records : List DumpRecord} (hmap : records.map DumpRecord.offset = out.map Prod.fst) :
    referencedOffsets insns \ computedOffsets records = ∅ := by
  rw [Finset.sdiff_eq_empty_iff_subset]
  intro off hoff
  rw [referencedOffsets, List.mem_toFinset, List.mem_map] at hoff
  obtain ⟨insn, hmem, rfl⟩ := hoff
  rw [List.mem_filter, decide_eq_true_eq] at hmem
  obtain ⟨hmem, hno⟩ := hmem
  obtain ⟨i, hi⟩ := List.mem_iff_getElem?.mp hmem
  obtain ⟨hlen, hget⟩ := resolveInsns_getElem? h.resolved
  have hlt : i < e.insnmetas.length := by
    rw [← hlen]
    exact (List.getElem?_eq_some_iff.mp hi).1
  obtain ⟨o, ho, -, hcase⟩ := hget (List.getElem?_eq_getElem hlt)
  rw [hi, Option.some.injEq] at ho
  subst ho
  rcases hcase with ⟨-, hc⟩ | ⟨-, off, hoff, hhandler⟩
  · exact absurd hc hno
  -- 命令の指す offset は、書き手が割り当てたもののどれかである
  rw [computedOffsets, List.mem_toFinset, hhandler]
  have hcomp : (records.map fun record => UInt32.ofNat record.offset)
      = (records.map DumpRecord.offset).map UInt32.ofNat := by
    rw [List.map_map]
    rfl
  rw [hcomp, hmap]
  exact List.mem_map_of_mem (List.mem_of_getElem? hoff)

theorem walks_iff (h : Written e operands expressions file out insns) :
    Walks disas file h.metadata 0 h.metadata.offHandlers.toNat out ↔
      (e.haswx = true → e.arch = .x86_64 → Unpadded e.handlers) := by
  obtain ⟨-, -, -, -, -, -, -, hoh, -⟩ := h.metadata_toNat
  -- header と二つの表を `p` に入れると、record の列は file の残り全部になる
  obtain ⟨p, hp, hfile⟩ : ∃ p : Bytes, p.length = h.metadata.offHandlers.toNat + 0 ∧
      file = p ++ (out.map Prod.snd).flatten := by
    refine ⟨_, ?_, h.bytes⟩
    rw [hoh]
    simp only [List.length_append, Codec.length_enc, Codec.length_encArray, Nat.add_zero]
  have hmd : h.metadata.flags = e.flags := rfl
  rw [Nat.add_zero] at hp
  rw [← hp]
  by_cases hwx : e.haswx = true
  · by_cases harch : e.arch = .arm64
    · -- ARM64 の guest では native code が埋まっている
      have haot : e.aotimpl = true := by rw [aotimpl, hwx, harch]; rfl
      refine ⟨fun _ _ hc => ?_, fun _ => ?_⟩
      · rw [harch] at hc
        cases hc
      · exact h.isSerialized.walks_of_advance hmd
          (fun _ _ _ _ himpl => dumpAdvance_of_aotimpl haot himpl) 0 p hfile hp
    · have haot : e.aotimpl = false := by
        rw [aotimpl, hwx, Bool.true_and]
        exact beq_eq_false_iff_ne.mpr harch
      have hx86 : e.arch = .x86_64 := by
        cases hc : e.arch with
        | arm64 => exact absurd hc harch
        | x86_64 => rfl
      rw [h.isSerialized.walks_iff_inStep hmd hwx haot 0 p hfile hp, inStep_zero_iff]
      exact ⟨fun hu _ _ => hu, fun hu => hu hwx hx86⟩
  · have hwx' : e.haswx = false := by simpa using hwx
    refine ⟨fun _ hc => absurd hc hwx, fun _ => ?_⟩
    exact h.isSerialized.walks_of_advance hmd
      (fun h _ _ impl _ => dumpAdvance_of_not_haswx hwx' h impl) 0 p hfile hp

end Written

/--
`dump` が file を正しく理解すること。検査はすべて通り、`num_handlers` 個の record を
`serializeHandler` の割り当てた offset で辿り、命令の指す offset はすべて辿った中にある。
-/
def Understood (disas : ArchType → Bytes → String × Nat) (e : PreEncoder) (file : Bytes) : Prop :=
  ∃ report serialized, dump disas file = .ok report ∧ e.serializeHandler = .ok serialized ∧
    report.handlers.length = report.metadata.numHandlers.toNat ∧
    report.handlers.map DumpRecord.offset = serialized.map Prod.fst ∧ report.mismatches = ∅

/-- 検査の通った file では、理解することは record を辿れることである。 -/
theorem Written.understood_iff_walks (hw : Written e operands expressions file out insns) :
    Understood disas e file ↔
      Walks disas file hw.metadata 0 hw.metadata.offHandlers.toNat out := by
  obtain ⟨-, -, -, -, -, -, -, -, hnum⟩ := hw.metadata_toNat
  constructor
  · rintro ⟨report, serialized, hdump, hser, -, hmap, -⟩
    rw [hw.serialized, Except.ok.injEq] at hser
    subst hser
    rw [hw.dump_eq disas] at hdump
    split at hdump
    · cases hdump
    next records hrun =>
    rw [Except.ok.injEq] at hdump
    subst hdump
    exact ⟨records, hrun, hmap⟩
  · rintro ⟨records, hrun, hmap⟩
    have hdump := hw.dump_eq disas
    rw [hrun] at hdump
    refine ⟨_, out, hdump, hw.serialized, ?_, hmap, ?_⟩
    · have hlen := congrArg List.length hmap
      rw [List.length_map, List.length_map] at hlen
      exact hlen.trans hnum.symm
    · simp only [hw.dumpInsns_eq]
      exact hw.referenced_subset hmap

/--
`dump` が書き手の file を理解する条件。

x86-64 の guest を `haswx` で書き出したのでなければ、いつも理解する。x86-64 の `haswx` では、
最後を除く record と Dynamic の record の長さが 4 の倍数で、Dynamic が高々一つのときに限る。
-/
theorem understood_iff (disas : ArchType → Bytes → String × Nat)
    (h : e.serialize operands expressions = .ok file) :
    Understood disas e file ↔ (e.haswx = true → e.arch = .x86_64 → Unpadded e.handlers) := by
  obtain ⟨out, insns, hw⟩ := written_of_ok h
  rw [hw.understood_iff_walks, hw.walks_iff]

theorem sample_understood : ∃ file, sample.serialize sampleOperands [] = .ok file ∧
    Understood (fun _ _ => ("", 0)) sample file := by
  have h : ∃ file, sample.serialize sampleOperands [] = .ok file := ⟨_, rfl⟩
  obtain ⟨file, h⟩ := h
  exact ⟨file, h, (understood_iff _ h).mpr fun _ hc => absurd hc (by decide)⟩

/-- 1 byte の命令（`ret` と `nop`）を二つ持つ x86-64 の binary。 -/
def sampleX86 : PreEncoder where
  arch := .x86_64
  haswx := true
  tables := ⟨[], [⟨3, 0x5000⟩, ⟨9, 0x5010⟩]⟩
  mem := fun _ => 0
  handlers := [⟨1, ⟨[0xc3], 1, .remill, 0, [], 0x5000⟩, rfl⟩,
    ⟨1, ⟨[0x90], 1, .remill, 0, [], 0x5010⟩, rfl⟩]
  insnmetas := [⟨0x1000, 0⟩, ⟨0x1001, 1⟩]

/-- 二つ目の record は 5 から始まるが、`dump` は 8 から読もうとする。 -/
theorem sampleX86_not_understood : ∃ file, sampleX86.serialize [] [] = .ok file ∧
    ∀ disas, ¬ Understood disas sampleX86 file := by
  have h : ∃ file, sampleX86.serialize [] [] = .ok file := ⟨_, rfl⟩
  obtain ⟨file, h⟩ := h
  refine ⟨file, h, fun disas hu => ?_⟩
  obtain ⟨out, insns, hw⟩ := written_of_ok h
  rw [hw.understood_iff_walks, hw.walks_iff] at hu
  exact absurd ((hu rfl rfl).inner _ (List.mem_cons_self ..)) (by decide)

end AetherVM.PreEncoder
