import AetherVM.Interp.DispatchSound

/-!
# `nexticache` は分岐を覚えているか（`vmEntry`）

同じ module の中の分岐を二分探索で決めた後、`vmEntry` は `nexticache` を書き換える。ところがその前に `insn` を
見つけた命令で上書きするので、書き換えるのは分岐した命令の番号ではなく、見つけた命令の番号である。
分岐した命令の番号を書き換えたことになるのは、自分自身への分岐だけである。

どの命令から最後に二分探索で決めた行き先は、`last` として覚えておく。
-/

namespace AetherVM

open Infra IMetaData

namespace InterpMetaData

/-- 次の命令を二分探索で決めるときの、見つけた命令。 -/
def searchedTarget (st : VmState) (pc : UInt64) : Option Nat :=
  match st.runtimes[st.rt]? with
  | none => none
  | some rt =>
    if rt.contain pc = true ∧ rt.rtbase + (rt.insn (st.insn + 1)).rva.toUInt64 ≠ pc then
      match rt.nexticache[st.insn]? with
      | none => none
      | some cached =>
        if rt.rtbase + (rt.insn cached).rva.toUInt64 = pc then none else rt.find pc
    else none

/-- `vmEntry` の状態と、module と命令ごとの、最後に二分探索で決めた行き先。 -/
structure CacheHistory where
  st : VmState
  last : Nat → Nat → Option Nat

/-- handler の残した pc と、次の `vmEntry` の呼び出し。 -/
inductive VmInput where
  | pc (pc : UInt64)
  | enter (j insn : Nat)

namespace CacheHistory

variable (this : UInt64) (h : CacheHistory)

/-- 二分探索で決めた行き先を覚える。 -/
def remember (pc : UInt64) : Nat → Nat → Option Nat := fun j s =>
  if j = h.st.rt ∧ s = h.st.insn then (searchedTarget h.st pc).or (h.last j s) else h.last j s

/-- 一歩。host を呼ぶ間、状態は変わらない。 -/
def step : VmInput → Option CacheHistory
  | .pc pc =>
    match (dispatch this h.st pc).2 with
    | .next st => some ⟨st, h.remember pc⟩
    | .host => some h
    | _ => none
  | .enter j insn => (h.st.runtimes[j]?).map fun rt => ⟨h.st.enter j rt insn, h.last⟩

/-- 二分探索で決める分岐は、自分自身への分岐に限ること。 -/
def Ok : VmInput → Prop
  | .pc pc => ∀ t ∈ searchedTarget h.st pc, t = h.st.insn
  | .enter _ _ => True

instance : (i : VmInput) → Decidable (h.Ok i)
  | .pc pc => inferInstanceAs (Decidable (∀ t ∈ searchedTarget h.st pc, t = h.st.insn))
  | .enter _ _ => .isTrue trivial

/--
`nexticache` のどの値も、初めの値か最後に二分探索で決めた行き先であり、その行き先への次の分岐は、二分探索を
せずに決まること。
-/
structure Remembers : Prop where
  known : ∀ (j : Nat) rt s c, h.st.runtimes[j]? = some rt → rt.nexticache[s]? = some c →
    c = s + 1 ∨ h.last j s = some c
  hit : ∀ rt pc t, h.st.runtimes[h.st.rt]? = some rt → rt.contain pc = true →
    h.last h.st.rt h.st.insn = some t → rt.rtbase + (rt.insn t).rva.toUInt64 = pc →
    searchedTarget h.st pc = none ∧ ∃ k, (dispatch this h.st pc).2 = .next { h.st with insn := k } ∧
      rt.rtbase + (rt.insn k).rva.toUInt64 = pc

/-- `nexticache` は、最後に二分探索で決めた行き先、無ければ初めの値である。 -/
structure Kept : Prop where
  value : ∀ (j : Nat) rt s c, h.st.runtimes[j]? = some rt → rt.nexticache[s]? = some c →
    c = (h.last j s).getD (s + 1)
  slot : ∀ (j : Nat) rt s t, h.st.runtimes[j]? = some rt → h.last j s = some t →
    rt.nexticache[s]? = some t

end CacheHistory

/-! ## 一歩の場合分け -/

variable {this pc : UInt64} {st st' : VmState} {rt : RuntimeMetaData} {t : Nat}

/-- 二分探索で決める一歩は、見つけた命令自身の `nexticache` を書き換える。 -/
theorem dispatch_of_searchedTarget (this : UInt64) (ht : searchedTarget st pc = some t) :
    ∃ rt, st.runtimes[st.rt]? = some rt ∧ st.insn < rt.nexticache.length ∧
      (dispatch this st pc).2 = .next (st.cache rt t) := by
  unfold searchedTarget at ht
  cases hrt : st.runtimes[st.rt]? with
  | none => simp [hrt] at ht
  | some rt =>
    simp only [hrt] at ht
    obtain ⟨⟨hin, hseq⟩, ht⟩ := Option.ite_none_right_eq_some.mp ht
    cases hget : rt.nexticache[st.insn]? with
    | none => simp [hget] at ht
    | some cached =>
      simp only [hget] at ht
      obtain ⟨hmiss, hfind⟩ := Option.ite_none_left_eq_some.mp ht
      refine ⟨rt, rfl, (List.getElem?_eq_some_iff.mp hget).1, ?_⟩
      simp only [dispatch_same this hrt hin, dispatchSame, if_neg hseq, hget, if_neg hmiss, hfind]

/-- 二分探索をしない一歩は、`nexticache` を書き換えない。 -/
theorem runtimes_of_searchedTarget_none (ht : searchedTarget st pc = none)
    (hnext : (dispatch this st pc).2 = .next st') : st'.runtimes = st.runtimes := by
  unfold searchedTarget at ht
  cases hrt : st.runtimes[st.rt]? with
  | none => simp [dispatch, hrt] at hnext
  | some rt =>
    simp only [hrt] at ht
    by_cases hin : rt.contain pc = true
    · rw [dispatch_same this hrt hin] at hnext
      unfold dispatchSame at hnext
      by_cases hseq : rt.rtbase + (rt.insn (st.insn + 1)).rva.toUInt64 = pc
      · rw [if_pos hseq] at hnext
        obtain rfl := Outcome.next.inj hnext
        rfl
      · rw [if_pos ⟨hin, hseq⟩] at ht
        rw [if_neg hseq] at hnext
        cases hget : rt.nexticache[st.insn]? with
        | none => simp [hget] at hnext
        | some cached =>
          simp only [hget] at ht hnext
          by_cases hhit : rt.rtbase + (rt.insn cached).rva.toUInt64 = pc
          · rw [if_pos hhit] at hnext
            obtain rfl := Outcome.next.inj hnext
            rfl
          · rw [if_neg hhit] at ht
            simp [hhit, ht] at hnext
    · have hother : ∀ {s}, (dispatchOther st pc).2 = .next s → s.runtimes = st.runtimes := by
        intro s hs
        unfold dispatchOther at hs
        split at hs
        · split at hs
          · cases hs
          · split at hs
            · cases hs
            · obtain rfl := Outcome.next.inj hs
              rfl
        · cases hs
      simp only [dispatch, hrt, hin, Bool.false_eq_true, if_false] at hnext
      split at hnext
      · exact hother hnext
      · split at hnext
        · cases hnext
        · cases hnext

namespace CacheHistory

variable {h h' : CacheHistory} {i : VmInput}

/-- 覚えている行き先への分岐は、`nexticache` から決まる。 -/
theorem Kept.remembers (hk : h.Kept) (this : UInt64) : h.Remembers this where
  known := by
    intro j rt s c hrt hc
    have hvalue := hk.value j rt s c hrt hc
    cases hlast : h.last j s with
    | none => exact .inl (by rw [hvalue, hlast, Option.getD_none])
    | some t => exact .inr (by rw [hvalue, hlast, Option.getD_some])
  hit := by
    intro rt pc t hrt hin hlast hpc
    have hget := hk.slot _ rt _ t hrt hlast
    rw [dispatch_same this hrt hin]
    unfold dispatchSame searchedTarget
    by_cases hseq : rt.rtbase + (rt.insn (h.st.insn + 1)).rva.toUInt64 = pc
    · refine ⟨by simp [hrt, hseq], h.st.insn + 1, ?_, hseq⟩
      rw [if_pos hseq]
    · refine ⟨by simp [hrt, hget, hpc], t, ?_, hpc⟩
      simp only [if_neg hseq, hget, if_pos hpc]

/-- 初めは、どの命令からも二分探索をしていない。 -/
theorem kept_init (hfresh : ∀ rt ∈ st.runtimes, rt.nexticache = freshCache rt.insns.length) :
    Kept ⟨st, fun _ _ => none⟩ where
  value := by
    intro j rt s c hrt hc
    rw [hfresh rt (List.mem_of_getElem? hrt), freshCache, List.getElem?_map] at hc
    obtain ⟨i, hi, rfl⟩ := Option.map_eq_some_iff.mp hc
    obtain ⟨hlt, rfl⟩ := List.getElem?_eq_some_iff.mp hi
    rw [List.getElem_range]
    rfl
  slot := by
    intro j rt s t _ hlast
    cases hlast

/-- 表を書き換えない一歩。 -/
theorem Kept.of_runtimes (hk : h.Kept) (hst : h'.st.runtimes = h.st.runtimes)
    (hlast : h'.last = h.last) : h'.Kept where
  value := by rw [hst, hlast]; exact hk.value
  slot := by rw [hst, hlast]; exact hk.slot

/-- 自分自身への分岐で書き換わるのは、いまの命令の `nexticache` と行き先だけである。 -/
theorem slot_search_self (ht : searchedTarget h.st pc = some h.st.insn)
    (hrt : h.st.runtimes[h.st.rt]? = some rt) (hlt : h.st.insn < rt.nexticache.length)
    {j s : Nat} {rt' : RuntimeMetaData}
    (hj : (h.st.cache rt h.st.insn).runtimes[j]? = some rt') :
    (rt'.nexticache[s]? = some s ∧ h.remember pc j s = some s) ∨
      ∃ rt₀, h.st.runtimes[j]? = some rt₀ ∧ rt'.nexticache[s]? = rt₀.nexticache[s]? ∧
        h.remember pc j s = h.last j s := by
  by_cases hcur : j = h.st.rt
  · subst hcur
    rw [VmState.cache, List.getElem?_set_self (List.getElem?_eq_some_iff.mp hrt).1] at hj
    obtain rfl := Option.some.inj hj
    by_cases hs : s = h.st.insn
    · subst hs
      exact .inl ⟨List.getElem?_set_self hlt, by simp [remember, ht]⟩
    · exact .inr ⟨rt, hrt, List.getElem?_set_ne (Ne.symm hs), if_neg fun hc => hs hc.2⟩
  · rw [VmState.cache, List.getElem?_set_ne (Ne.symm hcur)] at hj
    exact .inr ⟨rt', hj, rfl, if_neg fun hc => hcur hc.1⟩

theorem Kept.search_self (hk : h.Kept) (ht : searchedTarget h.st pc = some h.st.insn)
    (hrt : h.st.runtimes[h.st.rt]? = some rt) (hlt : h.st.insn < rt.nexticache.length) :
    Kept ⟨h.st.cache rt h.st.insn, h.remember pc⟩ where
  value := by
    intro j rt' s c hj hc
    show c = (h.remember pc j s).getD (s + 1)
    rcases slot_search_self (s := s) ht hrt hlt hj with ⟨hget, hlast⟩ | ⟨rt₀, hj₀, hget, hlast⟩
    · rw [hlast, Option.getD_some]
      exact Option.some.inj (hc.symm.trans hget)
    · rw [hlast]
      exact hk.value j rt₀ s c hj₀ (hget.symm.trans hc)
  slot := by
    intro j rt' s t hj hlast'
    have hlast' : h.remember pc j s = some t := hlast'
    rcases slot_search_self (s := s) ht hrt hlt hj with ⟨hget, hlast⟩ | ⟨rt₀, hj₀, hget, hlast⟩
    · rw [hget, ← hlast, hlast']
    · rw [hget]
      exact hk.slot j rt₀ s t hj₀ (hlast.symm.trans hlast')

theorem Kept.step (hk : h.Kept) (hok : h.Ok i) (hs : h.step this i = some h') : h'.Kept := by
  cases i with
  | enter j insn =>
    obtain ⟨rt, -, rfl⟩ := Option.map_eq_some_iff.mp hs
    exact hk.of_runtimes rfl rfl
  | pc pc =>
    unfold CacheHistory.step at hs
    cases hout : (dispatch this h.st pc).2 with
    | done => simp [hout] at hs
    | fault => simp [hout] at hs
    | host =>
      simp only [hout, Option.some.injEq] at hs
      exact hs ▸ hk
    | next st' =>
      simp only [hout, Option.some.injEq] at hs
      subst hs
      cases ht : searchedTarget h.st pc with
      | none =>
        refine hk.of_runtimes (runtimes_of_searchedTarget_none ht hout) ?_
        funext j s
        simp [remember, ht]
      | some t =>
        obtain rfl := hok t ht
        obtain ⟨rt, hrt, hlt, hnext⟩ := dispatch_of_searchedTarget this ht
        obtain rfl := Outcome.next.inj (hout.symm.trans hnext)
        exact hk.search_self ht hrt hlt

end CacheHistory

/--
どの module の列でも、`vmEntry` をどう呼び、handler がどの pc を残しても、二分探索で決める分岐が自分自身への
ものに限るなら、着くどの状態でも `nexticache` は分岐を覚えている。
-/
theorem run_remembers (this : UInt64) {h : CacheHistory}
    (hfresh : ∀ rt ∈ st.runtimes, rt.nexticache = freshCache rt.insns.length)
    (hrun : Run (fun h i h' => h.step this i = some h') CacheHistory.Ok ⟨st, fun _ _ => none⟩ h) :
    h.Remembers this :=
  have hkept : h.Kept := hrun.invariant (CacheHistory.kept_init hfresh)
    fun _ _ _ hk hok hs => hk.step hok hs
  hkept.remembers this

/-! ## 例 -/

/-- 本体の最初の命令に入ったところ。 -/
def sampleHistory : CacheHistory := ⟨atInsn 0 app 0, fun _ _ => none⟩

theorem sampleHistory_fresh : ∀ rt ∈ sampleHistory.st.runtimes,
    rt.nexticache = freshCache rt.insns.length := by
  intro rt hrt
  rcases List.mem_pair.mp hrt with rfl | rfl
  · rfl
  · rfl

/-- 最初の命令が自分自身へ分岐し、次の命令へ進み、library に入り直す。 -/
theorem sampleHistory_remembers : ∃ h : CacheHistory,
    h.last 0 0 = some 0 ∧ h.st.rt = 1 ∧ h.Remembers 0x9000 := by
  obtain ⟨h, htrace, hlast, hrt⟩ : ∃ h : CacheHistory,
      runTrace (fun h i => h.step 0x9000 i) CacheHistory.Ok
          [.pc 0x1000, .pc 0x1004, .enter 1 0] sampleHistory = some h ∧
        h.last 0 0 = some 0 ∧ h.st.rt = 1 := ⟨_, rfl, rfl, rfl⟩
  exact ⟨h, hlast, hrt, run_remembers 0x9000 sampleHistory_fresh (Run.of_trace _ htrace)⟩

/--
`0x1004` から `0x1000` へ戻る loop では、戻る分岐を毎回探す。`0x1000` の値は、そこからの行き先でないものになる。
-/
theorem sampleHistory_not_remembers : ∃ h : CacheHistory,
    runTrace (fun h i => h.step 0x9000 i) (fun _ _ => True)
        [.pc 0x1004, .pc 0x1000, .pc 0x1004] sampleHistory = some h ∧
      (∃ rt, h.st.runtimes[0]? = some rt ∧ rt.nexticache[0]? = some 0 ∧
        rt.nexticache[1]? = some 2 ∧ h.last 0 0 = none) ∧
      h.st.insn = 1 ∧ h.last 0 1 = some 0 ∧ searchedTarget h.st 0x1000 = some 0 ∧
      ¬ h.Remembers 0x9000 := by
  refine ⟨_, rfl, ⟨_, rfl, rfl, rfl, rfl⟩, rfl, rfl, rfl, fun hr => ?_⟩
  have hknown := hr.known 0 _ 0 0 rfl rfl
  revert hknown
  decide

end InterpMetaData

end AetherVM
