import AetherVM.Interp.Dispatch

/-!
# 次の命令の決め方の正しさ

不変条件 `Inv` は「いまの命令は表の中にあり、局所変数はいまの module の section を指し、`nexticache` の
`k` 番目は `k` か `k + 1` である」と言う。`Safe` な一歩はこれを保ち、その一歩の結果は正しい。
-/

namespace AetherVM

open Infra IMetaData

/-! ## 命令の表の探索 -/

namespace RuntimeMetaData

variable {rt : RuntimeMetaData} {pc : UInt64}

theorem insn_eq {i : Nat} {e : InsnMeta} (h : rt.insns[i]? = some e) : rt.insn i = e := by
  rw [insn, h, Option.getD_some]

theorem rva_le_of_le (hinc : rt.Increasing) {i j : Nat} {a b : InsnMeta} (hij : i ≤ j)
    (hi : rt.insns[i]? = some a) (hj : rt.insns[j]? = some b) : a.rva.toNat ≤ b.rva.toNat := by
  obtain ⟨hi', rfl⟩ := List.getElem?_eq_some_iff.mp hi
  obtain ⟨hj', rfl⟩ := List.getElem?_eq_some_iff.mp hj
  rcases Nat.lt_or_eq_of_le hij with hlt | rfl
  · have hr := List.pairwise_iff_getElem.mp hinc i j hi' hj' hlt
    exact Nat.le_of_lt (UInt32.lt_iff_toNat_lt.mp hr)
  · exact Nat.le_refl _

theorem rva_lt_of_lt (hinc : rt.Increasing) {i j : Nat} {a b : InsnMeta} (hij : i < j)
    (hi : rt.insns[i]? = some a) (hj : rt.insns[j]? = some b) : a.rva.toNat < b.rva.toNat := by
  obtain ⟨hi', rfl⟩ := List.getElem?_eq_some_iff.mp hi
  obtain ⟨hj', rfl⟩ := List.getElem?_eq_some_iff.mp hj
  exact UInt32.lt_iff_toNat_lt.mp (List.pairwise_iff_getElem.mp hinc i j hi' hj' hij)

theorem insnLt_iff {i : Nat} {e : InsnMeta} (h : rt.insns[i]? = some e) :
    rt.insnLt pc i = true ↔ e.rva.toNat < (rt.key pc).toNat := by
  rw [insnLt, insn_eq h, decide_eq_true_eq, UInt32.lt_iff_toNat_lt]

theorem splitAt_insnLt (hinc : rt.Increasing) : SplitAt (rt.insnLt pc) rt.insns.length := by
  intro i j hij hj hlt
  have hj' := List.getElem?_eq_getElem hj
  have hi' : rt.insns[i]? = some rt.insns[i] := List.getElem?_eq_getElem (by omega)
  rw [insnLt_iff hj'] at hlt
  rw [insnLt_iff hi']
  exact Nat.lt_of_le_of_lt (rva_le_of_le hinc hij hi' hj') hlt

section Find

variable (hinc : rt.Increasing) (hcov : ∃ e ∈ rt.insns, rt.key pc ≤ e.rva)

include hinc hcov

/-- pc 以降の命令があれば、二分探索の答えは表の中にある。 -/
theorem found_lt : binarySearch (rt.insnLt pc) rt.insns.length < rt.insns.length := by
  obtain ⟨e, he, hle⟩ := hcov
  obtain ⟨k, hk⟩ := List.mem_iff_getElem?.mp he
  obtain ⟨hlt, -⟩ := List.getElem?_eq_some_iff.mp hk
  have hsplit : SplitAt (rt.insnLt pc) rt.insns.length := splitAt_insnLt hinc
  by_contra hc
  have hkey := lt_of_lt_binarySearch hsplit (by omega) (i := k) (by omega)
  rw [insnLt_iff hk] at hkey
  rw [UInt32.le_iff_toNat_le] at hle
  omega

theorem findReads_lt : ∀ i ∈ rt.findReads pc, i < rt.insns.length := by
  intro i hi
  have hlt := found_lt hinc hcov
  rcases List.mem_append.mp hi with hi | hi
  · exact searchReads_lt (by omega) i hi
  · rw [List.mem_singleton.mp hi]
    exact hlt

theorem find_lt {k : Nat} (h : rt.find pc = some k) : k < rt.insns.length := by
  simp only [find] at h
  split at h
  · rw [Option.some.injEq] at h
    rw [← h]
    exact found_lt hinc hcov
  · cases h

end Find

/-- `key` に等しい `rva` の命令があれば、それが見つかる。 -/
theorem find_eq_of_get (hinc : rt.Increasing) {k : Nat} {e : InsnMeta}
    (hk : rt.insns[k]? = some e) (he : e.rva = rt.key pc) : rt.find pc = some k := by
  obtain ⟨hlt, -⟩ := List.getElem?_eq_some_iff.mp hk
  have hfound : binarySearch (rt.insnLt pc) rt.insns.length = k := by
    refine binarySearch_eq (splitAt_insnLt hinc) (by omega) (by omega) (fun i hi => ?_)
      (fun _ => ?_)
    · have hi' : rt.insns[i]? = some rt.insns[i] := List.getElem?_eq_getElem (by omega)
      rw [insnLt_iff hi', ← he]
      exact rva_lt_of_lt hinc hi hi' hk
    · rw [← Bool.not_eq_true, insnLt_iff hk, he]
      exact Nat.lt_irrefl _
  simp only [find, hfound, insn_eq hk, he, if_true]

end RuntimeMetaData

namespace InterpMetaData

variable {this pc : UInt64} {st st' : VmState} {rt : RuntimeMetaData} {j k : Nat}

/-! ## pc と `rva` -/

/-- 範囲の中では、64 bit の和の比較は命令の位置の比較である。 -/
theorem base_add_rva_eq_iff (hin : rt.contain pc = true) (rva : UInt32) :
    rt.rtbase + rva.toUInt64 = pc ↔ rt.rtbase.toNat + rva.toNat = pc.toNat := by
  have hle := (RuntimeMetaData.contain_iff.mp hin).1
  have h1 := rt.rtbase.toNat_lt
  have h2 := pc.toNat_lt
  have h3 := rva.toNat_lt
  rw [← UInt64.toNat_inj, UInt64.toNat_add, UInt32.toNat_toUInt64]
  omega

theorem EntryAt.rva_eq_key {e : InsnMeta} (he : rt.rtbase.toNat + e.rva.toNat = pc.toNat) :
    e.rva = rt.key pc := by
  have hle : rt.rtbase.toNat ≤ pc.toNat := by omega
  have h3 := e.rva.toNat_lt
  rw [← UInt32.toNat_inj, RuntimeMetaData.key, UInt64.toNat_toUInt32,
    UInt64.toNat_sub_of_le _ _ (UInt64.le_iff_toNat_le.mpr hle)]
  omega

/-- pc の命令は高々一つである。 -/
theorem EntryAt.unique (hinc : rt.Increasing) {k l : Nat} (hk : EntryAt rt pc k)
    (hl : EntryAt rt pc l) : k = l := by
  obtain ⟨a, ha, hka⟩ := hk
  obtain ⟨b, hb, hlb⟩ := hl
  rcases Nat.lt_trichotomy k l with h | h | h
  · have := RuntimeMetaData.rva_lt_of_lt hinc h ha hb
    omega
  · exact h
  · have := RuntimeMetaData.rva_lt_of_lt hinc h hb ha
    omega

theorem entryAt_of_eq (hin : rt.contain pc = true) (hlt : k < rt.insns.length)
    (h : rt.rtbase + (rt.insn k).rva.toUInt64 = pc) : EntryAt rt pc k := by
  have hget : rt.insns[k]? = some rt.insns[k] := List.getElem?_eq_getElem hlt
  refine ⟨_, hget, ?_⟩
  rw [RuntimeMetaData.insn_eq hget] at h
  exact (base_add_rva_eq_iff hin _).mp h

/-! ## 不変条件 -/

/-- `nexticache` の `k` 番目は `k` か `k + 1` である。 -/
def CacheNear (rt : RuntimeMetaData) : Prop :=
  rt.nexticache.length = rt.insns.length ∧
    ∀ k c, rt.nexticache[k]? = some c → c = k ∨ c = k + 1

/-- `vmEntry` の loop の不変条件。 -/
structure Inv (st : VmState) : Prop where
  sorted : st.runtimes.Pairwise baseLe
  disjoint : Disjoint st.runtimes
  increasing : ∀ rt ∈ st.runtimes, rt.Increasing
  cache : ∀ rt ∈ st.runtimes, CacheNear rt
  current : ∃ rt, st.runtimes[st.rt]? = some rt ∧ st.insn < rt.insns.length ∧ st.InSections rt

theorem cacheNear_fresh (h : rt.nexticache = freshCache rt.insns.length) : CacheNear rt := by
  refine ⟨by rw [h, freshCache, List.length_map, List.length_range], fun k c hk => ?_⟩
  rw [h, freshCache, List.getElem?_map] at hk
  obtain ⟨i, hi, rfl⟩ := Option.map_eq_some_iff.mp hk
  obtain ⟨hlt, rfl⟩ := List.getElem?_eq_some_iff.mp hi
  rw [List.getElem_range]
  exact Or.inr rfl

/-- `vmEntry` に入った直後は成り立つ。 -/
theorem inv_of_entered {mods : List RuntimeMetaData} (h : Entered mods st) (hd : Disjoint mods)
    (hinc : ∀ rt ∈ mods, rt.Increasing) : Inv st := by
  obtain ⟨hp, hs⟩ := h.loaded.sorts
  exact ⟨hs, hd.perm hp, fun rt hrt => hinc rt (hp.mem_iff.mp hrt),
    fun rt hrt => cacheNear_fresh (h.cache rt (hp.mem_iff.mp hrt)), h.current⟩

/-- 見つけた命令自身を指すように書き換えても、`nexticache` の条件は保たれる。 -/
theorem CacheNear.set (h : CacheNear rt) (found : Nat) :
    CacheNear { rt with nexticache := rt.nexticache.set found found } := by
  refine ⟨by rw [List.length_set]; exact h.1, fun k c hk => ?_⟩
  by_cases hf : found = k
  · subst hf
    obtain ⟨hlt, hc⟩ := List.getElem?_eq_some_iff.mp hk
    rw [List.getElem_set_self] at hc
    exact Or.inl hc.symm
  · rw [List.getElem?_set_ne hf] at hk
    exact h.2 k c hk

theorem map_set_eq {α β : Type} (f : α → β) {l : List α} {i : Nat} {a b : α}
    (hi : l[i]? = some a) (hf : f b = f a) : (l.set i b).map f = l.map f := by
  obtain ⟨hlt, rfl⟩ := List.getElem?_eq_some_iff.mp hi
  rw [List.map_set, hf, ← List.getElem_map f (h := by simpa using hlt), List.set_getElem_self]

/-- module の範囲だけで決まる関係は、範囲の列が同じなら同じである。 -/
theorem pairwise_congr_range {l l' : List RuntimeMetaData}
    {R : UInt64 × UInt64 → UInt64 × UInt64 → Prop}
    (h : (l.map fun r => (r.rtbase, r.rtend)) = l'.map fun r => (r.rtbase, r.rtend)) :
    (l.Pairwise fun a b => R (a.rtbase, a.rtend) (b.rtbase, b.rtend)) ↔
      l'.Pairwise fun a b => R (a.rtbase, a.rtend) (b.rtbase, b.rtend) := by
  rw [← List.pairwise_map (f := fun r : RuntimeMetaData => (r.rtbase, r.rtend)), h,
    List.pairwise_map]

/-- `nexticache` の書き換えは不変条件を保つ。 -/
theorem Inv.cache_found (h : Inv st) (hrt : st.runtimes[st.rt]? = some rt)
    (hk : k < rt.insns.length) : Inv (st.cache rt k) := by
  have hmem := List.mem_of_getElem? hrt
  obtain ⟨hlt, -⟩ := List.getElem?_eq_some_iff.mp hrt
  set rt' : RuntimeMetaData := { rt with nexticache := rt.nexticache.set k k } with hrt'
  have hrange : (st.runtimes.set st.rt rt').map (fun r => (r.rtbase, r.rtend))
      = st.runtimes.map fun r => (r.rtbase, r.rtend) := map_set_eq _ hrt rfl
  have hmem' : ∀ r ∈ st.runtimes.set st.rt rt', r ∈ st.runtimes ∨ r = rt' :=
    fun r hr => List.mem_or_eq_of_mem_set hr
  have hcur : (st.runtimes.set st.rt rt')[st.rt]? = some rt' :=
    List.getElem?_set_self hlt
  refine ⟨?_, ?_, fun r hr => ?_, fun r hr => ?_, rt', hcur, hk, ?_⟩
  -- 並びと範囲の交わりは、書き換えていない範囲だけで決まる
  · exact (pairwise_congr_range (R := fun a b => a.1 ≤ b.1) hrange).mpr h.sorted
  · exact (pairwise_congr_range (R := fun a b => ∀ addr : UInt64,
      ¬ ((a.1 ≤ addr && addr < a.2) = true ∧ (b.1 ≤ addr && addr < b.2) = true)) hrange).mpr
      h.disjoint
  · rcases hmem' r hr with hr | rfl
    · exact h.increasing r hr
    · exact h.increasing rt hmem
  · rcases hmem' r hr with hr | rfl
    · exact h.cache r hr
    · exact (h.cache rt hmem).set k
  · obtain ⟨m, hm, -, hsec⟩ := h.current
    rw [hrt, Option.some.injEq] at hm
    subst hm
    exact ⟨hsec.metadata, hsec.mdinsns, hsec.operands, hsec.expressions⟩

/-! ## 同じ module の中 -/

/-- 同じ module の中での一歩。次の entry か cache した entry が当たるか、二分探索になる。 -/
theorem dispatchSame_cases (h : Inv st) (hrt : st.runtimes[st.rt]? = some rt)
    (hin : rt.contain pc = true) (hnext : st.insn + 1 < rt.insns.length)
    (hcov : ∃ e ∈ rt.insns, rt.key pc ≤ e.rva) :
    (∀ i ∈ (dispatchSame st rt pc).1, i < rt.insns.length) ∧
      ((∃ k, k < rt.insns.length ∧ EntryAt rt pc k ∧
          (dispatchSame st rt pc).2 = .next { st with insn := k }) ∨
        (∃ k, k < rt.insns.length ∧ rt.find pc = some k ∧
          (dispatchSame st rt pc).2 = .next (st.cache rt k)) ∨
        (rt.find pc = none ∧ (dispatchSame st rt pc).2 = .fault)) := by
  have hmem := List.mem_of_getElem? hrt
  have hinc := h.increasing rt hmem
  obtain ⟨hlen, hnear⟩ := h.cache rt hmem
  have hreads := RuntimeMetaData.findReads_lt hinc hcov
  unfold dispatchSame
  -- 次の命令、cache、二分探索の順に試す
  by_cases hseq : rt.rtbase + (rt.insn (st.insn + 1)).rva.toUInt64 = pc
  · rw [if_pos hseq]
    refine ⟨fun i hi => ?_, Or.inl ⟨_, hnext, entryAt_of_eq hin hnext hseq, rfl⟩⟩
    rw [List.mem_singleton.mp hi]
    exact hnext
  rw [if_neg hseq]
  obtain ⟨cached, hget⟩ : ∃ c, rt.nexticache[st.insn]? = some c :=
    ⟨_, List.getElem?_eq_getElem (by omega)⟩
  have hcached : cached < rt.insns.length := by
    rcases hnear _ _ hget with hc | hc
    · omega
    · omega
  simp only [hget]
  by_cases hhit : rt.rtbase + (rt.insn cached).rva.toUInt64 = pc
  · rw [if_pos hhit]
    refine ⟨fun i hi => ?_, Or.inl ⟨_, hcached, entryAt_of_eq hin hcached hhit, rfl⟩⟩
    rcases List.mem_cons.mp hi with rfl | hi
    · exact hnext
    · rw [List.mem_singleton.mp hi]
      exact hcached
  rw [if_neg hhit]
  have hall : ∀ i ∈ (st.insn + 1) :: cached :: rt.findReads pc, i < rt.insns.length := by
    intro i hi
    rcases List.mem_cons.mp hi with rfl | hi
    · exact hnext
    rcases List.mem_cons.mp hi with rfl | hi
    · exact hcached
    · exact hreads i hi
  cases hfind : rt.find pc with
  | none => exact ⟨hall, Or.inr (Or.inr ⟨rfl, rfl⟩)⟩
  | some k =>
    exact ⟨hall, Or.inr (Or.inl ⟨k, RuntimeMetaData.find_lt hinc hcov hfind, rfl, rfl⟩)⟩

/-! ## 別の module -/

theorem rtStart_le (hs : st.runtimes.Pairwise baseLe) (hj : st.runtimes[j]? = some rt)
    (hin : rt.contain pc = true) : rtStart st.runtimes ≤ pc := by
  have hle := (RuntimeMetaData.contain_iff.mp hin).1
  obtain ⟨hlt, -⟩ := List.getElem?_eq_some_iff.mp hj
  have h0 : st.runtimes[0]? = some st.runtimes[0] := List.getElem?_eq_getElem (by omega)
  have hbase := base_le_of_le hs (Nat.zero_le j) h0 hj
  rw [rtStart, List.head?_eq_getElem?, h0, UInt64.le_iff_toNat_le]
  exact Nat.le_trans hbase hle

/-- 探索が正しく答えるなら、答えは pc を含む module である。 -/
theorem find_of_findable (h : Inv st) (hj : st.runtimes[j]? = some rt)
    (hin : rt.contain pc = true) (hf : Findable st.runtimes pc) :
    find st.runtimes pc = some (some j) := by
  rcases (correct_iff h.sorted).mpr hf with ⟨j', rt', hj', hin', hfind⟩ | ⟨hall, -⟩
  · rw [hfind, h.disjoint.index_unique hj' hj hin' hin]
  · have hno := hall rt (List.mem_of_getElem? hj)
    rw [hin] at hno
    cases hno

/-- 別の module への一歩。その module の表を二分探索する。 -/
theorem dispatchOther_cases (h : Inv st) (hj : st.runtimes[j]? = some rt)
    (hin : rt.contain pc = true) (hf : Findable st.runtimes pc)
    (hcov : ∃ e ∈ rt.insns, rt.key pc ≤ e.rva) :
    (∀ p ∈ (dispatchOther st pc).1, p.1 = j ∧ p.2 < rt.insns.length) ∧
      ((∃ k, k < rt.insns.length ∧ rt.find pc = some k ∧
          (dispatchOther st pc).2 = .next (st.enter j rt k)) ∨
        (rt.find pc = none ∧ (dispatchOther st pc).2 = .fault)) := by
  have hinc := h.increasing rt (List.mem_of_getElem? hj)
  have hreads := RuntimeMetaData.findReads_lt hinc hcov
  have hall : ∀ p ∈ (rt.findReads pc).map (j, ·), p.1 = j ∧ p.2 < rt.insns.length := by
    intro p hp
    obtain ⟨i, hi, rfl⟩ := List.mem_map.mp hp
    exact ⟨rfl, hreads i hi⟩
  simp only [dispatchOther, find_of_findable h hj hin hf, hj]
  cases hfind : rt.find pc with
  | none => exact ⟨hall, Or.inr ⟨rfl, rfl⟩⟩
  | some k => exact ⟨hall, Or.inl ⟨k, RuntimeMetaData.find_lt hinc hcov hfind, rfl, rfl⟩⟩

/-! ## 一歩 -/

theorem find_of_entryAt (hinc : rt.Increasing) (hk : EntryAt rt pc k) : rt.find pc = some k := by
  obtain ⟨e, he, hrva⟩ := hk
  exact RuntimeMetaData.find_eq_of_get hinc he (EntryAt.rva_eq_key hrva)

theorem InSections.enter (st : VmState) (j : Nat) (rt : RuntimeMetaData) (k : Nat) :
    (st.enter j rt k).InSections rt := ⟨rfl, rfl, rfl, rfl⟩

theorem dispatch_same (this : UInt64) (hrt : st.runtimes[st.rt]? = some rt)
    (hin : rt.contain pc = true) :
    dispatch this st pc
      = ((dispatchSame st rt pc).1.map (st.rt, ·), (dispatchSame st rt pc).2) := by
  simp only [dispatch, hrt, hin, if_true]

theorem dispatch_other (this : UInt64) (hrt : st.runtimes[st.rt]? = some rt)
    (hin : rt.contain pc = false)
    (hr : rtStart st.runtimes ≤ pc ∧ pc < rtEnd st.runtimes) :
    dispatch this st pc = dispatchOther st pc := by
  simp only [dispatch, hrt, hin, hr, and_self, if_true, Bool.false_eq_true, if_false]

theorem dispatch_outside (this : UInt64) (hrt : st.runtimes[st.rt]? = some rt)
    (hin : rt.contain pc = false)
    (hr : ¬ (rtStart st.runtimes ≤ pc ∧ pc < rtEnd st.runtimes)) :
    dispatch this st pc = ([], if pc = this then .done else .host) := by
  simp only [dispatch, hrt, hin, Bool.false_eq_true, if_false]
  rw [if_neg hr]
  split <;> rfl

/-- pc の命令が表にあれば、pc 以降の命令がある。 -/
theorem EntryAt.covered (hk : EntryAt rt pc k) : ∃ e ∈ rt.insns, rt.key pc ≤ e.rva := by
  obtain ⟨e, he, hrva⟩ := hk
  refine ⟨e, List.mem_of_getElem? he, ?_⟩
  rw [EntryAt.rva_eq_key hrva]
  exact UInt32.le_refl _

theorem Safe.covered (hsafe : Safe this st pc) (hm : rt ∈ st.runtimes)
    (hin : rt.contain pc = true) : ∃ e ∈ rt.insns, rt.key pc ≤ e.rva := by
  obtain ⟨k, hk⟩ := hsafe.entry rt hm hin
  exact hk.covered

/-- `Safe` な pc の行き先。同じ module か、別の一つの module か、どの module でもない。 -/
theorem Safe.cases (h : Inv st) (hsafe : Safe this st pc)
    (hrt : st.runtimes[st.rt]? = some rt) :
    (rt.contain pc = true ∧ st.insn + 1 < rt.insns.length ∧
        ∃ e ∈ rt.insns, rt.key pc ≤ e.rva) ∨
      (rt.contain pc = false ∧ (rtStart st.runtimes ≤ pc ∧ pc < rtEnd st.runtimes) ∧
        ∃ (j : Nat) (m : RuntimeMetaData), st.runtimes[j]? = some m ∧ m.contain pc = true ∧
          Findable st.runtimes pc ∧ ∃ e ∈ m.insns, m.key pc ≤ e.rva) ∨
      (rt.contain pc = false ∧ ¬ (rtStart st.runtimes ≤ pc ∧ pc < rtEnd st.runtimes) ∧
        ∀ m ∈ st.runtimes, m.contain pc = false) := by
  by_cases hin : rt.contain pc = true
  · exact Or.inl ⟨hin, hsafe.same rt hrt hin, hsafe.covered (List.mem_of_getElem? hrt) hin⟩
  have hin : rt.contain pc = false := Bool.not_eq_true _ ▸ hin
  by_cases hall : ∀ m ∈ st.runtimes, m.contain pc = false
  · exact Or.inr (Or.inr ⟨hin, hsafe.outside hall, hall⟩)
  · obtain ⟨m, hm, hc⟩ : ∃ m ∈ st.runtimes, m.contain pc = true := by
      simpa using hall
    obtain ⟨j, hj⟩ := List.mem_iff_getElem?.mp hm
    have hne : j ≠ st.rt := by
      rintro rfl
      rw [hrt, Option.some.injEq] at hj
      rw [hj, hc] at hin
      cases hin
    obtain ⟨hend, hf⟩ := hsafe.other j m hj hne hc
    exact Or.inr (Or.inl ⟨hin, ⟨rtStart_le h.sorted hj hc, hend⟩, j, m, hj, hc, hf,
      hsafe.covered hm hc⟩)

/-- `Safe` な一歩の結果は正しい。 -/
theorem exact_of_safe (h : Inv st) (hsafe : Safe this st pc) : Exact this st pc := by
  obtain ⟨rt, hrt, -, hsec⟩ := h.current
  have hinc := h.increasing
  rcases hsafe.cases h hrt with ⟨hin, hnext, hcov⟩ | ⟨hin, hr, j, m, hj, hc, hf, hcov⟩ |
    ⟨hin, hr, hall⟩
  · -- 同じ module
    obtain ⟨hreads, hcases⟩ := dispatchSame_cases h hrt hin hnext hcov
    have hd := dispatch_same this hrt hin
    refine ⟨fun j m k hj hc hk => ?_, fun hp => ?_, fun hno => ?_, fun p hp => ?_⟩
    · have hje := h.disjoint.index_unique hj hrt hc hin
      subst hje
      rw [hrt, Option.some.injEq] at hj
      subst hj
      have hi := hinc rt (List.mem_of_getElem? hrt)
      have hfind := find_of_entryAt hi hk
      rw [hd]
      rcases hcases with ⟨l, -, hl, hout⟩ | ⟨l, -, hl, hout⟩ | ⟨hl, -⟩
      · rw [← hl.unique hi hk]
        exact ⟨_, hout, rfl, rfl, hsec.metadata, hsec.mdinsns, hsec.operands, hsec.expressions⟩
      · rw [hfind, Option.some.injEq] at hl
        subst hl
        exact ⟨_, hout, rfl, rfl, hsec.metadata, hsec.mdinsns, hsec.operands, hsec.expressions⟩
      · rw [hfind] at hl
        cases hl
    · rw [((hsafe.sentinel hp).1 rt hrt)] at hin
      cases hin
    · have hmem := List.mem_of_getElem? hrt
      obtain ⟨k, hk⟩ := hsafe.entry rt hmem hin
      exact absurd hk (hno rt hmem hin k)
    · rw [hd] at hp
      obtain ⟨i, hi, rfl⟩ := List.mem_map.mp hp
      exact ⟨rt, hrt, hreads i hi⟩
  · -- 別の module
    obtain ⟨hreads, hcases⟩ := dispatchOther_cases h hj hc hf hcov
    have hd := dispatch_other this hrt hin hr
    refine ⟨fun i m' k hi hc' hk => ?_, fun hp => absurd hr (hsafe.sentinel hp).2,
      fun hno => ?_, fun p hp => ?_⟩
    · have hie := h.disjoint.index_unique hi hj hc' hc
      subst hie
      rw [hj, Option.some.injEq] at hi
      subst hi
      have hfind := find_of_entryAt (hinc m (List.mem_of_getElem? hj)) hk
      rw [hd]
      rcases hcases with ⟨l, -, hl, hout⟩ | ⟨hl, -⟩
      · rw [hfind, Option.some.injEq] at hl
        subst hl
        exact ⟨_, hout, rfl, rfl, InSections.enter st i m k⟩
      · rw [hfind] at hl
        cases hl
    · have hmem := List.mem_of_getElem? hj
      obtain ⟨k, hk⟩ := hsafe.entry m hmem hc
      exact absurd hk (hno m hmem hc k)
    · rw [hd] at hp
      obtain ⟨h1, h2⟩ := hreads p hp
      exact ⟨m, by rw [h1, hj], h2⟩
  · -- どの module でもない
    have hd := dispatch_outside this hrt hin hr
    refine ⟨fun j m k hj hc _ => ?_, fun hp => ?_, fun _ hp => ?_, fun p hp => ?_⟩
    · rw [hall m (List.mem_of_getElem? hj)] at hc
      cases hc
    · rw [hd, if_pos hp]
    · rw [hd, if_neg hp]
    · rw [hd] at hp
      simp at hp

/-- `Safe` な一歩は不変条件を保つ。 -/
theorem inv_step (h : Inv st) (hsafe : Safe this st pc) (hs : Step this st pc st') : Inv st' := by
  obtain ⟨rt, hrt, -, hsec⟩ := h.current
  -- host の間は変わらない。表を引いて進むときは、移った先の module の section になる
  rcases hs with hs | ⟨-, rfl⟩
  · rcases hsafe.cases h hrt with ⟨hin, hnext, hcov⟩ | ⟨hin, hr, j, m, hj, hc, hf, hcov⟩ |
      ⟨hin, hr, -⟩
    · rw [dispatch_same this hrt hin] at hs
      obtain ⟨-, ⟨l, hl, -, hout⟩ | ⟨l, hl, -, hout⟩ | ⟨-, hout⟩⟩ :=
        dispatchSame_cases h hrt hin hnext hcov
      · rw [hout] at hs
        cases hs
        exact ⟨h.sorted, h.disjoint, h.increasing, h.cache, rt, hrt, hl, hsec.metadata,
          hsec.mdinsns, hsec.operands, hsec.expressions⟩
      · rw [hout] at hs
        cases hs
        exact h.cache_found hrt hl
      · rw [hout] at hs
        cases hs
    · rw [dispatch_other this hrt hin hr] at hs
      obtain ⟨-, ⟨l, hl, -, hout⟩ | ⟨-, hout⟩⟩ := dispatchOther_cases h hj hc hf hcov
      · rw [hout] at hs
        cases hs
        exact ⟨h.sorted, h.disjoint, h.increasing, h.cache, m, hj, hl, InSections.enter st j m l⟩
      · rw [hout] at hs
        cases hs
    · rw [dispatch_outside this hrt hin hr] at hs
      simp only at hs
      split at hs
      · cases hs
      · cases hs
  · exact h

/--
chained interpreter の次の命令の正しさ。

範囲の重ならない module と `rva` の狭義の昇順の表について、`vmEntry` に入ってから `Safe` な一歩だけで着いた
どの状態でも、`Safe` な pc に対する次の命令の決め方は正しい。
-/
theorem dispatch_exact {mods : List RuntimeMetaData} {st₀ : VmState} (he : Entered mods st₀)
    (hd : Disjoint mods) (hinc : ∀ rt ∈ mods, rt.Increasing)
    (hrun : Run (Step this) (Safe this) st₀ st) (hsafe : Safe this st pc) : Exact this st pc := by
  have hinv : Inv st := hrun.invariant (inv_of_entered he hd hinc)
    fun _ _ _ h hok hs => inv_step h hok hs
  exact exact_of_safe hinv hsafe

/-- 命令を三つ持つ本体。 -/
def app : RuntimeMetaData :=
  { image "app" 0x1000 0x2000 with
    insns := [⟨0, 0⟩, ⟨4, 8⟩, ⟨8, 16⟩], nexticache := freshCache 3 }

/-- 命令を二つ持つ library。 -/
def libm : RuntimeMetaData :=
  { image "libm" 0x3000 0x4000 with insns := [⟨0, 0⟩, ⟨4, 8⟩], nexticache := freshCache 2 }

theorem appLibm_loaded : Loaded [app, libm] [app, libm] :=
  loaded_add (loaded_add .nil "app.aevm" app) "libm.aevm" libm

theorem appLibm_disjoint : Disjoint [app, libm] := by
  refine List.pairwise_pair.mpr fun addr hc => ?_
  have h1 := RuntimeMetaData.contain_iff.mp hc.1
  have h2 := RuntimeMetaData.contain_iff.mp hc.2
  have h3 : libm.rtbase.toNat = 0x3000 := rfl
  have h4 : app.rtend.toNat = 0x2000 := rfl
  omega

theorem appLibm_increasing : ∀ rt ∈ [app, libm], rt.Increasing := by
  intro rt hrt
  rcases List.mem_pair.mp hrt with rfl | rfl
  · show app.insns.Pairwise _
    decide
  · show libm.insns.Pairwise _
    decide

/-- module `rt` の命令 `insn` を実行し終えたところ。 -/
def atInsn (j : Nat) (rt : RuntimeMetaData) (insn : Nat) : VmState :=
  VmState.enter ⟨[app, libm], 0, 0, 0, 0, 0, 0⟩ j rt insn

theorem entered_atInsn {j : Nat} {rt : RuntimeMetaData} {insn : Nat}
    (hj : [app, libm][j]? = some rt) (hi : insn < rt.insns.length) :
    Entered [app, libm] (atInsn j rt insn) := by
  refine ⟨appLibm_loaded, fun m hm => ?_, rt, hj, hi, InSections.enter _ _ _ _⟩
  rcases List.mem_pair.mp hm with rfl | rfl
  · rfl
  · rfl

/-- 本体の最初の命令の後、`0x1004` に続けて進む。 -/
theorem safe_app_next : Safe 0x9000 (atInsn 0 app 0) 0x1004 := by
  refine ⟨fun hc => absurd hc (by decide), fun hno => ?_, fun rt hrt _ => ?_,
    fun j rt hj hne hin => ?_, fun rt hrt hin => ?_⟩
  · have := hno app (List.mem_cons_self ..)
    exact absurd this (by decide)
  · cases hrt
    decide
  · rcases List.mem_pair.mp (List.mem_of_getElem? hj) with rfl | rfl
    · exact absurd (appLibm_disjoint.index_unique (i := j) (j := 0) hj rfl hin (by decide)) hne
    · exact absurd hin (by decide)
  · rcases List.mem_pair.mp hrt with rfl | rfl
    · exact ⟨1, ⟨4, 8⟩, rfl, rfl⟩
    · exact absurd hin (by decide)

/-- その次に library の先頭を呼ぶ。 -/
theorem safe_app_call : Safe 0x9000 (atInsn 0 app 1) 0x3000 := by
  refine ⟨fun hc => absurd hc (by decide), fun hno => ?_, fun rt hrt _ => ?_,
    fun j rt hj hne hin => ⟨by decide, 1, libm, ⟨rfl, fun i r hi hr => ?_, Or.inl (by decide)⟩,
      Or.inl (by decide)⟩, fun rt hrt hin => ?_⟩
  · have := hno libm (List.mem_of_getElem? (i := 1) rfl)
    exact absurd this (by decide)
  · cases hrt
    decide
  · have hi : i = 0 := by omega
    subst hi
    cases hr
    decide
  · rcases List.mem_pair.mp hrt with rfl | rfl
    · exact absurd hin (by decide)
    · exact ⟨0, ⟨0, 0⟩, rfl, rfl⟩

theorem dispatch_exact_app_call : Exact 0x9000 (atInsn 0 app 1) 0x3000 := by
  have hrun : Run (Step 0x9000) (Safe 0x9000) (atInsn 0 app 0) (atInsn 0 app 1) :=
    .tail .refl safe_app_next (Or.inl rfl)
  exact dispatch_exact (entered_atInsn rfl (by decide)) appLibm_disjoint appLibm_increasing hrun
    safe_app_call

/-- library から本体の途中の `0x1004` へ戻ると、library の表が探され、行き先を失う。 -/
theorem dispatch_return_to_app_wrong : Entered [app, libm] (atInsn 1 libm 1) ∧
    Disjoint [app, libm] ∧ (∀ rt ∈ [app, libm], rt.Increasing) ∧
    ¬ Exact 0x9000 (atInsn 1 libm 1) 0x1004 := by
  refine ⟨entered_atInsn rfl (by decide), appLibm_disjoint, appLibm_increasing, fun h => ?_⟩
  obtain ⟨st', hout, -⟩ := h.entry 0 app 1 rfl (by decide) ⟨⟨4, 8⟩, rfl, rfl⟩
  have hfault : (dispatch 0x9000 (atInsn 1 libm 1) 0x1004).2 = .fault := rfl
  rw [hfault] at hout
  cases hout

end InterpMetaData

end AetherVM
