import AetherVM.Interp.Runtime

/-!
# mapping の寿命（`src/InterpMetaData.cpp` の `add`・`reset`・destructor）

`RuntimeMetaData` は `.aevm` file の mapping を持ち、destructor で unmap する。destructor を自分で宣言して
いるので move は無く、`std::vector` の再配置も `std::sort` の入れ替えも copy と破棄になる。copy は同じ
mapping を指すので、片方を破棄すると残った方の mapping も消える。

mapping には map した順に番号を振り、`RuntimeMetaData` の `metadata` をその番号とする。
-/

namespace AetherVM

namespace RuntimeMetaData

/-- `~RuntimeMetaData` が unmap する mapping。 -/
def destroy (rt : RuntimeMetaData) : List Nat := if rt.path = "" then [] else [rt.metadata]

/-- 要素を順に破棄したときに unmap する mapping。 -/
def destroyAll (rts : List RuntimeMetaData) : List Nat := rts.flatMap destroy

@[simp] theorem destroyAll_nil : destroyAll [] = [] := rfl

theorem mem_destroyAll {rts : List RuntimeMetaData} {id : Nat} :
    id ∈ destroyAll rts ↔ ∃ rt ∈ rts, rt.path ≠ "" ∧ rt.metadata = id := by
  simp only [destroyAll, List.mem_flatMap, destroy]
  refine exists_congr fun rt => and_congr_right fun _ => ?_
  split
  · next h => simp [h]
  · next h => simp [h, eq_comm]

end RuntimeMetaData

open RuntimeMetaData InterpMetaData

/--
規格が実装に任せている container の振る舞い。`grow` は一杯の `std::vector` の次の capacity、`temporaries` は
`std::sort` が作って破棄する copy である。空の vector の次の capacity は、どの実装でも 1 である。
-/
structure Containers where
  grow : Nat → Nat
  sort : List RuntimeMetaData → List RuntimeMetaData
  temporaries : List RuntimeMetaData → List RuntimeMetaData
  grow_zero : grow 0 = 1
  lt_grow : ∀ n, n < grow n
  sorts : ∀ rts, Sorts rts (sort rts)
  mem_of_temporary : ∀ rts, ∀ rt ∈ temporaries rts, rt ∈ rts
  temporaries_short : ∀ rts, rts.length ≤ 1 → temporaries rts = []

/--
`mdInterp` の状態。`maps` はこれまでに map した file の数、`unmaps` は unmap した mapping の列である。
-/
structure MapState where
  runtimes : List RuntimeMetaData
  capacity : Nat
  maps : Nat
  unmaps : List Nat

/-- `add` と `reset` の呼び出し。`add none` は `.aevm` file が無いときである。 -/
inductive MapCall where
  | add (loaded : Option RuntimeMetaData)
  | reset

namespace MapState

def empty : MapState := ⟨[], 0, 0, []⟩

variable (c : Containers)

/-- `runtimes.emplace_back`。一杯なら、要素を新しい場所へ copy してから元の要素を破棄する。 -/
def emplaceBack (s : MapState) (rt : RuntimeMetaData) : MapState :=
  let runtimes := s.runtimes ++ [{ rt with metadata := s.maps }]
  if s.runtimes.length = s.capacity then
    ⟨runtimes, c.grow s.capacity, s.maps + 1, s.unmaps ++ destroyAll s.runtimes⟩
  else ⟨runtimes, s.capacity, s.maps + 1, s.unmaps⟩

/-- `std::sort`。 -/
def sort (s : MapState) : MapState :=
  { s with
    runtimes := c.sort s.runtimes
    unmaps := s.unmaps ++ destroyAll (c.temporaries s.runtimes) }

/-- `InterpMetaData::add`。 -/
def add (s : MapState) : Option RuntimeMetaData → MapState
  | none => s
  | some rt => (s.emplaceBack c rt).sort c

/-- `InterpMetaData::reset`。`clear` は capacity を変えない。 -/
def reset (s : MapState) : MapState :=
  { s with runtimes := [], unmaps := s.unmaps ++ destroyAll s.runtimes }

def step (s : MapState) : MapCall → MapState
  | .add loaded => s.add c loaded
  | .reset => s.reset

def run (s : MapState) (calls : List MapCall) : MapState := calls.foldl (step c) s

/--
どの要素の mapping も map されたままで、要素の無くなった mapping はちょうど一度 unmap されていること。
要素が無くなるのは `reset` のときだけである。
-/
structure Live (s : MapState) : Prop where
  mapped : ∀ rt ∈ s.runtimes, rt.metadata < s.maps ∧ rt.metadata ∉ s.unmaps
  once : ∀ id < s.maps, (∀ rt ∈ s.runtimes, rt.metadata ≠ id) → s.unmaps.count id = 1

/--
成功する `add` が、始めか直前の `reset` から数えて一度だけで、path も空でないこと。`occupied` は、
すでに一つ足してあるかどうかである。
-/
def Alone : Bool → List MapCall → Prop
  | _, [] => True
  | occupied, .add none :: rest => Alone occupied rest
  | occupied, .add (some rt) :: rest => occupied = false ∧ rt.path ≠ "" ∧ Alone true rest
  | _, .reset :: rest => Alone false rest

variable {c} {s : MapState} {rt : RuntimeMetaData}

/-! ## 一つだけ足す -/

theorem sort_singleton (rt : RuntimeMetaData) : c.sort [rt] = [rt] :=
  List.perm_singleton.mp (c.sorts [rt]).perm

/-- 空の `runtimes` に足しても、何も破棄されない。 -/
theorem add_of_nil (h : s.runtimes = []) (rt : RuntimeMetaData) :
    (s.add c (some rt)).runtimes = [{ rt with metadata := s.maps }] ∧
      (s.add c (some rt)).maps = s.maps + 1 ∧ (s.add c (some rt)).unmaps = s.unmaps ∧
      (s.add c (some rt)).capacity = if s.capacity = 0 then 1 else s.capacity := by
  have htemp := c.temporaries_short [{ rt with metadata := s.maps }] (Nat.le_refl 1)
  have hsort := sort_singleton (c := c) { rt with metadata := s.maps }
  simp only [add, emplaceBack, sort, h, List.nil_append, List.length_nil]
  split
  · next hc =>
    rw [← hc] at *
    simp [htemp, hsort, c.grow_zero]
  · next hc =>
    simp [htemp, hsort, Ne.symm hc]

/-- `Alone` の run の途中の状態。要素は高々一つで、`reset` すれば unmap される。 -/
structure Tidy (occupied : Bool) (s : MapState) : Prop where
  live : s.Live
  bounded : ∀ id ∈ s.unmaps, id < s.maps
  single : if occupied then ∃ rt, s.runtimes = [rt] ∧ rt.path ≠ "" ∧ s.capacity = 1
    else s.runtimes = [] ∧ s.capacity ≤ 1

theorem tidy_empty : Tidy false empty where
  live := ⟨fun _ h => absurd h List.not_mem_nil, fun _ h => absurd h (Nat.not_lt_zero _)⟩
  bounded := fun _ h => absurd h List.not_mem_nil
  single := ⟨rfl, Nat.zero_le 1⟩

theorem Tidy.add (h : Tidy false s) (hpath : rt.path ≠ "") : Tidy true (s.add c (some rt)) := by
  obtain ⟨hnil, hcap⟩ := h.single
  obtain ⟨hrt, hmaps, hunmaps, hcap'⟩ := add_of_nil (c := c) hnil rt
  refine ⟨⟨?_, ?_⟩, ?_, ?_⟩
  · intro r hr
    rw [hrt, List.mem_singleton] at hr
    subst hr
    rw [hmaps, hunmaps]
    exact ⟨Nat.lt_succ_self _, fun hmem => absurd (h.bounded _ hmem) (Nat.lt_irrefl _)⟩
  · intro id hid hne
    rw [hrt] at hne
    rw [hmaps] at hid
    have hne' : s.maps ≠ id := hne _ (List.mem_singleton_self _)
    rw [hunmaps]
    refine h.live.once id (by omega) fun r hr => ?_
    rw [hnil] at hr
    exact absurd hr List.not_mem_nil
  · intro id hid
    rw [hunmaps] at hid
    rw [hmaps]
    exact Nat.lt_succ_of_lt (h.bounded id hid)
  · refine ⟨_, hrt, hpath, ?_⟩
    rw [hcap']
    split <;> omega

theorem Tidy.reset {occupied : Bool} (h : Tidy occupied s) : Tidy false s.reset := by
  cases occupied with
  | false =>
    obtain ⟨hnil, hcap⟩ := h.single
    have hs : s.reset = s := by
      simp only [MapState.reset, hnil, destroyAll_nil, List.append_nil]
      rw [← hnil]
    rw [hs]
    exact h
  | true =>
    obtain ⟨rt, hrt, hpath, hcap⟩ := h.single
    obtain ⟨hlt, hmem⟩ := h.live.mapped rt (by simp [hrt])
    -- `reset` は残っている一つを unmap する。ほかの番号の数は変わらない
    have hunmaps : s.reset.unmaps = s.unmaps ++ [rt.metadata] := by
      simp [MapState.reset, hrt, destroyAll, destroy, hpath]
    refine ⟨⟨fun r hr => absurd hr List.not_mem_nil, ?_⟩, ?_, ⟨rfl, Nat.le_of_eq hcap⟩⟩
    · intro id hid _
      rw [hunmaps, List.count_append]
      by_cases heq : rt.metadata = id
      · subst heq
        rw [List.count_eq_zero_of_not_mem hmem, List.count_singleton_self]
      · have hone := h.live.once id hid (by simp [hrt, heq])
        rw [hone, List.count_singleton, if_neg (by simpa using heq)]
    · intro id hid
      rw [hunmaps, List.mem_append, List.mem_singleton] at hid
      rcases hid with hid | rfl
      · exact h.bounded id hid
      · exact hlt

/-- `Alone` の呼び出しの間、どの状態も正しい。 -/
theorem live_of_alone : ∀ {calls : List MapCall} {occupied : Bool} {s : MapState},
    Alone occupied calls → Tidy occupied s → ∀ pre, pre <+: calls ++ [.reset] → (s.run c pre).Live
  | calls, occupied, s, _, hs, [], _ => hs.live
  | [], occupied, s, _, hs, call :: pre, hpre => by
    rw [List.nil_append, List.cons_prefix_cons] at hpre
    obtain ⟨rfl, hpre⟩ := hpre
    rw [List.prefix_nil.mp hpre]
    exact hs.reset.live
  | .add none :: rest, occupied, s, h, hs, call :: pre, hpre => by
    rw [List.cons_append, List.cons_prefix_cons] at hpre
    obtain ⟨rfl, hpre⟩ := hpre
    have hrest : Alone occupied rest := h
    exact live_of_alone hrest hs pre hpre
  | .add (some rt) :: rest, occupied, s, h, hs, call :: pre, hpre => by
    rw [List.cons_append, List.cons_prefix_cons] at hpre
    obtain ⟨rfl, hpre⟩ := hpre
    obtain ⟨rfl, hpath, hrest⟩ := h
    exact live_of_alone hrest (hs.add hpath) pre hpre
  | .reset :: rest, occupied, s, h, hs, call :: pre, hpre => by
    rw [List.cons_append, List.cons_prefix_cons] at hpre
    obtain ⟨rfl, hpre⟩ := hpre
    have hrest : Alone false rest := h
    exact live_of_alone hrest hs.reset pre hpre

/-! ## 二つ目を足す・path が空である -/

/-- 一つあるところへ足すと再配置が起き、残っている要素の mapping が unmap される。 -/
theorem not_live_add (h : Tidy true s) (rt : RuntimeMetaData) : ¬ (s.add c (some rt)).Live := by
  obtain ⟨old, hold, hpath, hcap⟩ := h.single
  intro hlive
  have hlen : s.runtimes.length = s.capacity := by rw [hold, hcap]; rfl
  have hmem : old ∈ (s.add c (some rt)).runtimes := by
    simp only [add, emplaceBack, sort, if_pos hlen]
    exact (c.sorts _).perm.mem_iff.mpr (by simp [hold])
  have hunmap : old.metadata ∈ (s.add c (some rt)).unmaps := by
    simp only [add, emplaceBack, sort, if_pos hlen, List.mem_append]
    exact .inl (.inr (mem_destroyAll.mpr ⟨old, by simp [hold], hpath, rfl⟩))
  exact (hlive.mapped old hmem).2 hunmap

/-- どの要素も unmap しない mapping。 -/
structure Leaks (id : Nat) (s : MapState) : Prop where
  lt : id < s.maps
  not_mem : id ∉ s.unmaps
  path : ∀ rt ∈ s.runtimes, rt.metadata = id → rt.path = ""

theorem Leaks.not_mem_destroyAll {id : Nat} (h : Leaks id s) {rts : List RuntimeMetaData}
    (hsub : ∀ rt ∈ rts, rt ∈ s.runtimes) : id ∉ destroyAll rts := by
  intro hmem
  obtain ⟨rt, hrt, hpath, hid⟩ := mem_destroyAll.mp hmem
  exact hpath (h.path rt (hsub rt hrt) hid)

theorem Leaks.emplaceBack {id : Nat} (h : Leaks id s) (rt : RuntimeMetaData) :
    Leaks id (s.emplaceBack c rt) := by
  have hdestroy := h.not_mem_destroyAll fun _ hr => hr
  have hpath : ∀ r ∈ s.runtimes ++ [{ rt with metadata := s.maps }], r.metadata = id →
      r.path = "" := by
    intro r hr hid
    rcases List.mem_append.mp hr with hr | hr
    · exact h.path r hr hid
    · -- 新しい mapping の番号は、古い番号と重ならない
      rw [List.mem_singleton.mp hr] at hid
      exact absurd hid (Nat.ne_of_gt h.lt)
  unfold MapState.emplaceBack
  split
  · refine ⟨Nat.lt_succ_of_lt h.lt, fun hmem => ?_, hpath⟩
    exact (List.mem_append.mp hmem).elim h.not_mem hdestroy
  · exact ⟨Nat.lt_succ_of_lt h.lt, h.not_mem, hpath⟩

theorem Leaks.sort {id : Nat} (h : Leaks id s) : Leaks id (s.sort c) := by
  refine ⟨h.lt, fun hmem => ?_, fun r hr => ?_⟩
  · exact (List.mem_append.mp hmem).elim h.not_mem
      (h.not_mem_destroyAll (c.mem_of_temporary s.runtimes))
  · exact h.path r ((c.sorts s.runtimes).perm.mem_iff.mp hr)

theorem Leaks.step {id : Nat} (h : Leaks id s) : ∀ call : MapCall, Leaks id (s.step c call)
  | .add none => h
  | .add (some rt) => (h.emplaceBack rt).sort
  | .reset => by
    refine ⟨h.lt, fun hmem => ?_, fun r hr => absurd hr List.not_mem_nil⟩
    exact (List.mem_append.mp hmem).elim h.not_mem (h.not_mem_destroyAll fun _ hr => hr)

theorem Leaks.run {id : Nat} : ∀ {s : MapState}, Leaks id s → ∀ calls : List MapCall,
    Leaks id (s.run c calls)
  | _, h, [] => h
  | _, h, call :: rest => (h.step call).run rest

/-- 最後に `reset` しても unmap されないので、正しい状態では終わらない。 -/
theorem Leaks.not_live {id : Nat} (h : Leaks id s) (calls : List MapCall) :
    ¬ (s.run c (calls ++ [.reset])).Live := by
  intro hlive
  have hleak := h.run (c := c) (calls ++ [.reset])
  have hnil : (s.run c (calls ++ [.reset])).runtimes = [] := by
    rw [MapState.run, List.foldl_append]
    rfl
  have hone := hlive.once id hleak.lt (by simp [hnil])
  rw [List.count_eq_zero_of_not_mem hleak.not_mem] at hone
  exact absurd hone (by decide)

theorem leaks_add (h : Tidy false s) (hpath : rt.path = "") :
    Leaks s.maps (s.add c (some rt)) := by
  obtain ⟨hrt, hmaps, hunmaps, -⟩ := add_of_nil (c := c) h.single.1 rt
  refine ⟨by rw [hmaps]; exact Nat.lt_succ_self _, fun hmem => ?_, fun r hr _ => ?_⟩
  · rw [hunmaps] at hmem
    exact absurd (h.bounded _ hmem) (Nat.lt_irrefl _)
  · rw [hrt, List.mem_singleton] at hr
    rw [hr]
    exact hpath

/-- 呼び出しの間ずっと正しいなら、その呼び出しは `Alone` である。 -/
theorem alone_of_live : ∀ {calls : List MapCall} {occupied : Bool} {s : MapState},
    Tidy occupied s → (∀ pre, pre <+: calls ++ [.reset] → (s.run c pre).Live) →
      Alone occupied calls
  | [], _, _, _, _ => trivial
  | .add none :: rest, occupied, s, hs, hlive => by
    show Alone occupied rest
    exact alone_of_live hs fun pre hpre =>
      hlive (.add none :: pre) (List.cons_prefix_cons.mpr ⟨rfl, hpre⟩)
  | .add (some rt) :: rest, occupied, s, hs, hlive => by
    have hrest : ∀ pre, pre <+: rest ++ [.reset] → ((s.add c (some rt)).run c pre).Live :=
      fun pre hpre => hlive (.add (some rt) :: pre) (List.cons_prefix_cons.mpr ⟨rfl, hpre⟩)
    cases occupied with
    | true => exact absurd (hrest [] List.nil_prefix) (not_live_add hs rt)
    | false =>
      have hpath : rt.path ≠ "" := fun hempty =>
        (leaks_add hs hempty).not_live rest (hrest _ (List.prefix_refl _))
      exact ⟨rfl, hpath, alone_of_live (hs.add hpath) hrest⟩
  | .reset :: rest, occupied, s, hs, hlive => by
    show Alone false rest
    exact alone_of_live hs.reset fun pre hpre =>
      hlive (.reset :: pre) (List.cons_prefix_cons.mpr ⟨rfl, hpre⟩)

/--
`add` と `reset` の列の間も、最後に `reset` した後も mapping が正しく持たれるのは、成功する `add` が
`reset` と `reset` の間に一度だけで、path が空でないときに限る。
-/
theorem live_iff_alone (c : Containers) (calls : List MapCall) :
    (∀ pre, pre <+: calls ++ [.reset] → (empty.run c pre).Live) ↔ Alone false calls :=
  ⟨alone_of_live tidy_empty, fun h => live_of_alone h tidy_empty⟩

/-! ## 例 -/

/-- 倍に伸びる vector と、二つ目からの要素を一度ずつ取り出す挿入 sort。 -/
def sampleContainers : Containers where
  grow := fun n => n + max n 1
  sort := List.insertionSort baseLe
  temporaries := List.tail
  grow_zero := rfl
  lt_grow := fun n => by omega
  sorts := fun _ => ⟨List.perm_insertionSort _ _, List.pairwise_insertionSort _ _⟩
  mem_of_temporary := fun _ _ h => List.mem_of_mem_tail h
  temporaries_short := fun rts h => List.eq_nil_of_length_eq_zero (by rw [List.length_tail]; omega)

def sampleModule (path : String) (rtbase : UInt64) : RuntimeMetaData :=
  ⟨path, 0, ⟨0, 0, 0, 0, 0, 0, 0, 0, 0, 0, 0, 0⟩, [], fun _ => ⟨0, 0⟩, [], rtbase, rtbase + 0x1000⟩

/--
二つの module を順に足すと、一つ目の mapping は `reset` の前に unmap される。一つ目の要素は残っている。
-/
theorem sampleModule_not_live : ¬ ∀ calls, (empty.run sampleContainers calls).Live := by
  intro hlive
  have h := hlive [.add (some (sampleModule "/bin/a" 0x1000)),
    .add (some (sampleModule "/lib/b" 0x3000))]
  have hmem : { sampleModule "/bin/a" 0x1000 with metadata := 0 } ∈
      (empty.run sampleContainers [.add (some (sampleModule "/bin/a" 0x1000)),
        .add (some (sampleModule "/lib/b" 0x3000))]).runtimes :=
    List.mem_of_getElem? (i := 0) rfl
  exact (h.mapped _ hmem).2 (by decide)

end MapState

end AetherVM
