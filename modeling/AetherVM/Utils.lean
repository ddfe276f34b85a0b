import AetherVM.Infra.Search
import AetherVM.Interp.Runtime
import AetherVM.Operand.Intern
import AetherVM.Orchestrator.Find

/-!
# 分岐の無い二分探索（`src/include/Utils.h` の `binary_search`・`is_exact`）

memory を要素の番地から要素への関数で表し、pointer は要素の番地、配列は `arr` から `size` 個の番地とする。
大きさは上限の無い自然数で、`size_t` の計算はどれも溢れない。要素の型の `operator<` と `operator==` は、二つの
関数 `less` と `equal` で与える。

* `operator<` が弱い順序で、空でない配列がその順に並んでいれば、`binary_search` は key より小さくない最初の
  要素の番地を返し、配列の外を読まない。
* `operator==` が、どちらも小さくないことと同じなら、`is_exact` は key が配列にあるかどうかを言う。

loop は fuel を使わない。大きさが半分の切り上げに減ることで止まる。

module・命令・block・実装の四つの検索は、どれもこの二分探索である。
-/

namespace AetherVM.Utils

open Infra

universe u

variable {T : Type u} (less equal : T → T → Bool)

/-! ## 二分探索 -/

/-- 読んだ番地の列と、返した pointer。 -/
structure Searched where
  reads : List Nat
  ptr : Nat
deriving DecidableEq, Repr

/-- `binary_search` の loop。 -/
def searchLoop (mem : Nat → T) (key : T) (base size : Nat) : Searched :=
  if 1 < size then
    let half := size / 2
    let probe := base + (half - 1)
    let rest := searchLoop mem key (if less (mem probe) key then base + half else base)
      (size - half)
    ⟨probe :: rest.reads, rest.ptr⟩
  else ⟨[base], if less (mem base) key then base + 1 else base⟩
termination_by size
decreasing_by omega

/-- `binary_search`。 -/
def binarySearch (mem : Nat → T) (arr size : Nat) (key : T) : Searched :=
  searchLoop less mem key arr size

/-- `is_exact`。 -/
def isExact (mem : Nat → T) (found arr size : Nat) (key : T) : Bool :=
  found ≠ arr + size && equal (mem found) key

/-! ## 仕様 -/

/-- `arr` から `size` 個の要素。 -/
def array (mem : Nat → T) (arr size : Nat) : List T :=
  (List.range size).map fun i => mem (arr + i)

/-- `operator<` の順に並ぶこと。比べられない要素は、どの順に続いてもよい。 -/
def Sorted (xs : List T) : Prop := xs.Pairwise fun a b => less b a = false

instance (xs : List T) : Decidable (Sorted less xs) :=
  inferInstanceAs (Decidable (xs.Pairwise fun a b => less b a = false))

/-- `operator==` が、どちらも小さくないことと同じであること。 -/
def EqualIsIncomparable : Prop :=
  ∀ a b, equal a b = true ↔ less a b = false ∧ less b a = false

section Array

variable {less} {mem : Nat → T} {arr size i : Nat}

@[simp] theorem length_array : (array mem arr size).length = size := by
  rw [array, List.length_map, List.length_range]

theorem getElem_array (h : i < (array mem arr size).length) :
    (array mem arr size)[i] = mem (arr + i) := by
  simp only [array, List.getElem_map, List.getElem_range]

theorem mem_array {x : T} : x ∈ array mem arr size ↔ ∃ i < size, mem (arr + i) = x := by
  simp only [array, List.mem_map, List.mem_range]

/-- 整列を番地で言う。 -/
theorem Sorted.not_less (hweak : IsStrictWeakOrder T fun a b => less a b = true)
    (hs : Sorted less (array mem arr size)) :
    ∀ i j, i ≤ j → j < size → ¬ less (mem (arr + j)) (mem (arr + i)) = true := by
  intro i j hij hj
  rcases Nat.lt_or_eq_of_le hij with hlt | rfl
  · have hj' : j < (array mem arr size).length := by rwa [length_array]
    have hpair := List.pairwise_iff_getElem.mp hs i j (by omega) hj' hlt
    rw [getElem_array, getElem_array] at hpair
    rw [hpair]
    exact Bool.false_ne_true
  · exact hweak.irrefl _

end Array

/-! ## 要素の型

検索する四つの型の `operator<` は、どれも一つの整数の field だけを比べる。
-/

section Field

variable (f : T → Nat)

/-- 一つの field を比べる `operator<`。 -/
def lessBy (a b : T) : Bool := f a < f b

/-- 一つの field を比べる `operator==`。 -/
def equalBy (a b : T) : Bool := f a == f b

theorem lessBy_weak : IsStrictWeakOrder T fun a b => lessBy f a b = true := by
  simp only [lessBy, decide_eq_true_eq]
  exact {
    irrefl := fun _ => Nat.lt_irrefl _
    trans := fun _ _ _ => Nat.lt_trans
    incomp_trans := fun a b c hab hbc => by omega }

theorem equalBy_isIncomparable : EqualIsIncomparable (lessBy f) (equalBy f) := by
  intro a b
  simp only [lessBy, equalBy, beq_iff_eq, decide_eq_false_iff_not]
  omega

end Field

/-- `Handler` の `operator<`。 -/
def handlerLess : Handler → Handler → Bool := lessBy fun h => h.hash.toNat

/-- `Handler` の `operator==`。 -/
def handlerEqual : Handler → Handler → Bool := equalBy fun h => h.hash.toNat

/-- `addr_t` の `<`。 -/
def addrLess : Nat → Nat → Bool := lessBy id

/-- `addr_t` の `==`。 -/
def addrEqual : Nat → Nat → Bool := equalBy id

/-- `InsnMeta` の `operator<=>` による `<`。 -/
def insnLess : IMetaData.InsnMeta → IMetaData.InsnMeta → Bool := lessBy fun insn => insn.rva.toNat

/-- `RuntimeMetaData` の `operator<=>` による `<`。 -/
def runtimeLess : RuntimeMetaData → RuntimeMetaData → Bool := lessBy fun rt => rt.rtbase.toNat

/-! ## 答え -/

section Search

variable {less equal} {mem : Nat → T} {arr size i : Nat}

/-- 配列の中の番号で見れば、番号だけを通す二分探索と同じである。 -/
theorem searchLoop_eq (mem : Nat → T) (arr : Nat) (key : T) : ∀ (fuel base size : Nat),
    size ≤ fuel → searchLoop less mem key (arr + base) size =
      ⟨(Infra.searchLoop (fun i => less (mem (arr + i)) key) fuel base size).1.map (arr + ·),
        arr + (Infra.searchLoop (fun i => less (mem (arr + i)) key) fuel base size).2⟩ := by
  intro fuel
  induction fuel with
  | zero =>
    intro base size hfuel
    rw [searchLoop, Infra.searchLoop, if_neg (by omega)]
    split <;> rfl
  | succ fuel ih =>
    intro base size hfuel
    rw [searchLoop, Infra.searchLoop]
    by_cases hone : size ≤ 1
    · rw [if_neg (by omega), if_pos hone]
      split <;> rfl
    · have hprobe : arr + base + (size / 2 - 1) = arr + (base + size / 2 - 1) := by omega
      rw [if_pos (by omega), if_neg hone]
      dsimp only
      rw [hprobe]
      by_cases hb : less (mem (arr + (base + size / 2 - 1))) key = true
      · rw [if_pos hb, if_pos hb, Nat.add_assoc, ih _ _ (by omega)]
        rfl
      · rw [if_neg hb, if_neg hb, ih _ _ (by omega)]
        rfl

theorem binarySearch_eq (key : T) : binarySearch less mem arr size key =
    ⟨(searchReads (fun i => less (mem (arr + i)) key) size).map (arr + ·),
      arr + Infra.binarySearch (fun i => less (mem (arr + i)) key) size⟩ :=
  searchLoop_eq mem arr key size 0 size (Nat.le_refl _)

/-- 空でない配列の探索は、配列の中だけを読む。 -/
theorem binarySearch_reads (hpos : 0 < size) (key : T) :
    ∀ a ∈ (binarySearch less mem arr size key).reads, arr ≤ a ∧ a < arr + size := by
  intro a ha
  rw [binarySearch_eq] at ha
  obtain ⟨i, hi, rfl⟩ := List.mem_map.mp ha
  have hlt := searchReads_lt hpos i hi
  omega

theorem isExact_add (key : T) : isExact equal mem (arr + i) arr size key = true ↔
    i ≠ size ∧ equal (mem (arr + i)) key = true := by
  rw [isExact, Bool.and_eq_true, decide_eq_true_eq, Ne, Nat.add_left_cancel_iff]

section Sorted

variable (hweak : IsStrictWeakOrder T fun a b => less a b = true)
  (hs : Sorted less (array mem arr size)) (hpos : 0 < size)

include hweak hs

theorem splitAt_less (key : T) : SplitAt (fun i => less (mem (arr + i)) key) size := by
  have hsplit := splitAt_of_sorted (r := fun a b => less a b = true)
    (f := fun i => mem (arr + i)) (Sorted.not_less hweak hs) key
  simpa only [Bool.decide_eq_true] using hsplit

include hpos

/-- 返すのは、key より小さくない最初の要素の番地である。 -/
theorem binarySearch_ptr (key : T) : (binarySearch less mem arr size key).ptr =
    arr + (array mem arr size).findIdx fun x => !less x key := by
  rw [binarySearch_eq]
  have hle : (array mem arr size).findIdx (fun x => !less x key) ≤ (array mem arr size).length :=
    List.findIdx_le_length
  rw [length_array] at hle
  refine congrArg (arr + ·) (Infra.binarySearch_eq (splitAt_less hweak hs key) hpos hle ?_ ?_)
  · intro i hi
    have hfirst := List.not_of_lt_findIdx hi
    rw [getElem_array] at hfirst
    simpa using hfirst
  · intro hlt
    have hfound := List.findIdx_getElem (w := by rwa [length_array])
    rw [getElem_array] at hfound
    simpa using hfound

/-- `is_exact` は、key が配列にあるかどうかを言う。 -/
theorem isExact_iff (heq : EqualIsIncomparable less equal) (key : T) :
    isExact equal mem (binarySearch less mem arr size key).ptr arr size key = true ↔
      ∃ x ∈ array mem arr size, equal x key = true := by
  have hexists := exists_incomparable_iff (r := fun a b => less a b = true)
    (f := fun i => mem (arr + i)) (Sorted.not_less hweak hs) key hpos
  have hle : Infra.binarySearch (fun i => less (mem (arr + i)) key) size ≤ size :=
    binarySearch_le hpos
  simp only [Bool.decide_eq_true, Bool.not_eq_true] at hexists
  rw [binarySearch_eq, isExact_add, heq, ← Nat.lt_iff_le_and_ne.trans (and_iff_right hle),
    ← hexists]
  constructor
  · rintro ⟨i, hi, hincomparable⟩
    exact ⟨_, mem_array.mpr ⟨i, hi, rfl⟩, (heq _ _).mpr hincomparable⟩
  · rintro ⟨x, hx, hequal⟩
    obtain ⟨i, hi, rfl⟩ := mem_array.mp hx
    exact ⟨i, hi, (heq _ _).mp hequal⟩

end Sorted

end Search

/--
弱い順序に並んだ空でない配列では、`binary_search` は key より小さくない最初の要素（無ければ配列の終わり）の番地を返し、
配列の外を読まない。`operator==` がどちらも小さくないことと同じなら、`is_exact` が真になるのは key が配列に
あるときに限る。
-/
theorem binarySearch_lowerBound (hweak : IsStrictWeakOrder T fun a b => less a b = true)
    (mem : Nat → T) (arr size : Nat) (hpos : 0 < size) (hs : Sorted less (array mem arr size))
    (key : T) :
    (binarySearch less mem arr size key).ptr =
        arr + ((array mem arr size).findIdx fun x => !less x key) ∧
      (∀ a ∈ (binarySearch less mem arr size key).reads, arr ≤ a ∧ a < arr + size) ∧
      (EqualIsIncomparable less equal →
        (isExact equal mem (binarySearch less mem arr size key).ptr arr size key = true ↔
          ∃ x ∈ array mem arr size, equal x key = true)) :=
  ⟨binarySearch_ptr hweak hs hpos key, binarySearch_reads hpos key,
    fun heq => isExact_iff hweak hs hpos heq key⟩

/-- hash の同じ実装が二つ並ぶ表。 -/
def sampleHandlers (i : Nat) : Handler := ⟨[3, 5, 5, 9].getD (i - 0x10) 0, UInt64.ofNat i⟩

/-- 同じ hash が並べば、最初のものを見つける。 -/
theorem sampleHandlers_lowerBound :
    (binarySearch handlerLess sampleHandlers 0x10 4 ⟨5, 0⟩).ptr = 0x11 ∧
      (∀ a ∈ (binarySearch handlerLess sampleHandlers 0x10 4 ⟨5, 0⟩).reads,
        0x10 ≤ a ∧ a < 0x10 + 4) ∧
      isExact handlerEqual sampleHandlers
        (binarySearch handlerLess sampleHandlers 0x10 4 ⟨5, 0⟩).ptr 0x10 4 ⟨5, 0⟩ = true := by
  obtain ⟨hptr, hreads, hexact⟩ := binarySearch_lowerBound handlerLess handlerEqual (lessBy_weak _)
    sampleHandlers 0x10 4 (by decide) (by decide) ⟨5, 0⟩
  exact ⟨hptr.trans (by decide), hreads, (hexact (equalBy_isIncomparable _)).mpr (by decide)⟩

/-! ## 使う所 -/

section List

variable {less equal} {mem : Nat → T} {arr : Nat} {xs : List T}
  (hmem : array mem arr xs.length = xs)

include hmem

theorem getElem?_of_array {i : Nat} (hi : i < xs.length) : xs[i]? = some (mem (arr + i)) := by
  have hi : i < (array mem arr xs.length).length := by rwa [length_array]
  rw [← getElem_array hi, ← List.getElem?_eq_getElem hi, hmem]

/-- 列を置いた配列の探索は、列の番号を通す二分探索と同じである。 -/
theorem binarySearch_list (hne : xs ≠ []) {lt : Nat → Bool} {key : T}
    (hlt : ∀ i (x : T), xs[i]? = some x → lt i = less x key) :
    (binarySearch less mem arr xs.length key).ptr = arr + Infra.binarySearch lt xs.length := by
  rw [binarySearch_eq]
  refine congrArg (arr + ·) (binarySearch_congr (List.length_pos_iff.mpr hne) fun i hi => ?_)
  exact (hlt i _ (getElem?_of_array hmem hi)).symm

theorem isExact_list {i : Nat} (hi : i ≤ xs.length) (key : T) :
    isExact equal mem (arr + i) arr xs.length key = true ↔ ∃ x ∈ xs[i]?, equal x key = true := by
  rw [isExact_add]
  rcases Nat.lt_or_eq_of_le hi with hlt | rfl
  · rw [getElem?_of_array hmem hlt]
    simp [Nat.ne_of_lt hlt]
  · simp

end List

theorem exists_array (xs : List T) (x : T) : ∃ mem, array mem 0 xs.length = xs := by
  refine ⟨fun i => xs[i]?.getD x, List.ext_getElem length_array fun i _ hi => ?_⟩
  rw [getElem_array, Nat.zero_add, List.getElem?_eq_getElem hi, Option.getD_some]

/-- `initRemill` の検索。 -/
theorem findHandler_eq {env : RemillEnv} {mem : Nat → Handler} {arr : Nat}
    (hmem : array mem arr env.handlers.length = env.handlers) (hne : env.handlers ≠ [])
    (function : Name) : env.findHandler function =
      let key : Handler := ⟨env.hash function, 0⟩
      let found := (binarySearch handlerLess mem arr env.handlers.length key).ptr
      if isExact handlerEqual mem found arr env.handlers.length key then some (mem found)
      else none := by
  have hptr : (binarySearch handlerLess mem arr env.handlers.length ⟨env.hash function, 0⟩).ptr =
      arr + Infra.binarySearch (fun i => env.handlers[i]?.any fun h =>
        decide (h.hash < env.hash function)) env.handlers.length :=
    binarySearch_list hmem hne fun i h hi => by
      rw [hi, Option.any_some]
      exact decide_eq_decide.mpr UInt64.lt_iff_toNat_lt
  dsimp only
  rw [hptr, RemillEnv.findHandler]
  set found := Infra.binarySearch (fun i => env.handlers[i]?.any fun h =>
    decide (h.hash < env.hash function)) env.handlers.length
  have hle : found ≤ env.handlers.length := binarySearch_le (List.length_pos_iff.mpr hne)
  rcases Nat.lt_or_eq_of_le hle with hlt | heq
  · rw [getElem?_of_array hmem hlt, Option.filter_some]
    refine if_congr ?_ rfl rfl
    rw [isExact_add, and_iff_right (Nat.ne_of_lt hlt), decide_eq_true_eq, ← UInt64.toNat_inj]
    exact beq_iff_eq.symm
  · have hno : ¬ isExact handlerEqual mem (arr + found) arr env.handlers.length
        ⟨env.hash function, 0⟩ = true := fun h => ((isExact_add _).mp h).1 heq
    rw [if_neg hno, List.getElem?_eq_none (Nat.le_of_eq heq.symm)]
    rfl

/-- hash の順に並んだ表では、名前の hash を持つ実装があるときに限って見つかる。 -/
theorem findHandler_isSome_iff {env : RemillEnv} (hs : Sorted handlerLess env.handlers)
    (hne : env.handlers ≠ []) (function : Name) :
    (env.findHandler function).isSome = true ↔
      ∃ h ∈ env.handlers, h.hash = env.hash function := by
  obtain ⟨mem, hmem⟩ := exists_array env.handlers ⟨0, 0⟩
  have hexact := isExact_iff (lessBy_weak _) (hmem.symm ▸ hs) (List.length_pos_iff.mpr hne)
    (equalBy_isIncomparable _) ⟨env.hash function, 0⟩
  rw [hmem] at hexact
  rw [findHandler_eq hmem hne, Option.isSome_ite]
  refine hexact.trans (exists_congr fun h => and_congr_right fun _ => ?_)
  rw [equalBy, beq_iff_eq, UInt64.toNat_inj]

/-- `findBlocks` の検索。 -/
theorem findBlocks_search {bb : Orchestrator.BasicBlocks} {mem : Nat → Nat} {arr : Nat}
    (hmem : array mem arr bb.vmaddrs.length = bb.vmaddrs) (hne : bb.vmaddrs ≠ []) (vmaddr : Nat) :
    (binarySearch addrLess mem arr bb.vmaddrs.length vmaddr).ptr =
        arr + Infra.binarySearch (Orchestrator.vmaddrLt bb vmaddr) bb.vmaddrs.length ∧
      (isExact addrEqual mem (binarySearch addrLess mem arr bb.vmaddrs.length vmaddr).ptr arr
          bb.vmaddrs.length vmaddr = true ↔
        bb.vmaddrs[Infra.binarySearch (Orchestrator.vmaddrLt bb vmaddr) bb.vmaddrs.length]?
          = some vmaddr) := by
  have hptr : (binarySearch addrLess mem arr bb.vmaddrs.length vmaddr).ptr =
      arr + Infra.binarySearch (Orchestrator.vmaddrLt bb vmaddr) bb.vmaddrs.length :=
    binarySearch_list hmem hne fun i addr hi => by
      rw [Orchestrator.vmaddrLt, hi]
      rfl
  refine ⟨hptr, ?_⟩
  rw [hptr, isExact_list hmem (binarySearch_le (List.length_pos_iff.mpr hne))]
  simp [addrEqual, equalBy]

/-- `InterpMetaData::find` の検索。 -/
theorem runtimes_search {runtimes : List RuntimeMetaData} {mem : Nat → RuntimeMetaData} {arr : Nat}
    (hmem : array mem arr runtimes.length = runtimes) (hne : runtimes ≠ [])
    (key : RuntimeMetaData) :
    (binarySearch runtimeLess mem arr runtimes.length key).ptr =
      arr + Infra.binarySearch (InterpMetaData.rtLt runtimes key.rtbase) runtimes.length :=
  binarySearch_list hmem hne fun i rt hi => by
    rw [InterpMetaData.rtLt, hi]
    exact decide_eq_decide.mpr UInt64.lt_iff_toNat_lt

/-- `RuntimeMetaData::find` の検索。 -/
theorem insns_search (rt : RuntimeMetaData) (addr : UInt64) (key : IMetaData.InsnMeta)
    (hkey : key.rva = rt.key addr) :
    binarySearch insnLess rt.insn 0 rt.insns.length key =
      ⟨searchReads (rt.insnLt addr) rt.insns.length,
        Infra.binarySearch (rt.insnLt addr) rt.insns.length⟩ := by
  have hlt : (fun i => insnLess (rt.insn (0 + i)) key) = rt.insnLt addr := by
    funext i
    rw [Nat.zero_add, RuntimeMetaData.insnLt, ← hkey]
    exact decide_eq_decide.mpr UInt32.lt_iff_toNat_lt.symm
  rw [binarySearch_eq, hlt]
  simp

end AetherVM.Utils
