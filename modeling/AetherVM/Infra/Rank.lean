import Mathlib.Data.List.Basic
import Mathlib.Order.Lattice

/-!
# 列の中の順位

値の順位とは、列の中でそれより小さいものの数である。列をその値で狭義の昇順に並べると、順位は並べた後の
位置になる。二つの値が列の先頭の部分に同じ順位を与えるのは、その部分の要素を列の全体に対して同じ順に
並べるときである。
-/

namespace AetherVM.Infra

variable {α β : Type} [LinearOrder β]

/-- `a` より小さい要素の数。 -/
def rankBy (f : α → β) (l : List α) (a : α) : Nat := l.countP fun x => f x < f a

variable {f g : α → β} {l l' : List α}

theorem rankBy_perm (h : l.Perm l') (a : α) : rankBy f l a = rankBy f l' a := h.countP_eq _

section Sorted

variable (hs : l.Pairwise fun a b => f a < f b)

include hs

theorem lt_iff_of_sorted {i j : Nat} (hi : i < l.length) (hj : j < l.length) :
    f l[i] < f l[j] ↔ i < j := by
  constructor
  · intro hlt
    rcases Nat.lt_trichotomy i j with h | rfl | h
    · exact h
    · exact absurd hlt (lt_irrefl _)
    · exact absurd hlt (lt_asymm (List.pairwise_iff_getElem.mp hs j i hj hi h))
  · exact List.pairwise_iff_getElem.mp hs i j hi hj

/-- 昇順の列では、順位は位置である。 -/
theorem rankBy_getElem {i : Nat} (hi : i < l.length) : rankBy f l l[i] = i := by
  -- 位置 `i` より前の要素はどれも小さく、後ろの要素はどれも小さくない
  have hfront : (l.take i).countP (fun x => decide (f x < f l[i])) = i := by
    have hall : ∀ x ∈ l.take i, decide (f x < f l[i]) = true := by
      intro x hx
      obtain ⟨j, hj, rfl⟩ := List.getElem_of_mem hx
      rw [List.length_take] at hj
      rw [List.getElem_take, decide_eq_true_eq, lt_iff_of_sorted hs (by omega) hi]
      omega
    rw [List.countP_eq_length.mpr hall, List.length_take]
    omega
  have hback : (l.drop i).countP (fun x => decide (f x < f l[i])) = 0 := by
    refine List.countP_eq_zero.mpr fun x hx => ?_
    obtain ⟨j, hj, rfl⟩ := List.getElem_of_mem hx
    rw [List.length_drop] at hj
    rw [List.getElem_drop, decide_eq_true_eq, lt_iff_of_sorted hs (by omega) hi]
    omega
  calc rankBy f l l[i] = (l.take i ++ l.drop i).countP (fun x => decide (f x < f l[i])) := by
        rw [List.take_append_drop, rankBy]
    _ = i := by rw [List.countP_append, hfront, hback, Nat.add_zero]

theorem getElem?_rankBy {a : α} (ha : a ∈ l) : l[rankBy f l a]? = some a := by
  obtain ⟨i, hi, rfl⟩ := List.getElem_of_mem ha
  rw [rankBy_getElem hs hi]
  exact List.getElem?_eq_getElem hi

end Sorted

/-! ## 順位と大小 -/

/-- 列 `m` は、列 `l` を `f` の狭義の昇順に並べたものである。 -/
structure SortsBy (f : α → β) (l m : List α) : Prop where
  perm : m.Perm l
  sorted : m.Pairwise fun a b => f a < f b

namespace SortsBy

variable {m n : List α} {a b : α}

theorem getElem?_rank (h : SortsBy f l m) (ha : a ∈ l) : m[rankBy f l a]? = some a := by
  rw [← rankBy_perm h.perm]
  exact getElem?_rankBy h.sorted (h.perm.mem_iff.mpr ha)

/-- 位置にあるものの順位は、その位置である。 -/
theorem rank_eq (h : SortsBy f l m) {i : Nat} (hi : m[i]? = some a) : rankBy f l a = i := by
  obtain ⟨hlt, rfl⟩ := List.getElem?_eq_some_iff.mp hi
  rw [← rankBy_perm h.perm]
  exact rankBy_getElem h.sorted hlt

theorem rank_inj (h : SortsBy f l m) (ha : a ∈ l) (hb : b ∈ l)
    (heq : rankBy f l a = rankBy f l b) : a = b := by
  have hget := h.getElem?_rank ha
  rw [heq, h.getElem?_rank hb, Option.some.injEq] at hget
  exact hget.symm

theorem rank_lt_iff (h : SortsBy f l m) (ha : a ∈ l) (hb : b ∈ l) :
    rankBy f l a < rankBy f l b ↔ f a < f b := by
  obtain ⟨hi, hia⟩ := List.getElem?_eq_some_iff.mp (h.getElem?_rank ha)
  obtain ⟨hj, hjb⟩ := List.getElem?_eq_some_iff.mp (h.getElem?_rank hb)
  rw [← lt_iff_of_sorted h.sorted hi hj, hia, hjb]

/-- `f` の順位が `k` より小さい要素に `g` も同じ順位を与えるのは、それらを列の全体に対して同じ順に並べるときである。 -/
theorem rank_eq_iff (hm : SortsBy f l m) (hn : SortsBy g l n) (k : Nat) :
    (∀ a ∈ l, rankBy f l a < k → rankBy g l a = rankBy f l a) ↔
      ∀ a ∈ l, rankBy f l a < k → ∀ b ∈ l, (f a < f b ↔ g a < g b) := by
  constructor
  · intro h a ha hak b hb
    rw [← hm.rank_lt_iff ha hb, ← hn.rank_lt_iff ha hb, h a ha hak]
    by_cases hbk : rankBy f l b < k
    · rw [h b hb hbk]
    · -- `b` の `g` の順位も `k` より小さくない。小さければ、その順位の要素が別にある
      have hlt : ¬ rankBy g l b < k := by
        intro hlt
        obtain ⟨hblen, -⟩ := List.getElem?_eq_some_iff.mp (hm.getElem?_rank hb)
        have hc : m[rankBy g l b]? = some _ := List.getElem?_eq_getElem (by omega)
        have hmem := hm.perm.mem_iff.mp (List.mem_of_getElem? hc)
        have hrank := hm.rank_eq hc
        have heq := h _ hmem (by omega)
        rw [hrank] at heq
        rw [← hn.rank_inj hmem hb heq, hrank] at hbk
        exact hbk hlt
      omega
  · intro h a ha hak
    refine List.countP_congr fun x hx => ?_
    rw [decide_eq_true_eq, decide_eq_true_eq]
    have hax := h a ha hak x hx
    by_cases heq : x = a
    · rw [heq]
      exact iff_of_false (lt_irrefl _) (lt_irrefl _)
    · have hf : f x ≠ f a := fun hc =>
        heq (hm.rank_inj hx ha (by unfold rankBy; rw [hc]))
      have hg : g x ≠ g a := fun hc =>
        heq (hn.rank_inj hx ha (by unfold rankBy; rw [hc]))
      rw [lt_iff_le_and_ne, lt_iff_le_and_ne, ← not_lt, ← not_lt, hax]
      exact and_congr_right fun _ => iff_of_true hg hf

end SortsBy

end AetherVM.Infra
