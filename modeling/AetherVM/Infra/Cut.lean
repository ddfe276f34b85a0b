import Mathlib.Data.List.Chain
import Mathlib.Data.List.Forall2

/-!
# 列の切り分け

列を空でない区間に切り分け、区間の中では隣り合う要素が関係 `r` にあるとする。`r` の切れる所は、必ず区間の
先頭になる。
-/

namespace AetherVM.Infra

variable {α β : Type} {r : α → α → Prop}

/-- `parts` は `l` を切り分けたもので、区間の中では `r` が続く。 -/
structure Cuts (r : α → α → Prop) (l : List α) (parts : List (List α)) : Prop where
  flatten : parts.flatten = l
  ne_nil : ∀ part ∈ parts, part ≠ []
  chain : ∀ part ∈ parts, part.IsChain r

namespace Cuts

theorem nil : Cuts r [] [] :=
  ⟨rfl, fun _ h => absurd h List.not_mem_nil, fun _ h => absurd h List.not_mem_nil⟩

theorem cons {l part : List α} {parts : List (List α)} (h : Cuts r l parts) (hne : part ≠ [])
    (hchain : part.IsChain r) : Cuts r (part ++ l) (part :: parts) where
  flatten := by rw [List.flatten_cons, h.flatten]
  ne_nil := List.forall_mem_cons.mpr ⟨hne, h.ne_nil⟩
  chain := List.forall_mem_cons.mpr ⟨hchain, h.chain⟩

theorem append {l l' : List α} {parts parts' : List (List α)} (h : Cuts r l parts)
    (h' : Cuts r l' parts') : Cuts r (l ++ l') (parts ++ parts') where
  flatten := by rw [List.flatten_append, h.flatten, h'.flatten]
  ne_nil := List.forall_mem_append.mpr ⟨h.ne_nil, h'.ne_nil⟩
  chain := List.forall_mem_append.mpr ⟨h.chain, h'.chain⟩

/-- 直前の要素との間で `r` が切れる要素は、区間の先頭である。列の先頭の要素もそうである。 -/
theorem exists_head : ∀ {parts : List (List α)} {l pre post : List α} {x : α}, Cuts r l parts →
    l = pre ++ x :: post → (∀ p ∈ pre.getLast?, ¬ r p x) → ∃ part ∈ parts, part.head? = some x
  | [], l, pre, post, x, h, heq, _ => by
    rw [← h.flatten] at heq
    simp at heq
  | part :: parts, l, pre, post, x, h, heq, hbreak => by
    obtain ⟨hne, hnes⟩ := List.forall_mem_cons.mp h.ne_nil
    obtain ⟨hchain, hchains⟩ := List.forall_mem_cons.mp h.chain
    rw [← h.flatten, List.flatten_cons, List.append_eq_append_iff] at heq
    rcases heq with ⟨mid, hpre, hrest⟩ | ⟨mid, hpart, hmid⟩
    · -- `x` は後ろの区間にある
      have hcut : Cuts r parts.flatten parts := ⟨rfl, hnes, hchains⟩
      obtain ⟨q, hq, hhead⟩ := hcut.exists_head hrest fun p hp => hbreak p (by
        rw [hpre, List.getLast?_append]
        rw [Option.mem_def] at hp
        simp [hp])
      exact ⟨q, List.mem_cons_of_mem _ hq, hhead⟩
    · cases mid with
      | nil =>
        -- 区間 `part` はちょうど `x` の前で終わる
        have hcut : Cuts r parts.flatten parts := ⟨rfl, hnes, hchains⟩
        have hrest : parts.flatten = [] ++ x :: post := hmid.symm
        obtain ⟨q, hq, hhead⟩ := hcut.exists_head hrest (by simp)
        exact ⟨q, List.mem_cons_of_mem _ hq, hhead⟩
      | cons y mid =>
        obtain ⟨rfl, -⟩ := List.cons.inj (hmid : x :: post = y :: (mid ++ parts.flatten))
        refine ⟨part, List.mem_cons_self, ?_⟩
        cases hlast : pre.getLast? with
        | none =>
          rw [hpart, List.getLast?_eq_none_iff.mp hlast]
          rfl
        | some p =>
          -- 直前の要素も同じ区間にあるので、`r` は切れない
          obtain ⟨front, hfront⟩ := List.getLast?_eq_some_iff.mp hlast
          rw [hpart, hfront, List.append_assoc] at hchain
          have hr := (List.isChain_append_cons_cons.mp hchain).2.1
          exact absurd hr (hbreak p hlast)

end Cuts

end AetherVM.Infra
