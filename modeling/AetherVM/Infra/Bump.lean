import Mathlib.Tactic.Common

/-!
# 前から順に取る allocator

`[lo, hi)` の範囲から、page に揃えた address を前から順に渡す allocator。最後に渡した区間の終わりを `used`、
次に渡す address を `next` とする。

渡した区間の大きさは page の倍数とは限らないので、区間のあいだには page より短い隙間が残る。page 一つ以上の
大きさの区間はその隙間には置けないので、置けるのは `used` から置けるときに限る（`Packed.exists_fresh_iff`）。
-/

namespace AetherVM.Infra

/-- 半開区間 `[start, start + size)`。 -/
structure Region where
  start : Nat
  size : Nat
deriving DecidableEq, Repr

def Region.Disjoint (r t : Region) : Prop :=
  r.start + r.size ≤ t.start ∨ t.start + t.size ≤ r.start

/-- `n` 以上で最小の、`page` の倍数。 -/
def roundUp (page n : Nat) : Nat := (n + page - 1) / page * page

section RoundUp

variable {page n : Nat}

theorem dvd_roundUp (page n : Nat) : page ∣ roundUp page n := Nat.dvd_mul_left _ _

theorem le_roundUp (hpage : 0 < page) (n : Nat) : n ≤ roundUp page n := by
  have h := Nat.div_add_mod (n + page - 1) page
  have hlt := Nat.mod_lt (n + page - 1) hpage
  unfold roundUp
  rw [Nat.mul_comm] at h
  omega

theorem roundUp_lt (hpage : 0 < page) (n : Nat) : roundUp page n < n + page := by
  have h := Nat.div_mul_le_self (n + page - 1) page
  unfold roundUp
  omega

/-- 0 でなければ、少なくとも page 一つになる。 -/
theorem page_le_roundUp (hpage : 0 < page) (hn : 0 < n) : page ≤ roundUp page n := by
  refine Nat.le_of_dvd ?_ (dvd_roundUp page n)
  exact Nat.lt_of_lt_of_le hn (le_roundUp hpage n)

end RoundUp

/-- `[lo, hi)` の中にあり、渡した区間のどれとも重ならないこと。 -/
structure Fresh (lo hi : Nat) (taken : List Region) (r : Region) : Prop where
  le_start : lo ≤ r.start
  inside : r.start + r.size ≤ hi
  disjoint : ∀ t ∈ taken, r.Disjoint t

/--
`used` までを渡し終え、次に `next` を渡す状態。渡した区間は互いに重ならず `used` より前にあり、`used` より前の
どこから見ても page 一つ分の中に渡した区間がある。
-/
structure Packed (page lo used next : Nat) (taken : List Region) : Prop where
  le_used : lo ≤ used
  used_le : used ≤ next
  gap : next < used + page
  pairwise : taken.Pairwise Region.Disjoint
  bounds : ∀ t ∈ taken, lo ≤ t.start ∧ t.start + t.size ≤ used
  covered : ∀ x, lo ≤ x → x < used → ∃ t ∈ taken, t.start < x + page ∧ x < t.start + t.size

namespace Packed

variable {page lo hi used next size n : Nat} {taken : List Region}

theorem nil (hpage : 0 < page) (lo : Nat) : Packed page lo lo lo [] where
  le_used := Nat.le_refl _
  used_le := Nat.le_refl _
  gap := Nat.lt_add_of_pos_right hpage
  pairwise := .nil
  bounds := fun _ ht => absurd ht List.not_mem_nil
  covered := fun _ hlo hlt => absurd hlo (Nat.not_le.mpr hlt)

/-- `used` より後から始まる区間は、渡した区間のどれとも重ならない。 -/
theorem fresh (h : Packed page lo used next taken) {start : Nat} (hstart : used ≤ start)
    (hfit : start + size ≤ hi) : Fresh lo hi taken ⟨start, size⟩ :=
  ⟨Nat.le_trans h.le_used hstart, hfit,
    fun t ht => .inr (Nat.le_trans (h.bounds t ht).2 hstart)⟩

/-- page 一つ以上の区間が置けるのは、`used` から置けるときに限る。 -/
theorem exists_fresh_iff (h : Packed page lo used next taken) (hsize : page ≤ size) :
    (∃ start, Fresh lo hi taken ⟨start, size⟩) ↔ used + size ≤ hi := by
  refine ⟨?_, fun hfit => ⟨used, h.fresh (Nat.le_refl _) hfit⟩⟩
  rintro ⟨start, hlo, hinside, hdisjoint⟩
  have hlo : lo ≤ start := hlo
  have hinside : start + size ≤ hi := hinside
  -- `used` より前から始まる区間には、渡した区間がかかっている
  have hused : used ≤ start := by
    by_contra hlt
    obtain ⟨t, ht, hbelow, habove⟩ := h.covered start hlo (by omega)
    have hapart : start + size ≤ t.start ∨ t.start + t.size ≤ start := hdisjoint t ht
    omega
  omega

/-- `next` から `n` byte の区間を渡した後。`next` は page の倍数だけ進む。 -/
theorem take (h : Packed page lo used next taken) (hpage : 0 < page) (hn : 0 < n) :
    Packed page lo (next + max n page) (next + roundUp page n) (⟨next, max n page⟩ :: taken) := by
  have hle := le_roundUp hpage n
  have hlt := roundUp_lt hpage n
  have hone := page_le_roundUp hpage hn
  have hlo := h.le_used
  have hnext := h.used_le
  have hgap := h.gap
  refine ⟨by omega, by omega, by omega, ?_, ?_, fun x hx hxlt => ?_⟩
  · refine List.pairwise_cons.mpr ⟨fun t ht => .inr ?_, h.pairwise⟩
    exact Nat.le_trans (h.bounds t ht).2 hnext
  · intro t ht
    rcases List.mem_cons.mp ht with rfl | ht
    · exact ⟨Nat.le_trans hlo hnext, Nat.le_refl _⟩
    · obtain ⟨h1, h2⟩ := h.bounds t ht
      exact ⟨h1, by omega⟩
  · by_cases hold : x < used
    · obtain ⟨t, ht, hcover⟩ := h.covered x hx hold
      exact ⟨t, List.mem_cons_of_mem _ ht, hcover⟩
    · -- 前の区間との隙間は page より短いので、今度の区間にかかる
      refine ⟨_, List.mem_cons_self, ?_, hxlt⟩
      show next < x + page
      omega

end Packed

end AetherVM.Infra
