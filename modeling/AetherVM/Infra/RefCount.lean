import Mathlib.Logic.Function.Basic
import Mathlib.Data.List.Basic
import Mathlib.Algebra.Group.Nat.Defs

/-!
# 参照の数の表

鍵ごとに 32 bit の参照の数を持つ表。取るたびに数え、返すたびに引き、零になれば消す。

表が鍵の列 `l` を数えていること（`Counts`）は、どの鍵の数も `l` に現れる回数であることである。取ることと
返すことは、列に加えることと、列から一つ除くことになる。列の順には依らない。
-/

namespace AetherVM.Infra

variable {κ : Type} [DecidableEq κ]

abbrev RefTable (κ : Type) := κ → Option UInt32

namespace RefTable

/-- 一つ取る。 -/
def acquire (t : RefTable κ) (k : κ) : RefTable κ :=
  Function.update t k (some ((t k).getD 0 + 1))

/-- 一つ返す。無ければ `none` である。 -/
def release (t : RefTable κ) (k : κ) : Option (RefTable κ) :=
  (t k).map fun n => Function.update t k (if 0 < n - 1 then some (n - 1) else none)

/-- 表が列を数えていること。 -/
structure Counts (t : RefTable κ) (l : List κ) : Prop where
  lt : ∀ k, l.count k < 2 ^ 32
  eq : ∀ k, t k = if l.count k = 0 then none else some (UInt32.ofNat (l.count k))

variable {t : RefTable κ} {l : List κ} {k : κ}

theorem counts_nil : Counts (fun _ => none) ([] : List κ) where
  lt _ := Nat.two_pow_pos 32
  eq _ := rfl

theorem Counts.isSome_iff (h : Counts t l) : (t k).isSome = true ↔ k ∈ l := by
  rw [h.eq k, ← List.count_pos_iff, Nat.pos_iff_ne_zero]
  by_cases hzero : l.count k = 0
  · simp [hzero]
  · simp [hzero]

theorem Counts.perm {l' : List κ} (h : Counts t l) (hperm : l.Perm l') : Counts t l' where
  lt k := hperm.count_eq k ▸ h.lt k
  eq k := hperm.count_eq k ▸ h.eq k

/-- 取る前の数が上限に届いていなければ、取った表は一つ加えた列を数える。 -/
theorem Counts.acquire (h : Counts t l) (hlt : l.count k + 1 < 2 ^ 32) :
    Counts (t.acquire k) (k :: l) where
  lt k' := by
    rw [List.count_cons]
    split
    · next heq => rw [← beq_iff_eq.mp heq]; exact hlt
    · exact h.lt k'
  eq k' := by
    by_cases hk : k' = k
    · subst hk
      have hget : (t k').getD 0 + 1 = UInt32.ofNat (l.count k' + 1) := by
        rw [h.eq k', UInt32.ofNat_add]
        split
        · next hzero => rw [hzero]; rfl
        · rfl
      rw [RefTable.acquire, Function.update_self, hget, List.count_cons_self,
        if_neg (Nat.succ_ne_zero _)]
    · rw [RefTable.acquire, Function.update_of_ne hk, List.count_cons_of_ne (Ne.symm hk), h.eq k']

/-- 返せないのは、列に無いときに限る。 -/
theorem Counts.release_eq_none_iff (h : Counts t l) : t.release k = none ↔ k ∉ l := by
  rw [← h.isSome_iff, release, Option.map_eq_none_iff, Option.not_isSome_iff_eq_none]

/-- 返した表は、一つ除いた列を数える。 -/
theorem Counts.release {t' : RefTable κ} (h : Counts t l) (hrelease : t.release k = some t') :
    Counts t' (l.erase k) where
  lt k' := Nat.lt_of_le_of_lt (List.erase_sublist.count_le k') (h.lt k')
  eq k' := by
    obtain ⟨n, hn, rfl⟩ := Option.map_eq_some_iff.mp hrelease
    by_cases hk : k' = k
    · subst hk
      have heq := h.eq k'
      have hlt := h.lt k'
      rw [hn] at heq
      split at heq
      · cases heq
      · next hzero =>
        obtain rfl := Option.some.inj heq
        have hsub : UInt32.ofNat (l.count k') - 1 = UInt32.ofNat (l.count k' - 1) :=
          (UInt32.ofNat_sub (Nat.pos_of_ne_zero hzero)).symm
        have hpos : 0 < UInt32.ofNat (l.count k' - 1) ↔ l.count k' - 1 ≠ 0 := by
          rw [UInt32.lt_iff_toNat_lt,
            UInt32.toNat_ofNat_of_lt' (Nat.lt_of_le_of_lt (Nat.sub_le _ 1) hlt), UInt32.toNat_zero,
            Nat.pos_iff_ne_zero]
        rw [Function.update_self, List.count_erase_self, hsub]
        simp only [hpos, ne_eq, ite_not]
    · rw [Function.update_of_ne hk, List.count_erase_of_ne hk, h.eq k']

end RefTable

end AetherVM.Infra
