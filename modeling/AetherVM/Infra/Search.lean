import Mathlib.Data.List.Basic
import Mathlib.Order.Basic
import Mathlib.Order.Defs.Unbundled

/-!
# 整列した配列の二分探索

比較 `lt i`（`i` 番目の要素が key より小さい）だけを通して配列を見る二分探索。
どの番号を調べたかも返すので、「配列の外を調べない」ことを定理として言える。

配列の大きさを半分にしながら `base` を進め、最後に一つだけ比べる。大きさが 0 でも
最後の比較は行われる。

key との比較が弱い順序から来ていて、配列がその順に並んでいれば、key より小さい要素は先頭に集まる。
-/

namespace AetherVM.Infra

universe u

/-- 二分探索の loop。調べた番号の列と、答えの番号を返す。 -/
def searchLoop (lt : Nat → Bool) : Nat → Nat → Nat → List Nat × Nat
  | 0, base, _ => ([base], if lt base then base + 1 else base)
  | fuel + 1, base, size =>
    if size ≤ 1 then ([base], if lt base then base + 1 else base)
    else
      let half := size / 2
      let next := searchLoop lt fuel (if lt (base + half - 1) then base + half else base)
        (size - half)
      ((base + half - 1) :: next.1, next.2)

/-- 大きさ `size` の配列の二分探索。 -/
def binarySearch (lt : Nat → Bool) (size : Nat) : Nat := (searchLoop lt size 0 size).2

/-- 二分探索が調べる番号。 -/
def searchReads (lt : Nat → Bool) (size : Nat) : List Nat := (searchLoop lt size 0 size).1

/-- key より小さい要素が先頭に集まっていること。 -/
def SplitAt (lt : Nat → Bool) (size : Nat) : Prop :=
  ∀ i j, i ≤ j → j < size → lt j = true → lt i = true

/-! ## 調べる番号 -/

section Reads

variable {lt lt' : Nat → Bool} {n : Nat}

/-- 空でない区間の探索は、区間の中だけを調べ、答えは区間の終わりを越えない。整列は要らない。 -/
theorem searchLoop_within : ∀ (fuel base size : Nat), size ≤ fuel → 0 < size → base + size ≤ n →
    (∀ i ∈ (searchLoop lt fuel base size).1, i < n) ∧ (searchLoop lt fuel base size).2 ≤ n := by
  intro fuel
  induction fuel with
  | zero => intro base size hfuel hpos; omega
  | succ fuel ih =>
    intro base size hfuel hpos hle
    rw [searchLoop]
    by_cases hone : size ≤ 1
    · rw [if_pos hone]
      refine ⟨fun i hi => ?_, ?_⟩
      · obtain rfl : i = base := List.mem_singleton.mp hi
        omega
      · dsimp only
        split <;> omega
    · rw [if_neg hone]
      dsimp only
      obtain ⟨hreads, hptr⟩ := ih (if lt (base + size / 2 - 1) then base + size / 2 else base)
        (size - size / 2) (by omega) (by omega) (by split <;> omega)
      refine ⟨fun i hi => ?_, hptr⟩
      rcases List.mem_cons.mp hi with rfl | hi
      · omega
      · exact hreads i hi

theorem searchReads_lt (hn : 0 < n) : ∀ i ∈ searchReads lt n, i < n :=
  (searchLoop_within n 0 n (Nat.le_refl _) hn (by omega)).1

theorem binarySearch_le (hn : 0 < n) : binarySearch lt n ≤ n :=
  (searchLoop_within n 0 n (Nat.le_refl _) hn (by omega)).2

/-- 調べる所で比較が同じなら、探索は同じである。 -/
theorem searchLoop_congr : ∀ (fuel base size : Nat),
    (∀ i ∈ (searchLoop lt fuel base size).1, lt' i = lt i) →
    searchLoop lt' fuel base size = searchLoop lt fuel base size := by
  intro fuel
  induction fuel with
  | zero =>
    intro base size h
    have hbase : lt' base = lt base := h base (List.mem_singleton.mpr rfl)
    rw [searchLoop, searchLoop, hbase]
  | succ fuel ih =>
    intro base size h
    rw [searchLoop] at h
    rw [searchLoop, searchLoop]
    by_cases hone : size ≤ 1
    · rw [if_pos hone] at h
      have hbase : lt' base = lt base := h base (List.mem_singleton.mpr rfl)
      rw [if_pos hone, if_pos hone, hbase]
    · rw [if_neg hone] at h
      have hprobe := h (base + size / 2 - 1) List.mem_cons_self
      rw [if_neg hone, if_neg hone]
      dsimp only
      rw [hprobe, ih _ _ fun i hi => h i (List.mem_cons_of_mem _ hi)]

theorem binarySearch_congr (hn : 0 < n) (h : ∀ i < n, lt' i = lt i) :
    binarySearch lt' n = binarySearch lt n := by
  rw [binarySearch, searchLoop_congr n 0 n fun i hi => h i (searchReads_lt hn i hi), binarySearch]

end Reads

/-! ## 答え -/

/--
loop の仕様。区間 `[base, base + size)` の前はすべて key より小さく、後ろはどれも小さくないとき、
答えの前後で大小が分かれる。
-/
theorem searchLoop_spec {lt : Nat → Bool} {n : Nat} (hs : SplitAt lt n) :
    ∀ (fuel base size : Nat), size ≤ fuel → 0 < size → base + size ≤ n →
      (∀ i, i < base → lt i = true) → (∀ i, base + size ≤ i → i < n → lt i = false) →
      (∀ i, i < (searchLoop lt fuel base size).2 → lt i = true) ∧
        (∀ i, (searchLoop lt fuel base size).2 ≤ i → i < n → lt i = false) := by
  intro fuel
  induction fuel with
  | zero => intro base size hfuel hpos; omega
  | succ fuel ih =>
    intro base size hfuel hpos hle hlow hhigh
    rw [searchLoop]
    by_cases hone : size ≤ 1
    · -- 残り一つ
      have hsize : size = 1 := by omega
      subst hsize
      rw [if_pos hone]
      by_cases hb : lt base = true
      · rw [if_pos hb]
        refine ⟨fun i hi => ?_, fun i h1 h2 => hhigh i h1 h2⟩
        rcases Nat.lt_or_ge i base with h | h
        · exact hlow i h
        · have hi : i = base := by omega
          rw [hi, hb]
      · rw [if_neg hb]
        refine ⟨hlow, fun i h1 h2 => ?_⟩
        rcases Nat.lt_or_ge base i with h | h
        · exact hhigh i h h2
        · have hi : i = base := by omega
          rw [hi]
          exact Bool.not_eq_true _ ▸ hb
    · rw [if_neg hone]
      simp only
      have hprobe : base + size / 2 - 1 < n := by omega
      by_cases hb : lt (base + size / 2 - 1) = true
      · rw [if_pos hb]
        exact ih (base + size / 2) (size - size / 2) (by omega) (by omega) (by omega)
          (fun i hi => hs i _ (by omega) hprobe hb) (fun i hi hn => hhigh i (by omega) hn)
      · rw [if_neg hb]
        have hrest : ∀ i, base + (size - size / 2) ≤ i → i < n → lt i = false := by
          intro i hi hn
          by_contra hc
          have hc : lt i = true := Bool.not_eq_false _ ▸ hc
          exact hb (hs _ i (by omega) hn hc)
        exact ih base (size - size / 2) (by omega) (by omega) (by omega) hlow hrest

section Spec

variable {lt : Nat → Bool} {n : Nat} (hs : SplitAt lt n) (hn : 0 < n)

include hs hn

theorem binarySearch_spec :
    (∀ i, i < binarySearch lt n → lt i = true) ∧
      (∀ i, binarySearch lt n ≤ i → i < n → lt i = false) := by
  refine searchLoop_spec hs n 0 n (Nat.le_refl _) hn (by omega) ?_ ?_
  · intro i hi
    omega
  · intro i h1 h2
    omega

theorem lt_of_lt_binarySearch {i : Nat} (hi : i < binarySearch lt n) : lt i = true :=
  (binarySearch_spec hs hn).1 i hi

theorem not_lt_of_binarySearch_le {i : Nat} (hi : binarySearch lt n ≤ i) (hin : i < n) :
    lt i = false := (binarySearch_spec hs hn).2 i hi hin

/-- 答えは、key より小さくない最初の番号である。 -/
theorem binarySearch_eq {k : Nat} (hk : k ≤ n) (hlow : ∀ i, i < k → lt i = true)
    (hhigh : k < n → lt k = false) : binarySearch lt n = k := by
  rcases Nat.lt_trichotomy (binarySearch lt n) k with h | h | h
  · have h1 := hlow _ h
    rw [not_lt_of_binarySearch_le hs hn (Nat.le_refl _) (by omega)] at h1
    cases h1
  · exact h
  · have h1 := lt_of_lt_binarySearch hs hn h
    rw [hhigh (Nat.lt_of_lt_of_le h (binarySearch_le hn))] at h1
    cases h1

end Spec

/-! ## 弱い順序 -/

section StrictWeakOrder

variable {T : Type u} {r : T → T → Prop} [IsStrictWeakOrder T r]

/-- 小さくないことは推移する。 -/
theorem not_rel_trans {a b c : T} (hab : ¬ r a b) (hbc : ¬ r b c) : ¬ r a c := by
  intro hac
  by_cases hba : r b a
  · exact hbc (IsTrans.trans b a c hba hac)
  · by_cases hcb : r c b
    · exact hab (IsTrans.trans a c b hac hcb)
    · exact (IsStrictWeakOrder.incomp_trans a b c ⟨hab, hba⟩ ⟨hbc, hcb⟩).1 hac

variable [DecidableRel r] {f : Nat → T} {n : Nat}
  (hs : ∀ i j, i ≤ j → j < n → ¬ r (f j) (f i)) (key : T)

include hs

/-- 整列した配列では、key より小さい要素が先頭に集まる。 -/
theorem splitAt_of_sorted : SplitAt (fun i => decide (r (f i) key)) n := by
  intro i j hij hj hlt
  have hlt := of_decide_eq_true hlt
  by_contra hi
  have hi : ¬ r (f i) key := fun h => hi (decide_eq_true h)
  exact not_rel_trans (hs i j hij hj) hi hlt

/-- key と比べられない要素があるのは、二分探索の答えがそういう要素のときに限る。 -/
theorem exists_incomparable_iff (hn : 0 < n) :
    (∃ i < n, ¬ r (f i) key ∧ ¬ r key (f i)) ↔
      binarySearch (fun i => decide (r (f i) key)) n < n ∧
        ¬ r (f (binarySearch (fun i => decide (r (f i) key)) n)) key ∧
        ¬ r key (f (binarySearch (fun i => decide (r (f i) key)) n)) := by
  have hsplit := splitAt_of_sorted hs key
  set p := binarySearch (fun i => decide (r (f i) key)) n with hp
  constructor
  · rintro ⟨i, hi, hlow, hhigh⟩
    have hpi : p ≤ i := by
      by_contra hlt
      exact hlow (of_decide_eq_true (lt_of_lt_binarySearch hsplit hn (Nat.lt_of_not_le hlt)))
    have hpn : p < n := Nat.lt_of_le_of_lt hpi hi
    refine ⟨hpn, ?_, not_rel_trans hhigh (hs p i hpi hi)⟩
    exact of_decide_eq_false (not_lt_of_binarySearch_le hsplit hn (Nat.le_refl p) hpn)
  · rintro ⟨hpn, hlow, hhigh⟩
    exact ⟨p, hpn, hlow, hhigh⟩

end StrictWeakOrder

end AetherVM.Infra
