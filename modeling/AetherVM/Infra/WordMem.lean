import AetherVM.Infra.Mem

/-!
# 64 bit の address の memory

address が `2 ^ 64` で折り返す memory。連続した byte 列の読み書きと、重なる二つの書き込みを一つの
書き込みにまとめる規則を置く。同じ長さの二つの書き込みの結果は、書いた byte 列が等しいときに限り等しい。
-/

namespace AetherVM.Infra

abbrev WordMem := UInt64 → UInt8

namespace WordMem

variable {m : WordMem} {a p : UInt64} {xs ys : Bytes}

/-- `a` から `n` byte を読む。 -/
def load (m : WordMem) (a : UInt64) (n : Nat) : Bytes :=
  (List.range n).map fun i => m (a + UInt64.ofNat i)

/-- `a` から `bs` を書く。 -/
def store (m : WordMem) (a : UInt64) (bs : Bytes) : WordMem :=
  fun p => bs[(p - a).toNat]?.getD (m p)

@[simp] theorem length_load (m : WordMem) (a : UInt64) (n : Nat) : (m.load a n).length = n := by
  simp [load]

/-- 書いた範囲の外は変わらない。 -/
theorem store_outside (h : xs.length ≤ (p - a).toNat) : m.store a xs p = m p := by
  unfold store
  rw [List.getElem?_eq_none h]
  rfl

theorem add_sub_toNat (a : UInt64) {i : Nat} (h : i < 2 ^ 64) :
    (a + UInt64.ofNat i - a).toNat = i := by
  rw [UInt64.add_comm, UInt64.add_sub_cancel, UInt64.toNat_ofNat_of_lt' h]

/-- `k` だけ先から見た距離。 -/
theorem sub_add_toNat {k : Nat} (h : k ≤ (p - a).toNat) :
    (p - (a + UInt64.ofNat k)).toNat = (p - a).toNat - k := by
  have hk : (UInt64.ofNat k).toNat = k :=
    UInt64.toNat_ofNat_of_lt' (Nat.lt_of_le_of_lt h (p - a).toNat_lt)
  have hsub : p - (a + UInt64.ofNat k) = p - a - UInt64.ofNat k := by grind
  rw [hsub, UInt64.toNat_sub_of_le _ _ (by rw [UInt64.le_iff_toNat_le, hk]; exact h), hk]

/-- 読んだものをそのまま書いても変わらない。 -/
theorem store_load (m : WordMem) (a : UInt64) (n : Nat) : m.store a (m.load a n) = m := by
  funext p
  unfold store load
  by_cases h : (p - a).toNat < n
  · rw [List.getElem?_map, List.getElem?_range h]
    show m (a + UInt64.ofNat (p - a).toNat) = m p
    rw [UInt64.ofNat_toNat, UInt64.add_comm, UInt64.sub_add_cancel]
  · rw [List.getElem?_eq_none (by simpa using h)]
    rfl

/-- 短く書いた後に同じ所から長く書けば、後のものだけが残る。 -/
theorem store_overwrite (h : xs.length ≤ ys.length) : (m.store a xs).store a ys = m.store a ys := by
  funext p
  by_cases hp : (p - a).toNat < ys.length
  · unfold store
    rw [List.getElem?_eq_getElem hp]
    rfl
  · rw [store_outside (Nat.le_of_not_lt hp), store_outside (Nat.le_of_not_lt hp),
      store_outside (Nat.le_trans h (Nat.le_of_not_lt hp))]

/-- 続けて書くことは、連結したものを書くことである。 -/
theorem store_append (h : (xs ++ ys).length ≤ 2 ^ 64) :
    m.store a (xs ++ ys) = (m.store a xs).store (a + UInt64.ofNat xs.length) ys := by
  rw [List.length_append] at h
  funext p
  by_cases hp : xs.length ≤ (p - a).toNat
  · unfold store
    rw [sub_add_toNat hp, List.getElem?_append_right hp, List.getElem?_eq_none hp]
    rfl
  · -- 前の範囲の address は、後の書き込みからは折り返した先にある
    have hlt : (p - a).toNat < xs.length := Nat.lt_of_not_le hp
    have hfar : ys.length ≤ (p - (a + UInt64.ofNat xs.length)).toNat := by
      rcases Nat.eq_zero_or_pos ys.length with h0 | hpos
      · omega
      have hlen : (UInt64.ofNat xs.length).toNat = xs.length :=
        UInt64.toNat_ofNat_of_lt' (show xs.length < 2 ^ 64 by omega)
      have hsub : p - (a + UInt64.ofNat xs.length) = p - a - UInt64.ofNat xs.length := by grind
      rw [hsub, UInt64.toNat_sub, hlen]
      omega
    rw [store_outside hfar]
    unfold store
    rw [List.getElem?_append_left hlt]

/-- `k` だけ後ろに重ねて書くと、前の `k` byte だけが残る。 -/
theorem store_overlap {k : Nat} (hk : k ≤ xs.length) (hover : xs.length ≤ k + ys.length)
    (h : k + ys.length ≤ 2 ^ 64) :
    (m.store a xs).store (a + UInt64.ofNat k) ys = m.store a (xs.take k ++ ys) := by
  have htake : (xs.take k).length = k := by rw [List.length_take, Nat.min_eq_left hk]
  have hdrop : (xs.drop k).length ≤ ys.length := by
    rw [List.length_drop]
    omega
  have hsplit : m.store a (xs.take k ++ xs.drop k) = _ :=
    store_append (by rw [List.take_append_drop]; omega)
  rw [List.take_append_drop, htake] at hsplit
  have hlen : (xs.take k ++ ys).length ≤ 2 ^ 64 := by
    rw [List.length_append, htake]
    exact h
  rw [hsplit, store_overwrite hdrop, store_append hlen, htake]

/-- 書いた範囲の後ろを、元の byte で延ばしてよい。 -/
theorem store_extend (m : WordMem) (a : UInt64) (xs : Bytes) {n : Nat}
    (h : xs.length + n ≤ 2 ^ 64) :
    m.store a xs = m.store a (xs ++ m.load (a + UInt64.ofNat xs.length) n) := by
  funext p
  by_cases hp : (p - a).toNat < xs.length
  · unfold store
    rw [List.getElem?_append_left hp]
  · have hle := Nat.le_of_not_lt hp
    rw [store_append (by simpa using h)]
    conv => lhs; rw [store_outside hle, ← store_load m (a + UInt64.ofNat xs.length) n]
    unfold store
    rw [List.getElem?_eq_none hle]
    rfl

/-- 同じ長さを書いた結果が等しいのは、書いたものが等しいときに限る。 -/
theorem store_inj (hlen : xs.length = ys.length) (h : xs.length ≤ 2 ^ 64) :
    m.store a xs = m.store a ys ↔ xs = ys := by
  refine ⟨fun heq => ?_, fun heq => by rw [heq]⟩
  refine List.ext_getElem hlen fun i hx hy => ?_
  have hi := congrFun heq (a + UInt64.ofNat i)
  unfold store at hi
  rwa [add_sub_toNat a (Nat.lt_of_lt_of_le hx h), List.getElem?_eq_getElem hx,
    List.getElem?_eq_getElem hy] at hi

/--
同じ長さの四つの列を二つずつ書くとき、後の組を一つ分だけ先に書いても、二つ分先に書くのと同じになる条件。
-/
theorem store_pair_iff {x₀ x₁ y₀ y₁ : Bytes} {k : Nat} (hx₀ : x₀.length = k) (hx₁ : x₁.length = k)
    (hy₀ : y₀.length = k) (hy₁ : y₁.length = k) (h : 4 * k ≤ 2 ^ 64) :
    (m.store a (x₀ ++ x₁)).store (a + UInt64.ofNat k) (y₀ ++ y₁)
        = (m.store a (x₀ ++ x₁)).store (a + UInt64.ofNat (2 * k)) (y₀ ++ y₁) ↔
      x₁ = y₀ ∧ y₁ = y₀ ∧ m.load (a + UInt64.ofNat (3 * k)) k = y₁ := by
  have hx : (x₀ ++ x₁).length = 2 * k := by
    rw [List.length_append]
    omega
  have hy : (y₀ ++ y₁).length = 2 * k := by
    rw [List.length_append]
    omega
  have hxy : (x₀ ++ (y₀ ++ y₁)).length = 3 * k := by
    rw [List.length_append]
    omega
  have hload : (m.load (a + UInt64.ofNat (3 * k)) k).length = k := length_load _ _ _
  rw [store_overlap (by omega) (by omega) (by omega), List.take_left' hx₀,
    store_extend m a (x₀ ++ (y₀ ++ y₁)) (n := k) (by omega), hxy, ← hx,
    ← store_append (by rw [List.length_append]; omega),
    store_inj (by simp only [List.length_append] at *; omega)
      (by simp only [List.length_append] at *; omega)]
  -- 四つの列を先頭から一つずつ比べる
  simp only [List.append_assoc]
  constructor
  · intro heq
    have h₁ := List.append_cancel_left heq
    have h₂ := List.append_inj h₁ (hy₀.trans hx₁.symm)
    have h₃ := List.append_inj h₂.2 (hy₁.trans hy₀.symm)
    exact ⟨h₂.1.symm, h₃.1, h₃.2⟩
  · rintro ⟨rfl, rfl, hrest⟩
    rw [hrest]

end WordMem

end AetherVM.Infra
