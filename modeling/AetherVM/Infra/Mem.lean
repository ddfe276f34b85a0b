import Mathlib.Logic.Function.Basic
import Mathlib.Tactic.Common
import AetherVM.Infra.Bytes

/-!
# 番地で読み書きする memory

構造体の field を番地として読み書きするときの memory。番地から byte への関数で表し、

* 連続した byte 列の読み書き（`load` / `store`）
* little endian の整数の読み書き（`loadLE` / `storeLE`）
* 整数の一つの bit の代入（`assignBit`）

と、書いた所の外は変わらないことを言う。
-/

namespace AetherVM.Infra

abbrev Mem := Nat → UInt8

namespace Mem

variable {m m' : Mem} {off n a : Nat} {bs : Bytes}

/-! ## byte 列 -/

/-- `off` から `n` byte を読む。 -/
def load (m : Mem) (off n : Nat) : Bytes := (List.range n).map fun i => m (off + i)

/-- `off` から `bs` を書く。 -/
def store (m : Mem) (off : Nat) (bs : Bytes) : Mem := fun a =>
  if off ≤ a then bs[a - off]?.getD (m a) else m a

@[simp] theorem length_load (m : Mem) (off n : Nat) : (m.load off n).length = n := by
  simp [load]

/-- 読んだ byte 列が等しいことは、範囲の byte がどれも等しいことである。 -/
theorem load_eq_iff : m.load off n = m'.load off n ↔ ∀ i < n, m (off + i) = m' (off + i) := by
  unfold load
  rw [List.map_inj_left]
  simp only [List.mem_range]

theorem store_add {i : Nat} (h : i < bs.length) : m.store off bs (off + i) = bs[i] := by
  unfold store
  rw [if_pos (Nat.le_add_right off i), Nat.add_sub_cancel_left, List.getElem?_eq_getElem h]
  rfl

/-- 書いた範囲の外は変わらない。 -/
theorem store_outside (h : a < off ∨ off + bs.length ≤ a) : m.store off bs a = m a := by
  unfold store
  split
  · next hle =>
    rw [List.getElem?_eq_none (by omega)]
    rfl
  · rfl

theorem load_store (m : Mem) (off : Nat) (bs : Bytes) :
    (m.store off bs).load off bs.length = bs := by
  refine List.ext_getElem (length_load _ _ _) fun i h _ => ?_
  rw [length_load] at h
  simp only [load, List.getElem_map, List.getElem_range]
  exact store_add h

/-- 読んだものをそのまま書いても変わらない。 -/
theorem store_load (m : Mem) (off n : Nat) : m.store off (m.load off n) = m := by
  funext a
  by_cases h : a < off ∨ off + n ≤ a
  · exact store_outside (by rwa [length_load])
  · obtain ⟨i, rfl⟩ : ∃ i, a = off + i := ⟨a - off, by omega⟩
    rw [store_add (by rw [length_load]; omega)]
    simp [load]

/-- 同じ所へ同じ長さを書けば、後のものだけが残る。 -/
theorem store_store {bs' : Bytes} (hlen : bs.length = bs'.length) :
    (m.store off bs).store off bs' = m.store off bs' := by
  funext a
  by_cases h : a < off ∨ off + bs'.length ≤ a
  · rw [store_outside h, store_outside h, store_outside (hlen ▸ h)]
  · obtain ⟨i, rfl⟩ : ∃ i, a = off + i := ⟨a - off, by omega⟩
    have hi : i < bs'.length := by omega
    rw [store_add hi, store_add hi]

/-! ## little endian の整数 -/

def loadLE (m : Mem) (off n : Nat) : Nat := ofLE (m.load off n)

def storeLE (m : Mem) (off n v : Nat) : Mem := m.store off (toLE n v)

theorem loadLE_lt (m : Mem) (off n : Nat) : m.loadLE off n < 256 ^ n := by
  have h := ofLE_lt (m.load off n)
  rwa [length_load] at h

theorem loadLE_eq_iff :
    m.loadLE off n = m'.loadLE off n ↔ ∀ i < n, m (off + i) = m' (off + i) := by
  rw [← load_eq_iff]
  refine ⟨fun h => ofLE_inj (by simp) h, fun h => congrArg ofLE h⟩

/-- 短く読んだ値は、長く読んだ値の剰余である。 -/
theorem loadLE_mod (m : Mem) (off : Nat) {k : Nat} (h : k ≤ n) :
    m.loadLE off n % 256 ^ k = m.loadLE off k := by
  unfold loadLE load
  rw [← ofLE_take, ← List.map_take, List.take_range, Nat.min_eq_left h]

/-- 長く読んだ値は、二つに分けて読める。 -/
theorem loadLE_add (m : Mem) (off j k : Nat) :
    m.loadLE off (j + k) = m.loadLE off j + 256 ^ j * m.loadLE (off + j) k := by
  have hsplit : m.load off (j + k) = m.load off j ++ m.load (off + j) k := by
    simp only [load, List.range_add, List.map_append, List.map_map, Function.comp_def,
      Nat.add_assoc]
  unfold loadLE
  rw [hsplit, ofLE_append, length_load]

/-- 読んだ整数の bit は、その番地の byte の bit である。 -/
theorem testBit_loadLE (m : Mem) (off : Nat) {j : Nat} (h : j < 8 * n) :
    (m.loadLE off n).testBit j = (m (off + j / 8)).toNat.testBit (j % 8) := by
  have hj : j / 8 < (List.range n).length := by
    rw [List.length_range]
    omega
  unfold loadLE load
  rw [testBit_ofLE, List.getElem?_map, List.getElem?_eq_getElem hj, List.getElem_range]
  rfl

theorem loadLE_storeLE (m : Mem) (off : Nat) {n v : Nat} (h : v < 256 ^ n) :
    (m.storeLE off n v).loadLE off n = v := by
  have hload := load_store m off (toLE n v)
  rw [length_toLE] at hload
  unfold loadLE storeLE
  rw [hload, ofLE_toLE_of_lt h]

theorem loadLE_storeLE_mod (m : Mem) (off n v : Nat) :
    (m.storeLE off n v).loadLE off n = v % 256 ^ n := by
  have hload := load_store m off (toLE n v)
  rw [length_toLE] at hload
  unfold loadLE storeLE
  rw [hload, ofLE_toLE]

/-- 値の下位の byte は、memory の先頭の byte である。 -/
theorem toLE_loadLE (m : Mem) (off : Nat) {k : Nat} (h : k ≤ n) :
    toLE k (m.loadLE off n) = m.load off k := by
  apply ofLE_inj (by simp)
  rw [ofLE_toLE, loadLE_mod m off h]
  rfl

theorem storeLE_outside {v : Nat} (h : a < off ∨ off + n ≤ a) : m.storeLE off n v a = m a :=
  store_outside (by rwa [length_toLE])

/-- 重ならない所へ書いても、読む値は変わらない。 -/
theorem loadLE_storeLE_apart {k v : Nat} (h : a + k ≤ off ∨ off + n ≤ a) :
    (m.storeLE off n v).loadLE a k = m.loadLE a k :=
  loadLE_eq_iff.mpr fun i hi => storeLE_outside (by omega)

/-- 書いた値の途中を読む。 -/
theorem loadLE_storeLE_mid (m : Mem) (off v : Nat) {i k : Nat} (h : i + k ≤ n) :
    (m.storeLE off n v).loadLE (off + i) k = v / 256 ^ i % 256 ^ k := by
  have hwhole : (m.storeLE off n v).loadLE off (i + k) = v % 256 ^ (i + k) := by
    rw [← loadLE_mod _ off h, loadLE_storeLE_mod, Nat.mod_mod_of_dvd _ (Nat.pow_dvd_pow 256 h)]
  have hlow := loadLE_lt (m.storeLE off n v) off i
  rw [← Nat.mod_mul_right_div_self, ← Nat.pow_add, ← hwhole, loadLE_add,
    Nat.add_mul_div_left _ _ (Nat.pow_pos (by decide)), Nat.div_eq_of_lt hlow, Nat.zero_add]

/-- 書いた所から、書いた長さとは違う長さを読む。長く読めば、上位は元のままである。 -/
theorem loadLE_storeLE_low (m : Mem) (off k : Nat) {v : Nat} (hv : v < 256 ^ n) :
    (m.storeLE off n v).loadLE off k = v % 256 ^ k + 256 ^ n * (m.loadLE off k / 256 ^ n) := by
  by_cases hk : k ≤ n
  · have hlt : m.loadLE off k < 256 ^ n :=
      Nat.lt_of_lt_of_le (loadLE_lt m off k) (Nat.pow_le_pow_right (by decide) hk)
    rw [← loadLE_mod _ off hk, loadLE_storeLE m off hv, Nat.div_eq_of_lt hlt, Nat.mul_zero,
      Nat.add_zero]
  · obtain ⟨j, rfl⟩ : ∃ j, k = n + j := ⟨k - n, by omega⟩
    have hvk : v < 256 ^ (n + j) :=
      Nat.lt_of_lt_of_le hv (Nat.pow_le_pow_right (by decide) (Nat.le_add_right n j))
    rw [loadLE_add, loadLE_storeLE m off hv, loadLE_storeLE_apart (by omega), Nat.mod_eq_of_lt hvk,
      loadLE_add m, Nat.add_mul_div_left _ _ (Nat.pow_pos (by decide)),
      Nat.div_eq_of_lt (loadLE_lt m off n), Nat.zero_add]

theorem storeLE_storeLE {v w : Nat} : (m.storeLE off n v).storeLE off n w = m.storeLE off n w :=
  store_store (by simp)

/-- 読んだ値を書いて変わらないのは、それが今の値のときに限る。 -/
theorem storeLE_eq_self_iff {v : Nat} (h : v < 256 ^ n) :
    m.storeLE off n v = m ↔ m.loadLE off n = v := by
  constructor
  · intro heq
    rw [← loadLE_storeLE m off h, heq]
  · rintro rfl
    rw [storeLE, toLE_loadLE m off (Nat.le_refl n), store_load]

end Mem

/-! ## bit の代入 -/

/-- `w` の `i` 番目の bit を `b` にする。 -/
def assignBit (w i : Nat) (b : Bool) : Nat := (w ^^^ (w &&& 2 ^ i)) ||| if b then 2 ^ i else 0

theorem testBit_assignBit (w i : Nat) (b : Bool) (j : Nat) :
    (assignBit w i b).testBit j = if j = i then b else w.testBit j := by
  unfold assignBit
  rw [Nat.testBit_or, Nat.testBit_xor, Nat.testBit_and, Nat.testBit_two_pow]
  by_cases hj : j = i
  · subst hj
    cases b <;> simp
  · cases b <;> simp [hj, Ne.symm hj]

/-- 同じ bit を代入しても変わらない。 -/
theorem assignBit_testBit (w i : Nat) : assignBit w i (w.testBit i) = w := by
  apply Nat.eq_of_testBit_eq
  intro j
  rw [testBit_assignBit]
  split
  · next h => rw [h]
  · rfl

end AetherVM.Infra
