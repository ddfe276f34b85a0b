import Mathlib.Algebra.Group.Int.Defs
import Mathlib.Algebra.Group.Nat.Defs
import Mathlib.Tactic.Common

/-!
# 幅の違う bitvector

整数を幅の違う bitvector に折り返したときの、下位の bit の関係。
-/

namespace AetherVM.Infra

/-- 広い幅で折り返してから切り詰めても、狭い幅で折り返すのと同じである。 -/
theorem setWidth_ofInt {n m : Nat} (h : m ≤ n) (x : Int) :
    (BitVec.ofInt n x).setWidth m = BitVec.ofInt m x := by
  have hdvd : ((2 ^ m : Nat) : Int) ∣ ((2 ^ n : Nat) : Int) :=
    Int.natCast_dvd_natCast.mpr (Nat.pow_dvd_pow 2 h)
  have hn : 0 ≤ x % ((2 ^ n : Nat) : Int) :=
    Int.emod_nonneg _ (Int.natCast_ne_zero.mpr (Nat.pos_iff_ne_zero.mp (Nat.two_pow_pos n)))
  have hm : 0 ≤ x % ((2 ^ m : Nat) : Int) :=
    Int.emod_nonneg _ (Int.natCast_ne_zero.mpr (Nat.pos_iff_ne_zero.mp (Nat.two_pow_pos m)))
  apply BitVec.eq_of_toNat_eq
  rw [BitVec.toNat_setWidth, BitVec.toNat_ofInt, BitVec.toNat_ofInt]
  apply Int.natCast_inj.mp
  rw [Int.natCast_emod, Int.toNat_of_nonneg hn, Int.toNat_of_nonneg hm, Int.emod_emod_of_dvd _ hdvd]

theorem ofInt_sub {n : Nat} (x y : Int) :
    BitVec.ofInt n (x - y) = BitVec.ofInt n x - BitVec.ofInt n y := by
  rw [Int.sub_eq_add_neg, BitVec.ofInt_add, BitVec.ofInt_neg, BitVec.sub_eq_add_neg]

theorem ofInt_mul_two_pow {n : Nat} (x : Int) (k : Nat) :
    BitVec.ofInt n (x * 2 ^ k) = BitVec.ofInt n x <<< k := by
  have hpow : BitVec.ofInt n (2 ^ k) = BitVec.twoPow n k := by
    apply BitVec.eq_of_toNat_eq
    rw [BitVec.toNat_twoPow, BitVec.toNat_ofInt]
    norm_cast
  rw [BitVec.ofInt_mul, hpow, BitVec.mul_twoPow_eq_shiftLeft]

/-- 非負で幅に収まる整数は、折り返さない。 -/
theorem toNat_ofInt_of_lt {n : Nat} {x : Int} (h0 : 0 ≤ x) (h : x < 2 ^ n) :
    (BitVec.ofInt n x).toNat = x.toNat := by
  have hpow : ((2 ^ n : Nat) : Int) = 2 ^ n := by norm_cast
  rw [BitVec.toNat_ofInt, hpow, Int.emod_eq_of_lt h0 h]

/-- 幅の違う bitvector が同じ数なら、符号の無い値の算術 shift は同じ数になる。 -/
theorem toNat_sshiftRight_congr {n m : Nat} {x : BitVec n} {y : BitVec m} {k : Nat}
    (h : x.toNat = y.toNat) (hsign : n = m ∨ x.msb = false ∧ y.msb = false ∨ k = 0) :
    (x.sshiftRight k).toNat = (y.sshiftRight k).toNat := by
  rcases hsign with rfl | ⟨hx, hy⟩ | rfl
  · rw [BitVec.eq_of_toNat_eq h]
  · rw [BitVec.sshiftRight_eq_of_msb_false hx, BitVec.sshiftRight_eq_of_msb_false hy,
      BitVec.toNat_ushiftRight, BitVec.toNat_ushiftRight, h]
  · rw [BitVec.sshiftRight_zero, BitVec.sshiftRight_zero, h]

theorem msb_of_lt {n : Nat} {x : BitVec n} {k : Nat} (h : x.toNat < 2 ^ k) (hk : k < n) :
    x.msb = false := by
  have hpow : 2 ^ (k + 1) ≤ 2 ^ n := Nat.pow_le_pow_right (by decide) hk
  rw [BitVec.msb_eq_false_iff_two_mul_lt]
  rw [Nat.pow_succ] at hpow
  omega

theorem xor_two_pow {v k : Nat} (h : v < 2 ^ k) : v ^^^ 2 ^ k = v + 2 ^ k := by
  have hor := Nat.two_pow_add_eq_or_of_lt h 1
  rw [Nat.mul_one] at hor
  rw [Nat.add_comm, hor]
  apply Nat.eq_of_testBit_eq
  intro j
  rw [Nat.testBit_xor, Nat.testBit_or, Nat.testBit_two_pow]
  by_cases hj : k = j
  · rw [← hj, Nat.testBit_lt_two_pow h]
    simp
  · simp [hj]

/-- 2 の冪の倍数に切り下げる mask。 -/
theorem toNat_and_not_mask {x p : UInt64} {k : Nat} (hp : p.toNat = 2 ^ k) :
    (x &&& ~~~(p - 1)).toNat = x.toNat / 2 ^ k * 2 ^ k := by
  have hmask : (p - 1).toNat = 2 ^ k - 1 := by
    have hpos := Nat.two_pow_pos k
    rw [UInt64.toNat_sub_of_le _ _ (by rw [UInt64.le_iff_toNat_le, hp]; exact hpos), hp]
    rfl
  apply Nat.eq_of_testBit_eq
  intro i
  rw [UInt64.toNat_and, Nat.testBit_and, Nat.testBit_mul_two_pow, Nat.testBit_div_two_pow]
  by_cases hi : i < 64
  · have hnot : (~~~(p - 1)).toNat.testBit i = !(p - 1).toNat.testBit i := by
      rw [← UInt64.toNat_toBitVec, UInt64.toBitVec_not, ← BitVec.getLsbD, BitVec.getLsbD_not,
        decide_eq_true hi]
      rfl
    rw [hnot, hmask, Nat.testBit_two_pow_sub_one]
    by_cases hik : k ≤ i
    · simp [hik, Nat.not_lt.mpr hik]
    · simp [hik, Nat.lt_of_not_le hik]
  · -- 上の bit はどちらにも無い
    have hlt : x.toNat < 2 ^ i :=
      Nat.lt_of_lt_of_le x.toNat_lt (Nat.pow_le_pow_right (by decide) (Nat.le_of_not_lt hi))
    rw [Nat.testBit_lt_two_pow hlt]
    by_cases hik : k ≤ i
    · simp [hik, Nat.testBit_lt_two_pow hlt]
    · simp [hik]

/-! ## 広い幅の shift

狭い幅の値を広い幅に拡張して shift し、下位の bit だけを残すと、狭い幅での shift になる。
-/

/-- 符号拡張した値の下位は、途中の幅によらない。 -/
theorem setWidth_signExtend {n m k : Nat} (x : BitVec n) (h : m ≤ k) :
    (x.signExtend k).setWidth m = x.signExtend m := by
  apply BitVec.eq_of_getLsbD_eq
  intro i hi
  simp only [BitVec.getLsbD_setWidth, BitVec.getLsbD_signExtend, hi, Nat.lt_of_lt_of_le hi h,
    decide_true, Bool.true_and]

theorem setWidth_ushiftRight {n m : Nat} (x : BitVec n) (h : n ≤ m) (k : Nat) :
    ((x.setWidth m) >>> k).setWidth n = x >>> k := by
  apply BitVec.eq_of_getLsbD_eq
  intro i hi
  rw [BitVec.getLsbD_setWidth, BitVec.getLsbD_ushiftRight, BitVec.getLsbD_ushiftRight,
    BitVec.getLsbD_setWidth, decide_eq_true hi, Bool.true_and]
  by_cases hk : k + i < m
  · rw [decide_eq_true hk, Bool.true_and]
  · rw [decide_eq_false hk, Bool.false_and, BitVec.getLsbD_of_ge x _ (by omega)]

theorem setWidth_sshiftRight {n m : Nat} (x : BitVec n) (h : n ≤ m) (k : Nat) :
    ((x.signExtend m).sshiftRight k).setWidth n = x.sshiftRight k := by
  have hmsb : (x.signExtend m).msb = x.msb := by
    rw [BitVec.msb_eq_toInt, BitVec.msb_eq_toInt, BitVec.toInt_signExtend_of_le h]
  apply BitVec.eq_of_getLsbD_eq
  intro i hi
  have him : ¬m ≤ i := by omega
  have hin : ¬n ≤ i := by omega
  simp only [BitVec.getLsbD_setWidth, BitVec.getLsbD_sshiftRight, BitVec.getLsbD_signExtend, hmsb,
    hi, him, hin, decide_true, decide_false, Bool.true_and, Bool.not_false]
  by_cases hk : k + i < m
  · rw [if_pos hk, decide_eq_true hk, Bool.true_and]
  · rw [if_neg hk, if_neg (by omega)]

/-- 空いた bit を 1 で埋める左への shift。 -/
theorem setWidth_shiftLeft_ones {n m : Nat} (x : BitVec m) (h : n ≤ m) (k : Nat) :
    (x <<< k ||| ~~~(~~~0#m <<< k)).setWidth n = ~~~(~~~x.setWidth n <<< k) := by
  apply BitVec.eq_of_getLsbD_eq
  intro i hi
  have him : i < m := by omega
  by_cases hk : i < k
  · simp [hi, him, hk]
  · have hikm : i - k < m := by omega
    simp [hi, him, hk, hikm]

/-! 回転の反対向きの量は `n - k` を `n` で割った余りでよい。`k = 0` では、どちらの shift も 0 になる。 -/

theorem rotateLeft_around {n : Nat} (x : BitVec n) {k : Nat} (h : k < n) :
    x >>> ((n - k) % n) ||| x <<< k = x.rotateLeft k := by
  rw [BitVec.rotateLeft_def, Nat.mod_eq_of_lt h, BitVec.or_comm]
  rcases Nat.eq_zero_or_pos k with rfl | hpos
  · rw [Nat.sub_zero, Nat.mod_self, BitVec.shiftLeft_zero, BitVec.ushiftRight_zero, BitVec.or_self,
      BitVec.ushiftRight_eq_zero (Nat.le_refl n), BitVec.or_zero]
  · rw [Nat.mod_eq_of_lt (by omega)]

theorem rotateRight_around {n : Nat} (x : BitVec n) {k : Nat} (h : k < n) :
    x >>> k ||| x <<< ((n - k) % n) = x.rotateRight k := by
  rw [BitVec.rotateRight_def, Nat.mod_eq_of_lt h]
  rcases Nat.eq_zero_or_pos k with rfl | hpos
  · rw [Nat.sub_zero, Nat.mod_self, BitVec.shiftLeft_zero, BitVec.ushiftRight_zero, BitVec.or_self,
      BitVec.shiftLeft_eq_zero (Nat.le_refl n), BitVec.or_zero]
  · rw [Nat.mod_eq_of_lt (by omega)]

/-! ## 64 bit の整数の shift -/

theorem toBitVec_shiftLeft {v s : UInt64} (h : s.toNat < 64) :
    (v <<< s).toBitVec = v.toBitVec <<< s.toNat := by
  rw [UInt64.toBitVec_shiftLeft, BitVec.shiftLeft_eq', BitVec.toNat_umod]
  congr 1
  exact Nat.mod_eq_of_lt h

theorem toBitVec_shiftRight {v s : UInt64} (h : s.toNat < 64) :
    (v >>> s).toBitVec = v.toBitVec >>> s.toNat := by
  rw [UInt64.toBitVec_shiftRight, BitVec.ushiftRight_eq', BitVec.toNat_umod]
  congr 1
  exact Nat.mod_eq_of_lt h

theorem toBitVec_sshiftRight {v s : UInt64} (h : s.toNat < 64) :
    (v.toInt64 >>> s.toInt64).toUInt64.toBitVec = v.toBitVec.sshiftRight s.toNat := by
  have hmsb : s.toBitVec.msb = false := msb_of_lt (k := 6) h (by decide)
  show v.toBitVec.sshiftRight (s.toBitVec.smod 64).toNat = _
  rw [BitVec.smod_eq, hmsb]
  show v.toBitVec.sshiftRight (s.toBitVec.umod 64).toNat = _
  rw [BitVec.umod_eq, BitVec.toNat_umod]
  show v.toBitVec.sshiftRight (s.toNat % 64) = _
  rw [Nat.mod_eq_of_lt h]

end AetherVM.Infra
