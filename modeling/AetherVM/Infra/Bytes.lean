import Mathlib.Data.List.Basic
import Mathlib.Tactic.Ring

/-!
# byte 列

memory や file の中身を `List UInt8` として扱うための小道具。

* little endian の固定長整数（`toLE` / `ofLE`）
* 範囲を確かめる読み出し（`readBytes`）と、書き込み（`memcpy`）

C++ の pointer 算術による読み出しは範囲を確かめない。ここでは範囲の外を読むことを
`none` として表に出し、「外を読まない」ことを定理として言えるようにする。
-/

namespace AetherVM.Infra

abbrev Bytes := List UInt8

/-! ## little endian の固定長整数 -/

/-- 値 `v` を下位から `k` byte 並べる。溢れた上位は捨てる。 -/
def toLE : Nat → Nat → Bytes
  | 0, _ => []
  | k + 1, v => UInt8.ofNat v :: toLE k (v / 256)

/-- little endian の byte 列を値に戻す。 -/
def ofLE : Bytes → Nat
  | [] => 0
  | b :: rest => b.toNat + 256 * ofLE rest

@[simp] theorem length_toLE : ∀ k v : Nat, (toLE k v).length = k
  | 0, _ => rfl
  | k + 1, v => by rw [toLE, List.length_cons, length_toLE k]

/-- 固定長整数の往復。残るのは `k` byte に収まる分だけである。 -/
theorem ofLE_toLE : ∀ k v : Nat, ofLE (toLE k v) = v % 256 ^ k
  | 0, v => by rw [toLE, ofLE, Nat.pow_zero, Nat.mod_one]
  | k + 1, v => by
    rw [toLE, ofLE, ofLE_toLE k, UInt8.toNat_ofNat', show (2 : Nat) ^ 8 = 256 from rfl,
      Nat.pow_succ', Nat.mod_mul]

theorem ofLE_toLE_of_lt {k v : Nat} (h : v < 256 ^ k) : ofLE (toLE k v) = v := by
  rw [ofLE_toLE, Nat.mod_eq_of_lt h]

theorem ofLE_lt : ∀ bs : Bytes, ofLE bs < 256 ^ bs.length
  | [] => by simp [ofLE]
  | b :: rest => by
    have hb : b.toNat < 256 := UInt8.toNat_lt_size b
    have ih := ofLE_lt rest
    rw [ofLE, List.length_cons, Nat.pow_succ']
    omega

/-- 同じ長さの byte 列は、値が等しければ等しい。 -/
theorem ofLE_inj : ∀ {as bs : Bytes}, as.length = bs.length → ofLE as = ofLE bs → as = bs
  | [], [], _, _ => rfl
  | a :: as, b :: bs, hlen, h => by
    have ha : a.toNat < 256 := UInt8.toNat_lt_size a
    have hb : b.toNat < 256 := UInt8.toNat_lt_size b
    rw [ofLE, ofLE] at h
    have hhead : a = b := UInt8.toNat_inj.mp (by omega)
    have htail : as = bs := ofLE_inj (Nat.succ.inj hlen) (by omega)
    rw [hhead, htail]

theorem toLE_eq_iff {k v w : Nat} : toLE k v = toLE k w ↔ v % 256 ^ k = w % 256 ^ k := by
  rw [← ofLE_toLE, ← ofLE_toLE]
  exact ⟨congrArg ofLE, ofLE_inj (by simp)⟩

/-- 長い整数は、下位と上位に分けて書ける。 -/
theorem toLE_add : ∀ j k v : Nat, toLE (j + k) v = toLE j v ++ toLE k (v / 256 ^ j)
  | 0, k, v => by rw [Nat.zero_add, toLE, List.nil_append, Nat.pow_zero, Nat.div_one]
  | j + 1, k, v => by
    rw [show j + 1 + k = j + k + 1 by omega, toLE, toLE, toLE_add j, List.cons_append,
      Nat.div_div_eq_div_mul, Nat.pow_succ']

theorem ofLE_append : ∀ as bs : Bytes, ofLE (as ++ bs) = ofLE as + 256 ^ as.length * ofLE bs
  | [], bs => by
    rw [List.nil_append, ofLE, List.length_nil, Nat.pow_zero, Nat.one_mul, Nat.zero_add]
  | a :: as, bs => by
    rw [List.cons_append, ofLE, ofLE, ofLE_append as, List.length_cons, Nat.pow_succ', Nat.mul_add,
      Nat.add_assoc, Nat.mul_assoc]

/-- 先頭の `k` byte の値は、全体の値の剰余である。 -/
theorem ofLE_take : ∀ (k : Nat) (bs : Bytes), ofLE (bs.take k) = ofLE bs % 256 ^ k
  | 0, bs => by rw [List.take_zero, ofLE, Nat.pow_zero, Nat.mod_one]
  | k + 1, [] => by rw [List.take_nil, ofLE, Nat.zero_mod]
  | k + 1, b :: rest => by
    have hb : b.toNat < 256 := UInt8.toNat_lt_size b
    rw [List.take_succ_cons, ofLE, ofLE, ofLE_take k, Nat.pow_succ', Nat.mod_mul,
      Nat.add_mul_mod_self_left, Nat.mod_eq_of_lt hb, Nat.add_mul_div_left _ _ (by decide),
      Nat.div_eq_of_lt hb, Nat.zero_add]

/-- 整数の bit は、その byte の bit である。 -/
theorem testBit_ofLE : ∀ (bs : Bytes) (j : Nat),
    (ofLE bs).testBit j = (bs[j / 8]?.getD 0).toNat.testBit (j % 8)
  | [], j => by simp [ofLE]
  | b :: rest, j => by
    have hb : b.toNat < 2 ^ 8 := UInt8.toNat_lt_size b
    rw [ofLE, Nat.add_comm, show (256 : Nat) = 2 ^ 8 from rfl, Nat.testBit_two_pow_mul_add _ hb]
    by_cases hj : j < 8
    · rw [if_pos hj, Nat.div_eq_of_lt hj, Nat.mod_eq_of_lt hj]
      rfl
    · obtain ⟨i, rfl⟩ : ∃ i, j = i + 8 := ⟨j - 8, by omega⟩
      rw [if_neg hj, Nat.add_sub_cancel, testBit_ofLE rest, Nat.add_div_right _ (by decide),
        Nat.add_mod_right]
      rfl

/-- 下位の `n` byte が等しければ、その bit も等しい。 -/
theorem testBit_eq_of_mod {x y n j : Nat} (h : x % 256 ^ n = y % 256 ^ n) (hj : j < 8 * n) :
    x.testBit j = y.testBit j := by
  have hpow : 256 ^ n = 2 ^ (8 * n) := by rw [Nat.pow_mul]
  have hbit : ∀ z : Nat, (z % 256 ^ n).testBit j = z.testBit j := fun z => by
    rw [hpow, Nat.testBit_mod_two_pow, decide_eq_true hj, Bool.true_and]
  rw [← hbit x, h, hbit y]

/-! ## 読み出し -/

/-- `off` から `n` byte を読む。buffer の外に出るなら `none`。 -/
def readBytes (buf : Bytes) (off n : Nat) : Option Bytes :=
  if off + n ≤ buf.length then some ((buf.drop off).take n) else none

theorem readBytes_eq_some {buf bs : Bytes} {off n : Nat} :
    readBytes buf off n = some bs ↔ off + n ≤ buf.length ∧ (buf.drop off).take n = bs := by
  unfold readBytes
  split
  · next h => simp [h]
  · next h => simp [h]

/-- 連結した buffer の真ん中を読むと、真ん中が返る。 -/
theorem readBytes_mid (pre mid post : Bytes) :
    readBytes (pre ++ mid ++ post) pre.length mid.length = some mid := by
  rw [readBytes_eq_some]
  refine ⟨by simp only [List.length_append]; omega, ?_⟩
  rw [List.append_assoc, List.drop_left, List.take_left]

theorem readBytes_of_eq {buf p m q : Bytes} {off n : Nat} (hb : buf = p ++ m ++ q)
    (ho : off = p.length) (hn : n = m.length) : readBytes buf off n = some m := by
  rw [hb, ho, hn]
  exact readBytes_mid p m q

/-- 断片の列の連結を、`i` 番目の断片の前後で分ける。 -/
theorem flatten_split {chunks : List Bytes} {i : Nat} {c : Bytes} (h : chunks[i]? = some c) :
    chunks.flatten = (chunks.take i).flatten ++ c ++ (chunks.drop (i + 1)).flatten := by
  obtain ⟨hi, rfl⟩ := List.getElem?_eq_some_iff.mp h
  have hsplit : chunks = chunks.take i ++ chunks[i] :: chunks.drop (i + 1) := by
    rw [List.getElem_cons_drop, List.take_append_drop]
  conv_lhs => rw [hsplit]
  rw [List.flatten_append, List.flatten_cons, List.append_assoc]

/-! ## 書き込み -/

/-- 零で埋めた buffer。 -/
def zeros (n : Nat) : Bytes := List.replicate n 0

@[simp] theorem length_zeros (n : Nat) : (zeros n).length = n := List.length_replicate

theorem zeros_add (m n : Nat) : zeros (m + n) = zeros m ++ zeros n :=
  List.replicate_add m n 0

/-- `dst` の `off` から `src` を上書きする。 -/
def memcpy (dst : Bytes) (off : Nat) (src : Bytes) : Bytes :=
  dst.take off ++ src ++ dst.drop (off + src.length)

/-- 書き終えた部分の後ろに零が残る buffer へ、続けて書く。 -/
theorem memcpy_zeros (pre src : Bytes) (n : Nat) :
    memcpy (pre ++ zeros n) pre.length src = pre ++ src ++ zeros (n - src.length) := by
  unfold memcpy zeros
  rw [List.take_left, List.drop_append]
  simp

/-- 間を `g` byte 空けて書く。空けた所は零のまま残る。 -/
theorem memcpy_zeros_gap (pre src : Bytes) (g n : Nat) (hg : g ≤ n) :
    memcpy (pre ++ zeros n) (pre.length + g) src
      = pre ++ zeros g ++ src ++ zeros (n - g - src.length) := by
  have hn : zeros n = zeros g ++ zeros (n - g) := by
    rw [← zeros_add]; congr 1; omega
  have h := memcpy_zeros (pre ++ zeros g) src (n - g)
  rw [List.length_append, length_zeros] at h
  rw [hn, ← List.append_assoc, h]

end AetherVM.Infra
