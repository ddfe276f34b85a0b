import AetherVM.Infra.Bytes

/-!
# 固定長の codec

C の struct は、field を宣言の順に固定の大きさで並べたものである。ここではその並べ方を
値として組み立てる。codec は自分の往復の証明を持つので、struct の往復は
field の codec を並べるだけで得られる。

読み出しは padding の中身を見ない（C の struct の読み出しも見ない）。
-/

namespace AetherVM.Infra

variable {α β : Type}

/-- 大きさの決まった byte 表現。書いたものを読むと元に戻る。 -/
structure Codec (α : Type) where
  size : Nat
  enc : α → Bytes
  dec : Bytes → Option α
  length_enc : ∀ a, (enc a).length = size
  dec_enc : ∀ a, dec (enc a) = some a

namespace Codec

attribute [simp] length_enc dec_enc

/-! ## 部品 -/

/-- `k` byte の符号なし整数。範囲に収まる値だけを扱う。 -/
def nat (k : Nat) : Codec (Fin (256 ^ k)) where
  size := k
  enc v := toLE k v
  dec bs := if h : ofLE bs < 256 ^ k then some ⟨ofLE bs, h⟩ else none
  length_enc v := length_toLE k v
  dec_enc v := by
    have hv : ofLE (toLE k v) = v := ofLE_toLE_of_lt v.isLt
    simp [hv]

/-- 値を取り替える。`g` は読んだ値が正しい形でなければ `none` を返してよい。 -/
def map (c : Codec α) (f : β → α) (g : α → Option β) (h : ∀ b, g (f b) = some b) :
    Codec β where
  size := c.size
  enc b := c.enc (f b)
  dec bs := (c.dec bs).bind g
  length_enc b := c.length_enc (f b)
  dec_enc b := by rw [c.dec_enc, Option.bind_some, h]

/-- 二つを続けて並べる。 -/
def seq (c : Codec α) (d : Codec β) : Codec (α × β) where
  size := c.size + d.size
  enc p := c.enc p.1 ++ d.enc p.2
  dec bs := (c.dec (bs.take c.size)).bind fun a =>
    (d.dec (bs.drop c.size)).bind fun b => some (a, b)
  length_enc p := by rw [List.length_append, c.length_enc, d.length_enc]
  dec_enc p := by
    have hc : (c.enc p.1).length = c.size := c.length_enc p.1
    rw [List.take_append_of_le_length (by omega), List.take_of_length_le (by omega),
      List.drop_append_of_le_length (by omega), List.drop_of_length_le (by omega),
      List.nil_append, c.dec_enc, d.dec_enc]
    rfl

/-- 後ろに `n` byte の padding を足す。読むときは捨てる。 -/
def padRight (c : Codec α) (n : Nat) : Codec α where
  size := c.size + n
  enc a := c.enc a ++ zeros n
  dec bs := c.dec (bs.take c.size)
  length_enc a := by rw [List.length_append, c.length_enc, length_zeros]
  dec_enc a := by
    have hc : (c.enc a).length = c.size := c.length_enc a
    rw [List.take_append_of_le_length (by omega), List.take_of_length_le (by omega), c.dec_enc]

def uint8 : Codec UInt8 :=
  (nat 1).map (fun v => ⟨v.toNat, v.toNat_lt⟩) (fun n => some (UInt8.ofNat n))
    (fun v => by simp)

def uint16 : Codec UInt16 :=
  (nat 2).map (fun v => ⟨v.toNat, v.toNat_lt⟩) (fun n => some (UInt16.ofNat n))
    (fun v => by simp)

def uint32 : Codec UInt32 :=
  (nat 4).map (fun v => ⟨v.toNat, v.toNat_lt⟩) (fun n => some (UInt32.ofNat n))
    (fun v => by simp)

def uint64 : Codec UInt64 :=
  (nat 8).map (fun v => ⟨v.toNat, v.toNat_lt⟩) (fun n => some (UInt64.ofNat n))
    (fun v => by simp)

def int64 : Codec Int64 := uint64.map Int64.toUInt64 (fun v => some v.toInt64) (fun v => by simp)

/-- 大きさ `n` の生の byte 列。union の中身を後から読むために使う。 -/
def blob (n : Nat) : Codec { bs : Bytes // bs.length = n } where
  size := n
  enc bs := bs.val
  dec bs := if h : bs.length = n then some ⟨bs, h⟩ else none
  length_enc bs := bs.property
  dec_enc bs := by simp [bs.property]

/-! ## union の member -/

/-- 大きさ `n` の union に member を置く。後ろの余りは零で埋める。 -/
def toBlob (c : Codec α) (n : Nat) (h : c.size ≤ n) (a : α) : { bs : Bytes // bs.length = n } :=
  ⟨c.enc a ++ zeros (n - c.size), by
    rw [List.length_append, c.length_enc, length_zeros]; omega⟩

/-- union を member として読む。 -/
def ofBlob (c : Codec α) {n : Nat} (bs : { bs : Bytes // bs.length = n }) : Option α :=
  c.dec (bs.val.take c.size)

@[simp] theorem ofBlob_toBlob (c : Codec α) (n : Nat) (h : c.size ≤ n) (a : α) :
    c.ofBlob (c.toBlob n h a) = some a :=
  (c.padRight (n - c.size)).dec_enc a

/-! ## buffer からの読み出し -/

/-- `off` から一つ読む。buffer の外に出るなら `none`。 -/
def read (c : Codec α) (buf : Bytes) (off : Nat) : Option α :=
  (readBytes buf off c.size).bind c.dec

/-- `off` から `n` 個を続けて読む。 -/
def readArray (c : Codec α) (buf : Bytes) : Nat → Nat → Option (List α)
  | _, 0 => some []
  | off, n + 1 =>
    (c.read buf off).bind fun a => (c.readArray buf (off + c.size) n).bind fun as => some (a :: as)

/-- 列を続けて並べる。 -/
def encArray (c : Codec α) (as : List α) : Bytes := as.flatMap c.enc

theorem encArray_cons (c : Codec α) (a : α) (as : List α) :
    c.encArray (a :: as) = c.enc a ++ c.encArray as := List.flatMap_cons

@[simp] theorem length_encArray (c : Codec α) : ∀ as : List α,
    (c.encArray as).length = as.length * c.size
  | [] => by simp [encArray]
  | a :: as => by
    rw [encArray_cons, List.length_append, c.length_enc, length_encArray c as, List.length_cons,
      Nat.succ_mul, Nat.add_comm]

theorem read_of_eq {c : Codec α} {buf p q : Bytes} {a : α} {off : Nat}
    (hb : buf = p ++ c.enc a ++ q) (ho : off = p.length) : c.read buf off = some a := by
  unfold read
  rw [readBytes_of_eq hb ho (c.length_enc a).symm, Option.bind_some, c.dec_enc]

theorem read_zero_of_eq {c : Codec α} {buf q : Bytes} {a : α} (hb : buf = c.enc a ++ q) :
    c.read buf 0 = some a :=
  read_of_eq (p := []) (by rw [hb, List.nil_append]) rfl

/-- 並べた列を読み戻すと元の列になる。 -/
theorem readArray_of_eq (c : Codec α) {buf q : Bytes} : ∀ (as : List α) {p : Bytes} {off : Nat},
    buf = p ++ c.encArray as ++ q → off = p.length →
    c.readArray buf off as.length = some as
  | [], _, _, _, _ => rfl
  | a :: as, p, off, hb, ho => by
    have hread : c.read buf off = some a := by
      refine read_of_eq (q := c.encArray as ++ q) ?_ ho
      rw [hb, encArray_cons]
      simp only [List.append_assoc]
    have hrest : c.readArray buf (off + c.size) as.length = some as := by
      refine readArray_of_eq c (q := q) as (p := p ++ c.enc a) ?_ ?_
      · rw [hb, encArray_cons]
        simp only [List.append_assoc]
      · rw [List.length_append, c.length_enc, ho]
    rw [List.length_cons, readArray, hread, Option.bind_some, hrest, Option.bind_some]

/-- 並べた列の `i` 番目は、先頭から `i` 個分だけ進んだ所にある。 -/
theorem read_encArray_getElem (c : Codec α) {buf p q : Bytes} {as : List α} {i : Nat} {a : α}
    (hb : buf = p ++ c.encArray as ++ q) (ha : as[i]? = some a) :
    c.read buf (p.length + i * c.size) = some a := by
  obtain ⟨hi, rfl⟩ := List.getElem?_eq_some_iff.mp ha
  have hsplit : as = as.take i ++ as[i] :: as.drop (i + 1) := by
    rw [List.getElem_cons_drop, List.take_append_drop]
  have henc : c.encArray as
      = c.encArray (as.take i) ++ (c.enc as[i] ++ c.encArray (as.drop (i + 1))) := by
    conv_lhs => rw [hsplit]
    simp only [encArray, List.flatMap_append, List.flatMap_cons]
  refine read_of_eq (p := p ++ c.encArray (as.take i))
    (q := c.encArray (as.drop (i + 1)) ++ q) ?_ ?_
  · rw [hb, henc]
    simp only [List.append_assoc]
  · rw [List.length_append, length_encArray, List.length_take, Nat.min_eq_left (by omega)]

end Codec

end AetherVM.Infra
