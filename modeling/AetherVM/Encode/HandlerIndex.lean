import Mathlib.Data.List.Nodup
import Mathlib.Data.List.Perm.Subperm
import AetherVM.Interp.Load

/-!
# 番号の引き方（`prefetch`・`handlerIndex`・`emulate(span)` の五つの表）

三つの関数は、opcode の長さから表を選び、短い opcode を零で埋めて key を作ることを、それぞれ自分の分岐で
行う。ここではその分岐を写し、どれも `OpcodeWidth.ofLength` と `opcodeKey` に一致することを言う。AArch64 の
`emulate(span)` だけは、長さによらず先頭の 4 byte を使う。

`handlerIndex` は、五つの表を並べた列の中の、その表の範囲を二分探索する。比べる順は集合の順と同じもので、
16 byte の表では上位の語を先に比べる。
-/

namespace AetherVM

open Infra

/-! ## 表と key の選び方 -/

/-- 零で始まる `tmp4`・`tmp8`・`tmp16` に写した opcode。 -/
def copyOpcode (size : Nat) (src : Bytes) : Bytes := memcpy (zeros size) 0 src

/-- `OpcodeEngine::prefetch` の `switch`。 -/
def prefetchKey (bytes : Bytes) : OpcodeWidth × Bytes :=
  match bytes.length with
  | 1 => (.w1, bytes.take 1)
  | 2 => (.w2, bytes.take 2)
  | 3 => (.w4, copyOpcode 4 (bytes.take 3))
  | 4 => (.w4, bytes.take 4)
  | 5 => (.w8, copyOpcode 8 (bytes.take 5))
  | 6 => (.w8, copyOpcode 8 (bytes.take 6))
  | 7 => (.w8, copyOpcode 8 (bytes.take 7))
  | 8 => (.w8, bytes.take 8)
  | size => (.w16, copyOpcode 16 (bytes.take (min 16 size)))

/-- `PreEncoder::handlerIndex` の分岐。探さない長さなら `none` である。 -/
def handlerIndexKey (opcode : Bytes) : Option (OpcodeWidth × Bytes) :=
  let size := opcode.length
  if size = 0 ∨ 16 < size then none
  else if size = 1 then some (.w1, opcode.take 1)
  else if size = 2 then some (.w2, copyOpcode 2 (opcode.take 2))
  else if size ≤ 4 then some (.w4, copyOpcode 4 (opcode.take size))
  else if size ≤ 8 then some (.w8, copyOpcode 8 (opcode.take size))
  else some (.w16, copyOpcode 16 (opcode.take size))

/-- `OpcodeEngine::emulate(span)` の `switch`。 -/
def emulateKey (opcode : Bytes) : OpcodeWidth × Bytes :=
  match opcode.length with
  | 1 => (.w1, opcode.take 1)
  | 2 => (.w2, opcode.take 2)
  | 3 => (.w4, copyOpcode 4 (opcode.take 3))
  | 4 => (.w4, opcode.take 4)
  | 5 => (.w8, copyOpcode 8 (opcode.take 5))
  | 6 => (.w8, copyOpcode 8 (opcode.take 6))
  | 7 => (.w8, copyOpcode 8 (opcode.take 7))
  | 8 => (.w8, opcode.take 8)
  | opsz => (.w16, copyOpcode 16 (opcode.take opsz))

/-- `OpcodeEngine::emulate(span)` の選ぶ表と key。 -/
def Toolchain.spanKey {μ : Type} (tc : Toolchain μ) (arch : ArchType) (opcode : Bytes) :
    Option (OpcodeWidth × Bytes) :=
  (tc.spanOpcode arch opcode).map emulateKey

section Keys

variable {bytes bytes' : Bytes}

theorem copyOpcode_eq (size : Nat) (src : Bytes) :
    copyOpcode size src = src ++ zeros (size - src.length) := memcpy_zeros [] src size

/-- 表に収まる opcode の key は、後ろを零で埋めたものである。 -/
theorem opcodeKey_of_le (h : bytes.length ≤ (OpcodeWidth.ofLength bytes.length).size) :
    opcodeKey bytes =
      bytes ++ zeros ((OpcodeWidth.ofLength bytes.length).size - bytes.length) := by
  rw [opcodeKey, List.take_of_length_le h]

theorem length_le_size (h16 : bytes.length ≤ 16) :
    bytes.length ≤ (OpcodeWidth.ofLength bytes.length).size := by
  unfold OpcodeWidth.ofLength
  split_ifs <;> simp only [OpcodeWidth.size] <;> omega

/-- 短い表のどれにも入らない長さは、16 byte の表に入る。 -/
theorem ofLength_eq_w16 {n : Nat} (h : n = 0 ∨ 9 ≤ n) : OpcodeWidth.ofLength n = .w16 := by
  unfold OpcodeWidth.ofLength
  split_ifs <;> first | rfl | omega

/-- 16 byte の表の key は、先頭の 16 byte である。 -/
theorem opcodeKey_eq_w16 (h : bytes.length = 0 ∨ 9 ≤ bytes.length) :
    opcodeKey bytes = copyOpcode 16 (bytes.take 16) := by
  rw [opcodeKey, ofLength_eq_w16 h, copyOpcode_eq, List.length_take]
  simp only [OpcodeWidth.size]
  rw [show 16 - min 16 bytes.length = 16 - bytes.length by omega]

/-- `prefetch` の `switch`。 -/
theorem prefetchKey_eq (bytes : Bytes) :
    prefetchKey bytes = (OpcodeWidth.ofLength bytes.length, opcodeKey bytes) := by
  by_cases hw : bytes.length = 0 ∨ 9 ≤ bytes.length
  · have hkey : prefetchKey bytes = (.w16, copyOpcode 16 (bytes.take (min 16 bytes.length))) := by
      unfold prefetchKey
      split <;> first | rfl | omega
    rw [hkey, opcodeKey_eq_w16 hw, ofLength_eq_w16 hw, ← List.take_eq_take_min]
  · have hlen : bytes.length = 1 ∨ bytes.length = 2 ∨ bytes.length = 3 ∨ bytes.length = 4 ∨
        bytes.length = 5 ∨ bytes.length = 6 ∨ bytes.length = 7 ∨ bytes.length = 8 := by omega
    rcases hlen with h | h | h | h | h | h | h | h <;>
      simp [prefetchKey, opcodeKey, copyOpcode_eq, OpcodeWidth.ofLength, OpcodeWidth.size, h, zeros]

/-- `emulate` の `switch` は、16 byte までなら `prefetch` のものと同じである。 -/
theorem emulateKey_eq (h16 : bytes.length ≤ 16) : emulateKey bytes = prefetchKey bytes := by
  unfold emulateKey prefetchKey
  split <;> first | rfl | rw [Nat.min_eq_right h16]

/-- `handlerIndex` の分岐も、1 byte から 16 byte まで同じである。 -/
theorem handlerIndexKey_eq (h1 : 1 ≤ bytes.length) (h16 : bytes.length ≤ 16) :
    handlerIndexKey bytes = some (prefetchKey bytes) := by
  have hrange : ¬ (bytes.length = 0 ∨ 16 < bytes.length) := by omega
  rw [prefetchKey_eq, handlerIndexKey, if_neg hrange]
  by_cases hw : 9 ≤ bytes.length
  · rw [if_neg (by omega), if_neg (by omega), if_neg (by omega), if_neg (by omega),
      opcodeKey_eq_w16 (.inr hw), ofLength_eq_w16 (.inr hw), List.take_of_length_le (Nat.le_refl _),
      List.take_of_length_le h16]
  · have hlen : bytes.length = 1 ∨ bytes.length = 2 ∨ bytes.length = 3 ∨ bytes.length = 4 ∨
        bytes.length = 5 ∨ bytes.length = 6 ∨ bytes.length = 7 ∨ bytes.length = 8 := by omega
    rcases hlen with h | h | h | h | h | h | h | h <;>
      simp [opcodeKey, copyOpcode_eq, OpcodeWidth.ofLength, OpcodeWidth.size, h, zeros]

/-- x86 の `emulate(span)` は、15 byte までの opcode をそのまま使う。 -/
theorem spanKey_x86 {μ : Type} (tc : Toolchain μ) (h15 : bytes.length ≤ 15) :
    tc.spanKey .x86_64 bytes = some (prefetchKey bytes) := by
  rw [Toolchain.spanKey, Toolchain.spanOpcode, if_neg nofun, if_neg (by omega), Option.map_some,
    emulateKey_eq (by omega)]

/-- AArch64 の `emulate(span)` は、先頭の 4 byte だけを使う。 -/
theorem spanKey_arm64 {μ : Type} (tc : Toolchain μ) (bytes : Bytes) :
    tc.spanKey .arm64 bytes =
      if bytes.length < 4 then none else some (prefetchKey (bytes.take 4)) := by
  rw [Toolchain.spanKey, Toolchain.spanOpcode, if_pos rfl]
  split
  · rfl
  · rw [Option.map_some, emulateKey_eq (by simp)]

/-- 零で埋めて同じ key になる二つの opcode は、短い方の後ろに零を足したものが長い方である。 -/
theorem eq_append_zeros_of_key (h16 : bytes.length ≤ 16) (h16' : bytes'.length ≤ 16)
    (hle : bytes.length ≤ bytes'.length) (hkey : opcodeKey bytes = opcodeKey bytes') :
    bytes' = bytes ++ zeros (bytes'.length - bytes.length) := by
  have hsize : (OpcodeWidth.ofLength bytes.length).size =
      (OpcodeWidth.ofLength bytes'.length).size := by
    rw [← length_opcodeKey, ← length_opcodeKey, hkey]
  have hfit := length_le_size h16'
  rw [opcodeKey_of_le (length_le_size h16), opcodeKey_of_le hfit, hsize] at hkey
  have htake := congrArg (List.take bytes'.length) hkey
  rw [List.take_left, List.take_append, List.take_of_length_le hle] at htake
  rw [← htake, zeros, List.take_replicate]
  congr 2
  simp only [List.length_append, List.length_replicate]
  omega

end Keys

/-! ## 16 byte の opcode の順 -/

/-- `uint128_var_t`。 -/
structure Uint128Var where
  low : UInt64
  high : UInt64
deriving DecidableEq, Repr

namespace Uint128Var

/-- `operator<=>` の `<`。上位の語を先に比べる。 -/
def less (a b : Uint128Var) : Bool :=
  if a.high ≠ b.high then decide (a.high < b.high) else decide (a.low < b.low)

/-- 16 byte を二つの語として読む。 -/
def ofBytes (k : Bytes) : Uint128Var :=
  ⟨UInt64.ofNat (ofLE (k.take 8)), UInt64.ofNat (ofLE (k.drop 8))⟩

/-- 二つの語の順は、128 bit の整数の順である。 -/
theorem less_iff {a b : Bytes} (ha : a.length = 16) (hb : b.length = 16) :
    (ofBytes a).less (ofBytes b) = true ↔ ofLE a < ofLE b := by
  have hsplit : ∀ k : Bytes, k.length = 16 →
      ofLE k = (ofBytes k).low.toNat + 2 ^ 64 * (ofBytes k).high.toNat := by
    intro k hk
    have hlow := ofLE_lt (k.take 8)
    have hhigh := ofLE_lt (k.drop 8)
    rw [List.length_take, hk] at hlow
    rw [List.length_drop, hk] at hhigh
    rw [ofBytes, UInt64.toNat_ofNat_of_lt' hlow, UInt64.toNat_ofNat_of_lt' hhigh]
    conv_lhs => rw [← List.take_append_drop 8 k, ofLE_append, List.length_take, hk]
    rfl
  have hla := (ofBytes a).low.toNat_lt
  have hlb := (ofBytes b).low.toNat_lt
  rw [hsplit a ha, hsplit b hb, less]
  split
  · next hne =>
    have hne : (ofBytes a).high.toNat ≠ (ofBytes b).high.toNat :=
      fun heq => hne (UInt64.toNat_inj.mp heq)
    rw [decide_eq_true_eq, UInt64.lt_iff_toNat_lt]
    omega
  · next heq =>
    rw [decide_eq_true_eq, UInt64.lt_iff_toNat_lt, not_not.mp heq]
    omega

end Uint128Var

/-- 幅 `w` の表の `<`。 -/
def opcodeLess (w : OpcodeWidth) (a b : Bytes) : Bool :=
  match w with
  | .w16 => (Uint128Var.ofBytes a).less (Uint128Var.ofBytes b)
  | _ => decide (ofLE a < ofLE b)

theorem opcodeLess_iff {w : OpcodeWidth} {a b : Bytes} (ha : a.length = w.size)
    (hb : b.length = w.size) : opcodeLess w a b = true ↔ ofLE a < ofLE b := by
  cases w with
  | w16 => exact Uint128Var.less_iff ha hb
  | _ => exact decide_eq_true_iff

/-! ## 表の中の番号 -/

namespace PreEncoder

open IMetaData

/-- `m_ranges`。32 bit に切り詰められる。 -/
def ranges (engine : OpcodeEngine) (w : OpcodeWidth) : UInt32 × UInt32 :=
  (UInt32.ofNat (rangeStart engine w), UInt32.ofNat (rangeStart engine w + (engine w).length))

/-- `handlerIndex` の `search`。`handlers` は `m_handlers`、`range` は一つの表の範囲である。 -/
def search (handlers : List Handler) (range : UInt32 × UInt32) (w : OpcodeWidth) (key : Bytes) :
    UInt32 :=
  let inRange := (handlers.drop range.1.toNat).take (range.2.toNat - range.1.toNat)
  let it := range.1.toNat + inRange.findIdx fun h => !opcodeLess w h.ptr.opcode key
  if it = range.2.toNat then noHandler
  else
    match handlers[it]? with
    | none => noHandler
    | some h => if h.ptr.opcode = key then UInt32.ofNat it else noHandler

/-- `handlerIndex`。表を選んで、その範囲を探す。 -/
def handlerIndexIn (engine : OpcodeEngine) (opcode : Bytes) : UInt32 :=
  match handlerIndexKey opcode with
  | none => noHandler
  | some (w, key) => search (loadHandlers engine) (ranges engine w) w key

section Index

variable {engine : OpcodeEngine}

/-- 並べた列の中の、一つの表の範囲。 -/
theorem range_loadHandlers (engine : OpcodeEngine) (w : OpcodeWidth) :
    ((loadHandlers engine).drop (rangeStart engine w)).take (engine w).length =
      (engine w).map fun x => ⟨x.handler.opcode.length, x.handler, rfl⟩ := by
  refine List.ext_getElem? fun i => ?_
  rw [List.getElem?_take, List.getElem?_drop, List.getElem?_map]
  split
  · next hi =>
    have hget := List.getElem?_eq_getElem hi
    rw [InterpMetaData.loadHandlers_getElem? engine w hget, hget]
    rfl
  · next hi =>
    rw [List.getElem?_eq_none (Nat.le_of_not_lt hi)]
    rfl

/-- handler の数が 32 bit に収まれば、範囲は切り詰められない。 -/
theorem toNat_ranges (hcount : (loadHandlers engine).length ≤ uint32Max) (w : OpcodeWidth) :
    (ranges engine w).1.toNat = rangeStart engine w ∧
      (ranges engine w).2.toNat = rangeStart engine w + (engine w).length := by
  have hle : rangeStart engine w + (engine w).length ≤ (loadHandlers engine).length := by
    cases w <;> simp only [rangeStart, loadHandlers, List.length_map, List.length_append] <;> omega
  exact ⟨Written.toNat_ofNat (by omega), Written.toNat_ofNat (by omega)⟩

/-- 集合の順で探した位置は、整数の順で探した位置である。 -/
theorem findIdx_opcodeLess {w : OpcodeWidth} {s : HandlerSet} (hs : s.Sorted w) {key : Bytes}
    (hkey : key.length = w.size) :
    s.findIdx (fun x => !opcodeLess w x.handler.opcode key) = lowerBound s key := by
  have hlen := hs.length
  clear hs
  unfold lowerBound
  induction s with
  | nil => rfl
  | cons x s ih =>
    have hless := opcodeLess_iff (hlen x List.mem_cons_self) hkey
    have heq : (!opcodeLess w x.handler.opcode key)
        = decide (ofLE key ≤ ofLE x.handler.opcode) := by
      rw [Bool.eq_iff_iff, Bool.not_eq_true', ← Bool.not_eq_true, hless, decide_eq_true_eq,
        Nat.not_lt]
    rw [List.findIdx_cons, List.findIdx_cons, heq,
      ih fun y hy => hlen y (List.mem_cons_of_mem x hy)]

/-- 五つの表を並べた列の範囲を探すことは、その表を探すことである。 -/
theorem handlerIndexIn_eq (hs : ∀ w, (engine w).Sorted w)
    (hcount : (loadHandlers engine).length ≤ uint32Max) (opcode : Bytes) :
    handlerIndexIn engine opcode = handlerIndex engine opcode := by
  unfold handlerIndexIn handlerIndex
  by_cases hrange : opcode.length = 0 ∨ 16 < opcode.length
  · rw [if_pos hrange, handlerIndexKey, if_pos hrange]
  obtain ⟨hstart, hfin⟩ := toNat_ranges hcount (OpcodeWidth.ofLength opcode.length)
  rw [if_neg hrange, handlerIndexKey_eq (by omega) (by omega), prefetchKey_eq]
  simp only [search, hstart, hfin, Nat.add_sub_cancel_left, range_loadHandlers, List.findIdx_map,
    Function.comp_def, findIdx_opcodeLess (hs _) (length_opcodeKey opcode)]
  set w := OpcodeWidth.ofLength opcode.length
  cases hget : (engine w)[lowerBound (engine w) (opcodeKey opcode)]? with
  | none =>
    have hle : lowerBound (engine w) (opcodeKey opcode) ≤ (engine w).length :=
      List.findIdx_le_length
    have hge := List.getElem?_eq_none_iff.mp hget
    rw [if_pos (by omega)]
  | some x =>
    have hlt := (List.getElem?_eq_some_iff.mp hget).1
    rw [if_neg (by omega), InterpMetaData.loadHandlers_getElem? engine w hget]

/-- 五つの表を並べても、同じ opcode は二度現れない。 -/
theorem nodup_loadHandlers (hs : ∀ w, (engine w).Sorted w) :
    ((loadHandlers engine).map fun h => h.ptr.opcode).Nodup := by
  have hflat : (loadHandlers engine).map (fun h => h.ptr.opcode) =
      [OpcodeWidth.w1, .w2, .w4, .w8, .w16].flatMap fun w =>
        (engine w).map fun x => x.handler.opcode := by
    simp only [loadHandlers, List.map_map, Function.comp_def, List.map_append, List.flatMap_cons,
      List.flatMap_nil, List.append_nil, List.append_assoc]
  rw [hflat]
  refine List.pairwise_flatMap.mpr ⟨fun w _ => ?_, ?_⟩
  · rw [List.pairwise_map]
    refine (hs w).pairwise.imp ?_
    intro x y hlt heq
    rw [heq] at hlt
    exact Nat.lt_irrefl _ hlt
  · have hwidths : [OpcodeWidth.w1, .w2, .w4, .w8, .w16].Nodup := by decide
    refine hwidths.imp ?_
    intro w w' hne k hk k' hk' heq
    obtain ⟨x, hx, rfl⟩ := List.mem_map.mp hk
    obtain ⟨y, hy, rfl⟩ := List.mem_map.mp hk'
    have hsize : w.size = w'.size := by
      rw [← (hs w).length x hx, ← (hs w').length y hy, heq]
    exact hne (OpcodeWidth.size_inj hsize)

theorem exists_mem_of_loadHandlers {h : Handler} (hh : h ∈ loadHandlers engine) :
    ∃ w, ∃ x ∈ engine w, x.handler.opcode = h.ptr.opcode := by
  obtain ⟨x, hx, rfl⟩ := List.mem_map.mp hh
  simp only [List.mem_append] at hx
  rcases hx with (((hx | hx) | hx) | hx) | hx
  · exact ⟨.w1, x, hx, rfl⟩
  · exact ⟨.w2, x, hx, rfl⟩
  · exact ⟨.w4, x, hx, rfl⟩
  · exact ⟨.w8, x, hx, rfl⟩
  · exact ⟨.w16, x, hx, rfl⟩

end Index

/-- 番号の引き方が正しいこと。 -/
structure IndexExact {μ : Type} (tc : Toolchain μ) (arch : ArchType) (bin : Binary)
    (engine : OpcodeEngine) (b : Bytes) : Prop where
  found : (∃ v ∈ visited tc arch bin, v.2 = b) → ∃ i x,
    (engine (prefetchKey b).1)[i]? = some x ∧ x.handler.opcode = (prefetchKey b).2 ∧
      (∀ j y, (engine (prefetchKey b).1)[j]? = some y → y.handler.opcode = (prefetchKey b).2 →
        j = i) ∧
      (loadHandlers engine)[(handlerIndexIn engine b).toNat]? =
        some ⟨x.handler.opcode.length, x.handler, rfl⟩ ∧
      (handlerIndexIn engine b).toNat = (ranges engine (prefetchKey b).1).1.toNat + i ∧
      ∀ v ∈ visited tc arch bin, prefetchKey v.2 = prefetchKey b → v.2 = b
  missing : (∀ x ∈ engine (prefetchKey b).1, x.handler.opcode ≠ (prefetchKey b).2) →
    handlerIndexIn engine b = noHandler

/-- 三つの関数が同じ表と key を選ぶこと。AArch64 の `emulate(span)` は先頭の 4 byte だけを見る。 -/
structure ChoosesAlike {μ : Type} (tc : Toolchain μ) (b : Bytes) : Prop where
  index : handlerIndexKey b = some (prefetchKey b)
  x86 : tc.spanKey .x86_64 b = some (prefetchKey b)
  arm64 : tc.spanKey .arm64 b = if b.length < 4 then none else some (prefetchKey (b.take 4))

/-- 零を足して別の命令になる命令は無い。 -/
def NoZeroExtension (decoded : List (Decoded × Bytes)) : Prop :=
  ∀ v ∈ decoded, ∀ v' ∈ decoded, ∀ n, v'.2 = v.2 ++ zeros n → n = 0

section Exact

variable {μ : Type} {tc : Toolchain μ} {arch : ArchType} {bin : Binary} {g : Globals μ}
  {s : Globals μ × OpcodeEngine} {b : Bytes}

/-- 同じ key を持つ命令は一つしか無い。 -/
theorem NoZeroExtension.inj {decoded : List (Decoded × Bytes)} (h : NoZeroExtension decoded)
    {v v' : Decoded × Bytes} (hv : v ∈ decoded) (hv' : v' ∈ decoded) (h16 : v.2.length ≤ 16)
    (h16' : v'.2.length ≤ 16) (hkey : opcodeKey v.2 = opcodeKey v'.2) : v.2 = v'.2 := by
  rcases Nat.le_total v.2.length v'.2.length with hle | hle
  · have heq := eq_append_zeros_of_key h16 h16' hle hkey
    rw [h v hv v' hv' _ heq, zeros, List.replicate_zero, List.append_nil] at heq
    exact heq.symm
  · have heq := eq_append_zeros_of_key h16' h16 hle hkey.symm
    rw [h v' hv' v hv _ heq, zeros, List.replicate_zero, List.append_nil] at heq
    exact heq

theorem indexExact_of_prefetch (hp : prefetch tc arch bin g = .ok s)
    (hcount : (loadHandlers s.2).length ≤ uint32Max)
    (hdecoded : ∀ v ∈ visited tc arch bin, v.2.length ≤ 15)
    (hzero : NoZeroExtension (visited tc arch bin)) (h1 : 1 ≤ b.length) (h15 : b.length ≤ 15) :
    IndexExact tc arch bin s.2 b := by
  have hkeyed := InterpMetaData.prefetch_keyed hp
  have hsorted := hkeyed.sorted (OpcodeWidth.ofLength b.length)
  have hindex : handlerIndexIn s.2 b = handlerIndex s.2 b :=
    handlerIndexIn_eq hkeyed.sorted hcount b
  refine ⟨?_, ?_⟩
  · rintro ⟨v, hv, rfl⟩
    obtain ⟨hstart, -⟩ := toNat_ranges hcount (OpcodeWidth.ofLength v.2.length)
    simp only [prefetchKey_eq, hindex, hstart]
    have hmem : opcodeKey v.2 ∈ InterpMetaData.stream tc arch bin :=
      List.mem_map.mpr ⟨v, hv, rfl⟩
    obtain ⟨x, hx, hop⟩ := (hkeyed.mem_iff _ _ (length_opcodeKey v.2)).mpr hmem
    have hget := InterpMetaData.getElem?_lowerBound hsorted hx
    rw [hop] at hget
    have hload := InterpMetaData.loadHandlers_getElem? s.2 _ hget
    have hlt := (List.getElem?_eq_some_iff.mp hload).1
    have hnat : (handlerIndex s.2 v.2).toNat = rangeStart s.2 (OpcodeWidth.ofLength v.2.length) +
        lowerBound (s.2 (OpcodeWidth.ofLength v.2.length)) (opcodeKey v.2) := by
      simp only [handlerIndex,
        if_neg (show ¬ (v.2.length = 0 ∨ 16 < v.2.length) by omega), hget, if_pos hop]
      exact Written.toNat_ofNat (by omega)
    refine ⟨_, x, hget, hop, fun j y hj hy => ?_, ?_, hnat, fun v' hv' hkey => ?_⟩
    · -- 同じ opcode は表に二つ無い
      have hfound := InterpMetaData.getElem?_lowerBound hsorted (List.mem_of_getElem? hj)
      rw [hy] at hfound
      have heq : y = x := Option.some.inj (hfound.symm.trans hget)
      obtain ⟨hjlt, hjy⟩ := List.getElem?_eq_some_iff.mp hj
      obtain ⟨hilt, hix⟩ := List.getElem?_eq_some_iff.mp hget
      by_contra hne
      rcases Nat.lt_or_gt_of_ne hne with hlt | hlt
      · have hrel := List.pairwise_iff_getElem.mp hsorted.pairwise _ _ hjlt hilt hlt
        rw [hjy, hix, heq] at hrel
        exact Nat.lt_irrefl _ hrel
      · have hrel := List.pairwise_iff_getElem.mp hsorted.pairwise _ _ hilt hjlt hlt
        rw [hjy, hix, heq] at hrel
        exact Nat.lt_irrefl _ hrel
    · rw [hnat]
      exact hload
    · have hv15 := hdecoded v hv
      have hv15' := hdecoded v' hv'
      exact hzero.inj hv' hv (by omega) (by omega) (Prod.mk.inj hkey).2
  · intro hmiss
    rw [prefetchKey_eq] at hmiss
    rw [hindex]
    by_contra hno
    obtain ⟨-, -, hmem⟩ := (InterpMetaData.handlerIndex_ne_iff hkeyed hcount b).mp hno
    obtain ⟨x, hx, hop⟩ := (hkeyed.mem_iff _ _ (length_opcodeKey b)).mpr hmem
    exact hmiss x hx hop

/--
どの関数の列、どの decoder でも、decode した命令が 15 byte までで、どの命令も別の命令に零を足したものでなく、
handler の数が 32 bit の番号に収まるなら、`prefetch` の後の `handlerIndex` は正しい。表と key の選び方は、
1 byte から 15 byte までのどの opcode でも、三つの関数で揃っている。AArch64 の `emulate(span)` は先頭の
4 byte の key を選び、それより短ければ選ばない。
-/
theorem handlerIndex_exact (hp : prefetch tc arch bin g = .ok s)
    (hcount : (loadHandlers s.2).length ≤ uint32Max)
    (hdecoded : ∀ v ∈ visited tc arch bin, v.2.length ≤ 15)
    (hzero : NoZeroExtension (visited tc arch bin)) :
    ∀ b : Bytes, 1 ≤ b.length → b.length ≤ 15 →
      IndexExact tc arch bin s.2 b ∧ ChoosesAlike tc b := by
  intro b h1 h15
  refine ⟨indexExact_of_prefetch hp hcount hdecoded hzero h1 h15, ?_⟩
  exact ⟨handlerIndexKey_eq h1 (by omega), spanKey_x86 tc h15, spanKey_arm64 tc b⟩

/-- handler の数が 2^32 を越えると、最後の handler の番号は 32 bit に収まらず、引けない。 -/
theorem exists_not_indexExact (hp : prefetch tc arch bin g = .ok s)
    (hmany : UInt32.size < (loadHandlers s.2).length) :
    ∃ v ∈ visited tc arch bin, ¬ IndexExact tc arch bin s.2 v.2 := by
  have hkeyed := InterpMetaData.prefetch_keyed hp
  have hlast : (loadHandlers s.2).length - 1 < (loadHandlers s.2).length := by omega
  have hlast := List.getElem?_eq_getElem hlast
  set last := (loadHandlers s.2)[(loadHandlers s.2).length - 1]
  obtain ⟨w, x, hx, hop⟩ := exists_mem_of_loadHandlers (List.mem_of_getElem? hlast)
  obtain ⟨v, hv, hkey⟩ := List.mem_map.mp
    ((hkeyed.mem_iff w _ ((hkeyed.sorted w).length x hx)).mp ⟨x, hx, rfl⟩)
  refine ⟨v, hv, fun h => ?_⟩
  obtain ⟨i, y, -, hy, -, hload, -⟩ := h.found ⟨v, hv, rfl⟩
  rw [prefetchKey_eq] at hy
  -- 引いた番号は、最後の handler と同じ opcode の handler を指す
  have hsame : ((loadHandlers s.2).map fun h => h.ptr.opcode)[(handlerIndexIn s.2 v.2).toNat]? =
      ((loadHandlers s.2).map fun h => h.ptr.opcode)[(loadHandlers s.2).length - 1]? := by
    rw [List.getElem?_map, List.getElem?_map, hload, hlast, Option.map_some, Option.map_some, ← hop,
      ← hkey, hy]
  have hlt := (List.getElem?_eq_some_iff.mp hload).1
  have heq := (List.getElem?_inj (by rwa [List.length_map]) (nodup_loadHandlers hkeyed.sorted)).mp
    hsame
  have hindex := (handlerIndexIn s.2 v.2).toNat_lt
  have hsize : UInt32.size = 2 ^ 32 := rfl
  omega

end Exact

/-! ## 例 -/

open InterpMetaData (sampleDecoder sampleJump)

theorem sampleJump_noZeroExtension :
    NoZeroExtension (visited sampleDecoder .x86_64 (sampleJump false)) := by
  have hshort : ∀ v ∈ visited sampleDecoder .x86_64 (sampleJump false),
      ∀ v' ∈ visited sampleDecoder .x86_64 (sampleJump false), ∀ n < 3,
        v'.2 = v.2 ++ zeros n → n = 0 := by decide
  have hlen : ∀ v ∈ visited sampleDecoder .x86_64 (sampleJump false), v.2.length < 3 := by decide
  intro v hv v' hv' n heq
  refine hshort v hv v' hv' n ?_ heq
  have hlength := congrArg List.length heq
  rw [List.length_append, length_zeros] at hlength
  have hlt := hlen v' hv'
  omega

/-- `eb 01`、`b0 90`、`c3` を decode した後、`b0 90` の番号は正しい。 -/
theorem sampleJump_handlerIndex : ∃ s : Globals Bytes × OpcodeEngine,
    prefetch sampleDecoder .x86_64 (sampleJump false) Globals.empty = .ok s ∧
      IndexExact sampleDecoder .x86_64 (sampleJump false) s.2 [0xb0, 0x90] ∧
      ChoosesAlike sampleDecoder [0xb0, 0x90] := by
  obtain ⟨s, hp, hcount⟩ : ∃ s : Globals Bytes × OpcodeEngine,
      prefetch sampleDecoder .x86_64 (sampleJump false) Globals.empty = .ok s ∧
        (loadHandlers s.2).length ≤ uint32Max := ⟨_, rfl, by decide⟩
  exact ⟨s, hp, handlerIndex_exact hp hcount (by decide) sampleJump_noZeroExtension [0xb0, 0x90]
    (by decide) (by decide)⟩

/-- AArch64 では、`emulate(span)` は 3 byte の opcode の表を選ばず、5 byte の opcode を 4 byte のものとみなす。 -/
theorem spanKey_arm64_differs :
    sampleDecoder.spanKey .arm64 [0xc0, 0x03, 0x5f] ≠ some (prefetchKey [0xc0, 0x03, 0x5f]) ∧
      sampleDecoder.spanKey .arm64 [0xc0, 0x03, 0x5f, 0xd6, 0x1f] ≠
        some (prefetchKey [0xc0, 0x03, 0x5f, 0xd6, 0x1f]) := by
  decide

/-! ### `movabs` を並べた binary

すべて異なる 10 byte の命令を `n` 個並べると、handler も `n` 個になる。
-/

/-- `movabs rax, k`。10 byte である。 -/
def movabs (k : Nat) : Bytes := 0x48 :: 0xb8 :: toLE 8 k

/-- どこでも 10 byte の命令を decode する環境。 -/
def movabsDecoder : Toolchain Bytes :=
  { sampleDecoder with decode := fun _ bytes => ⟨⟨[], bytes.take 10, []⟩, false⟩ }

/-- `n` 個の `movabs` を並べた関数一つの binary。 -/
def movabsBinary (n : Nat) : Binary where
  arch := .x86_64
  imageBase := 0
  functions := [⟨0x1000, 10 * n, []⟩]
  addrBuff := fun _ i => (movabs (i / 10)).getD (i % 10) 0

theorem length_movabs (k : Nat) : (movabs k).length = 10 := by
  rw [movabs, List.length_cons, List.length_cons, length_toLE]

theorem movabs_window (n k : Nat) :
    (List.range 10).map (fun i => (movabsBinary n).addrBuff 0x1000 (10 * k + i)) = movabs k := by
  refine List.ext_getElem (by simp [length_movabs]) fun i hi hi' => ?_
  rw [List.length_map, List.length_range] at hi
  have hdiv : (10 * k + i) / 10 = k := by omega
  have hmod : (10 * k + i) % 10 = i := by omega
  rw [List.getElem_map, List.getElem_range]
  simp only [movabsBinary, hdiv, hmod]
  rw [List.getD_eq_getElem?_getD, List.getElem?_eq_getElem hi', Option.getD_some]

theorem movabs_visits (n : Nat) : ∀ (fuel m k : Nat), k + m = n → m ≤ fuel →
    movabsDecoder.visits .x86_64 ((movabsBinary n).addrBuff 0x1000) (10 * n) fuel (10 * k) =
      (List.range' k m).map fun j => (⟨⟨[], movabs j, []⟩, false⟩, movabs j)
  | 0, m, k, _, hfuel => by
    obtain rfl : m = 0 := by omega
    rfl
  | fuel + 1, m, k, hn, hfuel => by
    rw [Toolchain.visits]
    cases m with
    | zero =>
      rw [if_neg (by omega)]
      rfl
    | succ m =>
      have hdecode : movabsDecoder.decodeAt .x86_64 ((movabsBinary n).addrBuff 0x1000) (10 * k) =
          ⟨⟨[], movabs k, []⟩, false⟩ := by
        have htake : ((List.range 16).map fun i =>
            (movabsBinary n).addrBuff 0x1000 (10 * k + i)).take 10 = movabs k := by
          rw [← List.map_take, ← movabs_window n k]
          rfl
        simp only [Toolchain.decodeAt, movabsDecoder, reduceCtorEq, if_false, htake]
        rfl
      rw [if_pos (by omega), hdecode]
      dsimp only
      rw [length_movabs, movabs_window, List.range'_succ, List.map_cons,
        show 10 * k + 10 = 10 * (k + 1) by omega,
        movabs_visits n fuel m (k + 1) (by omega) (by omega)]

theorem movabs_visited (n : Nat) : visited movabsDecoder .x86_64 (movabsBinary n) =
    (List.range n).map fun j => (⟨⟨[], movabs j, []⟩, false⟩, movabs j) := by
  have h := movabs_visits n (10 * n) n 0 (by omega) (by omega)
  rw [← List.range_eq_range'] at h
  rw [← h]
  exact List.flatMap_singleton ..

theorem movabs_key_inj {j k : Nat} (hj : j < 2 ^ 64) (hk : k < 2 ^ 64)
    (h : opcodeKey (movabs j) = opcodeKey (movabs k)) : j = k := by
  have heq := eq_append_zeros_of_key (by rw [length_movabs]; decide)
    (by rw [length_movabs]; decide) (by rw [length_movabs, length_movabs]) h
  rw [length_movabs, length_movabs, Nat.sub_self, zeros, List.replicate_zero,
    List.append_nil] at heq
  simp only [movabs, List.cons.injEq, true_and] at heq
  have hmod := toLE_eq_iff.mp heq
  omega

/-- `n` 個の `movabs` は、`n` 個の handler になる。 -/
theorem movabs_length_le {n : Nat} (hn : n ≤ 2 ^ 64) {g : Globals Bytes}
    {s : Globals Bytes × OpcodeEngine}
    (hp : prefetch movabsDecoder .x86_64 (movabsBinary n) g = .ok s) :
    n ≤ (loadHandlers s.2).length := by
  have hkeyed := InterpMetaData.prefetch_keyed hp
  have hnodup : ((List.range n).map fun j => opcodeKey (movabs j)).Nodup := by
    refine List.Nodup.map_on (fun j hj k hk h => ?_) List.nodup_range
    have hj := List.mem_range.mp hj
    have hk := List.mem_range.mp hk
    exact movabs_key_inj (by omega) (by omega) h
  have hsub : ((List.range n).map fun j => opcodeKey (movabs j)) ⊆
      (loadHandlers s.2).map fun h => h.ptr.opcode := by
    intro key hkey
    have hstream : key ∈ InterpMetaData.stream movabsDecoder .x86_64 (movabsBinary n) := by
      rw [InterpMetaData.stream, movabs_visited, List.map_map]
      exact hkey
    obtain ⟨j, -, rfl⟩ := List.mem_map.mp hkey
    obtain ⟨x, hx, hop⟩ := (hkeyed.mem_iff _ _ (length_opcodeKey (movabs j))).mpr hstream
    obtain ⟨i, hi⟩ := List.getElem?_of_mem hx
    have hload := InterpMetaData.loadHandlers_getElem? s.2 _ hi
    exact List.mem_map.mpr ⟨_, List.mem_of_getElem? hload, hop⟩
  have hle := (hnodup.subperm hsub).length_le
  rwa [List.length_map, List.length_map, List.length_range] at hle

theorem movabs_exists_prefetch (n : Nat) :
    ∃ s, prefetch movabsDecoder .x86_64 (movabsBinary n) Globals.empty = .ok s := by
  rw [prefetch, prefetchFrom_eq]
  refine Toolchain.exists_prefetchAll (fun _ => rfl) _ (fun v hv => ?_) _
  change v ∈ visited movabsDecoder .x86_64 (movabsBinary n) at hv
  rw [movabs_visited] at hv
  obtain ⟨j, -, rfl⟩ := List.mem_map.mp hv
  rfl

theorem movabs_noZeroExtension (n : Nat) :
    NoZeroExtension (visited movabsDecoder .x86_64 (movabsBinary n)) := by
  intro v hv v' hv' m heq
  rw [movabs_visited] at hv hv'
  obtain ⟨j, -, rfl⟩ := List.mem_map.mp hv
  obtain ⟨k, -, rfl⟩ := List.mem_map.mp hv'
  have hlength := congrArg List.length heq
  rw [List.length_append, length_movabs, length_movabs, length_zeros] at hlength
  omega

/--
AArch64 の `emulate(span)` は、4 byte でない opcode の表と key を選ばない。また、`movabs` を 2^32 + 1 個並べると、
decode した命令のどれかは番号を引けない。
-/
theorem handlerIndex_not_exact :
    (sampleDecoder.spanKey .arm64 [0xc0, 0x03, 0x5f] ≠ some (prefetchKey [0xc0, 0x03, 0x5f]) ∧
      sampleDecoder.spanKey .arm64 [0xc0, 0x03, 0x5f, 0xd6, 0x1f] ≠
        some (prefetchKey [0xc0, 0x03, 0x5f, 0xd6, 0x1f])) ∧
    ∃ s, prefetch movabsDecoder .x86_64 (movabsBinary (2 ^ 32 + 1)) Globals.empty = .ok s ∧
      (∀ v ∈ visited movabsDecoder .x86_64 (movabsBinary (2 ^ 32 + 1)), v.2.length = 10) ∧
      NoZeroExtension (visited movabsDecoder .x86_64 (movabsBinary (2 ^ 32 + 1))) ∧
      ∃ v ∈ visited movabsDecoder .x86_64 (movabsBinary (2 ^ 32 + 1)),
        ¬ IndexExact movabsDecoder .x86_64 (movabsBinary (2 ^ 32 + 1)) s.2 v.2 := by
  refine ⟨spanKey_arm64_differs, ?_⟩
  obtain ⟨s, hp⟩ := movabs_exists_prefetch (2 ^ 32 + 1)
  have hle := movabs_length_le (by decide) hp
  have hsize : UInt32.size = 2 ^ 32 := rfl
  refine ⟨s, hp, fun v hv => ?_, movabs_noZeroExtension _, exists_not_indexExact hp (by omega)⟩
  rw [movabs_visited] at hv
  obtain ⟨j, -, rfl⟩ := List.mem_map.mp hv
  exact length_movabs j

end PreEncoder

end AetherVM
