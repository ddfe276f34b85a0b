import Mathlib.Data.List.Sort
import AetherVM.Infra.Rank
import AetherVM.Encode.Serialize
import AetherVM.Operand.Raw

/-!
# 実装の表と番号（`src/Handler.cpp` の `load_handler`）

Remill の実装の表は、名前の `hash_value` の順に並ぶ。書き手は表の中の番号を file に書き、読み手は
自分の process の表をその番号で引く。`hash_value` は memory の中だけで使うもので、process や platform が
違えば値も違いうる。
-/

namespace AetherVM

open Infra

/-- 名前と実装の組。`HandlerAArch64` と `HandlerX86` の要素である。 -/
structure HandlerRaw where
  name : Name
  handler : UInt64
deriving DecidableEq

namespace Handler

/-- `operator<` の順。 -/
def hashLe (a b : Handler) : Prop := a.hash.toNat ≤ b.hash.toNat

instance : DecidableRel hashLe := fun a b =>
  inferInstanceAs (Decidable (a.hash.toNat ≤ b.hash.toNat))

instance : Std.Total hashLe := ⟨fun a b => Nat.le_total a.hash.toNat b.hash.toNat⟩

instance : IsTrans Handler hashLe := ⟨fun _ _ _ h1 h2 => Nat.le_trans h1 h2⟩

end Handler

variable (hash : Name → UInt64)

/-- `Handler{hash_value(r.name), r.handler}`。 -/
def HandlerRaw.toHandler (r : HandlerRaw) : Handler := ⟨hash r.name, r.handler⟩

/-- 並べるときの鍵。 -/
def HandlerRaw.key (r : HandlerRaw) : Nat := (hash r.name).toNat

/-- `load_handler`。表の大きさが揃っていれば、読み込み済みとみなす。 -/
def loadHandler (handlers : List Handler) (raw : List HandlerRaw) : List Handler :=
  if handlers.length = raw.length then handlers
  else (raw.map (HandlerRaw.toHandler hash)).insertionSort Handler.hashLe

/-- hash の衝突が無いこと。 -/
def CollisionFree (raw : List HandlerRaw) : Prop :=
  ∀ a ∈ raw, ∀ b ∈ raw, hash a.name = hash b.name → a.name = b.name

instance (raw : List HandlerRaw) : Decidable (CollisionFree hash raw) :=
  inferInstanceAs (Decidable (∀ a ∈ raw, ∀ b ∈ raw, hash a.name = hash b.name → a.name = b.name))

/-- hash の値で見た順位。 -/
def HandlerRaw.rank (raw : List HandlerRaw) (r : HandlerRaw) : Nat := rankBy (key hash) raw r

/-! ## 表の並び -/

section Load

variable {hash} {raw : List HandlerRaw}

/-- 鍵の順に並べた名前の列。 -/
def sortRaw (hash : Name → UInt64) (raw : List HandlerRaw) : List HandlerRaw :=
  raw.insertionSort fun a b => a.key hash ≤ b.key hash

theorem loadHandler_nil (hash : Name → UInt64) (raw : List HandlerRaw) :
    loadHandler hash [] raw = (sortRaw hash raw).map (HandlerRaw.toHandler hash) := by
  unfold loadHandler sortRaw
  split
  · next h =>
    rw [List.eq_nil_of_length_eq_zero h.symm]
    rfl
  · exact (List.map_insertionSort (fun a b : HandlerRaw => a.key hash ≤ b.key hash)
      Handler.hashLe (HandlerRaw.toHandler hash) raw fun _ _ _ _ => Iff.rfl).symm

/-- 名前が異なり hash の衝突が無ければ、並べた列は狭義の昇順である。 -/
theorem sortsBy_sortRaw (hnames : (raw.map HandlerRaw.name).Nodup) (hc : CollisionFree hash raw) :
    SortsBy (HandlerRaw.key hash) raw (sortRaw hash raw) := by
  have hperm : (sortRaw hash raw).Perm raw := List.perm_insertionSort _ _
  refine ⟨hperm, ?_⟩
  have hnodup : (sortRaw hash raw).Nodup := hperm.nodup_iff.mpr (List.Nodup.of_map _ hnames)
  have hle : (sortRaw hash raw).Pairwise fun a b => a.key hash ≤ b.key hash :=
    List.pairwise_insertionSort _ _
  refine (hle.and hnodup).imp_of_mem ?_
  rintro a b ha hb ⟨hab, hne⟩
  refine Nat.lt_of_le_of_ne hab fun heq => hne ?_
  have ha := hperm.mem_iff.mp ha
  have hb := hperm.mem_iff.mp hb
  exact List.inj_on_of_nodup_map hnames ha hb (hc a ha b hb (UInt64.toNat_inj.mp heq))

end Load

/-! ## 番号 -/

/--
`h₁` の process が書いた番号が、`h₂` の process の表で同じ名前の実装を選ぶこと。`handlers` は
`load_handler` の前の空の表である。
-/
def IndexStable (h₁ h₂ : Name → UInt64) (raw : List HandlerRaw) : Prop :=
  ∀ e : PreEncoder, e.tables.of e.arch = loadHandler h₁ [] raw →
    ∀ r ∈ raw, ∀ h : OpcodeHandler, h.type = .remill → h.impl = r.handler →
      ∀ dyn impl dyn', e.implField h dyn = some (impl, dyn') →
        elementAt (loadHandler h₂ [] raw) impl.toNat = .ok (r.toHandler h₂)

section Index

variable {h₁ h₂ : Name → UInt64} {raw : List HandlerRaw}

theorem elementAt_eq_ok {α : Type} {xs : List α} {i : Nat} {x : α} :
    elementAt xs i = .ok x ↔ xs[i]? = some x := by
  unfold elementAt
  cases xs[i]? with
  | none => simp
  | some y => simp

/-- 表の中の実装の位置は、名前の hash の順位である。 -/
theorem findIdx?_loadHandler (hnames : (raw.map HandlerRaw.name).Nodup)
    (himpls : (raw.map HandlerRaw.handler).Nodup) (hc : CollisionFree h₁ raw) {r : HandlerRaw}
    (hr : r ∈ raw) :
    (loadHandler h₁ [] raw).findIdx? (fun candidate => candidate.impl == r.handler)
      = some (r.rank h₁ raw) := by
  have hs := sortsBy_sortRaw hnames hc
  obtain ⟨hlt, hget⟩ := List.getElem?_eq_some_iff.mp (hs.getElem?_rank hr)
  rw [loadHandler_nil, List.findIdx?_eq_some_iff_getElem]
  refine ⟨by rw [List.length_map]; exact hlt, ?_, fun j hj => ?_⟩
  · simp only [HandlerRaw.rank, List.getElem_map, hget]
    exact beq_self_eq_true _
  · simp only [List.getElem_map, HandlerRaw.toHandler, Bool.not_eq_true, beq_eq_false_iff_ne]
    intro heq
    -- 実装が等しければ同じ名前であり、位置も等しい
    have hmem := hs.perm.mem_iff.mp (List.getElem_mem (Nat.lt_trans hj hlt))
    have hsame := List.inj_on_of_nodup_map himpls hmem hr heq
    have hrank := hs.rank_eq (List.getElem?_eq_getElem (Nat.lt_trans hj hlt))
    rw [hsame] at hrank
    exact absurd hrank (Nat.ne_of_gt hj)

theorem implField_remill {e : PreEncoder} (hnames : (raw.map HandlerRaw.name).Nodup)
    (himpls : (raw.map HandlerRaw.handler).Nodup) (hc : CollisionFree h₁ raw)
    (htable : e.tables.of e.arch = loadHandler h₁ [] raw) {r : HandlerRaw} (hr : r ∈ raw)
    {h : OpcodeHandler} (hty : h.type = .remill) (himpl : h.impl = r.handler) (dyn : Nat) :
    e.implField h dyn = if PreEncoder.noImpl ≤ r.rank h₁ raw then none
      else some (UInt16.ofNat (r.rank h₁ raw), dyn) := by
  simp only [PreEncoder.implField, hty, htable, himpl, findIdx?_loadHandler hnames himpls hc hr]

/-- 読み手の表で、番号 `i` に実装があるのは、順位が `i` のときである。 -/
theorem getElem?_loadHandler (hnames : (raw.map HandlerRaw.name).Nodup)
    (himpls : (raw.map HandlerRaw.handler).Nodup) (hc : CollisionFree h₂ raw) {r : HandlerRaw}
    (hr : r ∈ raw) {i : Nat} :
    (loadHandler h₂ [] raw)[i]? = some (r.toHandler h₂) ↔ r.rank h₂ raw = i := by
  have hs := sortsBy_sortRaw hnames hc
  rw [loadHandler_nil, List.getElem?_map, Option.map_eq_some_iff]
  constructor
  · rintro ⟨r', hr', heq⟩
    have hmem := hs.perm.mem_iff.mp (List.mem_of_getElem? hr')
    have himpl : r'.handler = r.handler := congrArg Handler.impl heq
    rw [← List.inj_on_of_nodup_map himpls hmem hr himpl]
    exact hs.rank_eq hr'
  · rintro rfl
    exact ⟨r, hs.getElem?_rank hr, rfl⟩

theorem indexStable_iff_rank (hnames : (raw.map HandlerRaw.name).Nodup)
    (himpls : (raw.map HandlerRaw.handler).Nodup) (hc₁ : CollisionFree h₁ raw)
    (hc₂ : CollisionFree h₂ raw) :
    IndexStable h₁ h₂ raw ↔ ∀ r ∈ raw, r.rank h₁ raw < PreEncoder.noImpl →
      r.rank h₂ raw = r.rank h₁ raw := by
  have hno : PreEncoder.noImpl = 65535 := rfl
  have hnat : ∀ n, n < PreEncoder.noImpl → (UInt16.ofNat n).toNat = n := by
    intro n hn
    rw [UInt16.toNat_ofNat']
    exact Nat.mod_eq_of_lt (by omega)
  constructor
  · intro h r hr hlt
    -- handler `r` だけを書く符号化を取ると、番号の一致が順位の一致になる
    have hget := h ⟨.arm64, false, ⟨loadHandler h₁ [] raw, []⟩, fun _ => 0, [], []⟩ rfl r hr
      ⟨[], 0, .remill, 0, [], r.handler⟩ rfl rfl 0 _ 0
      ((implField_remill hnames himpls hc₁ rfl hr rfl rfl 0).trans
        (if_neg (Nat.not_le.mpr hlt)))
    rw [elementAt_eq_ok, hnat _ hlt] at hget
    exact (getElem?_loadHandler hnames himpls hc₂ hr).mp hget
  · intro h e htable r hr handler hty himpl dyn impl dyn' hfield
    rw [implField_remill hnames himpls hc₁ htable hr hty himpl] at hfield
    split at hfield
    · cases hfield
    next hlt =>
    rw [Nat.not_le] at hlt
    cases hfield
    rw [elementAt_eq_ok, hnat _ hlt]
    exact (getElem?_loadHandler hnames himpls hc₂ hr).mpr (h r hr hlt)

/--
file に書いた番号が hash に依らないのは、番号を書けるどの実装についても、二つの hash がその名前を他の
どの名前とも同じ順に並べるときに限る。
-/
theorem indexStable_iff (hnames : (raw.map HandlerRaw.name).Nodup)
    (himpls : (raw.map HandlerRaw.handler).Nodup) (hc₁ : CollisionFree h₁ raw)
    (hc₂ : CollisionFree h₂ raw) :
    IndexStable h₁ h₂ raw ↔ ∀ a ∈ raw, a.rank h₁ raw < PreEncoder.noImpl → ∀ b ∈ raw,
      (a.key h₁ < b.key h₁ ↔ a.key h₂ < b.key h₂) := by
  rw [indexStable_iff_rank hnames himpls hc₁ hc₂]
  exact (sortsBy_sortRaw hnames hc₁).rank_eq_iff (sortsBy_sortRaw hnames hc₂) PreEncoder.noImpl

end Index

/-! ## 例 -/

/-- 二つの実装 `A` と `B`。 -/
def sampleRaw : List HandlerRaw := [⟨[0x41], 0x1000⟩, ⟨[0x42], 0x2000⟩]

/-- 先頭の文字を hash とする。`flip` なら逆の順になる。 -/
def sampleHash (flip : Bool) (name : Name) : UInt64 :=
  let c := (name.headD 0).toUInt64
  if flip then 0xff - c else c

/-- 値が違っても、名前を同じ順に並べる hash なら、番号は同じ実装を選ぶ。 -/
theorem sampleRaw_indexStable :
    IndexStable (sampleHash false) (fun name => 2 * sampleHash false name + 1) sampleRaw :=
  (indexStable_iff (by decide) (by decide) (by decide) (by decide)).mpr (by decide)

/-- 衝突の無い hash でも、順が逆の process では、`A` の番号 0 が `B` を選ぶ。 -/
theorem sampleRaw_not_indexStable :
    (sampleRaw.map HandlerRaw.name).Nodup ∧ (sampleRaw.map HandlerRaw.handler).Nodup ∧
      CollisionFree (sampleHash false) sampleRaw ∧ CollisionFree (sampleHash true) sampleRaw ∧
      ¬ IndexStable (sampleHash false) (sampleHash true) sampleRaw := by
  refine ⟨by decide, by decide, by decide, by decide, fun h => ?_⟩
  have hrank := (indexStable_iff_rank (by decide) (by decide) (by decide) (by decide)).mp h
    ⟨[0x41], 0x1000⟩ (by decide) (by decide)
  exact absurd hrank (by decide)

end AetherVM
