import Mathlib.Data.List.Basic

/-!
# 番号を振る表

key を引いて、登録があればその値を返し、無ければ item を列の末尾に積んで新しい番号で登録する表。
item を作る計算は、登録が無いときだけ走り、失敗してよい。登録する値は番号から作る。

表が覚えているのは、key ごとに最初の要求の item だけである（`Holds`）。番号は、key が
初めて現れた順になる。
-/

namespace AetherVM.Infra

/-- `items` に積んだものと、key から値を引く `map`。 -/
structure Interner (κ α ν : Type) where
  items : List α
  map : List (κ × ν)
deriving DecidableEq

/-- 一回の要求。`make` は番号から登録する値を作る。 -/
structure Request (ε κ α ν : Type) where
  key : κ
  item : Except ε α
  make : Nat → ν

namespace Interner

variable {ε κ α ν : Type}

def empty : Interner κ α ν := ⟨[], []⟩

section

variable [DecidableEq κ]

def intern (t : Interner κ α ν) (r : Request ε κ α ν) : Except ε (Interner κ α ν × ν) :=
  match t.map.lookup r.key with
  | some v => .ok (t, v)
  | none =>
    match r.item with
    | .error err => .error err
    | .ok a =>
      let v := r.make t.items.length
      .ok (⟨t.items ++ [a], t.map ++ [(r.key, v)]⟩, v)

end

/-- 後の表は、前の表の登録も item も変えずに伸ばしたものである。 -/
structure Extends (t t' : Interner κ α ν) : Prop where
  items : t.items <+: t'.items
  map : t.map <+: t'.map

namespace Extends

theorem refl (t : Interner κ α ν) : Extends t t := ⟨List.prefix_refl _, List.prefix_refl _⟩

theorem trans {t₁ t₂ t₃ : Interner κ α ν} (h : Extends t₁ t₂) (h' : Extends t₂ t₃) :
    Extends t₁ t₃ := ⟨h.items.trans h'.items, h.map.trans h'.map⟩

theorem lookup [DecidableEq κ] {t t' : Interner κ α ν} (h : Extends t t') {k : κ} {v : ν}
    (hk : t.map.lookup k = some v) : t'.map.lookup k = some v := h.map.lookup_eq_some hk

theorem getElem? {t t' : Interner κ α ν} (h : Extends t t') {n : Nat} {a : α}
    (hn : t.items[n]? = some a) : t'.items[n]? = some a := by
  obtain ⟨rest, hrest⟩ := h.items
  rw [← hrest, List.getElem?_append_left (List.getElem?_eq_some_iff.mp hn).1]
  exact hn

end Extends

/-- 登録した key を、番号の順に並べたもの。 -/
def keys (t : Interner κ α ν) : List κ := t.map.map Prod.fst

theorem Extends.keys_getElem? {t t' : Interner κ α ν} (h : Extends t t') {n : Nat} {k : κ}
    (hn : t.keys[n]? = some k) : t'.keys[n]? = some k := by
  obtain ⟨rest, hrest⟩ := h.map
  have hkeys : t'.keys = t.keys ++ rest.map Prod.fst := by rw [keys, ← hrest, List.map_append]; rfl
  rw [hkeys, List.getElem?_append_left (List.getElem?_eq_some_iff.mp hn).1]
  exact hn

variable [DecidableEq κ]

/-- 要求の後では、その key は返した値で登録されている。 -/
theorem intern_extends {t t' : Interner κ α ν} {r : Request ε κ α ν} {v : ν}
    (h : t.intern r = .ok (t', v)) : Extends t t' ∧ t'.map.lookup r.key = some v := by
  unfold intern at h
  split at h
  · next hv =>
    cases h
    exact ⟨.refl _, hv⟩
  · next hnone =>
    split at h
    · cases h
    · cases h
      refine ⟨⟨List.prefix_append _ _, List.prefix_append _ _⟩, ?_⟩
      rw [List.lookup_append, hnone, Option.none_or]
      exact List.lookup_cons_self

theorem mem_keys_of_lookup {t : Interner κ α ν} {k : κ} {v : ν}
    (h : t.map.lookup k = some v) : k ∈ t.keys := by
  obtain ⟨l, rest, hmap, -⟩ := List.lookup_eq_some_iff.mp h
  rw [keys, hmap, List.map_append, List.map_cons]
  exact List.mem_append_right _ List.mem_cons_self

theorem notMem_keys_of_lookup {t : Interner κ α ν} {k : κ}
    (h : t.map.lookup k = none) : k ∉ t.keys := by
  intro hk
  obtain ⟨p, hp, rfl⟩ := List.mem_map.mp hk
  have hne := List.lookup_eq_none_iff.mp h p hp
  simp at hne

/-- 登録された値の番号 `f v` は、積んだ item の数より小さい。 -/
def Bounded (f : ν → Nat) (t : Interner κ α ν) : Prop :=
  ∀ (k : κ) (v : ν), t.map.lookup k = some v → f v < t.items.length

theorem intern_bounded {f : ν → Nat} {t t' : Interner κ α ν} {r : Request ε κ α ν} {v : ν}
    (hb : t.Bounded f) (hmake : ∀ n, f (r.make n) ≤ n) (h : t.intern r = .ok (t', v)) :
    t'.Bounded f := by
  unfold intern at h
  split at h
  · cases h
    exact hb
  · split at h
    · cases h
    next a _ =>
    cases h
    intro k v hk
    have hlt : t.items.length < (t.items ++ [a]).length := by
      rw [List.length_append, List.length_singleton]
      exact Nat.lt_succ_self _
    rw [List.lookup_append] at hk
    rcases Option.or_eq_some_iff.mp hk with hold | ⟨-, hnew⟩
    · exact Nat.lt_trans (hb k v hold) hlt
    · rw [List.lookup_cons, List.lookup_nil] at hnew
      split at hnew
      · rw [← Option.some.inj hnew]
        exact Nat.lt_of_le_of_lt (hmake _) hlt
      · cases hnew

/--
要求の列 `seen` を受け終えた表。key は初めて現れた順に並び、登録された値はどれも、その key の要求の
どれかが積んだ item を指す。
-/
structure Holds (seen : List (Request ε κ α ν)) (t : Interner κ α ν) : Prop where
  keys : t.keys = (seen.map Request.key).eraseDups
  nodup : t.keys.Nodup
  length : t.items.length = t.keys.length
  value : ∀ {k : κ} {v : ν}, t.map.lookup k = some v → ∃ r ∈ seen, r.key = k ∧
    ∃ n a, t.keys[n]? = some k ∧ r.item = .ok a ∧ t.items[n]? = some a ∧ v = r.make n

theorem holds_empty : Holds (ε := ε) [] (empty : Interner κ α ν) :=
  ⟨rfl, List.nodup_nil, rfl, fun h => by cases h⟩

/-- 初めての要素を末尾に足したときだけ、初出の列は伸びる。 -/
theorem eraseDups_concat (l : List κ) (k : κ) :
    (l ++ [k]).eraseDups = if k ∈ l then l.eraseDups else l.eraseDups ++ [k] := by
  rw [List.eraseDups_append]
  split
  · next h => simp [List.removeAll, h]
  · next h => simp [List.removeAll, h, List.eraseDups_cons]

/-- 要求を一つ受けても、表は要求の列を反映している。 -/
theorem intern_holds {t t' : Interner κ α ν} {seen : List (Request ε κ α ν)}
    {r : Request ε κ α ν} {v : ν} (hs : Holds seen t) (h : t.intern r = .ok (t', v)) :
    Holds (seen ++ [r]) t' := by
  have hext := (intern_extends h).1
  unfold intern at h
  split at h
  · next hv =>
    cases h
    have hmem : r.key ∈ seen.map Request.key := by
      rw [← List.mem_eraseDups, ← hs.keys]
      exact mem_keys_of_lookup hv
    refine ⟨?_, hs.nodup, hs.length, fun hk => ?_⟩
    · rw [List.map_append, List.map_singleton, eraseDups_concat, if_pos hmem, hs.keys]
    · obtain ⟨r', hr', hvalue⟩ := hs.value hk
      exact ⟨r', List.mem_append_left _ hr', hvalue⟩
  · next hnone =>
    split at h
    · cases h
    next a hitem =>
    cases h
    -- 初めての key なので、順位は今の表の長さである
    have hnew := notMem_keys_of_lookup hnone
    have hmem : r.key ∉ seen.map Request.key := by
      rw [← List.mem_eraseDups, ← hs.keys]
      exact hnew
    have hkeys : keys (⟨t.items ++ [a], t.map ++ [(r.key, r.make t.items.length)]⟩
        : Interner κ α ν) = t.keys ++ [r.key] := by simp [keys]
    refine ⟨?_, ?_, ?_, fun {k v} hk => ?_⟩
    · rw [hkeys, List.map_append, List.map_singleton, eraseDups_concat, if_neg hmem, hs.keys]
    · rw [hkeys, List.nodup_append]
      refine ⟨hs.nodup, List.pairwise_singleton _ _, fun a ha b hb hab => ?_⟩
      rw [hab, List.mem_singleton.mp hb] at ha
      exact hnew ha
    · rw [hkeys, List.length_append, List.length_append, hs.length]
      rfl
    · rw [List.lookup_append] at hk
      cases hold : t.map.lookup k with
      | some w =>
        rw [hold, Option.some_or, Option.some.injEq] at hk
        obtain ⟨r', hr', hkey, n, b, hn, hb, hi, hw⟩ := hs.value hold
        exact ⟨r', List.mem_append_left _ hr', hkey, n, b, hext.keys_getElem? hn, hb,
          hext.getElem? hi, by rw [← hk, hw]⟩
      | none =>
        rw [hold, Option.none_or, List.lookup_cons, List.lookup_nil] at hk
        split at hk
        · next hbeq =>
          rw [Option.some.injEq] at hk
          refine ⟨r, List.mem_append_right _ List.mem_cons_self, (eq_of_beq hbeq).symm,
            t.items.length, a, ?_, hitem, List.getElem?_concat_length, hk.symm⟩
          rw [hkeys, hs.length, eq_of_beq hbeq]
          exact List.getElem?_concat_length
        · cases hk

/-- 登録された値は、key の初出の順位から作られている。 -/
theorem Holds.value_idxOf {t : Interner κ α ν} {seen : List (Request ε κ α ν)}
    (hs : Holds seen t) {k : κ} {v : ν} (h : t.map.lookup k = some v) :
    ∃ r ∈ seen, r.key = k ∧ v = r.make (((seen.map Request.key).eraseDups).idxOf k) := by
  obtain ⟨r, hr, hkey, n, -, hn, -, -, hv⟩ := hs.value h
  obtain ⟨hlt, hget⟩ := List.getElem?_eq_some_iff.mp hn
  refine ⟨r, hr, hkey, ?_⟩
  rw [hv, ← hs.keys, ← hget, hs.nodup.idxOf_getElem n hlt]

end Interner

end AetherVM.Infra
