import Mathlib.Data.List.TakeWhile
import AetherVM.Opcode.Engine

/-!
# handler の集合の key

handler の集合は opcode の狭義の昇順に並び、`prefetch` が decode した opcode をちょうど持つ。
したがって `std::lower_bound` で探せば、decode した opcode は必ず見つかる。
-/

namespace AetherVM

open Infra

theorem length_opcodeKey (bytes : Bytes) :
    (opcodeKey bytes).length = (OpcodeWidth.ofLength bytes.length).size := by
  simp only [opcodeKey, List.length_append, List.length_take, length_zeros]
  omega

/-- key の長さは集合を決める。 -/
theorem OpcodeWidth.size_inj {w w' : OpcodeWidth} (h : w.size = w'.size) : w = w' := by
  cases w <;> cases w' <;> first | rfl | exact absurd h (by decide)

namespace HandlerSet

/-- 幅 `w` の集合の並び。 -/
structure Sorted (w : OpcodeWidth) (s : HandlerSet) : Prop where
  length : ∀ x ∈ s, x.handler.opcode.length = w.size
  pairwise : s.Pairwise fun a b => ofLE a.handler.opcode < ofLE b.handler.opcode

/-- 無い opcode を加えても、並びは保たれる。 -/
theorem Sorted.insert {w : OpcodeWidth} {s : HandlerSet} (hs : s.Sorted w) {x : HandlerEntry}
    (hx : x.handler.opcode.length = w.size) (hnone : s.find x.handler.opcode = none) :
    (s.insert x).Sorted w := by
  refine ⟨fun y hy => ?_, ?_⟩
  · rcases mem_insert.mp hy with rfl | hy
    · exact hx
    · exact hs.length y hy
  -- 加える場所より後ろの opcode は、等しくないので大きい
  have hne : ∀ y ∈ s, ofLE y.handler.opcode ≠ ofLE x.handler.opcode := by
    intro y hy heq
    have hop := ofLE_inj ((hs.length y hy).trans hx.symm) heq
    have hfalse := List.find?_eq_none.mp hnone y hy
    exact hfalse (decide_eq_true hop)
  have hfront : ∀ y ∈ s.takeWhile fun z => ofLE z.handler.opcode < ofLE x.handler.opcode,
      ofLE y.handler.opcode < ofLE x.handler.opcode := by
    intro y hy
    have hp := List.mem_takeWhile_imp hy
    exact of_decide_eq_true hp
  have hsplit := hs.pairwise
  rw [← List.takeWhile_append_dropWhile
    (p := fun z => decide (ofLE z.handler.opcode < ofLE x.handler.opcode)) (l := s),
    List.pairwise_append] at hsplit
  obtain ⟨hf, hb, hcross⟩ := hsplit
  have hback : ∀ y ∈ s.dropWhile fun z => ofLE z.handler.opcode < ofLE x.handler.opcode,
      ofLE x.handler.opcode < ofLE y.handler.opcode := by
    have hmem : ∀ y ∈ s.dropWhile fun z => ofLE z.handler.opcode < ofLE x.handler.opcode, y ∈ s :=
      fun y hy => (List.dropWhile_sublist _).subset hy
    have hhead := List.head?_dropWhile_not
      (fun z => decide (ofLE z.handler.opcode < ofLE x.handler.opcode)) s
    cases hd : s.dropWhile fun z => ofLE z.handler.opcode < ofLE x.handler.opcode with
    | nil => exact fun y hy => absurd hy List.not_mem_nil
    | cons z rest =>
      rw [hd] at hb hhead hmem
      have hz : ¬ ofLE z.handler.opcode < ofLE x.handler.opcode := of_decide_eq_false hhead
      have hxz := hne z (hmem z List.mem_cons_self)
      intro y hy
      rcases List.mem_cons.mp hy with rfl | hy
      · omega
      · have hzy := (List.pairwise_cons.mp hb).1 y hy
        omega
  rw [HandlerSet.insert, List.pairwise_append, List.pairwise_cons]
  refine ⟨hf, ⟨hback, hb⟩, fun a ha b hb' => ?_⟩
  rcases List.mem_cons.mp hb' with rfl | hb'
  · exact hfront a ha
  · exact hcross a ha b hb'

end HandlerSet

/-- 列 `keys` の opcode をちょうど持つ engine。 -/
structure OpcodeEngine.Keyed (keys : List Bytes) (engine : OpcodeEngine) : Prop where
  sorted : ∀ w, (engine w).Sorted w
  mem_iff : ∀ (w : OpcodeWidth) (k : Bytes), k.length = w.size →
    ((∃ x ∈ engine w, x.handler.opcode = k) ↔ k ∈ keys)

theorem OpcodeEngine.keyed_empty : OpcodeEngine.Keyed [] fun _ => [] where
  sorted := fun _ => ⟨fun _ hx => absurd hx List.not_mem_nil, List.Pairwise.nil⟩
  mem_iff := fun _ _ _ => by simp

/-- engine にすでにある opcode を列に足しても、持つ opcode は変わらない。 -/
theorem OpcodeEngine.Keyed.of_mem {keys : List Bytes} {engine : OpcodeEngine}
    (h : engine.Keyed keys) {k : Bytes} (hk : k ∈ keys) : engine.Keyed (keys ++ [k]) where
  sorted := h.sorted
  mem_iff := fun w k' hk' => by
    rw [h.mem_iff w k' hk', List.mem_append, List.mem_singleton]
    exact ⟨.inl, fun hor => hor.elim id fun heq => heq ▸ hk⟩

/-- 無い opcode の handler を加える。 -/
theorem OpcodeEngine.Keyed.insert {keys : List Bytes} {engine : OpcodeEngine}
    (h : engine.Keyed keys) {w : OpcodeWidth} {x : HandlerEntry}
    (hx : x.handler.opcode.length = w.size) (hnone : (engine w).find x.handler.opcode = none) :
    OpcodeEngine.Keyed (keys ++ [x.handler.opcode])
      (Function.update engine w ((engine w).insert x)) where
  sorted := fun w' => by
    by_cases hw : w' = w
    · subst hw
      rw [Function.update_self]
      exact (h.sorted w').insert hx hnone
    · rw [Function.update_of_ne hw]
      exact h.sorted w'
  mem_iff := fun w' k hk => by
    rw [List.mem_append, List.mem_singleton, ← h.mem_iff w' k hk]
    constructor
    · rintro ⟨y, hy, rfl⟩
      rcases mem_update_insert hy with rfl | hy
      · exact .inr rfl
      · exact .inl ⟨y, hy, rfl⟩
    · rintro (⟨y, hy, rfl⟩ | rfl)
      · exact ⟨y, mem_update_insert_of (.inr hy), rfl⟩
      · have hw : w' = w := OpcodeWidth.size_inj (hk.symm.trans hx)
        exact ⟨x, mem_update_insert_of (.inl ⟨hw, rfl⟩), rfl⟩

namespace Toolchain

variable {μ : Type} {tc : Toolchain μ} {arch : ArchType}

/-- `init` は handler の opcode を変えない。 -/
theorem Inits.opcode_eq {opcode : Bytes} {decoded : Decoded} {g g' : Globals μ} {x : HandlerEntry}
    (h : tc.Inits arch opcode decoded g g' x) : x.handler.opcode = opcode := by
  cases h with
  | remill hfound hargs => rfl
  | mcInst hfound harch hsp hinfo => rfl
  | abort hfound hsp => rfl
  | code hfound hsp hpage => rfl

/-- 命令を一つ読むと、その opcode が加わる。 -/
theorem prefetchOne_keyed {decoded : Decoded} {bytes : Bytes} {s s' : Globals μ × OpcodeEngine}
    (h : tc.prefetchOne arch decoded bytes s = .ok s') {keys : List Bytes} (hs : s.2.Keyed keys) :
    s'.2.Keyed (keys ++ [opcodeKey bytes]) := by
  simp only [prefetchOne] at h
  split at h
  · next y hfind =>
    cases h
    have hop : y.handler.opcode = opcodeKey bytes := by
      have hp := List.find?_some hfind
      exact of_decide_eq_true hp
    refine hs.of_mem ?_
    rw [← hs.mem_iff _ _ (length_opcodeKey bytes)]
    exact ⟨y, List.mem_of_find?_eq_some hfind, hop⟩
  · next hnone =>
    obtain ⟨⟨g, x⟩, hinit, h⟩ := ok_of_bind_eq_ok h
    cases h
    have hop := (init_inits hinit).opcode_eq
    rw [← hop]
    refine hs.insert ?_ ?_
    · rw [hop, length_opcodeKey]
    · rw [hop]
      exact hnone

theorem prefetchAll_keyed : ∀ {vs : List (Decoded × Bytes)} {s s' : Globals μ × OpcodeEngine}
    {keys : List Bytes}, tc.prefetchAll arch vs s = .ok s' → s.2.Keyed keys →
    s'.2.Keyed (keys ++ vs.map fun v => opcodeKey v.2)
  | [], s, s', keys, h, hs => by
    cases h
    rw [List.map_nil, List.append_nil]
    exact hs
  | v :: vs, s, s', keys, h, hs => by
    obtain ⟨s₁, h1, h⟩ := ok_of_bind_eq_ok h
    have hs' := prefetchAll_keyed h (prefetchOne_keyed h1 hs)
    rw [List.append_assoc] at hs'
    exact hs'

end Toolchain

end AetherVM
