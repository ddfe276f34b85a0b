import AetherVM.Infra.Run
import AetherVM.Orchestrator.Find
import AetherVM.Orchestrator.Segment

/-!
# slot の検索は正しいか

block の先頭の検索は正しい。block の途中では、`walkBlock` は長さを足してから比べるので、
address に着いたときの slot は、そこで終わる命令、すなわち一つ前の命令の slot である。
さらに一つ戻ることもあるので、返る slot はいつも求める slot より前になる。
-/

namespace AetherVM.Orchestrator

open Infra

variable {cfg : EventConfig} {arch : ArchType} {lifted : Bytes → Option UInt64}

/-! ## slot の列の中の検索 -/

/-- 長さを足して `target` に着く最初の slot の番号。 -/
def hit (target : Nat) : List Instruction → Nat → Option Nat
  | [], _ => none
  | x :: rest, addr =>
    if addAddr addr x.oplen = target then some 0
    else (hit target rest (addAddr addr x.oplen)).map (· + 1)

theorem addAddr_of_lt {a b : Nat} (h : a + b < 2 ^ 64) : addAddr a b = a + b :=
  Nat.mod_eq_of_lt h

/-- 長さの無い slot だけでは進まない。 -/
theorem hit_zero_append {target addr : Nat} (hne : addr ≠ target) (hlt : addr < 2 ^ 64) :
    ∀ (xs ys : List Instruction), (∀ x ∈ xs, x.oplen = 0) →
      hit target (xs ++ ys) addr = (hit target ys addr).map (xs.length + ·)
  | [], ys, _ => by simp
  | x :: xs, ys, hz => by
    have hx : addAddr addr x.oplen = addr := by
      rw [hz x (List.mem_cons_self ..), addAddr_of_lt (by omega), Nat.add_zero]
    rw [List.cons_append, hit, hx, if_neg hne,
      hit_zero_append hne hlt xs ys fun y hy => hz y (List.mem_cons_of_mem _ hy), Option.map_map]
    congr 1
    funext j
    show xs.length + j + 1 = (x :: xs).length + j
    rw [List.length_cons]
    omega

theorem hit_zero {target addr : Nat} (hne : addr ≠ target) (hlt : addr < 2 ^ 64)
    (xs : List Instruction) (hz : ∀ x ∈ xs, x.oplen = 0) : hit target xs addr = none := by
  have h := hit_zero_append hne hlt xs [] hz
  rw [List.append_nil] at h
  rw [h]
  rfl

theorem beforeSlots_oplen (cfg : EventConfig) : ∀ x ∈ beforeSlots cfg, x.oplen = 0 := by
  intro x hx
  rcases List.mem_append.mp hx with hx | hx
  · exact setupEvent_oplen cfg _ x hx
  · split at hx
    · rw [List.mem_singleton.mp hx]
      rfl
    · simp at hx

theorem afterSlots_oplen (cfg : EventConfig) (arch : ArchType) (i : Insn) :
    ∀ x ∈ afterSlots cfg arch i, x.oplen = 0 := by
  intro x hx
  have hev : ∀ f, x ∈ [Instruction.ofEvent f] → x.oplen = 0 := by
    intro f hf
    rw [List.mem_singleton.mp hf]
    rfl
  have hset := setupEvent_oplen cfg
  rcases List.mem_append.mp hx with hx | hx
  · split at hx
    · split at hx
      · exact hev _ hx
      · simp at hx
    · split at hx
      · exact hev _ hx
      · simp at hx
    · exact hset _ x hx
  · split at hx
    · exact hev _ hx
    · exact hev _ hx
    · exact hev _ hx
    · rcases List.mem_append.mp hx with hx | hx
      · exact hset _ x hx
      · exact hev _ hx
    · simp at hx

theorem realSlot_oplen {i : Insn} (h : i.oplen ≤ 15) : (realSlot lifted i).oplen = i.oplen := by
  unfold realSlot
  split
  · exact Nat.mod_eq_of_lt (by omega)
  · exact Nat.mod_eq_of_lt (by omega)

/-- 命令一つの slot の中では、命令の終わりに着く slot は命令の実装である。 -/
theorem hit_insnSlots {target addr : Nat} {i : Insn} (hne : addr ≠ target) (h2 : i.oplen ≤ 15)
    (hlt : addr + i.oplen < 2 ^ 64) (ys : List Instruction) :
    hit target (insnSlots cfg arch lifted i ++ ys) addr
      = if addr + i.oplen = target then some (beforeSlots cfg).length
        else (hit target ys (addr + i.oplen)).map ((insnSlots cfg arch lifted i).length + ·) := by
  rw [insnSlots, List.append_assoc, hit_zero_append hne (by omega) _ _ (beforeSlots_oplen cfg),
    List.cons_append, hit, realSlot_oplen h2, addAddr_of_lt hlt]
  by_cases he : addr + i.oplen = target
  · rw [if_pos he, if_pos he]
    rfl
  · rw [if_neg he, if_neg he, hit_zero_append he hlt _ _ (afterSlots_oplen cfg arch i),
      Option.map_map, Option.map_map]
    congr 1
    funext j
    simp only [Function.comp, List.length_append, List.length_cons]
    omega

theorem Located.le_of_mem : ∀ {start : Nat} {xs : List (Nat × Insn)}, Located start xs →
    ∀ p ∈ xs, start ≤ p.1 ∧ p.1 + p.2.oplen ≤ start + (xs.map fun p => p.2.oplen).sum ∧
      1 ≤ p.2.oplen
  | start, (a, i) :: xs, h, p, hp => by
    obtain ⟨rfl, h1, -, h⟩ := h
    rw [List.map_cons, List.sum_cons]
    rcases List.mem_cons.mp hp with rfl | hp
    · exact ⟨Nat.le_refl _, by simp only; omega, h1⟩
    · obtain ⟨h3, h4, h5⟩ := h.le_of_mem p hp
      exact ⟨by omega, by simp only; omega, h5⟩

/--
命令の列の中の検索。着くのはそこで終わる命令の実装で、`target` から始まる命令の slot より前にある。
-/
theorem hit_located (cfg : EventConfig) (arch : ArchType) (lifted : Bytes → Option UInt64)
    (target : Nat) {post : List Instruction} (hpost : ∀ x ∈ post, x.oplen = 0) :
    ∀ (xs : List (Nat × Insn)) (start : Nat), Located start xs → start ≠ target →
      start + (xs.map fun p => p.2.oplen).sum < 2 ^ 64 →
      (hit target (xs.flatMap (fun p => insnSlots cfg arch lifted p.2) ++ post) start = none ∧
        ∀ p ∈ xs, p.1 + p.2.oplen ≠ target) ∨
      ∃ j, hit target (xs.flatMap (fun p => insnSlots cfg arch lifted p.2) ++ post) start
          = some j ∧ (∃ p ∈ xs, p.1 + p.2.oplen = target) ∧
        j < (xs.flatMap fun p => insnSlots cfg arch lifted p.2).length ∧
        ∀ k i, xs[k]? = some (target, i) →
          j < ((xs.take k).flatMap fun p => insnSlots cfg arch lifted p.2).length
  | [], start, _, hne, hlt => by
    refine Or.inl ⟨?_, fun p hp => absurd hp List.not_mem_nil⟩
    rw [List.flatMap_nil, List.nil_append]
    exact hit_zero hne (by simpa using hlt) post hpost
  | (a, i) :: xs, start, hl, hne, hlt => by
    obtain ⟨rfl, h1, h2, hl⟩ := hl
    rw [List.map_cons, List.sum_cons] at hlt
    simp only at hlt
    have hslots : (beforeSlots cfg).length < (insnSlots cfg arch lifted i).length := by
      rw [insnSlots, List.length_append, List.length_cons]
      omega
    rw [List.flatMap_cons, List.append_assoc, hit_insnSlots hne h2 (by omega)]
    by_cases he : a + i.oplen = target
    · -- ここで終わる。`target` の命令はこの命令より後にある
      rw [if_pos he]
      refine Or.inr ⟨_, rfl, ⟨(a, i), List.mem_cons_self .., he⟩, ?_, fun k i' hk => ?_⟩
      · simp only [List.length_append]
        omega
      · cases k with
        | zero =>
          rw [List.getElem?_cons_zero, Option.some.injEq, Prod.mk.injEq] at hk
          exact absurd hk.1 hne
        | succ k =>
          simp only [List.take_succ_cons, List.flatMap_cons, List.length_append]
          omega
    · rw [if_neg he]
      rcases hit_located cfg arch lifted target hpost xs (a + i.oplen) hl he (by omega)
        with ⟨hn, hall⟩ | ⟨j, hj, ⟨p, hp, hpe⟩, hlen, hbefore⟩
      · refine Or.inl ⟨by rw [hn]; rfl, fun p hp => ?_⟩
        rcases List.mem_cons.mp hp with rfl | hp
        · exact he
        · exact hall p hp
      · refine Or.inr ⟨(insnSlots cfg arch lifted i).length + j, by rw [hj]; rfl,
          ⟨p, List.mem_cons_of_mem _ hp, hpe⟩, ?_, fun k i' hk => ?_⟩
        · simp only [List.length_append]
          omega
        · cases k with
          | zero =>
            rw [List.getElem?_cons_zero, Option.some.injEq, Prod.mk.injEq] at hk
            exact absurd hk.1 hne
          | succ k =>
            rw [List.getElem?_cons_succ] at hk
            have := hbefore k i' hk
            simp only [List.take_succ_cons, List.flatMap_cons, List.length_append]
            omega

/-! ## 並べ直した slot -/

theorem convertFrom_getElem? : ∀ (hs : List (List Instruction)) (rt b : Nat) (h : List Instruction),
    hs[b]? = some h →
    (convertFrom rt hs)[b]?
      = some ((List.range h.length).map (rt + (hs.take b).flatten.length + ·))
  | h' :: hs, rt, 0, h, hb => by
    rw [List.getElem?_cons_zero, Option.some.injEq] at hb
    subst hb
    simp [convertFrom]
  | h' :: hs, rt, b + 1, h, hb => by
    rw [List.getElem?_cons_succ] at hb
    rw [convertFrom, List.getElem?_cons_succ, convertFrom_getElem? hs _ b h hb,
      List.take_succ_cons, List.flatten_cons, List.length_append]
    congr 2
    funext i
    omega

/-- 並べ直した slot の番号を順に辿るのは、slot の列を順に見るのと同じである。 -/
theorem walkBlock_eq (rth : List Instruction) (first target : Nat) :
    ∀ (sl : List Instruction) (P addr : Nat), (∀ i, i < sl.length → rth[P + i]? = sl[i]?) →
      (hit target sl addr = none →
        walkBlock rth first target ((List.range sl.length).map (P + ·)) addr = none) ∧
      ∀ j, hit target sl addr = some j →
        ∃ r, walkBlock rth first target ((List.range sl.length).map (P + ·)) addr = some r ∧
          (r = (P + j : Nat) ∨ r = ((P + j : Nat) : Int) - 1)
  | [], P, addr, _ => ⟨fun _ => rfl, fun j hj => by simp [hit] at hj⟩
  | x :: sl, P, addr, hget => by
    have h0 : rth[P]? = some x := by simpa using hget 0 (by simp)
    have hrange : (List.range (x :: sl).length).map (P + ·)
        = P :: (List.range sl.length).map (P + 1 + ·) := by
      rw [List.length_cons, List.range_succ_eq_map, List.map_cons, List.map_map]
      congr 2
      funext i
      show P + (i + 1) = P + 1 + i
      omega
    have hrest : ∀ i, i < sl.length → rth[P + 1 + i]? = sl[i]? := by
      intro i hi
      have := hget (i + 1) (by rw [List.length_cons]; omega)
      rw [List.getElem?_cons_succ] at this
      rw [← this]
      congr 1
      omega
    rw [hrange, walkBlock, h0, hit]
    simp only [Option.map_some, Option.getD_some]
    -- この slot で着くか、残りで着くか
    by_cases he : addAddr addr x.oplen = target
    · rw [if_pos he, if_pos he]
      refine ⟨fun h => (Option.some_ne_none _ h).elim, fun j hj => ?_⟩
      rw [Option.some.injEq] at hj
      subst hj
      split
      · exact ⟨_, rfl, Or.inl rfl⟩
      · exact ⟨_, rfl, Or.inr rfl⟩
    · rw [if_neg he, if_neg he]
      obtain ⟨hnone, hsome⟩ := walkBlock_eq rth first target sl (P + 1) _ hrest
      refine ⟨fun h => hnone (Option.map_eq_none_iff.mp h), fun j hj => ?_⟩
      obtain ⟨j', hj', rfl⟩ := Option.map_eq_some_iff.mp hj
      obtain ⟨r, hr, hcase⟩ := hsome j' hj'
      have hidx : P + 1 + j' = P + (j' + 1) := by omega
      rw [hidx] at hcase
      exact ⟨r, hr, hcase⟩

section Blocks

variable (cfg arch lifted)

/-- segment `b` の最初の slot の番号。 -/
def blockStart (segs : List Segment) (b : Nat) : Nat :=
  ((segs.take b).flatMap (Segment.slots cfg arch lifted)).length

/-- segment `b` の `k` 番目の命令の実行が始まる slot。最初の命令は block の前の event から始まる。 -/
def entrySlot (segs : List Segment) (b : Nat) (s : Segment) (k : Nat) : Nat :=
  blockStart cfg arch lifted segs b + if k = 0 then 0 else
    s.pre.length + ((s.insns.take k).flatMap fun p => insnSlots cfg arch lifted p.2).length

/-- segment の列を並べ直したもの。 -/
def blocksOf (segs : List Segment) (maxaddr : Nat) : BasicBlocks :=
  convert maxaddr (segs.map (Segment.block cfg arch lifted))

variable {cfg arch lifted} {segs : List Segment} {maxaddr b a : Nat} {s : Segment}

theorem blocksOf_vmaddrs : (blocksOf cfg arch lifted segs maxaddr).vmaddrs
    = segs.map Segment.start := by
  simp [blocksOf, convert, Segment.block, Function.comp_def]

theorem map_handlers : (segs.map (Segment.block cfg arch lifted)).map Block.handlers
    = segs.map (Segment.slots cfg arch lifted) := by
  rw [List.map_map]
  rfl

theorem blocksOf_bbhandlers (hb : segs[b]? = some s) :
    (blocksOf cfg arch lifted segs maxaddr).bbhandlers[b]?
      = some ((List.range (s.slots cfg arch lifted).length).map
          (blockStart cfg arch lifted segs b + ·)) := by
  have hget : (segs.map (Segment.slots cfg arch lifted))[b]? = some (s.slots cfg arch lifted) := by
    rw [List.getElem?_map, hb]
    rfl
  show (convertFrom 0 _)[b]? = _
  rw [map_handlers, convertFrom_getElem? _ _ _ _ hget, Nat.zero_add, ← List.map_take,
    ← List.flatMap_def]
  rfl

/-- 列の一つの要素で、平らにした列を三つに分ける。 -/
theorem flatMap_eq_of_getElem? {α β : Type} {xs : List α} {k : Nat} {x : α} (h : xs[k]? = some x)
    (f : α → List β) :
    xs.flatMap f = (xs.take k).flatMap f ++ (f x ++ (xs.drop (k + 1)).flatMap f) := by
  obtain ⟨hlt, rfl⟩ := List.getElem?_eq_some_iff.mp h
  have hsplit : xs = xs.take k ++ xs[k] :: xs.drop (k + 1) := by
    rw [List.getElem_cons_drop, List.take_append_drop]
  conv_lhs => rw [hsplit]
  rw [List.flatMap_append, List.flatMap_cons]

theorem blocksOf_rthandlers_eq (hb : segs[b]? = some s) :
    (blocksOf cfg arch lifted segs maxaddr).rthandlers
      = (segs.take b).flatMap (Segment.slots cfg arch lifted)
        ++ (s.slots cfg arch lifted
          ++ (segs.drop (b + 1)).flatMap (Segment.slots cfg arch lifted)) := by
  show ((segs.map (Segment.block cfg arch lifted)).map Block.handlers).flatten = _
  rw [map_handlers, ← List.flatMap_def]
  exact flatMap_eq_of_getElem? hb _

theorem blocksOf_rthandlers (hb : segs[b]? = some s) {i : Nat}
    (hi : i < (s.slots cfg arch lifted).length) :
    (blocksOf cfg arch lifted segs maxaddr).rthandlers[blockStart cfg arch lifted segs b + i]?
      = (s.slots cfg arch lifted)[i]? := by
  rw [blocksOf_rthandlers_eq hb, blockStart, List.getElem?_append_right (Nat.le_add_right _ _),
    Nat.add_sub_cancel_left, List.getElem?_append_left hi]

theorem blockStart_add_le (hb : segs[b]? = some s) :
    blockStart cfg arch lifted segs b + (s.slots cfg arch lifted).length
      ≤ (blocksOf cfg arch lifted segs maxaddr).rthandlers.length := by
  rw [blocksOf_rthandlers_eq hb, List.length_append, List.length_append, blockStart]
  omega

/-! ## `findBlocks` -/

theorem vmaddrLt_iff {i : Nat} {t : Segment} (hi : segs[i]? = some t) :
    vmaddrLt (blocksOf cfg arch lifted segs maxaddr) a i = true ↔ t.start < a := by
  simp only [vmaddrLt, blocksOf_vmaddrs, List.getElem?_map, hi, Option.map_some, decide_eq_true_eq]

theorem findBlocks_outside (hne : segs ≠ [])
    (hout : ¬ (∃ t, segs[0]? = some t ∧ t.start ≤ a ∧ a < maxaddr)) :
    findBlocks (blocksOf cfg arch lifted segs maxaddr) a = .null := by
  obtain ⟨t, ts, rfl⟩ := List.exists_cons_of_ne_nil hne
  have hc : a < (blocksOf cfg arch lifted (t :: ts) maxaddr).vmaddrs.headD 0 ∨
      (blocksOf cfg arch lifted (t :: ts) maxaddr).maxaddr ≤ a := by
    rw [blocksOf_vmaddrs]
    show a < t.start ∨ maxaddr ≤ a
    by_contra hc
    exact hout ⟨t, rfl, by omega, by omega⟩
  rw [findBlocks, if_pos hc]

namespace Arranged

variable (h : Arranged segs maxaddr)

include h

theorem before {i j : Nat} {s t : Segment} (hij : i < j) (hi : segs[i]? = some s)
    (hj : segs[j]? = some t) : Before s t := by
  obtain ⟨hi', rfl⟩ := List.getElem?_eq_some_iff.mp hi
  obtain ⟨hj', rfl⟩ := List.getElem?_eq_some_iff.mp hj
  exact List.pairwise_iff_getElem.mp h.pairwise i j hi' hj' hij

theorem splitAt_vmaddrLt :
    SplitAt (vmaddrLt (blocksOf cfg arch lifted segs maxaddr) a) segs.length := by
  intro i j hij hj hlt
  have hi' : segs[i]? = some segs[i] := List.getElem?_eq_getElem (by omega)
  have hj' : segs[j]? = some segs[j] := List.getElem?_eq_getElem hj
  rw [vmaddrLt_iff hi']
  rw [vmaddrLt_iff hj'] at hlt
  rcases Nat.lt_or_eq_of_le hij with hlt' | rfl
  · have := (h.before hlt' hi' hj').1
    omega
  · exact hlt

theorem not_outside {t : Segment} (h0 : segs[0]? = some t) (h1 : t.start ≤ a)
    (h2 : a < maxaddr) :
    ¬ (a < (blocksOf cfg arch lifted segs maxaddr).vmaddrs.headD 0 ∨
      (blocksOf cfg arch lifted segs maxaddr).maxaddr ≤ a) := by
  obtain ⟨s, ts, rfl⟩ := List.exists_cons_of_ne_nil h.nonempty
  rw [List.getElem?_cons_zero, Option.some.injEq] at h0
  subst h0
  rw [blocksOf_vmaddrs]
  show ¬ (a < s.start ∨ maxaddr ≤ a)
  omega

/-- block の先頭の検索は、block の最初の slot を返す。 -/
theorem findBlocks_start {t : Segment} (h0 : segs[0]? = some t) (h1 : t.start ≤ a)
    (h2 : a < maxaddr) (hb : segs[b]? = some s) (hs : s.start = a) :
    findBlocks (blocksOf cfg arch lifted segs maxaddr) a
      = if s.slots cfg arch lifted = [] then .undefined
        else .slot (blockStart cfg arch lifted segs b) := by
  obtain ⟨hlt, -⟩ := List.getElem?_eq_some_iff.mp hb
  have hsplit : SplitAt (vmaddrLt (blocksOf cfg arch lifted segs maxaddr) a) segs.length :=
    h.splitAt_vmaddrLt
  -- 先頭の address は昇順なので、二分探索は `a` から始まる block に着く
  have hfound : binarySearch (vmaddrLt (blocksOf cfg arch lifted segs maxaddr) a) segs.length
      = b := by
    refine binarySearch_eq hsplit (by omega) (by omega) (fun i hi => ?_) (fun _ => ?_)
    · have hi' : segs[i]? = some segs[i] := List.getElem?_eq_getElem (by omega)
      rw [vmaddrLt_iff hi']
      have := (h.before hi hi' hb).1
      omega
    · rw [← Bool.not_eq_true, vmaddrLt_iff hb]
      omega
  have hexact : (blocksOf cfg arch lifted segs maxaddr).vmaddrs[b]? = some a := by
    rw [blocksOf_vmaddrs, List.getElem?_map, hb, Option.map_some, hs]
  have hlen : (blocksOf cfg arch lifted segs maxaddr).vmaddrs.length = segs.length := by
    rw [blocksOf_vmaddrs, List.length_map]
  rw [findBlocks, if_neg (h.not_outside h0 h1 h2)]
  simp only [hlen, hfound, hexact, blocksOf_bbhandlers hb, Option.getD_some, if_true]
  cases hsl : s.slots cfg arch lifted with
  | nil => rfl
  | cons x xs =>
    rw [List.length_cons, List.range_succ_eq_map, List.map_cons, List.head?_cons,
      if_neg (List.cons_ne_nil _ _)]
    rfl

/-- block の途中の検索は、その block の中を辿る。 -/
theorem findBlocks_middle (cfg : EventConfig) (arch : ArchType)
    (lifted : Bytes → Option UInt64) {t : Segment} (h0 : segs[0]? = some t) (h1 : t.start ≤ a)
    (h2 : a < maxaddr) (hno : ∀ s ∈ segs, s.start ≠ a) :
    ∃ b s, segs[b]? = some s ∧ s.start < a ∧
      (∀ i r, b < i → segs[i]? = some r → a < r.start) ∧
      findBlocks (blocksOf cfg arch lifted segs maxaddr) a
        = (walkBlock (blocksOf cfg arch lifted segs maxaddr).rthandlers
            (((List.range (s.slots cfg arch lifted).length).map
              (blockStart cfg arch lifted segs b + ·)).headD 0) a
            ((List.range (s.slots cfg arch lifted).length).map
              (blockStart cfg arch lifted segs b + ·)) s.start).elim .null .slot := by
  have hsplit : SplitAt (vmaddrLt (blocksOf cfg arch lifted segs maxaddr) a) segs.length :=
    h.splitAt_vmaddrLt
  obtain ⟨hpos, -⟩ := List.getElem?_eq_some_iff.mp h0
  set found := binarySearch (vmaddrLt (blocksOf cfg arch lifted segs maxaddr) a) segs.length
    with hfound
  have hle : found ≤ segs.length := binarySearch_le hpos
  have hlt0 : t.start < a := by
    have := hno t (List.mem_of_getElem? h0)
    omega
  have hfpos : 0 < found := by
    by_contra hc
    have := not_lt_of_binarySearch_le hsplit hpos (i := 0) (by omega) hpos
    rw [← Bool.not_eq_true, vmaddrLt_iff h0] at this
    exact this hlt0
  have hb : segs[found - 1]? = some segs[found - 1] := List.getElem?_eq_getElem (by omega)
  have hexact : (blocksOf cfg arch lifted segs maxaddr).vmaddrs[found]? ≠ some a := by
    rw [blocksOf_vmaddrs, List.getElem?_map]
    intro hc
    obtain ⟨r, hr, hra⟩ := Option.map_eq_some_iff.mp hc
    exact hno r (List.mem_of_getElem? hr) hra
  have hlen : (blocksOf cfg arch lifted segs maxaddr).vmaddrs.length = segs.length := by
    rw [blocksOf_vmaddrs, List.length_map]
  have hstart : (blocksOf cfg arch lifted segs maxaddr).vmaddrs[found - 1]?
      = some segs[found - 1].start := by
    rw [blocksOf_vmaddrs, List.getElem?_map, hb, Option.map_some]
  -- ちょうどの block が無いので、一つ前の block の中を探す
  refine ⟨found - 1, segs[found - 1], hb, ?_, fun i r hi hr => ?_, ?_⟩
  · have := lt_of_lt_binarySearch hsplit hpos (i := found - 1) (by omega)
    rwa [vmaddrLt_iff hb] at this
  · obtain ⟨hilt, -⟩ := List.getElem?_eq_some_iff.mp hr
    have hge := not_lt_of_binarySearch_le hsplit hpos (i := i) (by omega) hilt
    rw [← Bool.not_eq_true, vmaddrLt_iff hr] at hge
    have := hno r (List.mem_of_getElem? hr)
    omega
  · rw [findBlocks, if_neg (h.not_outside h0 h1 h2)]
    simp only [hlen, ← hfound, if_neg hexact, if_pos (Nat.pos_iff_ne_zero.mp hfpos), hstart,
      blocksOf_bbhandlers hb, Option.getD_some]
    split
    · next hwalk => rw [hwalk, Option.elim_some]
    · next hwalk => rw [hwalk, Option.elim_none]

end Arranged

/-! ## 求める slot -/

/-- `a` から始まる命令が、segment `b` の `k` 番目にあること。 -/
def InsnAt (segs : List Segment) (a b : Nat) (s : Segment) (k : Nat) : Prop :=
  segs[b]? = some s ∧ ∃ i, s.insns[k]? = some (a, i)

/-- `a` が binary の範囲にあること。 -/
def InRange (segs : List Segment) (maxaddr a : Nat) : Prop :=
  ∃ t, segs[0]? = some t ∧ t.start ≤ a ∧ a < maxaddr

/--
検索の答えが正しいこと。命令の address なら、その命令の実行が始まる slot を返す。範囲の中で命令が
始まらない address なら `terminate` を返す。返る slot は、いつも slot の列の中にある。
-/
structure LookupOk (cfg : EventConfig) (arch : ArchType) (lifted : Bytes → Option UInt64)
    (segs : List Segment) (maxaddr a : Nat) (r : Found Slot) : Prop where
  entry : ∀ b s k, InsnAt segs a b s k → r = .slot ⟨0, entrySlot cfg arch lifted segs b s k⟩
  nowhere : InRange segs maxaddr a → (∀ b s k, ¬ InsnAt segs a b s k) → r = .null
  inside : r = .null ∨ ∃ n : Nat, r = .slot ⟨0, n⟩ ∧
    n < (blocksOf cfg arch lifted segs maxaddr).rthandlers.length

/-- 最初の binary の slot として見る。 -/
def Found.inFirst : Found Int → Found Slot
  | .undefined => .undefined
  | .null => .null
  | .slot n => .slot ⟨0, n⟩

/--
検索が正しく答える address。範囲の中では、命令を持つ block の先頭か、block の先頭でも命令の終わりでも
ない所である。
-/
def Searchable (segs : List Segment) (maxaddr a : Nat) : Prop :=
  InRange segs maxaddr a →
    (∃ s ∈ segs, s.start = a ∧ s.insns ≠ []) ∨
      (∀ s ∈ segs, s.start ≠ a) ∧ ∀ s ∈ segs, ∀ p ∈ s.insns, p.1 + p.2.oplen ≠ a

theorem Located.getElem? : ∀ {start : Nat} {xs : List (Nat × Insn)}, Located start xs →
    ∀ {k a : Nat} {i : Insn}, xs[k]? = some (a, i) →
      (k = 0 ∧ a = start) ∨ (0 < k ∧ ∃ p ∈ xs, p.1 + p.2.oplen = a)
  | start, (b, j) :: xs, h, 0, a, i, hk => by
    rw [List.getElem?_cons_zero, Option.some.injEq, Prod.mk.injEq] at hk
    exact Or.inl ⟨rfl, by rw [← hk.1]; exact h.1⟩
  | start, (b, j) :: xs, h, k + 1, a, i, hk => by
    rw [List.getElem?_cons_succ] at hk
    obtain ⟨rfl, -, -, h⟩ := h
    rcases h.getElem? hk with ⟨-, ha⟩ | ⟨-, p, hp, ha⟩
    · exact Or.inr ⟨by omega, (b, j), List.mem_cons_self .., ha.symm⟩
    · exact Or.inr ⟨by omega, p, List.mem_cons_of_mem _ hp, ha⟩

namespace Arranged

variable (h : Arranged segs maxaddr)

include h

/-- 命令の address は、その segment の範囲にある。 -/
theorem insnAt_bounds {k : Nat} (hi : InsnAt segs a b s k) : s.start ≤ a ∧ a < s.stop := by
  obtain ⟨hb, i, hk⟩ := hi
  have hmem := List.mem_of_getElem? hk
  obtain ⟨h1, h2, h3⟩ := (h.ok s (List.mem_of_getElem? hb)).located.le_of_mem _ hmem
  simp only at h1 h2 h3
  rw [Segment.stop]
  exact ⟨h1, by omega⟩

theorem inRange_of_insnAt {k : Nat} (hi : InsnAt segs a b s k) : InRange segs maxaddr a := by
  obtain ⟨h1, h2⟩ := h.insnAt_bounds hi
  obtain ⟨hlt, -⟩ := List.getElem?_eq_some_iff.mp hi.1
  have h0 : segs[0]? = some segs[0] := List.getElem?_eq_getElem (by omega)
  have hstop := h.stop_le s (List.mem_of_getElem? hi.1)
  refine ⟨_, h0, ?_, by omega⟩
  rcases Nat.eq_zero_or_pos b with rfl | hpos
  · have hs := hi.1
    rw [h0, Option.some.injEq] at hs
    rw [hs]
    exact h1
  · have := (h.before hpos h0 hi.1).1
    omega

/-- block の先頭から始まる命令は、その block の最初の命令に限る。 -/
theorem insnAt_start (hb : segs[b]? = some s) (hs : s.start = a) {c k : Nat} {r : Segment}
    (hi : InsnAt segs a c r k) : c = b ∧ r = s ∧ k = 0 := by
  obtain ⟨h1, h2⟩ := h.insnAt_bounds hi
  rcases Nat.lt_trichotomy c b with hlt | rfl | hgt
  · have := (h.before hlt hi.1 hb).2
    omega
  · have hr := hi.1
    rw [hb, Option.some.injEq] at hr
    subst hr
    refine ⟨rfl, rfl, ?_⟩
    obtain ⟨-, i, hk⟩ := hi
    have hloc := (h.ok s (List.mem_of_getElem? hb)).located
    rcases hloc.getElem? hk with ⟨hk, -⟩ | ⟨hpos, -⟩
    · exact hk
    · cases hc : s.insns with
      | nil => rw [hc] at hk; simp at hk
      | cons p ps =>
        obtain ⟨k, rfl⟩ := Nat.exists_eq_succ_of_ne_zero (Nat.pos_iff_ne_zero.mp hpos)
        obtain ⟨q, j⟩ := p
        rw [hc] at hk hloc
        rw [List.getElem?_cons_succ] at hk
        obtain ⟨rfl, hp1, -, hloc⟩ := hloc
        have := (hloc.le_of_mem _ (List.mem_of_getElem? hk)).1
        simp only at this
        omega
  · have := (h.before hgt hb hi.1).1
    omega

/-- block の途中の address に関わる命令は、その block の中にある。 -/
theorem ends_in_block (hb : segs[b]? = some s) (hlt : s.start < a)
    (hafter : ∀ i r, b < i → segs[i]? = some r → a < r.start) {r : Segment} (hr : r ∈ segs)
    {p : Nat × Insn} (hp : p ∈ r.insns) (he : p.1 + p.2.oplen = a) : r = s := by
  obtain ⟨c, hc⟩ := List.mem_iff_getElem?.mp hr
  obtain ⟨h1, h2, h3⟩ := (h.ok r hr).located.le_of_mem p hp
  rcases Nat.lt_trichotomy c b with hcb | rfl | hbc
  · have := (h.before hcb hc hb).2
    rw [Segment.stop] at this
    omega
  · rw [hb, Option.some.injEq] at hc
    exact hc.symm
  · have := hafter c r hbc hc
    omega

theorem index_unique {c : Nat} (hb : segs[b]? = some s) (hc : segs[c]? = some s) : c = b := by
  rcases Nat.lt_trichotomy c b with hlt | heq | hgt
  · have := (h.before hlt hc hb).1
    omega
  · exact heq
  · have := (h.before hgt hb hc).1
    omega

/-- 範囲の外では、いつも正しい。 -/
theorem lookupOk_outside (hout : ¬ InRange segs maxaddr a) :
    LookupOk cfg arch lifted segs maxaddr a
      (findBlocks (blocksOf cfg arch lifted segs maxaddr) a).inFirst := by
  rw [findBlocks_outside h.nonempty hout]
  exact ⟨fun b s k hi => absurd (h.inRange_of_insnAt hi) hout, fun hin => absurd hin hout,
    Or.inl rfl⟩

/-- block の先頭では、block が命令を持つときに限り正しい。 -/
theorem lookupOk_start (hin : InRange segs maxaddr a) (hb : segs[b]? = some s)
    (hs : s.start = a) :
    LookupOk cfg arch lifted segs maxaddr a
      (findBlocks (blocksOf cfg arch lifted segs maxaddr) a).inFirst ↔ s.insns ≠ [] := by
  obtain ⟨t, h0, h1, h2⟩ := hin
  rw [h.findBlocks_start h0 h1 h2 hb hs]
  constructor
  · -- 空の block なら、その address に命令は無いのに、検索は見つけてしまう
    intro hok hnil
    have hnone : ∀ c r k, ¬ InsnAt segs a c r k := by
      intro c r k hi
      obtain ⟨-, rfl, -⟩ := h.insnAt_start hb hs hi
      obtain ⟨-, i, hk⟩ := hi
      rw [hnil] at hk
      simp at hk
    have hnull := hok.nowhere ⟨t, h0, h1, h2⟩ hnone
    split at hnull
    · cases hnull
    · cases hnull
  · intro hne
    have hloc := (h.ok s (List.mem_of_getElem? hb)).located
    have hins : InsnAt segs a b s 0 := by
      refine ⟨hb, ?_⟩
      cases hc : s.insns with
      | nil => exact absurd hc hne
      | cons p ps =>
        rw [hc] at hloc
        exact ⟨p.2, by rw [List.getElem?_cons_zero, ← hs, ← hloc.1]⟩
    have hslots : s.slots cfg arch lifted ≠ [] := by
      cases hc : s.insns with
      | nil => exact absurd hc hne
      | cons p ps => simp [Segment.slots, hc, insnSlots]
    rw [if_neg hslots]
    refine ⟨fun c r k hi => ?_, fun _ hno => absurd hins (hno b s 0), Or.inr ⟨_, rfl, ?_⟩⟩
    · obtain ⟨rfl, rfl, rfl⟩ := h.insnAt_start hb hs hi
      rw [entrySlot, if_pos rfl, Nat.add_zero]
      rfl
    · have hle : blockStart cfg arch lifted segs b + (s.slots cfg arch lifted).length
          ≤ (blocksOf cfg arch lifted segs maxaddr).rthandlers.length := blockStart_add_le hb
      have hpos := List.length_pos_iff.mpr hslots
      omega

/-- block の途中では、そこで終わる命令が無いときに限り正しい。 -/
theorem lookupOk_middle (hin : InRange segs maxaddr a) (hno : ∀ s ∈ segs, s.start ≠ a) :
    LookupOk cfg arch lifted segs maxaddr a
      (findBlocks (blocksOf cfg arch lifted segs maxaddr) a).inFirst ↔
      ∀ s ∈ segs, ∀ p ∈ s.insns, p.1 + p.2.oplen ≠ a := by
  obtain ⟨t, h0, h1, h2⟩ := hin
  obtain ⟨b, s, hb, hlt, hafter, hfind⟩ := h.findBlocks_middle cfg arch lifted h0 h1
    h2 hno
  have hmem := List.mem_of_getElem? hb
  have hok := h.ok s hmem
  have hstop := h.stop_le s hmem
  have hmax := h.maxaddr_lt
  rw [Segment.stop] at hstop
  -- block の前の event では進まない
  have hhit : hit a (s.slots cfg arch lifted) s.start
      = (hit a (s.insns.flatMap (fun p => insnSlots cfg arch lifted p.2) ++ s.post) s.start).map
          (s.pre.length + ·) := by
    rw [Segment.slots, List.append_assoc]
    exact hit_zero_append (by omega) (by omega) _ _ hok.pre
  obtain ⟨hnone, hsome⟩ := walkBlock_eq (blocksOf cfg arch lifted segs maxaddr).rthandlers
    (((List.range (s.slots cfg arch lifted).length).map
      (blockStart cfg arch lifted segs b + ·)).headD 0) a (s.slots cfg arch lifted)
    (blockStart cfg arch lifted segs b) s.start fun i hi => blocksOf_rthandlers hb hi
  rcases hit_located cfg arch lifted a hok.post s.insns s.start hok.located (by omega) (by omega)
    with ⟨hn, hall⟩ | ⟨j, hj, ⟨p, hp, hpe⟩, -, hbefore⟩
  · have hall' : ∀ r ∈ segs, ∀ p ∈ r.insns, p.1 + p.2.oplen ≠ a := by
      intro r hr p hp he
      have hrs := h.ends_in_block hb hlt hafter hr hp he
      rw [hrs] at hp
      exact hall p hp he
    rw [hfind, hnone (by rw [hhit, hn]; rfl), Option.elim_none]
    refine ⟨fun _ => hall', fun _ => ⟨fun c r k hi => ?_, fun _ _ => rfl, Or.inl rfl⟩⟩
    obtain ⟨hc, i, hk⟩ := hi
    have hr := List.mem_of_getElem? hc
    rcases (h.ok r hr).located.getElem? hk with ⟨-, ha⟩ | ⟨-, p, hp, ha⟩
    · exact absurd ha.symm (hno r hr)
    · exact absurd ha (hall' r hr p hp)
  · obtain ⟨r, hr, hcase⟩ := hsome (s.pre.length + j) (by rw [hhit, hj]; rfl)
    rw [hfind, hr, Option.elim_some]
    refine ⟨fun hlook => ?_, fun hall => absurd hpe (hall s hmem p hp)⟩
    exfalso
    by_cases hex : ∃ c q k, InsnAt segs a c q k
    · -- 返る slot は一つ前の命令までにある
      obtain ⟨c, q, k, hi⟩ := hex
      have hentry := hlook.entry c q k hi
      obtain ⟨hc, i, hk⟩ := hi
      have hq := List.mem_of_getElem? hc
      rcases (h.ok q hq).located.getElem? hk with ⟨-, ha⟩ | ⟨hpos, p', hp', ha⟩
      · exact hno q hq ha.symm
      · have hqs := h.ends_in_block hb hlt hafter hq hp' ha
        subst hqs
        have hcb := h.index_unique hb hc
        subst hcb
        have hjlt := hbefore k i hk
        rw [entrySlot, if_neg (Nat.pos_iff_ne_zero.mp hpos)] at hentry
        simp only [Found.inFirst, Found.slot.injEq, Slot.mk.injEq, true_and] at hentry
        rcases hcase with hcase | hcase
        · omega
        · omega
    · have hnull := hlook.nowhere ⟨t, h0, h1, h2⟩ fun c q k hi => hex ⟨c, q, k, hi⟩
      cases hnull

/-- `findBlocks` が正しく答える address。 -/
theorem lookupOk_iff :
    LookupOk cfg arch lifted segs maxaddr a
      (findBlocks (blocksOf cfg arch lifted segs maxaddr) a).inFirst ↔
      Searchable segs maxaddr a := by
  by_cases hin : InRange segs maxaddr a
  · by_cases hex : ∃ s ∈ segs, s.start = a
    · -- block の先頭。同じ address から始まる block は一つしかない
      obtain ⟨s, hs, hstart⟩ := hex
      obtain ⟨b, hb⟩ := List.mem_iff_getElem?.mp hs
      rw [h.lookupOk_start hin hb hstart]
      constructor
      · intro hne _
        exact Or.inl ⟨s, hs, hstart, hne⟩
      · intro hse
        rcases hse hin with ⟨r, hr, hra, hne⟩ | ⟨hno, -⟩
        · obtain ⟨c, hc⟩ := List.mem_iff_getElem?.mp hr
          have hrs : r = s := by
            rcases Nat.lt_trichotomy c b with hlt | rfl | hgt
            · have := (h.before hlt hc hb).1
              omega
            · rw [hb, Option.some.injEq] at hc
              exact hc.symm
            · have := (h.before hgt hb hc).1
              omega
          rw [← hrs]
          exact hne
        · exact absurd hstart (hno s hs)
    · have hno : ∀ s ∈ segs, s.start ≠ a := fun s hs he => hex ⟨s, hs, he⟩
      rw [h.lookupOk_middle hin hno]
      constructor
      · intro hall _
        exact Or.inr ⟨hno, hall⟩
      · intro hse
        rcases hse hin with ⟨r, hr, hra, -⟩ | ⟨-, hall⟩
        · exact absurd hra (hno r hr)
        · exact hall
  · exact ⟨fun _ hc => absurd hc hin, fun _ => h.lookupOk_outside hin⟩

end Arranged

/-- 範囲が空なら検索はいつも `terminate` を返す。正しいのは、命令の無い address だけである。 -/
theorem lookupOk_empty_iff {t : Segment} {ts : List Segment} (hmax : maxaddr ≤ t.start) :
    LookupOk cfg arch lifted (t :: ts) maxaddr a
      (findBlocks (blocksOf cfg arch lifted (t :: ts) maxaddr) a).inFirst ↔
      ∀ b s k, ¬ InsnAt (t :: ts) a b s k := by
  have hout : ¬ InRange (t :: ts) maxaddr a := by
    intro hin
    obtain ⟨u, hu, h1, h2⟩ := hin
    rw [List.getElem?_cons_zero, Option.some.injEq] at hu
    subst hu
    omega
  rw [findBlocks_outside (List.cons_ne_nil t ts) hout]
  constructor
  · intro hok b s k hi
    have hslot := hok.entry b s k hi
    cases hslot
  · intro hno
    exact ⟨fun b s k hi => absurd hi (hno b s k), fun hin => absurd hin hout, Or.inl rfl⟩

end Blocks

/--
`encode` した binary で検索が正しく答える address。実行時の範囲が折り返さなければ `Searchable` な address、
折り返せば命令の無い address である。
-/
def Binary.Findable (bin : Binary) (cfg : EventConfig) (addend a : Nat) : Prop :=
  bin.NoWrap addend ∧
      Searchable (bin.segments cfg addend) (addAddr (lastEnd bin.functions) addend) a ∨
    ¬ bin.NoWrap addend ∧ ∀ b s k, ¬ InsnAt (bin.segments cfg addend) a b s k

/-! ## cache -/

/-- cache の中身は、いつも検索の答えである。 -/
structure CacheOk (bb : BasicBlocks) (c : Cache) : Prop where
  current : c.current = none ∨ c.current = some 0
  l1 : ∀ i v s, c.L1 i = (v, some s) → ∃ n, s = ⟨0, n⟩ ∧ findBlocks bb v = .slot n

theorem CacheOk.store {bb : BasicBlocks} {c : Cache} {v : Nat} {n : Int} (h : CacheOk bb c)
    (hn : findBlocks bb v = .slot n) : CacheOk bb (c.store v ⟨0, n⟩) := by
  refine ⟨h.current, fun i w s hi => ?_⟩
  simp only [Cache.store] at hi
  split at hi
  · rw [Prod.mk.injEq, Option.some.injEq] at hi
    obtain ⟨rfl, rfl⟩ := hi
    exact ⟨n, rfl, hn⟩
  · exact h.l1 i w s hi

theorem findAll_single {bb : BasicBlocks} {c : Cache} (h : CacheOk bb c) (hc : c.current = none)
    (a : Nat) :
    (findAll c a [bb] 0).1 = (findBlocks bb a).inFirst ∧ CacheOk bb (findAll c a [bb] 0).2 := by
  rw [findAll, hc, if_neg (by simp)]
  cases hf : findBlocks bb a with
  | undefined => exact ⟨rfl, h⟩
  | null => exact ⟨rfl, h⟩
  | slot n => exact ⟨rfl, Or.inr rfl, (h.store hf).l1⟩

theorem findCache_single {bb : BasicBlocks} {c : Cache} (h : CacheOk bb c) (a : Nat) :
    (findCache [bb] c 0 a).1 = (findBlocks bb a).inFirst ∧ CacheOk bb (findCache [bb] c 0 a).2 := by
  have hlook : (findCache.lookup [bb] c 0 a).1 = (findBlocks bb a).inFirst ∧
      CacheOk bb (findCache.lookup [bb] c 0 a).2 := by
    simp only [findCache.lookup, List.getElem?_cons_zero]
    cases hf : findBlocks bb a with
    | undefined => exact ⟨rfl, h⟩
    | null => exact ⟨rfl, h⟩
    | slot n => exact ⟨rfl, h.store hf⟩
  unfold findCache
  cases hl : c.L1 (cacheIndex a) with
  | mk v o =>
    cases o with
    | none => exact hlook
    | some s =>
      simp only
      split
      · next hv =>
        obtain ⟨n, rfl, hn⟩ := h.l1 _ _ _ hl
        rw [← hv, hn]
        exact ⟨rfl, h⟩
      · exact hlook

/-- cache は検索の答えを変えない。 -/
theorem find_single {bb : BasicBlocks} {c : Cache} (h : CacheOk bb c) (a : Nat) :
    (find [bb] c a).1 = (findBlocks bb a).inFirst ∧ CacheOk bb (find [bb] c a).2 := by
  unfold find
  rcases h.current with hc | hc
  · rw [hc]
    exact findAll_single h hc a
  · rw [hc]
    obtain ⟨h1, h2⟩ := findCache_single h a
    simp only
    split
    · next c' heq =>
      -- いまの binary に無ければ、他に探す binary は無い
      have hcur : c'.current = some 0 := by
        have hst : c' = c := by
          unfold findCache findCache.lookup at heq
          simp only [List.getElem?_cons_zero] at heq
          split at heq
          · split at heq
            · cases heq
            · split at heq
              · cases heq
              · cases heq; rfl
              · cases heq
          · split at heq
            · cases heq
            · cases heq; rfl
            · cases heq
        rw [hst, hc]
      rw [heq] at h1 h2
      rw [findAll, hcur, if_pos rfl]
      exact ⟨h1, h2⟩
    · exact ⟨h1, h2⟩

/-- `encode` の後、検索を何度か行った thread の cache。 -/
def Searched (bb : BasicBlocks) (c : Cache) : Prop :=
  ∃ c₀ : Cache, (c₀ = Cache.empty ∨ c₀ = { Cache.empty with current := some 0 }) ∧
    Run (fun c v c' => c' = (find [bb] c v).2) (fun _ (_ : Nat) => True) c₀ c

theorem cacheOk_of_searched {bb : BasicBlocks} {c : Cache} (h : Searched bb c) : CacheOk bb c := by
  obtain ⟨c₀, h0, hrun⟩ := h
  refine hrun.invariant ?_ fun s v s' hs _ hstep => ?_
  · rcases h0 with rfl | rfl
    · exact ⟨Or.inl rfl, fun i v s hi => by simp [Cache.empty] at hi⟩
    · exact ⟨Or.inr rfl, fun i v s hi => by simp [Cache.empty] at hi⟩
  · rw [hstep]
    exact (find_single hs v).2

/--
slot の検索が正しい条件。

`encode` した binary について、それまでに何を検索していても、address `a` の検索が正しいのは、実行時の範囲が
折り返さないときは、`a` が範囲の外にあるか、命令を持つ block の先頭であるか、block の先頭でも命令の終わりでも
ないときに限る。折り返すときは検索がいつも `terminate` を返すので、`a` に命令が無いときに限る。
block の途中の命令の address では、いつも誤る。
-/
theorem find_lookupOk_iff {bin : Binary} (hbin : bin.WF) (addend : Nat) (cfg : EventConfig)
    (lifted : Bytes → Option UInt64) {c : Cache}
    (hc : Searched (encode cfg lifted bin addend) c) (a : Nat) :
    LookupOk cfg bin.arch lifted (bin.segments cfg addend)
        (addAddr (lastEnd bin.functions) addend) a
        (find [encode cfg lifted bin addend] c a).1 ↔
      bin.Findable cfg addend a := by
  rw [(find_single (cacheOk_of_searched hc) a).1, encode_eq]
  by_cases hw : bin.NoWrap addend
  · have he : Encodable bin addend := ⟨hbin, hw⟩
    rw [← blocksOf, (arranged_segments he cfg).lookupOk_iff]
    simp [Binary.Findable, hw]
  · obtain ⟨f, fs, hfs⟩ := List.exists_cons_of_ne_nil hbin.nonempty
    obtain ⟨t, ts, hsegs, hstart⟩ := segments_head cfg addend hfs
    have hmax := hbin.maxaddr_lt_of_wrap hw hfs
    rw [← blocksOf, Binary.Findable, hsegs, lookupOk_empty_iff (by omega)]
    simp [hw]

/-- 命令を三つ持つ関数一つの ARM64 の binary。 -/
def snippet : Binary where
  arch := .arm64
  functions := [⟨0x1000, 0x100c,
    [⟨0, 4, .other, false, [0x20, 0, 2, 0x8b]⟩, ⟨4, 4, .other, false, [0x1f, 0x20, 3, 0xd5]⟩,
      ⟨8, 4, .ret, false, [0xc0, 3, 0x5f, 0xd6]⟩]⟩]

theorem snippet_wf : snippet.WF := by
  refine ⟨by decide, fun f hf => ?_, List.pairwise_singleton _ _, by decide⟩
  rw [List.mem_singleton.mp hf]
  exact ⟨by simp [Contiguous], by decide⟩

theorem snippet_noWrap : snippet.NoWrap 0x10000 := by
  intro f hf
  rw [List.mem_singleton.mp hf]
  decide

def noEvents : EventConfig := ⟨false, false, false, false⟩

/-- 途中の命令を二つと範囲の外の address を検索した後でも、block の先頭 `0x11000` の検索は正しい。 -/
theorem snippet_lookupOk_start :
    LookupOk noEvents .arm64 (fun _ => some 0x4000) (snippet.segments noEvents 0x10000) 0x1100c
      0x11000 (find [encode noEvents (fun _ => some 0x4000) snippet 0x10000]
        (([0x11004, 0x20000, 0x11008].foldl fun c a =>
          (find [encode noEvents (fun _ => some 0x4000) snippet 0x10000] c a).2) Cache.empty)
        0x11000).1 := by
  have hc : Searched (encode noEvents (fun _ => some 0x4000) snippet 0x10000) _ :=
    ⟨Cache.empty, Or.inl rfl, .tail (i := 0x11008) (.tail (i := 0x20000)
      (.tail (i := 0x11004) .refl trivial rfl) trivial rfl) trivial rfl⟩
  have h := find_lookupOk_iff snippet_wf 0x10000 noEvents (fun _ => some 0x4000) hc 0x11000
  exact h.mpr (Or.inl ⟨snippet_noWrap, fun _ => Or.inl ⟨_, List.mem_cons_self .., rfl, by simp⟩⟩)

/-- 二番目の命令 `0x11004` の検索は、slot の列より前を指す。 -/
theorem snippet_lookup_middle_wrong : snippet.WF ∧ snippet.NoWrap 0x10000 ∧
    (find [encode noEvents (fun _ => some 0x4000) snippet 0x10000] Cache.empty 0x11004).1
      = .slot ⟨0, -1⟩ ∧
    ¬ LookupOk noEvents .arm64 (fun _ => some 0x4000) (snippet.segments noEvents 0x10000) 0x1100c
      0x11004 (find [encode noEvents (fun _ => some 0x4000) snippet 0x10000] Cache.empty
        0x11004).1 := by
  have hfind : (find [encode noEvents (fun _ => some 0x4000) snippet 0x10000] Cache.empty
      0x11004).1 = .slot ⟨0, -1⟩ := by decide
  refine ⟨snippet_wf, snippet_noWrap, hfind, fun hok => ?_⟩
  rcases hok.inside with hc | hc
  · rw [hfind] at hc
    cases hc
  · obtain ⟨n, hn, -⟩ := hc
    rw [hfind, Found.slot.injEq, Slot.mk.injEq] at hn
    have := hn.2
    omega

end AetherVM.Orchestrator
