import AetherVM.Orchestrator.Encode

/-!
# 基本 block への分割

`encode` の作る block を、「block の前の event・命令の列・block の後の event」に分けて見たもの（`Segment`）。
命令ごとの実行時の address を持つので、「命令の実行が始まる slot」をここで言える。
`encode` の block は segment を平らにしたものである（`encodeFunc_eq`）。

segment は address の昇順に並び、互いに重ならず、中の命令は隙間なく続く。
-/

namespace AetherVM.Orchestrator

open Infra

/-- 基本 block を、命令ごとの slot に分けたもの。`insns` は実行時の address と命令の組である。 -/
structure Segment where
  start : Nat
  pre : List Instruction
  insns : List (Nat × Insn)
  post : List Instruction

section Segments

variable (cfg : EventConfig) (arch : ArchType) (lifted : Bytes → Option UInt64)

/-- segment の slot の列。 -/
def Segment.slots (s : Segment) : List Instruction :=
  s.pre ++ s.insns.flatMap (fun p => insnSlots cfg arch lifted p.2) ++ s.post

/-- 関数の命令の列を segment に分ける。 -/
def segmentInsns (addr addend : Nat) (fin : List Instruction) :
    List Insn → Bool → Bool → Segment → List Segment
  | [], _, _, cur => [{ cur with post := fin }]
  | i :: rest, first, newbb, cur =>
    let vmaddr := addAddr (addr + i.fnoff) addend
    if !first && (i.comins || newbb) then
      { cur with post := setupEvent cfg .blockAfter }
        :: segmentInsns addr addend fin rest false (endsBlock i)
          ⟨vmaddr, setupEvent cfg .blockBefore, [(vmaddr, i)], []⟩
    else
      segmentInsns addr addend fin rest false (newbb || endsBlock i)
        { cur with insns := cur.insns ++ [(vmaddr, i)] }

def segmentFunc (addend : Nat) (fin : List Instruction) (f : Func) : List Segment :=
  segmentInsns cfg f.addr addend fin f.insns true false
    ⟨addAddr f.addr addend, setupEvent cfg .funcBefore ++ setupEvent cfg .blockBefore, [], []⟩

/-- segment を平らにした block。 -/
def Segment.block (s : Segment) : Block := ⟨s.start, s.slots cfg arch lifted⟩

theorem encodeInsns_eq (addr addend : Nat) (fin : List Instruction) :
    ∀ (insns : List Insn) (first newbb : Bool) (cur : Segment), cur.post = [] →
      encodeInsns cfg arch lifted addr addend fin insns first newbb (cur.block cfg arch lifted)
        = (segmentInsns cfg addr addend fin insns first newbb cur).map
            (Segment.block cfg arch lifted)
  | [], _, _, cur, hpost => by
    simp [encodeInsns, segmentInsns, Segment.block, Segment.slots, hpost]
  | i :: rest, first, newbb, cur, hpost => by
    rw [encodeInsns, segmentInsns]
    split
    · have hrest := encodeInsns_eq addr addend fin rest false (endsBlock i)
        ⟨addAddr (addr + i.fnoff) addend, setupEvent cfg .blockBefore,
          [(addAddr (addr + i.fnoff) addend, i)], []⟩ rfl
      rw [List.map_cons, ← hrest]
      simp [Segment.block, Segment.slots, hpost]
    · have hrest := encodeInsns_eq addr addend fin rest false (newbb || endsBlock i)
        { cur with insns := cur.insns ++ [(addAddr (addr + i.fnoff) addend, i)] } hpost
      rw [← hrest]
      simp [Segment.block, Segment.slots, hpost]

/-- `encode` の block は segment を平らにしたものである。 -/
theorem encodeFunc_eq (addend : Nat) (fin : List Instruction) (f : Func) :
    encodeFunc cfg arch lifted addend fin f
      = (segmentFunc cfg addend fin f).map (Segment.block cfg arch lifted) := by
  rw [encodeFunc, segmentFunc, ← encodeInsns_eq cfg arch lifted _ _ _ _ _ _ _ rfl]
  simp [Segment.block, Segment.slots]

end Segments

/-- binary 全体の segment。 -/
def Binary.segments (bin : Binary) (cfg : EventConfig) (addend : Nat) : List Segment :=
  let fin := if bin.functions.length = 1 then [Instruction.ofEvent .finishEmulation] else []
  bin.functions.flatMap (segmentFunc cfg addend fin)

theorem encode_eq (cfg : EventConfig) (lifted : Bytes → Option UInt64) (bin : Binary)
    (addend : Nat) :
    encode cfg lifted bin addend
      = convert (addAddr (lastEnd bin.functions) addend)
          ((bin.segments cfg addend).map (Segment.block cfg bin.arch lifted)) := by
  simp only [encode, Binary.segments, List.map_flatMap]
  congr 2
  funext f
  exact encodeFunc_eq cfg bin.arch lifted addend _ f

/-! ## 正しい binary -/

/-- 命令が `off` から隙間なく並び、長さが 1 から 15 であること。 -/
def Contiguous : Nat → List Insn → Prop
  | _, [] => True
  | off, i :: rest => i.fnoff = off ∧ 1 ≤ i.oplen ∧ i.oplen ≤ 15 ∧ Contiguous (off + i.oplen) rest

def codeLen (insns : List Insn) : Nat := (insns.map Insn.oplen).sum

/-- 関数の命令は先頭から隙間なく並び、範囲に収まる。 -/
structure Func.WF (f : Func) : Prop where
  contiguous : Contiguous 0 f.insns
  fits : f.addr + codeLen f.insns ≤ f.fin

/-- `encode` に渡す binary。関数は昇順で重ならず、範囲の終わりも 64 bit の address である。 -/
structure Binary.WF (bin : Binary) : Prop where
  nonempty : bin.functions ≠ []
  wf : ∀ f ∈ bin.functions, f.WF
  ascending : bin.functions.Pairwise fun f g => f.addr < g.addr ∧ f.fin ≤ g.addr
  width : lastEnd bin.functions < 2 ^ 64

/-- `addend` を足した実行時の範囲が、address の上限で折り返さないこと。 -/
def Binary.NoWrap (bin : Binary) (addend : Nat) : Prop :=
  ∀ f ∈ bin.functions, addAddr f.addr addend + (lastEnd bin.functions - f.addr) < 2 ^ 64

/-- 折り返さない binary と `addend`。 -/
structure Encodable (bin : Binary) (addend : Nat) : Prop extends bin.WF where
  noWrap : bin.NoWrap addend

/-! ## segment の並び -/

/-- 命令が `start` から隙間なく並んでいること。 -/
def Located : Nat → List (Nat × Insn) → Prop
  | _, [] => True
  | start, (a, i) :: rest => a = start ∧ 1 ≤ i.oplen ∧ i.oplen ≤ 15 ∧ Located (start + i.oplen) rest

namespace Segment

/-- 最後の命令の終わり。 -/
def stop (s : Segment) : Nat := s.start + (s.insns.map fun p => p.2.oplen).sum

/-- 前後の slot は長さを持たず、命令は隙間なく並ぶ。 -/
structure Ok (s : Segment) : Prop where
  located : Located s.start s.insns
  pre : ∀ x ∈ s.pre, x.oplen = 0
  post : ∀ x ∈ s.post, x.oplen = 0

end Segment

theorem setupEvent_oplen (cfg : EventConfig) (f : EventFunc) :
    ∀ x ∈ setupEvent cfg f, x.oplen = 0 := by
  intro x hx
  unfold setupEvent at hx
  split at hx <;> first
    | (split at hx
       · rw [List.mem_singleton.mp hx]; rfl
       · simp at hx)
    | simp at hx

theorem located_append : ∀ {start : Nat} {xs : List (Nat × Insn)} {a : Nat} {i : Insn},
    Located start xs → a = start + (xs.map fun p => p.2.oplen).sum → 1 ≤ i.oplen → i.oplen ≤ 15 →
    Located start (xs ++ [(a, i)])
  | start, [], a, i, _, ha, h1, h2 => ⟨by simpa using ha, h1, h2, trivial⟩
  | start, (b, j) :: xs, a, i, hl, ha, h1, h2 => by
    obtain ⟨hb, hj1, hj2, hl⟩ := hl
    refine ⟨hb, hj1, hj2, located_append hl ?_ h1 h2⟩
    rw [List.map_cons, List.sum_cons] at ha
    simp only at ha
    omega

/-- 後ろの segment は、前の segment の始まりより後で、前の命令が終わってから始まる。 -/
def Before (s t : Segment) : Prop := s.start < t.start ∧ s.stop ≤ t.start

theorem Segment.start_le_stop (s : Segment) : s.start ≤ s.stop := Nat.le_add_right _ _

theorem Segment.Ok.start_lt_stop {s : Segment} (h : s.Ok) (hne : s.insns ≠ []) :
    s.start < s.stop := by
  cases hc : s.insns with
  | nil => exact absurd hc hne
  | cons p ps =>
    have hloc := h.located
    rw [hc] at hloc
    rw [Segment.stop, hc, List.map_cons, List.sum_cons]
    have := hloc.2.1
    omega

/-- 閉じた segment を、その終わりより後に始まる列の前に置く。 -/
theorem Segment.Ok.pairwise_cons {s : Segment} {segs : List Segment} (hs : s.Ok)
    (hne : s.insns ≠ []) (hpair : segs.Pairwise Before) (hall : ∀ t ∈ segs, s.stop ≤ t.start) :
    (s :: segs).Pairwise Before := by
  refine List.pairwise_cons.mpr ⟨fun t ht => ⟨?_, hall t ht⟩, hpair⟩
  exact Nat.lt_of_lt_of_le (hs.start_lt_stop hne) (hall t ht)

/--
分割の loop の不変条件。作りかけの segment が `off` までの命令を持つとき、できあがる segment の列は
正しく並び、残りの命令の終わりまでに収まる。
-/
theorem segmentInsns_spec (cfg : EventConfig) {addr addend hi : Nat} {fin : List Instruction}
    (hfin : ∀ x ∈ fin, x.oplen = 0)
    (hlin : ∀ x y, addr ≤ x → x ≤ y → y ≤ hi → addAddr y addend = addAddr x addend + (y - x)) :
    ∀ (insns : List Insn) (off : Nat) (first newbb : Bool) (cur : Segment),
      Contiguous off insns → addr + off + codeLen insns ≤ hi → cur.Ok → cur.post = [] →
      cur.stop = addAddr (addr + off) addend → (first = false → cur.insns ≠ []) →
      ∃ s segs, segmentInsns cfg addr addend fin insns first newbb cur = s :: segs ∧
        (s :: segs).Pairwise Before ∧
        (∀ t ∈ s :: segs, t.Ok ∧ cur.start ≤ t.start ∧
          t.stop ≤ addAddr (addr + off + codeLen insns) addend) ∧
        (cur.insns ≠ [] ∨ insns ≠ [] → ∀ t ∈ s :: segs, t.insns ≠ [])
  | [], off, first, newbb, cur, _, _, hok, _, hstop, _ => by
    refine ⟨{ cur with post := fin }, [], rfl, List.pairwise_singleton _ _, ?_, ?_⟩
    · intro t ht
      rw [List.mem_singleton.mp ht]
      refine ⟨⟨hok.located, hok.pre, hfin⟩, Nat.le_refl _, ?_⟩
      show cur.stop ≤ _
      rw [hstop, codeLen, List.map_nil, List.sum_nil, Nat.add_zero]
    · intro hne t ht
      rw [List.mem_singleton.mp ht]
      exact hne.resolve_right fun h => h rfl
  | i :: rest, off, first, newbb, cur, hcont, hhi, hok, hpost, hstop, hne => by
    obtain ⟨hoff, h1, h2, hcont⟩ := hcont
    have hlen : codeLen (i :: rest) = i.oplen + codeLen rest := by
      rw [codeLen, List.map_cons, List.sum_cons, codeLen]
    have hnext : addAddr (addr + (off + i.oplen)) addend
        = addAddr (addr + off) addend + i.oplen := by
      have := hlin (addr + off) (addr + (off + i.oplen)) (by omega) (by omega) (by omega)
      omega
    have hend : addr + (off + i.oplen) + codeLen rest = addr + off + codeLen (i :: rest) := by omega
    rw [segmentInsns, hoff]
    split
    · next hsplit =>
      -- いまの segment を閉じて、`i` から新しい segment を始める
      have hfirst : first = false := by
        cases first with
        | false => rfl
        | true => simp at hsplit
      have hcur := hne hfirst
      set new : Segment := ⟨addAddr (addr + off) addend, setupEvent cfg .blockBefore,
        [(addAddr (addr + off) addend, i)], []⟩ with hnew
      have hnewstop : new.stop = addAddr (addr + (off + i.oplen)) addend := by
        rw [hnext, Segment.stop]
        simp [hnew]
      obtain ⟨s, segs, hs, hpair, hall, hins⟩ := segmentInsns_spec cfg hfin hlin rest
        (off + i.oplen) false (endsBlock i) new hcont (by omega)
        ⟨⟨rfl, h1, h2, trivial⟩, setupEvent_oplen cfg .blockBefore,
          fun x hx => absurd hx List.not_mem_nil⟩ rfl
        hnewstop (fun _ => List.cons_ne_nil _ _)
      have hins := hins (Or.inl (List.cons_ne_nil _ _))
      have hclosed : ({ cur with post := setupEvent cfg .blockAfter } : Segment).Ok :=
        ⟨hok.located, hok.pre, setupEvent_oplen cfg .blockAfter⟩
      refine ⟨{ cur with post := setupEvent cfg .blockAfter }, s :: segs, by rw [hs],
        hclosed.pairwise_cons hcur hpair fun t ht => ?_, ?_, ?_⟩
      · show cur.stop ≤ t.start
        rw [hstop]
        exact (hall t ht).2.1
      · intro t ht
        rcases List.mem_cons.mp ht with ht | ht
        · rw [ht]
          refine ⟨hclosed, Nat.le_refl _, ?_⟩
          show cur.stop ≤ _
          have := hlin (addr + off) (addr + off + codeLen (i :: rest)) (by omega) (by omega) hhi
          rw [hstop, this]
          omega
        · obtain ⟨ht1, ht2, ht3⟩ := hall t ht
          rw [hend] at ht3
          have hnewstart : new.start = cur.stop := hstop.symm
          have hle := cur.start_le_stop
          exact ⟨ht1, by omega, ht3⟩
      · intro _ t ht
        rcases List.mem_cons.mp ht with ht | ht
        · rw [ht]
          exact hcur
        · exact hins t ht
    · -- いまの segment に `i` を足す
      have hsum : ({ cur with insns := cur.insns ++ [(addAddr (addr + off) addend, i)] }
          : Segment).stop = addAddr (addr + (off + i.oplen)) addend := by
        rw [hnext, ← hstop, Segment.stop, Segment.stop]
        simp [Nat.add_assoc]
      obtain ⟨s, segs, hs, hpair, hall, hins⟩ := segmentInsns_spec cfg hfin hlin rest
        (off + i.oplen) false (newbb || endsBlock i)
        { cur with insns := cur.insns ++ [(addAddr (addr + off) addend, i)] } hcont (by omega)
        ⟨located_append hok.located hstop.symm h1 h2, hok.pre, hok.post⟩ hpost hsum
        (fun _ => by simp)
      refine ⟨s, segs, hs, hpair, fun t ht => ?_, fun _ => hins (Or.inl (by simp))⟩
      obtain ⟨ht1, ht2, ht3⟩ := hall t ht
      rw [hend] at ht3
      exact ⟨ht1, ht2, ht3⟩

/-! ## binary 全体 -/

section Binary

variable {cfg : EventConfig} {bin : Binary} {addend : Nat}

theorem fin_le_lastEnd : ∀ {fs : List Func}, (∀ f ∈ fs, f.WF) →
    fs.Pairwise (fun f g => f.addr < g.addr ∧ f.fin ≤ g.addr) →
    ∀ f ∈ fs, f.addr + codeLen f.insns ≤ lastEnd fs ∧ f.fin ≤ lastEnd fs
  | [], _, _, f, hf => absurd hf List.not_mem_nil
  | [g], hwf, _, f, hf => by
    rw [List.mem_singleton.mp hf]
    exact ⟨(hwf g (List.mem_cons_self ..)).fits, Nat.le_refl _⟩
  | g :: g' :: fs, hwf, hp, f, hf => by
    obtain ⟨hg, hrest⟩ := List.pairwise_cons.mp hp
    have hwf' : ∀ f ∈ g' :: fs, f.WF := fun f hf => hwf f (List.mem_cons_of_mem _ hf)
    have hlast : lastEnd (g :: g' :: fs) = lastEnd (g' :: fs) := by
      simp [lastEnd, List.getLast?_cons_cons]
    rw [hlast]
    rcases List.mem_cons.mp hf with rfl | hf
    · have h1 := (hg g' (List.mem_cons_self ..)).2
      have h2 := (fin_le_lastEnd hwf' hrest g' (List.mem_cons_self ..)).1
      have h3 := (hwf f (List.mem_cons_self ..)).fits
      exact ⟨by omega, by omega⟩
    · exact fin_le_lastEnd hwf' hrest f hf

/-- 範囲の中では、`addend` を足しても間隔は変わらない。 -/
theorem Encodable.linear (h : Encodable bin addend) {f : Func} (hf : f ∈ bin.functions)
    (x y : Nat) (hx : f.addr ≤ x) (hxy : x ≤ y) (hy : y ≤ lastEnd bin.functions) :
    addAddr y addend = addAddr x addend + (y - x) := by
  have hw := h.noWrap f hf
  unfold addAddr at hw ⊢
  omega

/-- 最後に足す `finish_emulation` は長さを持たない。 -/
theorem finish_oplen (fs : List Func) :
    ∀ x ∈ (if fs.length = 1 then [Instruction.ofEvent .finishEmulation] else []), x.oplen = 0 := by
  intro x hx
  split at hx
  · rw [List.mem_singleton.mp hx]
    rfl
  · simp at hx

/-- 関数一つの segment。 -/
theorem segmentFunc_spec (cfg : EventConfig) (h : Encodable bin addend) {f : Func}
    (hf : f ∈ bin.functions) {fin : List Instruction} (hfin : ∀ x ∈ fin, x.oplen = 0) :
    ∃ s segs, segmentFunc cfg addend fin f = s :: segs ∧ (s :: segs).Pairwise Before ∧
      ∀ t ∈ s :: segs, t.Ok ∧ addAddr f.addr addend ≤ t.start ∧
        t.stop ≤ addAddr (f.addr + codeLen f.insns) addend ∧
        (t.start = addAddr f.addr addend ∨ t.start < t.stop) := by
  obtain ⟨hfits, -⟩ := fin_le_lastEnd h.wf h.ascending f hf
  have hpre : ∀ x ∈ setupEvent cfg .funcBefore ++ setupEvent cfg .blockBefore, x.oplen = 0 := by
    intro x hx
    rcases List.mem_append.mp hx with hx | hx
    · exact setupEvent_oplen cfg _ x hx
    · exact setupEvent_oplen cfg _ x hx
  -- 関数の先頭では block の event だけを持つ、命令の無い segment から始まる
  obtain ⟨s, segs, hs, hpair, hall, hins⟩ := segmentInsns_spec cfg hfin
    (h.linear hf) f.insns 0 true false
    ⟨addAddr f.addr addend, setupEvent cfg .funcBefore ++ setupEvent cfg .blockBefore, [], []⟩
    (h.wf f hf).contiguous (by omega)
    ⟨trivial, hpre, fun x hx => absurd hx List.not_mem_nil⟩ rfl rfl (fun hc => by cases hc)
  refine ⟨s, segs, hs, hpair, fun t ht => ?_⟩
  obtain ⟨h1, h2, h3⟩ := hall t ht
  rw [Nat.add_zero] at h3
  refine ⟨h1, h2, h3, ?_⟩
  by_cases hne : f.insns = []
  · -- 命令の無い関数の segment は、関数の先頭だけである
    rw [hne, codeLen, List.map_nil, List.sum_nil, Nat.add_zero] at h3
    have := t.start_le_stop
    have h2 : addAddr f.addr addend ≤ t.start := h2
    exact Or.inl (by omega)
  · exact Or.inr (h1.start_lt_stop (hins (Or.inr hne) t ht))

/-- segment の列の並び方。 -/
structure Arranged (segs : List Segment) (maxaddr : Nat) : Prop where
  nonempty : segs ≠ []
  pairwise : segs.Pairwise Before
  ok : ∀ s ∈ segs, s.Ok
  stop_le : ∀ s ∈ segs, s.stop ≤ maxaddr
  maxaddr_lt : maxaddr < 2 ^ 64

theorem arranged_segments (h : Encodable bin addend) (cfg : EventConfig) :
    Arranged (bin.segments cfg addend) (addAddr (lastEnd bin.functions) addend) := by
  have hfin := finish_oplen bin.functions
  have hspec := fun f hf => segmentFunc_spec cfg h (f := f) hf hfin
  have hall : ∀ s ∈ bin.segments cfg addend,
      s.Ok ∧ s.stop ≤ addAddr (lastEnd bin.functions) addend := by
    intro s hs
    obtain ⟨f, hf, hs⟩ := List.mem_flatMap.mp hs
    obtain ⟨t, segs, heq, -, hin⟩ := hspec f hf
    rw [heq] at hs
    obtain ⟨hok, -, hstop, -⟩ := hin s hs
    obtain ⟨hfits, -⟩ := fin_le_lastEnd h.wf h.ascending f hf
    have hlin := h.linear hf _ _ (Nat.le_add_right _ _) hfits (Nat.le_refl _)
    exact ⟨hok, by omega⟩
  refine ⟨?_, ?_, fun s hs => (hall s hs).1, fun s hs => (hall s hs).2, Nat.mod_lt _ (by decide)⟩
  · obtain ⟨f, hf⟩ := List.exists_mem_of_ne_nil _ h.nonempty
    obtain ⟨t, segs, heq, -⟩ := hspec f hf
    refine List.ne_nil_of_mem (a := t) (List.mem_flatMap.mpr ⟨f, hf, ?_⟩)
    rw [heq]
    exact List.mem_cons_self ..
  · refine List.pairwise_flatMap.mpr ⟨fun f hf => ?_, ?_⟩
    · obtain ⟨t, segs, heq, hpair, -⟩ := hspec f hf
      rw [heq]
      exact hpair
    · refine h.ascending.imp_of_mem fun {f g} hf hg hfg s hs t ht => ?_
      obtain ⟨s', segs, heq, -, hin⟩ := hspec f hf
      obtain ⟨t', segs', heq', -, hin'⟩ := hspec g hg
      rw [heq] at hs
      rw [heq'] at ht
      obtain ⟨-, -, hstop, hstart⟩ := hin s hs
      obtain ⟨-, hge, -⟩ := hin' t ht
      -- `f` の命令は `g` が始まる前に終わる
      have hfits := (h.wf f hf).fits
      obtain ⟨hg1, -⟩ := fin_le_lastEnd h.wf h.ascending g hg
      have h1 := h.linear hf (f.addr + codeLen f.insns) g.addr (by omega) (by omega) (by omega)
      have h2 := h.linear hf f.addr g.addr (by omega) (by omega) (by omega)
      exact ⟨by omega, by omega⟩

/-! ## 折り返す binary -/

/-- 最初の segment は、作り始めの segment の address から始まる。 -/
theorem segmentInsns_head (cfg : EventConfig) (addr addend : Nat) (fin : List Instruction) :
    ∀ (insns : List Insn) (first newbb : Bool) (cur : Segment),
      (segmentInsns cfg addr addend fin insns first newbb cur).head?.map Segment.start
        = some cur.start
  | [], _, _, _ => rfl
  | i :: rest, first, newbb, cur => by
    rw [segmentInsns]
    split
    · rfl
    · exact segmentInsns_head cfg addr addend fin rest false (newbb || endsBlock i)
        { cur with insns := cur.insns ++ [(addAddr (addr + i.fnoff) addend, i)] }

/-- binary の最初の segment は、最初の関数の address から始まる。 -/
theorem segments_head (cfg : EventConfig) (addend : Nat) {f : Func} {fs : List Func}
    (hfs : bin.functions = f :: fs) :
    ∃ s segs, bin.segments cfg addend = s :: segs ∧ s.start = addAddr f.addr addend := by
  unfold Binary.segments
  simp only [hfs, List.flatMap_cons]
  generalize (if (f :: fs).length = 1 then [Instruction.ofEvent .finishEmulation] else []) = fin
  have hhead := segmentInsns_head cfg f.addr addend fin f.insns true false
    ⟨addAddr f.addr addend, setupEvent cfg .funcBefore ++ setupEvent cfg .blockBefore, [], []⟩
  change (segmentFunc cfg addend fin f).head?.map Segment.start = _ at hhead
  cases hseg : segmentFunc cfg addend fin f with
  | nil =>
    rw [hseg] at hhead
    cases hhead
  | cons s segs =>
    rw [hseg, List.head?_cons, Option.map_some, Option.some.injEq] at hhead
    exact ⟨s, _, List.cons_append, hhead⟩

/--
一つの関数の範囲が折り返せば、最初の関数の範囲も折り返す。そのとき `maxaddr` は最初の block の address より
小さくなる。
-/
theorem Binary.WF.maxaddr_lt_of_wrap (h : bin.WF) (hw : ¬ bin.NoWrap addend) {f : Func}
    {fs : List Func} (hfs : bin.functions = f :: fs) :
    addAddr (lastEnd bin.functions) addend < addAddr f.addr addend := by
  unfold Binary.NoWrap at hw
  push Not at hw
  obtain ⟨g, hg, hover⟩ := hw
  have hwidth := h.width
  have hfit := (fin_le_lastEnd h.wf h.ascending g hg).1
  have hfg : f.addr ≤ g.addr := by
    have hasc := h.ascending
    rw [hfs] at hg hasc
    rcases List.mem_cons.mp hg with rfl | hg
    · exact Nat.le_refl _
    · exact Nat.le_of_lt ((List.pairwise_cons.mp hasc).1 g hg).1
  unfold addAddr at hover ⊢
  omega

end Binary

end AetherVM.Orchestrator
