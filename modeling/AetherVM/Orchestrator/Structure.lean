import AetherVM.Infra.Cut
import AetherVM.Orchestrator.Lookup

/-!
# `encode` の作る構造

命令を address の順に並べた列を、参照のある命令の前と、分岐・呼び出し・復帰の命令の後で切ったものが
基本 block である。block を平らに並べた slot の列から event を除くと、命令の列に戻る。

実行時の address は 64 bit で折り返すので、block の address が昇順になるのは、折り返しの前と後に block が
分かれないときに限る。
-/

namespace AetherVM.Orchestrator

open Infra

/-- 関数の命令と、その binary の中の address。 -/
def Func.rawInsns (f : Func) : List (Nat × Insn) := f.insns.map fun i => (f.addr + i.fnoff, i)

/-- binary の命令を関数の順に並べたもの。 -/
def Binary.rawInsns (bin : Binary) : List (Nat × Insn) := bin.functions.flatMap Func.rawInsns

/-- 命令 `q` が、直前の命令 `p` と同じ block に続くこと。 -/
def Continues (p q : Nat × Insn) : Prop := q.2.comins = false ∧ endsBlock p.2 = false

/--
関数が昇順で重ならず、それぞれに隙間なく並ぶ命令がある binary。address は 64 bit に収まる。
-/
structure Assembled (bin : Binary) : Prop where
  wf : ∀ f ∈ bin.functions, f.WF
  ne_nil : ∀ f ∈ bin.functions, f.insns ≠ []
  ascending : bin.functions.Pairwise fun f g => f.addr < g.addr ∧ f.fin ≤ g.addr
  bounded : ∀ f ∈ bin.functions, f.fin ≤ 2 ^ 64

/-! ## 命令の address -/

/-- 隙間なく並ぶ命令の address は、先頭の address に前の命令の長さを足したものである。 -/
theorem located_split : ∀ {xs pre post : List (Nat × Insn)} {start : Nat} {p : Nat × Insn},
    Located start xs → xs = pre ++ p :: post →
      p.1 = start + (pre.map fun q => q.2.oplen).sum
  | _, [], post, start, p, hl, rfl => hl.1
  | _, q :: pre, post, start, p, hl, rfl => by
    have hrec := located_split hl.2.2.2 rfl
    rw [List.map_cons, List.sum_cons]
    omega

theorem located_pairwise : ∀ {xs : List (Nat × Insn)} {start : Nat}, Located start xs →
    (∀ p ∈ xs, start ≤ p.1) ∧ xs.Pairwise fun p q => p.1 < q.1
  | [], _, _ => ⟨fun _ h => absurd h List.not_mem_nil, List.Pairwise.nil⟩
  | (a, i) :: xs, start, ⟨ha, h1, _, hl⟩ => by
    obtain ⟨hle, hpair⟩ := located_pairwise hl
    refine ⟨fun p hp => ?_, List.pairwise_cons.mpr ⟨fun q hq => ?_, hpair⟩⟩
    · rcases List.mem_cons.mp hp with rfl | hp
      · exact Nat.le_of_eq ha.symm
      · have := hle p hp
        omega
    · have := hle q hq
      show a < q.1
      omega

theorem located_lt : ∀ {xs : List (Nat × Insn)} {start : Nat}, Located start xs →
    ∀ p ∈ xs, p.1 < start + (xs.map fun q => q.2.oplen).sum
  | (a, i) :: xs, start, ⟨ha, h1, _, hl⟩, p, hp => by
    rw [List.map_cons, List.sum_cons]
    rcases List.mem_cons.mp hp with rfl | hp
    · show a < start + (i.oplen + _)
      omega
    · have := located_lt hl p hp
      simp only
      omega

theorem located_append_iff : ∀ {xs ys : List (Nat × Insn)} {start : Nat},
    Located start (xs ++ ys) ↔
      Located start xs ∧ Located (start + (xs.map fun q => q.2.oplen).sum) ys
  | [], ys, start => by simp [Located]
  | (a, i) :: xs, ys, start => by
    simp only [List.cons_append, Located, located_append_iff, List.map_cons,
      List.sum_cons, and_assoc, Nat.add_assoc]

/-- 隙間なく並ぶ列を切り分けた区間も、それぞれ隙間なく並ぶ。 -/
theorem located_part : ∀ {parts : List (List (Nat × Insn))} {start : Nat},
    Located start parts.flatten → ∀ part ∈ parts, ∃ a, Located a part
  | q :: parts, start, hl, part, hp => by
    rw [List.flatten_cons, located_append_iff] at hl
    rcases List.mem_cons.mp hp with rfl | hp
    · exact ⟨start, hl.1⟩
    · exact located_part hl.2 part hp

theorem located_rawInsns : ∀ {insns : List Insn} {addr off : Nat}, Contiguous off insns →
    Located (addr + off) (insns.map fun i => (addr + i.fnoff, i))
  | [], _, _, _ => trivial
  | i :: rest, addr, off, ⟨hoff, h1, h2, hrest⟩ => by
    have hrec : Located (addr + (off + i.oplen)) (rest.map fun i => (addr + i.fnoff, i)) :=
      located_rawInsns hrest
    rw [← Nat.add_assoc] at hrec
    exact ⟨by rw [hoff], h1, h2, hrec⟩

theorem sum_rawInsns (f : Func) : (f.rawInsns.map fun q => q.2.oplen).sum = codeLen f.insns := by
  simp [Func.rawInsns, codeLen, Function.comp_def]

/-! ## segment と区間 -/

/-- event の slot。 -/
def Quiet (xs : List Instruction) : Prop := ∀ x ∈ xs, x.event = true ∧ x.oplen = 0

theorem quiet_append {xs ys : List Instruction} (hx : Quiet xs) (hy : Quiet ys) :
    Quiet (xs ++ ys) := List.forall_mem_append.mpr ⟨hx, hy⟩

theorem quiet_ofEvent (f : EventFunc) : Quiet [.ofEvent f] := by
  intro x hx
  rw [List.mem_singleton.mp hx]
  exact ⟨rfl, rfl⟩

theorem quiet_ite {c : Prop} [Decidable c] (f : EventFunc) :
    Quiet (if c then [.ofEvent f] else []) := by
  split
  · exact quiet_ofEvent f
  · exact fun x hx => absurd hx List.not_mem_nil

theorem quiet_setupEvent (cfg : EventConfig) (f : EventFunc) : Quiet (setupEvent cfg f) := by
  unfold setupEvent
  split
  all_goals first | exact quiet_ite _ | exact fun x hx => absurd hx List.not_mem_nil

theorem quiet_beforeSlots (cfg : EventConfig) : Quiet (beforeSlots cfg) :=
  quiet_append (quiet_setupEvent cfg _) (quiet_ite _)

theorem quiet_afterSlots (cfg : EventConfig) (arch : ArchType) (i : Insn) :
    Quiet (afterSlots cfg arch i) := by
  refine quiet_append ?_ ?_
  · split
    · exact quiet_ite _
    · exact quiet_ite _
    · exact quiet_setupEvent cfg _
  · split
    · exact quiet_ofEvent _
    · exact quiet_ofEvent _
    · exact quiet_ofEvent _
    · exact quiet_append (quiet_setupEvent cfg _) (quiet_ofEvent _)
    · exact fun x hx => absurd hx List.not_mem_nil

/-- segment が区間 `part` の命令を持つこと。 -/
structure Segment.Holds (addend : Nat) (part : List (Nat × Insn)) (s : Segment) : Prop where
  insns : s.insns = part.map fun p => (addAddr p.1 addend, p.2)
  start : ∀ p ∈ part.head?, s.start = addAddr p.1 addend
  pre : Quiet s.pre
  post : Quiet s.post

/--
分割の loop は、命令の列を切り分ける。作りかけの segment は空でない区間 `part` を持ち、`newbb` は `part` の
最後の命令が block を終わらせるかどうかである。
-/
theorem segmentInsns_cuts (cfg : EventConfig) {addr addend : Nat} {fin : List Instruction}
    (hfin : Quiet fin) : ∀ (insns : List Insn) (newbb : Bool) {cur : Segment}
      {part : List (Nat × Insn)}, cur.Holds addend part → part ≠ [] → part.IsChain Continues →
      (∀ p ∈ part.getLast?, newbb = endsBlock p.2) →
      ∃ parts, Cuts Continues (part ++ insns.map fun i => (addr + i.fnoff, i)) parts ∧
        List.Forall₂ (Segment.Holds addend) parts
          (segmentInsns cfg addr addend fin insns false newbb cur)
  | [], newbb, cur, part, hcur, hne, hchain, _ => by
    refine ⟨[part], Cuts.nil.cons hne hchain, .cons ?_ .nil⟩
    exact ⟨hcur.insns, hcur.start, hcur.pre, hfin⟩
  | i :: rest, newbb, cur, part, hcur, hne, hchain, hnewbb => by
    rw [segmentInsns, List.map_cons]
    split
    · -- `i` から新しい block が始まる
      have hnew : Segment.Holds addend [(addr + i.fnoff, i)]
          ⟨addAddr (addr + i.fnoff) addend, setupEvent cfg .blockBefore,
            [(addAddr (addr + i.fnoff) addend, i)], []⟩ := by
        refine ⟨rfl, fun p hp => ?_, quiet_setupEvent cfg .blockBefore,
          fun x hx => absurd hx List.not_mem_nil⟩
        cases hp
        rfl
      obtain ⟨parts, hcuts, hall⟩ := segmentInsns_cuts cfg hfin rest (endsBlock i) hnew
        (List.cons_ne_nil _ _) (List.isChain_singleton _) (fun p hp => by cases hp; rfl)
      refine ⟨part :: parts, hcuts.cons hne hchain, .cons ?_ hall⟩
      exact ⟨hcur.insns, hcur.start, hcur.pre, quiet_setupEvent cfg .blockAfter⟩
    · next hstay =>
      have hcomins : i.comins = false ∧ newbb = false := by simpa using hstay
      -- `i` は作りかけの block に続く。直前の命令が block を終わらせないので、列も切れない
      have hnext : Segment.Holds addend (part ++ [(addr + i.fnoff, i)])
          { cur with insns := cur.insns ++ [(addAddr (addr + i.fnoff) addend, i)] } := by
        refine ⟨?_, fun p hp => ?_, hcur.pre, hcur.post⟩
        · rw [List.map_append, hcur.insns]
          rfl
        · rw [List.head?_append_of_ne_nil _ hne] at hp
          exact hcur.start p hp
      have hchain' : (part ++ [(addr + i.fnoff, i)]).IsChain Continues := by
        refine hchain.append (List.isChain_singleton _) fun p hp q hq => ?_
        cases hq
        exact ⟨hcomins.1, (hnewbb p hp).symm.trans hcomins.2⟩
      obtain ⟨parts, hcuts, hall⟩ := segmentInsns_cuts cfg hfin rest
        (newbb || endsBlock i) hnext (by simp) hchain' (fun p hp => by
          rw [List.getLast?_concat] at hp
          cases hp
          rw [hcomins.2, Bool.false_or])
      rw [List.append_assoc] at hcuts
      exact ⟨parts, hcuts, hall⟩

/-- 関数一つの segment。最初の命令は関数の先頭にあり、その前で block が始まっている。 -/
theorem segmentFunc_cuts (cfg : EventConfig) (addend : Nat) {fin : List Instruction}
    (hfin : Quiet fin) {f : Func} (hwf : f.WF) (hne : f.insns ≠ []) :
    ∃ parts, Cuts Continues f.rawInsns parts ∧
      List.Forall₂ (Segment.Holds addend) parts (segmentFunc cfg addend fin f) := by
  have hcont := hwf.contiguous
  cases hi : f.insns with
  | nil => exact absurd hi hne
  | cons i rest =>
    rw [hi] at hcont
    obtain ⟨hoff, -⟩ := hcont
    have hcur : Segment.Holds addend [(f.addr + i.fnoff, i)]
        ⟨addAddr f.addr addend, setupEvent cfg .funcBefore ++ setupEvent cfg .blockBefore,
          [(addAddr (f.addr + i.fnoff) addend, i)], []⟩ := by
      refine ⟨rfl, fun p hp => ?_, quiet_append (quiet_setupEvent cfg _) (quiet_setupEvent cfg _),
        fun x hx => absurd hx List.not_mem_nil⟩
      cases hp
      show addAddr f.addr addend = addAddr (f.addr + i.fnoff) addend
      rw [hoff, Nat.add_zero]
    obtain ⟨parts, hcuts, hall⟩ := segmentInsns_cuts cfg hfin rest (endsBlock i) hcur
      (List.cons_ne_nil _ _) (List.isChain_singleton _) (fun p hp => by cases hp; rfl)
    refine ⟨parts, ?_, ?_⟩
    · rw [Func.rawInsns, hi]
      exact hcuts
    · rw [segmentFunc, hi, segmentInsns]
      exact hall

/-- binary の全体の segment。 -/
theorem segments_cuts (cfg : EventConfig) (addend : Nat) {bin : Binary} (h : Assembled bin) :
    ∃ parts, Cuts Continues bin.rawInsns parts ∧ (∀ part ∈ parts, ∃ a, Located a part) ∧
      List.Forall₂ (Segment.Holds addend) parts (bin.segments cfg addend) := by
  have hfin := quiet_ite (c := bin.functions.length = 1) .finishEmulation
  have hall : ∀ fs : List Func, (∀ f ∈ fs, f.WF ∧ f.insns ≠ []) → ∃ parts,
      Cuts Continues (fs.flatMap Func.rawInsns) parts ∧ (∀ part ∈ parts, ∃ a, Located a part) ∧
        List.Forall₂ (Segment.Holds addend) parts (fs.flatMap (segmentFunc cfg addend
          (if bin.functions.length = 1 then [Instruction.ofEvent .finishEmulation] else []))) := by
    intro fs hfs
    induction fs with
    | nil => exact ⟨[], Cuts.nil, fun _ hp => absurd hp List.not_mem_nil, .nil⟩
    | cons f fs ih =>
      obtain ⟨⟨hwf, hne⟩, hrest⟩ := List.forall_mem_cons.mp hfs
      obtain ⟨parts, hcuts, hseg⟩ := segmentFunc_cuts cfg addend hfin hwf hne
      obtain ⟨parts', hcuts', hlocated', hseg'⟩ := ih hrest
      have hlocated : Located (f.addr + 0) f.rawInsns := located_rawInsns hwf.contiguous
      rw [← hcuts.flatten] at hlocated
      exact ⟨parts ++ parts', hcuts.append hcuts',
        List.forall_mem_append.mpr ⟨located_part hlocated, hlocated'⟩,
        List.rel_append hseg hseg'⟩
  exact hall bin.functions fun f hf => ⟨h.wf f hf, h.ne_nil f hf⟩

/-! ## slot の列 -/

section Slots

variable {cfg : EventConfig} {arch : ArchType} {lifted : Bytes → Option UInt64} {addend : Nat}

theorem Quiet.filter_eq_nil {xs : List Instruction} (h : Quiet xs) :
    xs.filter (fun x => !x.event) = [] := by
  refine List.filter_eq_nil_iff.mpr fun x hx => ?_
  rw [(h x hx).1]
  decide

theorem realSlot_event (lifted : Bytes → Option UInt64) (i : Insn) :
    (realSlot lifted i).event = false := by
  unfold realSlot
  split <;> rfl

theorem filter_insnSlots (cfg : EventConfig) (arch : ArchType) (i : Insn) :
    (insnSlots cfg arch lifted i).filter (fun x => !x.event) = [realSlot lifted i] := by
  rw [insnSlots, List.filter_append, (quiet_beforeSlots cfg).filter_eq_nil, List.nil_append,
    List.filter_cons_of_pos (by rw [realSlot_event]; rfl),
    (quiet_afterSlots cfg arch i).filter_eq_nil]

/-- block の slot から event を除くと、区間の命令になる。 -/
theorem Segment.Holds.filter_slots {part : List (Nat × Insn)} {s : Segment}
    (h : s.Holds addend part) :
    (s.slots cfg arch lifted).filter (fun x => !x.event)
      = part.map fun p => realSlot lifted p.2 := by
  have hmid : ∀ ps : List (Nat × Insn), (ps.flatMap fun p => insnSlots cfg arch lifted p.2).filter
      (fun x => !x.event) = ps.map fun p => realSlot lifted p.2 := by
    intro ps
    induction ps with
    | nil => rfl
    | cons p ps ih =>
      rw [List.flatMap_cons, List.filter_append, ih, filter_insnSlots]
      rfl
  rw [Segment.slots, List.filter_append, List.filter_append, h.pre.filter_eq_nil,
    h.post.filter_eq_nil, hmid, h.insns, List.nil_append, List.append_nil, List.map_map]
  rfl

/-- block の event の slot は、長さを持たない。 -/
theorem Segment.Holds.oplen_of_event {part : List (Nat × Insn)} {s : Segment}
    (h : s.Holds addend part) : ∀ x ∈ s.slots cfg arch lifted, x.event = true → x.oplen = 0 := by
  intro x hx hevent
  rcases List.mem_append.mp hx with hx | hx
  · rcases List.mem_append.mp hx with hx | hx
    · exact (h.pre x hx).2
    · obtain ⟨p, -, hx⟩ := List.mem_flatMap.mp hx
      rcases List.mem_append.mp hx with hx | hx
      · exact (quiet_beforeSlots cfg x hx).2
      · rcases List.mem_cons.mp hx with rfl | hx
        · rw [realSlot_event] at hevent
          cases hevent
        · exact (quiet_afterSlots cfg arch p.2 x hx).2
  · exact (h.post x hx).2

theorem addAddr_addAddr (a b n : Nat) : addAddr (addAddr a b) n = addAddr (a + n) b := by
  unfold addAddr
  omega

/-- block の始まりに前の命令の長さを足すと、命令の実行時の address になる。 -/
theorem Segment.Holds.addr {part pre post : List (Nat × Insn)} {s : Segment} {p : Nat × Insn}
    {a : Nat} (h : s.Holds addend part) (hl : Located a part) (heq : part = pre ++ p :: post) :
    addAddr s.start (pre.map fun q => q.2.oplen).sum = addAddr p.1 addend := by
  have hstart : s.start = addAddr a addend := by
    cases hpart : part with
    | nil => simp [hpart] at heq
    | cons q qs =>
      rw [hpart] at hl
      rw [h.start q (by rw [hpart]; rfl), hl.1]
  rw [hstart, addAddr_addAddr, located_split hl heq]

end Slots

/-- slot の番号を block の順に並べると、0 からの連番になる。 -/
theorem flatten_convertFrom : ∀ (hs : List (List Instruction)) (rt : Nat),
    (convertFrom rt hs).flatten = (List.range hs.flatten.length).map (rt + ·)
  | [], rt => rfl
  | h :: hs, rt => by
    rw [convertFrom, List.flatten_cons, flatten_convertFrom hs, List.flatten_cons,
      List.length_append, List.range_add, List.map_append, List.map_map]
    congr 1
    refine List.map_congr_left fun i _ => ?_
    simp only [Function.comp_apply]
    omega

theorem length_convertFrom : ∀ (hs : List (List Instruction)) (rt : Nat),
    (convertFrom rt hs).length = hs.length
  | [], _ => rfl
  | h :: hs, rt => by rw [convertFrom, List.length_cons, List.length_cons, length_convertFrom hs]

/-- block の番号の列で slot を引くと、その block の slot が順に得られる。 -/
theorem map_getElem?_convertFrom {hs : List (List Instruction)} {k : Nat} {ptrs : List Nat}
    (hp : (convertFrom 0 hs)[k]? = some ptrs) {h : List Instruction} (hh : hs[k]? = some h) :
    ptrs.map (hs.flatten[·]?) = h.map some := by
  rw [convertFrom_getElem? hs 0 k h hh, Option.some.injEq] at hp
  obtain ⟨hlt, rfl⟩ := List.getElem?_eq_some_iff.mp hh
  have hsplit : hs.flatten = (hs.take k).flatten ++ (hs[k] ++ (hs.drop (k + 1)).flatten) := by
    conv_lhs => rw [← List.take_append_drop k hs, List.drop_eq_getElem_cons hlt]
    rw [List.flatten_append, List.flatten_cons]
  rw [← hp, List.map_map, Nat.zero_add]
  refine List.ext_getElem? fun i => ?_
  rw [List.getElem?_map, List.getElem?_map]
  by_cases hi : i < hs[k].length
  · rw [List.getElem?_range hi, List.getElem?_eq_getElem hi, Option.map_some, Option.map_some,
      Function.comp_apply, hsplit, List.getElem?_append_right (Nat.le_add_right _ _),
      Nat.add_sub_cancel_left, List.getElem?_append_left hi, List.getElem?_eq_getElem hi]
  · rw [List.getElem?_eq_none (by rw [List.length_range]; omega),
      List.getElem?_eq_none (Nat.le_of_not_lt hi)]
    rfl

/-! ## address の順 -/

section Assembled

variable {bin : Binary}

theorem Assembled.located (h : Assembled bin) {f : Func} (hf : f ∈ bin.functions) :
    Located f.addr f.rawInsns := located_rawInsns (h.wf f hf).contiguous

theorem Assembled.lt_fin (h : Assembled bin) {f : Func} (hf : f ∈ bin.functions) :
    ∀ p ∈ f.rawInsns, p.1 < f.fin := by
  intro p hp
  have hlt := located_lt (h.located hf) p hp
  rw [sum_rawInsns] at hlt
  exact Nat.lt_of_lt_of_le hlt (h.wf f hf).fits

theorem Assembled.rawInsns_lt (h : Assembled bin) : ∀ p ∈ bin.rawInsns, p.1 < 2 ^ 64 := by
  intro p hp
  obtain ⟨f, hf, hp⟩ := List.mem_flatMap.mp hp
  exact Nat.lt_of_lt_of_le (h.lt_fin hf p hp) (h.bounded f hf)

/-- 命令は address の狭義の昇順に並ぶ。 -/
theorem Assembled.rawInsns_pairwise (h : Assembled bin) :
    bin.rawInsns.Pairwise fun p q => p.1 < q.1 := by
  refine List.pairwise_flatMap.mpr ⟨fun f hf => (located_pairwise (h.located hf)).2, ?_⟩
  refine h.ascending.imp_of_mem fun {f g} hf hg hfg p hp q hq => ?_
  have hlt := h.lt_fin hf p hp
  have hge := (located_pairwise (h.located hg)).1 q hq
  omega

/-- 長さは 1 から 15 である。 -/
theorem Assembled.oplen_le (h : Assembled bin) : ∀ p ∈ bin.rawInsns, p.2.oplen ≤ 15 := by
  have hall : ∀ {xs : List (Nat × Insn)} {start : Nat}, Located start xs →
      ∀ p ∈ xs, p.2.oplen ≤ 15 := by
    intro xs
    induction xs with
    | nil => exact fun _ p hp => absurd hp List.not_mem_nil
    | cons q qs ih =>
      intro start hl p hp
      rcases List.mem_cons.mp hp with rfl | hp
      · exact hl.2.2.1
      · exact ih hl.2.2.2 p hp
  intro p hp
  obtain ⟨f, hf, hp⟩ := List.mem_flatMap.mp hp
  exact hall (h.located hf) p hp

end Assembled

/-- 折り返しの前と後に分かれない昇順の列に限り、`addend` を足しても昇順である。 -/
theorem pairwise_addAddr_iff {as : List Nat} (hs : as.Pairwise (· < ·)) (hlt : ∀ a ∈ as, a < 2 ^ 64)
    (addend : Nat) : (as.map (addAddr · addend)).Pairwise (· < ·) ↔
      ∀ a ∈ as, ∀ b ∈ as, (a + addend) / 2 ^ 64 = (b + addend) / 2 ^ 64 := by
  rw [List.pairwise_map]
  constructor
  · intro h
    have hpair : as.Pairwise fun a b => (a + addend) / 2 ^ 64 = (b + addend) / 2 ^ 64 := by
      refine (hs.and h).imp_of_mem fun {a b} ha hb hab => ?_
      have hb' := hlt b hb
      obtain ⟨h1, h2⟩ := hab
      unfold addAddr at h2
      omega
    have hsymm : Std.Symm fun a b => (a + addend) / 2 ^ 64 = (b + addend) / 2 ^ 64 :=
      ⟨fun _ _ hab => hab.symm⟩
    intro a ha b hb
    by_cases heq : a = b
    · rw [heq]
    · exact hpair.forall ha hb heq
  · intro h
    refine hs.imp_of_mem fun {a b} ha hb hab => ?_
    have heq := h a ha b hb
    unfold addAddr
    omega

/-- 区間の先頭の address。 -/
def partStart (part : List (Nat × Insn)) : Nat := (part.head?.map Prod.fst).getD 0

theorem exists_head_of_ne_nil {part : List (Nat × Insn)} (h : part ≠ []) :
    ∃ p ∈ part, part.head? = some p ∧ partStart part = p.1 := by
  cases part with
  | nil => exact absurd rfl h
  | cons p ps => exact ⟨p, List.mem_cons_self, rfl, rfl⟩

/-! ## block の構造 -/

/--
block 一つの slot。event の slot を除くと区間 `part` の命令であり、始まりの address に前の命令の長さを
足すと命令の実行時の address になる。
-/
structure BlockSlots (lifted : Bytes → Option UInt64) (addend vmaddr : Nat)
    (slots : List Instruction) (part : List (Nat × Insn)) : Prop where
  ne_nil : slots ≠ []
  handlers : slots.filter (fun x => !x.event) = part.map fun p => realSlot lifted p.2
  quiet : ∀ x ∈ slots, x.event = true → x.oplen = 0
  addr : ∀ pre p post, part = pre ++ p :: post →
    addAddr vmaddr (pre.map fun q => q.2.oplen).sum = addAddr p.1 addend

/--
`encode` の作る構造。`parts` は命令の列を block ごとに切り分けたものである。
-/
structure Structured (lifted : Bytes → Option UInt64) (bin : Binary) (addend : Nat)
    (bb : BasicBlocks) (parts : List (List (Nat × Insn))) : Prop where
  insns : parts.flatten = bin.rawInsns
  ascending : bin.rawInsns.Pairwise fun p q => p.1 < q.1
  lengths : ∀ p ∈ bin.rawInsns, (realSlot lifted p.2).oplen = p.2.oplen
  length_vmaddrs : bb.vmaddrs.length = parts.length
  length_bbhandlers : bb.bbhandlers.length = parts.length
  /-- block の slot を順に繋ぐと `rthandlers` になる。 -/
  consecutive : bb.bbhandlers.flatten = List.range bb.rthandlers.length
  stream : bb.rthandlers.filter (fun x => !x.event)
    = bin.rawInsns.map fun p => realSlot lifted p.2
  block : ∀ (k vmaddr : Nat) (ptrs : List Nat) (part : List (Nat × Insn)),
    bb.vmaddrs[k]? = some vmaddr → bb.bbhandlers[k]? = some ptrs → parts[k]? = some part →
    ∃ slots, ptrs.map (bb.rthandlers[·]?) = slots.map some ∧
      BlockSlots lifted addend vmaddr slots part
  leader : ∀ pre p post, bin.rawInsns = pre ++ p :: post →
    (p.2.comins = true ∨ ∃ q ∈ pre.getLast?, endsBlock q.2 = true) →
    ∃ part ∈ parts, part.head? = some p
  increasing : bb.vmaddrs.Pairwise (· < ·) ↔ ∀ part ∈ parts, ∀ part' ∈ parts,
    (partStart part + addend) / 2 ^ 64 = (partStart part' + addend) / 2 ^ 64

section Encode

variable {cfg : EventConfig} {lifted : Bytes → Option UInt64} {bin : Binary} {addend : Nat}
  {parts : List (List (Nat × Insn))} {segs : List Segment}

/-- 区間と segment は番号ごとに対応する。 -/
theorem holds_getElem? (hall : List.Forall₂ (Segment.Holds addend) parts segs) {k : Nat}
    {part : List (Nat × Insn)} {s : Segment} (hp : parts[k]? = some part) (hs : segs[k]? = some s) :
    s.Holds addend part := by
  obtain ⟨hk, rfl⟩ := List.getElem?_eq_some_iff.mp hp
  obtain ⟨hk', rfl⟩ := List.getElem?_eq_some_iff.mp hs
  exact List.Forall₂.get hall hk hk'

theorem map_start (hcuts : ∀ part ∈ parts, part ≠ [])
    (hall : List.Forall₂ (Segment.Holds addend) parts segs) :
    segs.map Segment.start = (parts.map partStart).map (addAddr · addend) := by
  induction hall with
  | nil => rfl
  | @cons part s parts segs h _ ih =>
    obtain ⟨hne, hnes⟩ := List.forall_mem_cons.mp hcuts
    obtain ⟨p, -, hhead, hstart⟩ := exists_head_of_ne_nil hne
    rw [List.map_cons, List.map_cons, List.map_cons, ih hnes, h.start p hhead, hstart]

theorem flatten_filter_slots (hall : List.Forall₂ (Segment.Holds addend) parts segs) :
    (segs.flatMap (Segment.slots cfg bin.arch lifted)).filter (fun x => !x.event)
      = parts.flatten.map fun p => realSlot lifted p.2 := by
  induction hall with
  | nil => rfl
  | cons h _ ih =>
    rw [List.flatMap_cons, List.filter_append, ih, h.filter_slots, List.flatten_cons,
      List.map_append]

theorem partStart_pairwise (hcuts : Cuts Continues bin.rawInsns parts) (h : Assembled bin) :
    (parts.map partStart).Pairwise (· < ·) := by
  have hpair := h.rawInsns_pairwise
  rw [← hcuts.flatten, List.pairwise_flatten] at hpair
  rw [List.pairwise_map]
  refine hpair.2.imp_of_mem fun {part part'} hp hp' hlt => ?_
  obtain ⟨p, hpm, -, hs⟩ := exists_head_of_ne_nil (hcuts.ne_nil part hp)
  obtain ⟨q, hqm, -, hs'⟩ := exists_head_of_ne_nil (hcuts.ne_nil part' hp')
  rw [hs, hs']
  exact hlt p hpm q hqm

/-- 区間を持つ segment の slot は、その block の slot である。 -/
theorem Segment.Holds.blockSlots {part : List (Nat × Insn)} {s : Segment} {a : Nat}
    (h : s.Holds addend part) (ha : Located a part) (hne : part ≠ []) :
    BlockSlots lifted addend s.start (s.slots cfg bin.arch lifted) part where
  ne_nil := fun hnil => by
    have hfilter : (s.slots cfg bin.arch lifted).filter (fun x => !x.event)
        = part.map fun p => realSlot lifted p.2 := h.filter_slots
    rw [hnil, List.filter_nil] at hfilter
    exact hne (List.map_eq_nil_iff.mp hfilter.symm)
  handlers := h.filter_slots
  quiet := h.oplen_of_event
  addr := fun _ _ _ heq => h.addr ha heq

/-- 参照のある命令と、block を終わらせる命令の次の命令は、区間の先頭である。 -/
theorem exists_leader {l pre post : List (Nat × Insn)} {p : Nat × Insn}
    (hcuts : Cuts Continues l parts) (heq : l = pre ++ p :: post)
    (hlead : p.2.comins = true ∨ ∃ q ∈ pre.getLast?, endsBlock q.2 = true) :
    ∃ part ∈ parts, part.head? = some p := by
  refine hcuts.exists_head heq fun q hq hcont => ?_
  rcases hlead with hcomins | ⟨q', hq', hends⟩
  · rw [hcont.1] at hcomins
    cases hcomins
  · rw [Option.mem_def] at hq hq'
    rw [hq, Option.some.injEq] at hq'
    rw [← hq', hcont.2] at hends
    cases hends

theorem partStart_lt (hcuts : Cuts Continues bin.rawInsns parts) (h : Assembled bin) :
    ∀ a ∈ parts.map partStart, a < 2 ^ 64 := by
  intro a ha
  obtain ⟨part, hpart, rfl⟩ := List.mem_map.mp ha
  obtain ⟨p, hp, -, hstart⟩ := exists_head_of_ne_nil (hcuts.ne_nil part hpart)
  rw [hstart]
  refine h.rawInsns_lt p ?_
  rw [← hcuts.flatten]
  exact List.mem_flatten.mpr ⟨part, hpart, hp⟩

/-- `encode` の三つの列を segment で言い直したもの。 -/
theorem encode_lists (cfg : EventConfig) (lifted : Bytes → Option UInt64) (bin : Binary)
    (addend : Nat) :
    (encode cfg lifted bin addend).vmaddrs = (bin.segments cfg addend).map Segment.start ∧
      (encode cfg lifted bin addend).rthandlers
        = ((bin.segments cfg addend).map (Segment.slots cfg bin.arch lifted)).flatten ∧
      (encode cfg lifted bin addend).bbhandlers
        = convertFrom 0 ((bin.segments cfg addend).map (Segment.slots cfg bin.arch lifted)) := by
  have hslots : ((bin.segments cfg addend).map (Segment.block cfg bin.arch lifted)).map
      Block.handlers = (bin.segments cfg addend).map (Segment.slots cfg bin.arch lifted) := by
    rw [List.map_map]
    rfl
  rw [encode_eq]
  refine ⟨?_, congrArg List.flatten hslots, congrArg (convertFrom 0) hslots⟩
  show ((bin.segments cfg addend).map (Segment.block cfg bin.arch lifted)).map Block.vmaddr = _
  rw [List.map_map]
  rfl

/--
関数が昇順で重ならず、命令が隙間なく並ぶ binary では、どの設定でも、どの `addend` でも、`encode` は命令の列を
block に切り分けたものを作る。block の address が昇順になるのは、折り返しの前と後に block が分かれないときに
限る。
-/
theorem encode_structured (h : Assembled bin) (cfg : EventConfig) (lifted : Bytes → Option UInt64)
    (addend : Nat) :
    ∃ parts, Structured lifted bin addend (encode cfg lifted bin addend) parts := by
  obtain ⟨parts, hcuts, hlocated, hall⟩ := segments_cuts cfg addend h
  obtain ⟨hvmaddrs, hrt, hbb⟩ := encode_lists cfg lifted bin addend
  have hlen : parts.length = (bin.segments cfg addend).length := hall.length_eq
  refine ⟨parts, hcuts.flatten, h.rawInsns_pairwise, fun p hp => realSlot_oplen (h.oplen_le p hp),
    ?_, ?_, ?_, ?_, ?_, fun _ _ _ heq hlead => exists_leader hcuts heq hlead, ?_⟩
  · rw [hvmaddrs, List.length_map, hlen]
  · rw [hbb, length_convertFrom, List.length_map, hlen]
  · rw [hbb, hrt, flatten_convertFrom]
    simp
  · rw [hrt, ← List.flatMap_def, flatten_filter_slots hall, hcuts.flatten]
  · intro k vmaddr ptrs part hv hp hpart
    rw [hvmaddrs, List.getElem?_map] at hv
    obtain ⟨s, hs, rfl⟩ := Option.map_eq_some_iff.mp hv
    have hmem := List.mem_of_getElem? hpart
    obtain ⟨a, ha⟩ := hlocated part hmem
    have hslots : ((bin.segments cfg addend).map (Segment.slots cfg bin.arch lifted))[k]?
        = some (s.slots cfg bin.arch lifted) := by
      rw [List.getElem?_map, hs]
      rfl
    rw [hbb] at hp
    refine ⟨s.slots cfg bin.arch lifted, ?_,
      (holds_getElem? hall hpart hs).blockSlots ha (hcuts.ne_nil part hmem)⟩
    rw [hrt]
    exact map_getElem?_convertFrom hp hslots
  · rw [hvmaddrs, map_start hcuts.ne_nil hall,
      pairwise_addAddr_iff (partStart_pairwise hcuts h) (partStart_lt hcuts h),
      List.forall_mem_map]
    refine forall₂_congr fun part _ => ?_
    rw [List.forall_mem_map]

end Encode

/-! ## 例 -/

/-- 0x1000 で分岐し、0x2000 で復帰する二つの関数。 -/
def sampleFuncs : Binary where
  arch := .arm64
  functions := [⟨0x1000, 0x1008, [⟨0, 4, .jcond, false, []⟩, ⟨4, 4, .other, false, []⟩]⟩,
    ⟨0x2000, 0x2004, [⟨0, 4, .ret, true, []⟩]⟩]

theorem sampleFuncs_assembled : Assembled sampleFuncs where
  wf := by
    intro f hf
    rcases List.mem_cons.mp hf with rfl | hf
    · exact ⟨⟨rfl, by decide, by decide, rfl, by decide, by decide, trivial⟩, by decide⟩
    · rw [List.mem_singleton.mp hf]
      exact ⟨⟨rfl, by decide, by decide, trivial⟩, by decide⟩
  ne_nil := by decide
  ascending := by decide
  bounded := by decide

theorem sampleFuncs_structured : ∃ parts, Structured (fun _ => none) sampleFuncs 0x10000
    (encode ⟨true, true, true, false⟩ (fun _ => none) sampleFuncs 0x10000) parts :=
  encode_structured sampleFuncs_assembled _ _ _

/-- 二つの関数の間で 64 bit を越える `addend` では、block の address は昇順にならない。 -/
theorem sampleFuncs_not_increasing : Assembled sampleFuncs ∧
    ¬ (encode ⟨false, false, false, false⟩ (fun _ => none) sampleFuncs
      (2 ^ 64 - 0x1800)).vmaddrs.Pairwise (· < ·) :=
  ⟨sampleFuncs_assembled, by decide⟩

end AetherVM.Orchestrator
