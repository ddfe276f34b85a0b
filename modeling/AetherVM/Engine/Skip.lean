import AetherVM.Engine.Terminate
import AetherVM.Orchestrator.Lookup

/-!
# 命令を飛ばす callback（`event_insn_before`、`Orchestrator::encode`）

命令の前の event に callback が `Processed` を返すと、`event_insn_before` は二つ先の slot を返して命令の実装を
飛ばす。`encode` は、命令の前の event と実装のあいだに、debugger の slot を設定に応じて置く。飛ばす数は
決まっているので、debugger の slot があるときは、実装の slot そのものに着く。
-/

namespace AetherVM

open Infra Orchestrator

/-! ## 命令の slot の場所 -/

/-- `encode` した binary の中の、一つの命令の場所。 -/
structure InsnPlace (cfg : Orchestrator.EventConfig) (bin : Orchestrator.Binary) (addend : Nat)
    where
  block : Nat
  seg : Segment
  index : Nat
  addr : Nat
  insn : Insn
  seg_eq : (bin.segments cfg addend)[block]? = some seg
  insn_eq : seg.insns[index]? = some (addr, insn)

namespace InsnPlace

variable {cfg : Orchestrator.EventConfig} {bin : Orchestrator.Binary} {addend : Nat}
  (place : InsnPlace cfg bin addend) (lifted : Bytes → Option UInt64)

/-- 命令の最初の slot の番号。 -/
def first : Nat :=
  blockStart cfg bin.arch lifted (bin.segments cfg addend) place.block + (place.seg.pre.length +
    ((place.seg.insns.take place.index).flatMap fun p => insnSlots cfg bin.arch lifted p.2).length)

/-- 命令の実装の slot の番号。 -/
def real : Nat := place.first lifted + (beforeSlots cfg).length

/-- 命令の slot は、その場所から順に並ぶ。 -/
theorem getElem?_rthandlers {j : Nat}
    (hj : j < (insnSlots cfg bin.arch lifted place.insn).length) :
    (encode cfg lifted bin addend).rthandlers[place.first lifted + j]?
      = (insnSlots cfg bin.arch lifted place.insn)[j]? := by
  have hslots : place.seg.slots cfg bin.arch lifted = place.seg.pre ++
      ((place.seg.insns.take place.index).flatMap (fun p => insnSlots cfg bin.arch lifted p.2) ++
        (insnSlots cfg bin.arch lifted place.insn ++
          ((place.seg.insns.drop (place.index + 1)).flatMap
            (fun p => insnSlots cfg bin.arch lifted p.2) ++ place.seg.post))) := by
    rw [Segment.slots, flatMap_eq_of_getElem? place.insn_eq]
    simp only [List.append_assoc]
  have hlt : place.seg.pre.length + ((place.seg.insns.take place.index).flatMap
      fun p => insnSlots cfg bin.arch lifted p.2).length + j
        < (place.seg.slots cfg bin.arch lifted).length := by
    rw [hslots]
    simp only [List.length_append]
    omega
  rw [encode_eq, first, Nat.add_assoc]
  refine (blocksOf_rthandlers place.seg_eq hlt).trans ?_
  rw [hslots, Nat.add_assoc, List.getElem?_append_right (Nat.le_add_right _ _),
    Nat.add_sub_cancel_left, List.getElem?_append_right (Nat.le_add_right _ _),
    Nat.add_sub_cancel_left, List.getElem?_append_left hj]

/-- 命令の event が有効なら、最初の slot は命令の前の event である。 -/
theorem getElem?_first (hinsn : cfg.insn = true) :
    (encode cfg lifted bin addend).rthandlers[place.first lifted]?
      = some (.ofEvent .insnBefore) := by
  have hget := place.getElem?_rthandlers lifted (j := 0)
    (by rw [insnSlots, List.length_append, List.length_cons]; omega)
  rw [Nat.add_zero] at hget
  rw [hget, insnSlots, beforeSlots, setupEvent, if_pos hinsn]
  rfl

theorem getElem?_real : (encode cfg lifted bin addend).rthandlers[place.real lifted]?
    = some (realSlot lifted place.insn) := by
  have hget := place.getElem?_rthandlers lifted (j := (beforeSlots cfg).length)
    (by rw [insnSlots, List.length_append, List.length_cons]; omega)
  rw [real, hget, insnSlots, List.getElem?_append_right (Nat.le_refl _), Nat.sub_self]
  rfl

end InsnPlace

/-! ## どの命令にも場所がある -/

section Places

variable {cfg : Orchestrator.EventConfig} {addr addend : Nat}

/-- 分割した命令の列を繋ぐと、関数の命令の列に戻る。 -/
theorem segmentInsns_insns (fin : List Instruction) (insns : List Insn) (first newbb : Bool)
    (cur : Segment) : (segmentInsns cfg addr addend fin insns first newbb cur).flatMap Segment.insns
      = cur.insns ++ insns.map fun i => (addAddr (addr + i.fnoff) addend, i) := by
  induction insns generalizing first newbb cur with
  | nil => simp [segmentInsns]
  | cons i rest ih =>
    rw [segmentInsns]
    split
    · rw [List.flatMap_cons, ih]
      rfl
    · rw [ih]
      simp

/-- binary のどの命令も、どこかの segment にある。 -/
theorem exists_insnPlace (cfg : Orchestrator.EventConfig) {bin : Orchestrator.Binary} {f : Func}
    {i : Insn} (hf : f ∈ bin.functions) (hi : i ∈ f.insns) : ∃ place : InsnPlace cfg bin addend,
      place.insn = i ∧ place.addr = addAddr (f.addr + i.fnoff) addend := by
  have hmem : (addAddr (f.addr + i.fnoff) addend, i) ∈
      (bin.segments cfg addend).flatMap Segment.insns := by
    unfold Binary.segments
    rw [List.flatMap_assoc, List.mem_flatMap]
    refine ⟨f, hf, ?_⟩
    rw [segmentFunc, segmentInsns_insns]
    exact List.mem_append_right _ (List.mem_map.mpr ⟨i, hi, rfl⟩)
  obtain ⟨seg, hseg, hp⟩ := List.mem_flatMap.mp hmem
  obtain ⟨b, hb⟩ := List.mem_iff_getElem?.mp hseg
  obtain ⟨k, hk⟩ := List.mem_iff_getElem?.mp hp
  exact ⟨⟨b, seg, k, _, i, hb, hk⟩, rfl, rfl⟩

/-- 命令の番地は、前の命令の長さを足したものである。 -/
theorem located_addr : ∀ {start : Nat} {xs : List (Nat × Insn)}, Located start xs →
    ∀ {k a : Nat} {i : Insn}, xs[k]? = some (a, i) →
      a = start + ((xs.take k).map fun p => p.2.oplen).sum
  | start, (b, j) :: xs, h, 0, a, i, hk => by
    rw [List.getElem?_cons_zero, Option.some.injEq, Prod.mk.injEq] at hk
    rw [← hk.1]
    exact h.1
  | start, (b, j) :: xs, h, k + 1, a, i, hk => by
    rw [List.getElem?_cons_succ] at hk
    obtain ⟨rfl, -, -, h⟩ := h
    rw [located_addr h hk, List.take_succ_cons, List.map_cons, List.sum_cons, Nat.add_assoc]

/-- 命令の番地は、`encode` が登録した block の番地から、その block の中の前の命令の長さだけ進んだものである。 -/
theorem InsnPlace.addr_eq {bin : Orchestrator.Binary} (h : Encodable bin addend) (place : InsnPlace cfg bin addend)
    (lifted : Bytes → Option UInt64) :
    (encode cfg lifted bin addend).vmaddrs[place.block]? = some place.seg.start ∧
      place.addr = place.seg.start
        + ((place.seg.insns.take place.index).map fun p => p.2.oplen).sum := by
  constructor
  · rw [encode_eq]
    show (blocksOf cfg bin.arch lifted (bin.segments cfg addend) _).vmaddrs[place.block]? = _
    rw [blocksOf_vmaddrs, List.getElem?_map, place.seg_eq, Option.map_some]
  · have hok := (arranged_segments h cfg).ok place.seg (List.mem_of_getElem? place.seg_eq)
    exact located_addr hok.located place.insn_eq

end Places

/-! ## 飛ばした先 -/

namespace Vm

variable {σ γ : Type} {e : Engine σ γ} {s s' : Vm σ γ} {bin : Orchestrator.Binary}
  {addend n : Nat} {lifted : Bytes → Option UInt64}
  {place : InsnPlace e.cfg.orchestrator bin addend}

/-- binary `n` の命令の前の event の slot にいて、callback の答えが `Processed` であること。 -/
structure Skipping (e : Engine σ γ) (s : Vm σ γ) (n : Nat) (lifted : Bytes → Option UInt64)
    (place : InsnPlace e.cfg.orchestrator bin addend) : Prop where
  encoded : s.blocks[n]? = some (encode e.cfg.orchestrator lifted bin addend)
  control : s.control = .slot ⟨n, (place.first lifted : Nat)⟩
  answer : s.answer e (eventAt e s .insnBefore) = .processed

/-- 命令が飛ばされること。命令の実装の slot のすぐ後の slot へ移る。 -/
structure Skips (e : Engine σ γ) (s : Vm σ γ) (n : Nat) (lifted : Bytes → Option UInt64)
    (place : InsnPlace e.cfg.orchestrator bin addend) : Prop where
  real : s.slotAt ⟨n, (place.real lifted : Nat)⟩ = some (realSlot lifted place.insn)
  next : ∃ s', s.exec e = some s' ∧ s'.control = .slot ⟨n, (place.real lifted : Nat) + 1⟩

theorem slotAt_of_encoded (h : s.blocks[n]? = some (encode e.cfg.orchestrator lifted bin addend))
    (i : Nat) : s.slotAt ⟨n, (i : Nat)⟩ =
      (encode e.cfg.orchestrator lifted bin addend).rthandlers[i]? := by
  unfold slotAt
  rw [h]
  show (if (i : Int) < 0 then none else _) = _
  rw [if_neg (by omega)]
  rfl

/-- `Processed` では、二つ先の slot へ移る。 -/
theorem Skipping.exec (hinsn : e.cfg.insn = true) (h : Skipping e s n lifted place) :
    ∃ s', s.exec e = some s' ∧ s'.blocks = s.blocks ∧ s'.guest = s.guest ∧
      s'.control = .slot ⟨n, (place.first lifted : Nat) + 2⟩ := by
  have hslot : s.slotAt ⟨n, (place.first lifted : Nat)⟩ = some (.ofEvent .insnBefore) := by
    rw [slotAt_of_encoded h.encoded]
    exact place.getElem?_first lifted hinsn
  have hexec : s.exec e = some (s.execInsnBefore e ⟨n, (place.first lifted : Nat)⟩) := by
    unfold Vm.exec
    rw [h.control]
    dsimp only
    rw [hslot]
    rfl
  refine ⟨_, hexec, ?_⟩
  have hanswer : (s.runtimeEvent e .insnBefore).1 = .processed := h.answer
  unfold execInsnBefore
  split
  · next s₁ heq =>
    rw [show s₁ = (s.runtimeEvent e .insnBefore).2 by rw [heq]]
    exact ⟨rfl, rfl, rfl⟩
  · next heq =>
    rw [heq] at hanswer
    cases hanswer
  · next heq =>
    rw [heq] at hanswer
    cases hanswer

/-- 命令の前の event から実装の slot までの数。 -/
theorem length_beforeSlots (hinsn : e.cfg.insn = true) :
    (beforeSlots e.cfg.orchestrator).length = if e.cfg.debug then 2 else 1 := by
  have hcfg : e.cfg.orchestrator.insn = true := hinsn
  rw [beforeSlots, setupEvent, if_pos hcfg]
  show ([_] ++ if e.cfg.debug then _ else _).length = _
  split
  · rfl
  · rfl

/-- `Processed` で命令が飛ばされるのは、debugger の bit が立っていないときに限る。 -/
theorem skips_iff (hinsn : e.cfg.insn = true) (h : Skipping e s n lifted place) :
    Skips e s n lifted place ↔ e.cfg.debug = false := by
  obtain ⟨s', hs, -, -, hcontrol⟩ := h.exec hinsn
  have hreal : place.real lifted = place.first lifted + if e.cfg.debug then 2 else 1 := by
    rw [InsnPlace.real, length_beforeSlots hinsn]
  constructor
  · rintro ⟨-, t, ht, hnext⟩
    rw [hs] at ht
    cases ht
    rw [hcontrol] at hnext
    have hindex : ((place.first lifted : Nat) : Int) + 2 = (place.real lifted : Nat) + 1 :=
      congrArg Slot.index (Control.slot.inj hnext)
    cases hdebug : e.cfg.debug with
    | false => rfl
    | true =>
      rw [hreal, hdebug, if_pos rfl] at hindex
      omega
  · intro hdebug
    rw [hdebug, if_neg Bool.false_ne_true] at hreal
    refine ⟨?_, s', hs, ?_⟩
    · rw [slotAt_of_encoded h.encoded]
      exact place.getElem?_real lifted
    · rw [hcontrol, hreal]
      rfl

/-- debugger の bit が立っていると、`Processed` の次に命令の実装が実行される。 -/
theorem Skipping.runs_real (hinsn : e.cfg.insn = true) (hdebug : e.cfg.debug = true)
    (h : Skipping e s n lifted place) {entry : UInt64}
    (hentry : lifted place.insn.opcode = some entry) : ∃ s' s'', s.exec e = some s' ∧
      s'.exec e = some s'' ∧ s''.log = s'.log ++ [Action.handler entry] := by
  obtain ⟨s', hs, hblocks, -, hcontrol⟩ := h.exec hinsn
  have hreal : place.real lifted = place.first lifted + 2 := by
    rw [InsnPlace.real, length_beforeSlots hinsn, if_pos hdebug]
  have hslot : s'.slotAt ⟨n, ((place.first lifted + 2 : Nat) : Int)⟩
      = some (realSlot lifted place.insn) := by
    rw [slotAt_of_encoded (hblocks ▸ h.encoded), ← hreal]
    exact place.getElem?_real lifted
  refine ⟨s', { s' with
    control := .code ⟨n, (place.first lifted : Nat) + 2⟩ (e.code entry s'.guest)
    log := s'.log ++ [Action.handler entry] }, hs, ?_, rfl⟩
  unfold Vm.exec
  rw [hcontrol]
  dsimp only
  rw [show (⟨n, (place.first lifted : Nat) + 2⟩ : Slot) =
    ⟨n, ((place.first lifted + 2 : Nat) : Int)⟩ from rfl, hslot, realSlot, hentry]
  rfl

/-! ## 例 -/

/-- 命令の前の event にいつも `Processed` を返す callback の engine。 -/
def skipper (debug : Bool) : Engine Unit Nat :=
  { stopper .insnBefore with
    cfg := ⟨false, false, false, false, true, false, false, false, debug⟩
    callbacks := [fun w _ => (.processed, ⟨[], 0⟩, w)] }

/-- NOP が一つだけの binary。 -/
def nopBinary : Orchestrator.Binary :=
  ⟨.arm64, [⟨0x1000, 0x1004, [⟨0, 4, .other, false, [0x1f, 0x20, 0x03, 0xd5]⟩]⟩]⟩

/-- その命令の場所。 -/
def nopPlace (debug : Bool) : InsnPlace (skipper debug).cfg.orchestrator nopBinary 0 where
  block := 0
  seg := ⟨0x1000, [], [(0x1000, ⟨0, 4, .other, false, [0x1f, 0x20, 0x03, 0xd5]⟩)],
    [.ofEvent .finishEmulation]⟩
  index := 0
  addr := 0x1000
  insn := ⟨0, 4, .other, false, [0x1f, 0x20, 0x03, 0xd5]⟩
  seg_eq := rfl
  insn_eq := rfl

/-- NOP の前の event の slot にいる状態。 -/
def nopStart (debug : Bool) : Vm Unit Nat :=
  { sampleStart with
    blocks := [encode (skipper debug).cfg.orchestrator (fun _ => some 0x5000) nopBinary 0] }

theorem nopStart_skipping (debug : Bool) :
    Skipping (skipper debug) (nopStart debug) 0 (fun _ => some 0x5000) (nopPlace debug) :=
  ⟨rfl, rfl, rfl⟩

theorem nopStart_skips :
    Skips (skipper false) (nopStart false) 0 (fun _ => some 0x5000) (nopPlace false) :=
  (skips_iff rfl (nopStart_skipping false)).mpr rfl

/-- debugger の bit を立てると、`Processed` を返しても NOP の実装が実行される。 -/
theorem nopStart_not_skips :
    ¬ Skips (skipper true) (nopStart true) 0 (fun _ => some 0x5000) (nopPlace true) ∧
      ∃ s' s'', (nopStart true).exec (skipper true) = some s' ∧
        s'.exec (skipper true) = some s'' ∧ s''.log = s'.log ++ [Action.handler 0x5000] := by
  refine ⟨?_, (nopStart_skipping true).runs_real rfl rfl rfl⟩
  rintro ⟨-, s', hs, hnext⟩
  cases hs
  have hindex := congrArg Slot.index (Control.slot.inj hnext)
  revert hindex
  decide

end Vm

end AetherVM
