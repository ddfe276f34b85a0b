import AetherVM.Infra.Run
import AetherVM.Engine.Vm

/-!
# event の opt-in

設定の bit が立っていない種類の event が callback に届くのは、どの step かを言う。

* 関数・block・命令の event は、`encode` が bit を見て slot を置くので、届かない。
* lift・memory・system call・trap の event は、bit を見ずに起きる。

解読できない命令の event だけは、設定に bit が無い。
-/

namespace AetherVM

open Infra Orchestrator

namespace Orchestrator

/-- 前後の event の slot を置く bit。 -/
def gate (cfg : EventConfig) : EventFunc → Bool
  | .insnBefore | .insnAfter => cfg.insn
  | .blockBefore | .blockAfter => cfg.block
  | .funcBefore | .funcAfter => cfg.func
  | _ => true

/-- 前後の event の slot は、bit が立っているものだけである。 -/
def Gated (cfg : EventConfig) (xs : List Instruction) : Prop :=
  ∀ x ∈ xs, ∀ f, x.handler = .func f → gate cfg f = true

section Gated

variable {cfg : EventConfig} {xs ys : List Instruction}

theorem gated_nil : Gated cfg [] := fun _ hx => absurd hx List.not_mem_nil

theorem gated_append (hx : Gated cfg xs) (hy : Gated cfg ys) : Gated cfg (xs ++ ys) := by
  intro x hmem
  exact (List.mem_append.mp hmem).elim (hx x) (hy x)

theorem gated_singleton {f : EventFunc} (h : gate cfg f = true) : Gated cfg [.ofEvent f] := by
  intro x hx g hg
  rw [List.mem_singleton.mp hx] at hg
  cases hg
  exact h

theorem gated_ite {c : Prop} [Decidable c] {f : EventFunc} (h : c → gate cfg f = true) :
    Gated cfg (if c then [.ofEvent f] else []) := by
  split
  · next hc => exact gated_singleton (h hc)
  · exact gated_nil

theorem gated_setupEvent (cfg : EventConfig) (f : EventFunc) : Gated cfg (setupEvent cfg f) := by
  cases f <;> first | exact gated_nil | exact gated_ite id

theorem gated_realSlot (lifted : Bytes → Option UInt64) (i : Insn) :
    Gated cfg [realSlot lifted i] := by
  intro x hx g hg
  rw [List.mem_singleton.mp hx] at hg
  unfold realSlot at hg
  split at hg
  · cases hg
    rfl
  · cases hg

theorem gated_afterSlots (cfg : EventConfig) (arch : ArchType) (i : Insn) :
    Gated cfg (afterSlots cfg arch i) := by
  unfold afterSlots
  refine gated_append ?_ ?_
  · split
    · exact gated_ite fun _ => rfl
    · exact gated_ite fun _ => rfl
    · exact gated_setupEvent cfg _
  · split
    · exact gated_singleton rfl
    · exact gated_singleton rfl
    · exact gated_singleton rfl
    · exact gated_append (gated_setupEvent cfg _) (gated_singleton rfl)
    · exact gated_nil

theorem gated_insnSlots (cfg : EventConfig) (arch : ArchType) (lifted : Bytes → Option UInt64)
    (i : Insn) : Gated cfg (insnSlots cfg arch lifted i) := by
  unfold insnSlots beforeSlots
  refine gated_append (gated_append (gated_setupEvent cfg _) (gated_ite fun _ => rfl)) ?_
  exact gated_append (gated_realSlot lifted i) (gated_afterSlots cfg arch i)

theorem gated_encodeInsns (arch : ArchType) (lifted : Bytes → Option UInt64) (addr addend : Nat)
    {fin : List Instruction} (hfin : Gated cfg fin) (insns : List Insn) (first newbb : Bool)
    {cur : Block} (hcur : Gated cfg cur.handlers) :
    ∀ b ∈ encodeInsns cfg arch lifted addr addend fin insns first newbb cur,
      Gated cfg b.handlers := by
  induction insns generalizing first newbb cur with
  | nil =>
    intro b hb
    rw [encodeInsns, List.mem_singleton] at hb
    rw [hb]
    exact gated_append hcur hfin
  | cons i rest ih =>
    have hslots := gated_insnSlots cfg arch lifted i
    intro b hb
    unfold encodeInsns at hb
    split at hb
    · rcases List.mem_cons.mp hb with rfl | hb
      · exact gated_append hcur (gated_setupEvent cfg _)
      · exact ih _ _ (gated_append (gated_setupEvent cfg _) hslots) b hb
    · exact ih _ _ (gated_append hcur hslots) b hb

/-- `encode` の置く slot は、どれも bit に従う。 -/
theorem gated_encode (cfg : EventConfig) (lifted : Bytes → Option UInt64) (bin : Binary)
    (addend : Nat) : Gated cfg (encode cfg lifted bin addend).rthandlers := by
  intro x hx
  obtain ⟨l, hl, hx⟩ := List.mem_flatten.mp hx
  obtain ⟨b, hb, rfl⟩ := List.mem_map.mp hl
  obtain ⟨f, -, hb⟩ := List.mem_flatMap.mp hb
  have hfin : Gated cfg
      (if bin.functions.length = 1 then [Instruction.ofEvent .finishEmulation] else []) :=
    gated_ite fun _ => rfl
  have hcur := gated_append (gated_setupEvent cfg .funcBefore) (gated_setupEvent cfg .blockBefore)
  exact gated_encodeInsns bin.arch lifted f.addr addend hfin f.insns true false hcur b hb x hx

end Gated

end Orchestrator

/-! ## 届いた event と設定 -/

/-- 届いた event は、どれも bit の立っている種類である。 -/
def OptIn (cfg : EventConfig) (log : List Action) : Prop :=
  ∀ i t r, .delivered i t r ∈ log → cfg.enabled t = true

theorem optIn_append {cfg : EventConfig} {log new : List Action} :
    OptIn cfg (log ++ new) ↔ OptIn cfg log ∧ OptIn cfg new := by
  constructor
  · intro h
    exact ⟨fun i t r hm => h i t r (List.mem_append_left _ hm),
      fun i t r hm => h i t r (List.mem_append_right _ hm)⟩
  · rintro ⟨hlog, hnew⟩ i t r hm
    exact (List.mem_append.mp hm).elim (hlog i t r) (hnew i t r)

/-- event でない動作は、設定に関わらない。 -/
theorem optIn_singleton {cfg : EventConfig} {a : Action} (h : ∀ i t r, a ≠ .delivered i t r) :
    OptIn cfg [a] := by
  intro i t r hm
  exact absurd (List.mem_singleton.mp hm).symm (h i t r)

namespace Vm

variable {σ γ : Type} {e : Engine σ γ} {s s' : Vm σ γ}

/-- event を一つ起こして設定に従うのは、callback が無いか、その bit が立っているときに限る。 -/
theorem optIn_raise_iff (ev : Event) : OptIn e.cfg (s.raise e ev).2.2.log ↔
    OptIn e.cfg s.log ∧ (e.callbacks = [] ∨ e.cfg.enabled ev.type = true) := by
  show OptIn e.cfg (s.log ++ (handleEvent e.callbacks 0 s.world ev).log) ↔ _
  rw [optIn_append]
  refine and_congr_right fun _ => ⟨fun h => ?_, fun h i t r hm => ?_⟩
  · by_cases hne : e.callbacks = []
    · exact .inl hne
    · obtain ⟨result, hmem⟩ := exists_delivered hne 0 s.world ev
      exact .inr (h 0 ev.type result hmem)
  · rcases h with hnil | henabled
    · rw [hnil] at hm
      cases hm
    · obtain ⟨j, result, heq⟩ := mem_log_handleEvent hm
      cases heq
      exact henabled

/-! ## lift -/

theorem blocks_raiseLiftAfter (addr : Nat) (opcode : Bytes) (names : List String) (s : Vm σ γ) :
    (raiseLiftAfter e addr opcode names s).blocks = s.blocks := by
  induction names generalizing opcode s with
  | nil => rfl
  | cons name rest ih => exact ih _ _

theorem optIn_raiseLiftAfter (addr : Nat) (opcode : Bytes) (names : List String) (s : Vm σ γ)
    (hok : e.callbacks = [] ∨ e.cfg.lift = true) :
    OptIn e.cfg (raiseLiftAfter e addr opcode names s).log ↔ OptIn e.cfg s.log := by
  induction names generalizing opcode s with
  | nil => rfl
  | cons name rest ih =>
    rw [raiseLiftAfter, ih, optIn_raise_iff]
    exact and_iff_left hok

theorem optIn_of_raiseLiftAfter {addr : Nat} {opcode : Bytes} {names : List String} {s : Vm σ γ}
    (h : OptIn e.cfg (raiseLiftAfter e addr opcode names s).log) : OptIn e.cfg s.log := by
  induction names generalizing opcode s with
  | nil => exact h
  | cons name rest ih =>
    rw [raiseLiftAfter] at h
    exact ((optIn_raise_iff _).mp (ih h)).1

/-- 既に lift した命令では、何も起きない。 -/
theorem transform_of_mem {opcode : Bytes} (h : opcode ∈ s.lifted) (addr : Nat) :
    s.transform e opcode addr = s := if_pos h

/-- 新しい命令では、`LiftBefore` の後に `LiftAfter` がいくつか起きる。 -/
theorem transform_of_notMem {opcode : Bytes} (h : opcode ∉ s.lifted) (addr : Nat) :
    ∃ edited names, s.transform e opcode addr = raiseLiftAfter e addr edited names
      { (s.raise e ⟨.liftBefore, addr, .lift opcode ""⟩).2.2 with lifted := opcode :: s.lifted } :=
  ⟨_, _, if_neg h⟩

theorem optIn_transform_iff {opcode : Bytes} (h : opcode ∉ s.lifted) (addr : Nat) :
    OptIn e.cfg (s.transform e opcode addr).log ↔
      OptIn e.cfg s.log ∧ (e.callbacks = [] ∨ e.cfg.lift = true) := by
  have hbefore := optIn_raise_iff (e := e) (s := s) ⟨.liftBefore, addr, .lift opcode ""⟩
  obtain ⟨edited, names, heq⟩ := transform_of_notMem (e := e) h addr
  rw [heq]
  constructor
  · intro hlog
    have hraised := optIn_of_raiseLiftAfter hlog
    exact hbefore.mp hraised
  · intro hok
    exact (optIn_raiseLiftAfter _ _ _ _ hok.2).mpr (hbefore.mpr hok)

/-- 一単位の lift が設定に従う条件。 -/
def UnitOk (e : Engine σ γ) (lifted : List Bytes) : LiftUnit → Prop
  | .insn opcode _ => e.cfg.lift = true ∨ opcode ∈ lifted
  | .invalid _ => True

theorem optIn_liftUnit_iff (u : LiftUnit) : OptIn e.cfg (liftUnit e s u).log ↔
    OptIn e.cfg s.log ∧ (e.callbacks = [] ∨ UnitOk e s.lifted u) := by
  cases u with
  | insn opcode addr =>
    by_cases hmem : opcode ∈ s.lifted
    · rw [liftUnit, transform_of_mem hmem]
      exact (and_iff_left (.inr (.inr hmem))).symm
    · rw [liftUnit, optIn_transform_iff hmem, UnitOk, or_iff_left hmem]
  | invalid addr =>
    rw [liftUnit, optIn_raise_iff]
    exact and_congr_right fun _ => iff_of_true (.inr rfl) (.inr trivial)

theorem blocks_liftUnit (u : LiftUnit) : (liftUnit e s u).blocks = s.blocks := by
  cases u with
  | invalid addr => rfl
  | insn opcode addr =>
    by_cases hmem : opcode ∈ s.lifted
    · rw [liftUnit, transform_of_mem hmem]
    · obtain ⟨edited, names, heq⟩ := transform_of_notMem (e := e) hmem addr
      rw [liftUnit, heq, blocks_raiseLiftAfter]
      rfl

/-- 命令列を lift しても、slot の列は変わらない。 -/
theorem blocks_foldl_liftUnit (us : List LiftUnit) (s : Vm σ γ) :
    (us.foldl (liftUnit e) s).blocks = s.blocks := by
  induction us generalizing s with
  | nil => rfl
  | cons u us ih => exact (ih _).trans (blocks_liftUnit u)

/-- 条件を満たす一単位の後でも、残りの条件は変わらない。 -/
theorem unitOk_liftUnit_iff {u v : LiftUnit} (h : UnitOk e s.lifted u) :
    UnitOk e (liftUnit e s u).lifted v ↔ UnitOk e s.lifted v := by
  cases u with
  | invalid addr => rfl
  | insn opcode addr =>
    rcases h with hlift | hmem
    · cases v with
      | insn opcode' addr' => exact iff_of_true (.inl hlift) (.inl hlift)
      | invalid addr' => rfl
    · rw [liftUnit, transform_of_mem hmem]

theorem optIn_liftUnits_iff (us : List LiftUnit) (s : Vm σ γ) :
    OptIn e.cfg (us.foldl (liftUnit e) s).log ↔
      OptIn e.cfg s.log ∧ (e.callbacks = [] ∨ ∀ u ∈ us, UnitOk e s.lifted u) := by
  induction us generalizing s with
  | nil => simp
  | cons u rest ih =>
    rw [List.foldl_cons, ih, optIn_liftUnit_iff, List.forall_mem_cons, and_assoc]
    refine and_congr_right fun _ => ?_
    by_cases hnil : e.callbacks = []
    · simp [hnil]
    · rw [or_iff_right hnil, or_iff_right hnil, or_iff_right hnil]
      exact and_congr_right fun hu => forall₂_congr fun v _ => unitOk_liftUnit_iff hu

/-! ## 実行 -/

/-- slot の関数が設定に従う条件。 -/
def slotOk (cfg : EventConfig) : EventFunc → Bool
  | .syscallInterpret => cfg.syscall
  | .interruptInterpret => cfg.trap
  | _ => true

/-- 次の intrinsic が設定に従う条件。 -/
def codeOk (cfg : EventConfig) : GuestCode γ → Bool
  | .ret _ => true
  | .readMemory _ _ _ _ | .writeMemory _ _ _ _ _ => cfg.memory
  | .hyperCall _ .x86SysCall _ => cfg.syscall
  | .hyperCall _ .aarch64Breakpoint _ => cfg.trap
  | .hyperCall _ .other _ => true

/-- 次の一歩が設定に従う条件。 -/
def ExecOk (e : Engine σ γ) (s : Vm σ γ) : Prop :=
  match s.control with
  | .slot p => ∀ x f, s.slotAt p = some x → x.handler = .func f → slotOk e.cfg f = true
  | .code _ h => codeOk e.cfg h = true
  | .idle | .finished | .aborted => True

theorem log_execInsnBefore (p : Slot) :
    (s.execInsnBefore e p).log = (s.runtimeEvent e .insnBefore).2.log ∧
      (s.execInsnBefore e p).blocks = s.blocks := by
  have hblocks : (s.runtimeEvent e .insnBefore).2.blocks = s.blocks := rfl
  unfold execInsnBefore
  split
  · next h => exact ⟨by rw [h], by rw [← hblocks, h]⟩
  · next h => exact ⟨by rw [h], by rw [← hblocks, h]⟩
  · next h => exact ⟨by rw [h], by rw [← hblocks, h]⟩

theorem execSyscall_blocks (guest : γ) : (s.execSyscall e guest).blocks = s.blocks := by
  unfold execSyscall
  dsimp only
  split <;> rfl

theorem optIn_execSyscall_iff (guest : γ) : OptIn e.cfg (s.execSyscall e guest).log ↔
    OptIn e.cfg s.log ∧ (e.callbacks = [] ∨ e.cfg.syscall = true) := by
  unfold execSyscall
  dsimp only
  split
  · exact optIn_raise_iff _
  · -- 二つ目の event も同じ bit の種類である
    rw [optIn_raise_iff]
    show OptIn e.cfg (_ ++ [Action.syscall]) ∧ _ ↔ _
    rw [optIn_append, and_iff_left (optIn_singleton (a := .syscall) nofun), optIn_raise_iff]
    exact and_iff_left_of_imp And.right

theorem optIn_execFunc_iff {p : Slot} {f : EventFunc} (hgate : gate e.cfg.orchestrator f = true)
    (hs : s.execFunc e p f = some s') : OptIn e.cfg s'.log ↔
      OptIn e.cfg s.log ∧ (e.callbacks = [] ∨ slotOk e.cfg f = true) := by
  -- 前後の event は、slot があるので bit が立っている
  have hnotify : ∀ {type : EventType}, e.cfg.enabled type = true →
      (OptIn e.cfg (s.runtimeEvent e type).2.log ↔
        OptIn e.cfg s.log ∧ (e.callbacks = [] ∨ (true : Bool) = true)) := by
    intro type henabled
    refine (optIn_raise_iff _).trans (and_congr_right fun _ => ?_)
    exact iff_of_true (.inr henabled) (.inr rfl)
  have hsame : s'.log = s.log →
      (OptIn e.cfg s'.log ↔ OptIn e.cfg s.log ∧ (e.callbacks = [] ∨ (true : Bool) = true)) := by
    intro hlog
    rw [hlog]
    exact (and_iff_left (.inr rfl)).symm
  cases f with
  | funcBefore => cases hs; exact hnotify hgate
  | funcAfter => cases hs; exact hnotify hgate
  | insnAfter => cases hs; exact hnotify hgate
  | blockBefore => cases hs; exact hnotify hgate
  | blockAfter => cases hs; exact hnotify hgate
  | insnBefore =>
    cases hs
    rw [(log_execInsnBefore p).1]
    exact hnotify hgate
  | debugging => cases hs; exact hsame rfl
  | syscallInterpret => cases hs; exact optIn_execSyscall_iff _
  | interruptInterpret => cases hs; exact optIn_raise_iff _
  | jumpInterpret => exact hsame (jump_eq hs).1
  | callInterpret => exact hsame (jump_eq hs).1
  | finishFunction =>
    rcases execFunc_finishFunction hs with rfl | hs
    · exact hsame rfl
    · exact hsame (jump_eq hs).1
  | finishEmulation => cases hs; exact hsame rfl
  | terminateExecution => cases hs; exact hsame rfl

theorem optIn_execCode_iff (p : Slot) (h : GuestCode γ) : OptIn e.cfg (s.execCode e p h).log ↔
    OptIn e.cfg s.log ∧ (e.callbacks = [] ∨ codeOk e.cfg h = true) := by
  have hsame : OptIn e.cfg s.log ↔
      OptIn e.cfg s.log ∧ (e.callbacks = [] ∨ (true : Bool) = true) :=
    (and_iff_left (.inr rfl)).symm
  cases h with
  | ret guest => exact hsame
  | readMemory guest addr size k => exact optIn_raise_iff _
  | writeMemory guest addr size value k => exact optIn_raise_iff _
  | hyperCall guest name k =>
    cases name with
    | x86SysCall => exact optIn_execSyscall_iff guest
    | aarch64Breakpoint => exact optIn_raise_iff _
    | other => exact hsame

/-- slot はどれも設定に従って置かれている。 -/
def BlocksGated (e : Engine σ γ) (s : Vm σ γ) : Prop :=
  ∀ bb ∈ s.blocks, Gated e.cfg.orchestrator bb.rthandlers

theorem BlocksGated.slotAt (h : s.BlocksGated e) {p : Slot} {x : Instruction} {f : EventFunc}
    (hx : s.slotAt p = some x) (hf : x.handler = .func f) :
    gate e.cfg.orchestrator f = true := by
  obtain ⟨bb, hbb, hx⟩ := Option.bind_eq_some_iff.mp hx
  split at hx
  · cases hx
  · exact h bb (List.mem_of_getElem? hbb) x (List.mem_of_getElem? hx) f hf

/-- host の関数の slot での条件。 -/
theorem execOk_slot_iff {p : Slot} {x : Instruction} {f : EventFunc} (hp : s.control = .slot p)
    (hx : s.slotAt p = some x) (hf : x.handler = .func f) :
    ExecOk e s ↔ slotOk e.cfg f = true := by
  rw [ExecOk, hp]
  exact forall_slotFunc_iff hx hf

theorem optIn_exec_iff (hgated : s.BlocksGated e) (hs : s.exec e = some s') :
    OptIn e.cfg s'.log ↔ OptIn e.cfg s.log ∧ (e.callbacks = [] ∨ ExecOk e s) := by
  obtain ⟨p, x, f, hp, hx, hf, hs⟩ | ⟨p, x, entry, hp, hx, hentry, rfl⟩ | ⟨p, h, hp, rfl⟩ :=
    exec_cases hs
  · rw [optIn_execFunc_iff (hgated.slotAt hx hf) hs, execOk_slot_iff hp hx hf]
  · rw [optIn_append, ExecOk, hp]
    refine and_congr_right fun _ =>
      iff_of_true (optIn_singleton (a := .handler entry) nofun) (.inr ?_)
    exact forall_slotEntry hx hentry
  · rw [optIn_execCode_iff, ExecOk, hp]

theorem execFunc_blocks {p : Slot} {f : EventFunc} (hs : s.execFunc e p f = some s') :
    s'.blocks = s.blocks := by
  cases f with
  | insnBefore => cases hs; exact (log_execInsnBefore p).2
  | syscallInterpret => cases hs; exact execSyscall_blocks _
  | jumpInterpret => exact (jump_eq hs).2
  | callInterpret => exact (jump_eq hs).2
  | finishFunction =>
    rcases execFunc_finishFunction hs with rfl | hs
    · rfl
    · exact (jump_eq hs).2
  | _ => cases hs; rfl

theorem execCode_blocks (p : Slot) (h : GuestCode γ) : (s.execCode e p h).blocks = s.blocks := by
  cases h with
  | hyperCall guest name k =>
    cases name with
    | x86SysCall => exact execSyscall_blocks guest
    | _ => rfl
  | _ => rfl

theorem exec_blocks (hs : s.exec e = some s') : s'.blocks = s.blocks := by
  obtain ⟨p, x, f, -, -, -, hs⟩ | ⟨p, x, entry, -, -, -, rfl⟩ | ⟨p, h, -, rfl⟩ := exec_cases hs
  · exact execFunc_blocks hs
  · rfl
  · exact execCode_blocks p h

/-! ## run -/

/--
一つの操作や一歩が設定に従う条件。callback が無いか、次のどれかである。

* lift は、`lift` の bit が立っているか、解読できる命令がすべて lift 済みである
* system call、trap、memory access は、その bit が立っている
-/
def Ok (e : Engine σ γ) (s : Vm σ γ) (i : Input) : Prop :=
  e.callbacks = [] ∨
    match i with
    | .orchBinary bin addend => ∀ u ∈ binaryUnits e bin addend, UnitOk e s.lifted u
    | .startVM _ => True
    | .exec => ExecOk e s

/-- 一つの操作や一歩が設定に従うのは、条件を満たすときに限る。slot は設定に従って置かれたままである。 -/
theorem step_spec {i : Input} (hgated : s.BlocksGated e) (hs : s.step e i = some s') :
    (OptIn e.cfg s'.log ↔ OptIn e.cfg s.log ∧ Ok e s i) ∧ s'.BlocksGated e := by
  cases i with
  | orchBinary bin addend =>
    simp only [step, Option.ite_none_right_eq_some, Option.some_inj] at hs
    obtain ⟨-, rfl⟩ := hs
    refine ⟨optIn_liftUnits_iff (binaryUnits e bin addend) s, fun bb hbb => ?_⟩
    -- lift は slot を足さず、足される binary の slot は `encode` が設定で選んだもの
    rcases List.mem_append.mp hbb with hbb | hbb
    · rw [blocks_foldl_liftUnit] at hbb
      exact hgated bb hbb
    · rw [List.mem_singleton.mp hbb]
      exact gated_encode _ _ _ _
  | startVM entry =>
    simp only [step, Option.ite_none_right_eq_some] at hs
    obtain ⟨hlog, hblocks⟩ := jump_eq hs.2
    refine ⟨?_, fun bb hbb => hgated bb (hblocks ▸ hbb)⟩
    rw [hlog]
    exact (and_iff_left (.inr trivial)).symm
  | exec =>
    refine ⟨optIn_exec_iff hgated hs, fun bb hbb => ?_⟩
    rw [exec_blocks hs] at hbb
    exact hgated bb hbb

/--
条件を満たす操作と一歩だけの run では、どの状態まででも、callback に届いた event は bit の立っている
種類だけである。そこからの操作や一歩がそれを保つのは、条件を満たすときに限る。
-/
theorem run_optIn {world : σ} {lifted : List Bytes} {guest : γ}
    (hrun : Run (fun s i s' => step e s i = some s') (Ok e) (init world lifted guest) s) :
    OptIn e.cfg s.log ∧ ∀ i s', s.step e i = some s' → (OptIn e.cfg s'.log ↔ Ok e s i) := by
  have hinv : OptIn e.cfg s.log ∧ s.BlocksGated e := by
    refine hrun.invariant (p := fun s => OptIn e.cfg s.log ∧ s.BlocksGated e) ⟨?_, ?_⟩
      fun s i s' hi hok hs => ?_
    · intro i t r hm
      cases hm
    · intro bb hbb
      cases hbb
    · obtain ⟨hiff, hgated⟩ := step_spec hi.2 hs
      exact ⟨hiff.mpr ⟨hi.1, hok⟩, hgated⟩
  refine ⟨hinv.1, fun i s' hs => ?_⟩
  rw [(step_spec hinv.2 hs).1]
  exact and_iff_right hinv.1

/-! ## 例 -/

/-- 8 byte を読んで次へ進む命令だけの guest。callback は一つで、いつも `Continue` を返す。 -/
def sampleEngine (cfg : EventConfig) : Engine Unit Nat where
  cfg := cfg
  arch := .arm64
  callbacks := [fun w _ => (.continue, ⟨[], 0⟩, w)]
  sameArch := true
  disassemble := fun _ => 4
  defaultSize := 1
  remill := fun _ => ⟨true, true, [("LDR", true)]⟩
  entryOf := fun _ => 0x5000
  code := fun _ pc => .readMemory pc 0x9000 8 fun _ => .ret (pc + 4)
  initContext := fun entry _ => entry
  pc := id
  retaddr := fun _ => 0
  load := fun _ _ _ => 0
  store := fun pc _ _ _ => pc
  sysno := fun _ => 0
  syscall := id

def sampleText : LoadedBinary where
  sections := [(0x1000, [0x00, 0x00, 0x40, 0xf9], true)]
  binary := ⟨.arm64, [⟨0x1000, 0x1004, [⟨0, 4, .other, false, [0x00, 0x00, 0x40, 0xf9]⟩]⟩]⟩

def allEvents : EventConfig := ⟨true, true, true, true, true, true, true, true, false⟩
def noEvents : EventConfig := ⟨false, false, false, false, false, false, false, false, false⟩

/-- 全部の bit が立っていれば、どの一歩も条件を満たす。 -/
theorem allEvents_execOk (s : Vm Unit Nat) : Ok (sampleEngine allEvents) s .exec := by
  refine .inr ?_
  show ExecOk (sampleEngine allEvents) s
  unfold ExecOk
  split
  · intro x f _ _
    cases f <;> rfl
  · next h _ =>
    cases h with
    | hyperCall guest name k => cases name <;> rfl
    | _ => rfl
  all_goals trivial

/-- lift して実行し、最初の命令の memory access まで進む。 -/
theorem sampleEngine_optIn : ∃ s : Vm Unit Nat,
    Run (fun s i s' => step (sampleEngine allEvents) s i = some s') (Ok (sampleEngine allEvents))
      (init () [] 0) s ∧ .delivered 0 .memRead .continue ∈ s.log ∧ OptIn allEvents s.log := by
  have hrun : ∃ s : Vm Unit Nat,
      Run (fun s i s' => step (sampleEngine allEvents) s i = some s') (Ok (sampleEngine allEvents))
        (init () [] 0) s ∧ .delivered 0 .memRead .continue ∈ s.log := by
    have hlift : Ok (sampleEngine allEvents) (init () [] 0) (.orchBinary sampleText 0) := by
      refine .inr fun u hu => ?_
      rw [show binaryUnits (sampleEngine allEvents) sampleText 0
        = [.insn [0x00, 0x00, 0x40, 0xf9] 0x1000] from rfl, List.mem_singleton] at hu
      rw [hu]
      exact .inl rfl
    have hexec := allEvents_execOk
    refine ⟨_, .tail (i := .exec) (.tail (i := .exec) (.tail (i := .exec) (.tail (i := .exec)
      (.tail (i := .exec) (.tail (i := .startVM 0x1000)
        (.tail (i := .orchBinary sampleText 0) .refl hlift rfl) (.inr trivial) rfl)
      (hexec _) rfl) (hexec _) rfl) (hexec _) rfl) (hexec _) rfl) (hexec _) rfl, ?_⟩
    decide
  obtain ⟨s, hrun, hmem⟩ := hrun
  exact ⟨s, hrun, hmem, (run_optIn hrun).1⟩

/-- どの bit も立っていなくても、callback があれば lift の event が届く。 -/
theorem sampleEngine_not_optIn : ∃ s : Vm Unit Nat,
    Run (fun s i s' => step (sampleEngine noEvents) s i = some s') (fun _ _ => True)
      (init () [] 0) s ∧ ¬ OptIn noEvents s.log := by
  refine ⟨_, .tail (i := .orchBinary sampleText 0) .refl trivial rfl, fun h => ?_⟩
  have hlift := h 0 .liftBefore .continue (by decide)
  cases hlift

end Vm

end AetherVM
