import AetherVM.Infra.Run
import AetherVM.Engine.Vm

/-!
# `Terminate` の扱い

callback が `Terminate` を返したとき、実行が `finish_emulation` へ移り、その後に命令の実装も host の system call も
実行されないのは、どの event かを言う。答えを見て終わるのは `event_insn_before` だけで、関数・block・命令の後・
memory の event は答えを見ず、system call の event は `Processed` かどうかだけを見る。
-/

namespace AetherVM

open Infra Orchestrator

/-- 実行中の event。 -/
def EventType.executing : EventType → Bool
  | .funcBefore | .funcAfter | .blockBefore | .blockAfter | .insnBefore | .insnAfter => true
  | .memRead | .memWrite | .syscallBefore | .syscallAfter => true
  | _ => false

/-- guest の命令の実装か、host の system call か。 -/
def Action.runsGuest : Action → Bool
  | .handler _ | .syscall => true
  | .delivered _ _ _ => false

/-- 実行中の event に `Terminate` が返されていない。 -/
def TerminateFree (log : List Action) : Prop :=
  ∀ i t, .delivered i t .terminate ∈ log → t.executing = false

theorem terminateFree_append {log new : List Action} :
    TerminateFree (log ++ new) ↔ TerminateFree log ∧ TerminateFree new := by
  constructor
  · intro h
    exact ⟨fun i t hm => h i t (List.mem_append_left _ hm),
      fun i t hm => h i t (List.mem_append_right _ hm)⟩
  · rintro ⟨hlog, hnew⟩ i t hm
    exact (List.mem_append.mp hm).elim (hlog i t) (hnew i t)

theorem terminateFree_singleton {a : Action} (h : a.runsGuest = true) : TerminateFree [a] := by
  intro i t hm
  rw [← List.mem_singleton.mp hm] at h
  cases h

namespace Vm

variable {σ γ : Type} {e : Engine σ γ} {s s' : Vm σ γ}

/--
`Terminate` が守られていること。実行中の event に `Terminate` が返されたら、その後に命令の実装も
system call も無く、実行は `finish_emulation` へ移っている。
-/
def Honoured (s : Vm σ γ) : Prop :=
  ∀ pre i t post, s.log = pre ++ .delivered i t .terminate :: post → t.executing = true →
    (∀ a ∈ post, a.runsGuest = false) ∧ s.control = .finished

theorem honoured_of_terminateFree (hfree : TerminateFree s.log) : s.Honoured := by
  intro pre i t post heq hexec
  have hm : .delivered i t .terminate ∈ s.log := by
    rw [heq]
    exact List.mem_append_right _ List.mem_cons_self
  rw [hfree i t hm] at hexec
  cases hexec

/-- 続いている実行で守られているのは、まだ `Terminate` が返されていないときに限る。 -/
theorem honoured_iff_of_ne_finished (h : s.control ≠ .finished) :
    s.Honoured ↔ TerminateFree s.log := by
  refine ⟨fun hh i t hm => ?_, honoured_of_terminateFree⟩
  obtain ⟨pre, post, heq⟩ := List.append_of_mem hm
  cases hexec : t.executing with
  | false => rfl
  | true => exact absurd (hh pre i t post heq hexec).2 h

/-- この event への答え。 -/
def answer (e : Engine σ γ) (s : Vm σ γ) (ev : Event) : EventResult := (s.raise e ev).1

theorem terminateFree_raise_iff {ev : Event} (hexec : ev.type.executing = true) :
    TerminateFree (s.raise e ev).2.2.log ↔
      TerminateFree s.log ∧ s.answer e ev ≠ .terminate := by
  show TerminateFree (s.log ++ (handleEvent e.callbacks 0 s.world ev).log) ↔ _
  rw [terminateFree_append]
  refine and_congr_right fun _ => ⟨fun h hterm => ?_, fun h i t hm => ?_⟩
  · obtain ⟨j, t, hm⟩ := terminate_mem_log_iff.mpr hterm
    obtain ⟨_, _, heq⟩ := mem_log_handleEvent hm
    have hfalse := h j t hm
    cases heq
    rw [hexec] at hfalse
    cases hfalse
  · exact absurd (terminate_mem_log_iff.mp ⟨i, t, hm⟩) h

/-- 関数・block・命令の前後の event。 -/
def eventAt (e : Engine σ γ) (s : Vm σ γ) (type : EventType) : Event :=
  ⟨type, e.pc s.guest, .runtime⟩

/-- system call の前の event。 -/
def syscallEvent (e : Engine σ γ) (guest : γ) : Event :=
  ⟨.syscallBefore, e.pc guest, .hyperCall (e.sysno guest)⟩

/-! ## 答えの条件 -/

/-- system call の二つの event に `Terminate` を返さない。後の event は、host の system call をしたときだけ起きる。 -/
def SyscallAnswered (e : Engine σ γ) (s : Vm σ γ) (guest : γ) : Prop :=
  let h := handleEvent e.callbacks 0 s.world (syscallEvent e guest)
  h.result ≠ .terminate ∧ (h.result = .processed ∨
    (handleEvent e.callbacks 0 h.world { h.event with type := .syscallAfter }).result ≠ .terminate)

/-- slot の event に `Terminate` を返さない。命令の前の event には返してよい。 -/
def FuncAnswered (e : Engine σ γ) (s : Vm σ γ) : EventFunc → Prop
  | .funcBefore => s.answer e (eventAt e s .funcBefore) ≠ .terminate
  | .funcAfter => s.answer e (eventAt e s .funcAfter) ≠ .terminate
  | .insnAfter => s.answer e (eventAt e s .insnAfter) ≠ .terminate
  | .blockBefore => s.answer e (eventAt e s .blockBefore) ≠ .terminate
  | .blockAfter => s.answer e (eventAt e s .blockAfter) ≠ .terminate
  | .syscallInterpret => SyscallAnswered e s s.guest
  | _ => True

/-- 次の intrinsic の event に `Terminate` を返さない。 -/
def CodeAnswered (e : Engine σ γ) (s : Vm σ γ) : GuestCode γ → Prop
  | .readMemory guest addr size _ =>
    s.answer e ⟨.memRead, e.pc guest, .memory addr size (e.load guest addr size)⟩ ≠ .terminate
  | .writeMemory guest addr size value _ =>
    s.answer e ⟨.memWrite, e.pc guest, .memory addr size value⟩ ≠ .terminate
  | .hyperCall guest .x86SysCall _ => SyscallAnswered e s guest
  | _ => True

/-- 次の一歩で起きる event のうち、命令の前のもののほかに、`Terminate` を返さない。 -/
def Answered (e : Engine σ γ) (s : Vm σ γ) : Prop :=
  match s.control with
  | .slot p => ∀ x f, s.slotAt p = some x → x.handler = .func f → FuncAnswered e s f
  | .code _ h => CodeAnswered e s h
  | .idle | .finished | .aborted => True

/-! ## 一歩 -/

theorem terminateFree_execSyscall_iff (guest : γ) : TerminateFree (s.execSyscall e guest).log ↔
    TerminateFree s.log ∧ SyscallAnswered e s guest := by
  have hbefore : TerminateFree (s.raise e (syscallEvent e guest)).2.2.log ↔
      TerminateFree s.log ∧ s.answer e (syscallEvent e guest) ≠ .terminate :=
    terminateFree_raise_iff rfl
  unfold execSyscall
  dsimp only
  split
  · next hproc =>
    refine hbefore.trans (and_congr_right fun _ => ?_)
    exact (and_iff_left (.inl hproc)).symm
  · next hproc =>
    rw [terminateFree_raise_iff rfl]
    show TerminateFree (_ ++ [Action.syscall]) ∧ _ ↔ _
    rw [terminateFree_append, and_iff_left (terminateFree_singleton rfl)]
    refine (and_congr_left fun _ => hbefore).trans ?_
    rw [and_assoc]
    exact and_congr_right fun _ => and_congr_right fun _ => (or_iff_right hproc).symm

/-- 命令の前の event では、答えが `Terminate` なら `finish_emulation` へ移るので、いつも守られる。 -/
theorem honoured_execInsnBefore (hfree : TerminateFree s.log) (p : Slot) :
    (s.execInsnBefore e p).Honoured := by
  have hraise : TerminateFree (s.runtimeEvent e .insnBefore).2.log ↔
      TerminateFree s.log ∧ (s.runtimeEvent e .insnBefore).1 ≠ .terminate :=
    terminateFree_raise_iff rfl
  unfold execInsnBefore
  split
  · next h =>
    rw [h] at hraise
    exact honoured_of_terminateFree (hraise.mpr ⟨hfree, nofun⟩)
  · next s₁ h =>
    -- 記録に増えるのは、届いた event だけである
    have hlog : s₁.log
        = s.log ++ (handleEvent e.callbacks 0 s.world (eventAt e s .insnBefore)).log := by
      rw [show s₁ = (s.runtimeEvent e .insnBefore).2 by rw [h]]
      rfl
    intro pre i t post heq hexec
    refine ⟨fun a ha => ?_, rfl⟩
    have heq : s.log ++ (handleEvent e.callbacks 0 s.world (eventAt e s .insnBefore)).log
        = pre ++ .delivered i t .terminate :: post := hlog.symm.trans heq
    have hnew : a ∈ (handleEvent e.callbacks 0 s.world (eventAt e s .insnBefore)).log := by
      rcases List.append_eq_append_iff.mp heq with ⟨l, hpre, hnew⟩ | ⟨l, hlog, hnew⟩
      · rw [hnew]
        exact List.mem_append_right _ (List.mem_cons_of_mem _ ha)
      · cases l with
        | nil =>
          rw [List.nil_append] at hnew
          rw [← hnew]
          exact List.mem_cons_of_mem _ ha
        | cons b l =>
          obtain ⟨rfl, -⟩ := List.cons.inj hnew
          have hm : .delivered i t .terminate ∈ s.log := by
            rw [hlog]
            exact List.mem_append_right _ List.mem_cons_self
          rw [hfree i t hm] at hexec
          cases hexec
    obtain ⟨j, result, rfl⟩ := mem_log_handleEvent hnew
    rfl
  · next h =>
    rw [h] at hraise
    exact honoured_of_terminateFree (hraise.mpr ⟨hfree, nofun⟩)

/-- trap の event は、答えによらず `abort` する。 -/
theorem honoured_execTrap (hfree : TerminateFree s.log) (guest : γ) :
    (s.execTrap e guest).Honoured := by
  refine honoured_of_terminateFree (terminateFree_append.mpr ⟨hfree, fun i t hm => ?_⟩)
  obtain ⟨j, result, heq⟩ := mem_log_handleEvent hm
  cases heq
  rfl

theorem honoured_execFunc_iff (hfree : TerminateFree s.log) {p : Slot} {f : EventFunc}
    (hs : s.execFunc e p f = some s') : s'.Honoured ↔ FuncAnswered e s f := by
  have hnext : (next p : Control γ) ≠ .finished := by
    intro h
    cases h
  -- 答えを見ない event の slot は、次の slot へ進む
  have hnotify : ∀ {type : EventType}, type.executing = true →
      ((s.execNotify e p type).Honoured ↔ s.answer e (eventAt e s type) ≠ .terminate) := by
    intro type hexec
    refine (honoured_iff_of_ne_finished hnext).trans ?_
    exact (terminateFree_raise_iff hexec).trans (and_iff_right hfree)
  have hsame : s'.log = s.log → (s'.Honoured ↔ True) := by
    intro hlog
    exact iff_of_true (honoured_of_terminateFree (hlog ▸ hfree)) trivial
  cases f with
  | funcBefore => cases hs; exact hnotify rfl
  | funcAfter => cases hs; exact hnotify rfl
  | insnAfter => cases hs; exact hnotify rfl
  | blockBefore => cases hs; exact hnotify rfl
  | blockAfter => cases hs; exact hnotify rfl
  | insnBefore =>
    cases hs
    exact iff_of_true (honoured_execInsnBefore hfree p) trivial
  | debugging => cases hs; exact hsame rfl
  | syscallInterpret =>
    cases hs
    refine (honoured_iff_of_ne_finished hnext).trans ?_
    exact (terminateFree_execSyscall_iff s.guest).trans (and_iff_right hfree)
  | interruptInterpret =>
    cases hs
    exact iff_of_true (honoured_execTrap hfree s.guest) trivial
  | jumpInterpret => exact hsame (jump_eq hs).1
  | callInterpret => exact hsame (jump_eq hs).1
  | finishFunction =>
    rcases execFunc_finishFunction hs with rfl | hs
    · exact hsame rfl
    · exact hsame (jump_eq hs).1
  | finishEmulation => cases hs; exact hsame rfl
  | terminateExecution => cases hs; exact hsame rfl

theorem honoured_execCode_iff (hfree : TerminateFree s.log) (p : Slot) (h : GuestCode γ) :
    (s.execCode e p h).Honoured ↔ CodeAnswered e s h := by
  have hcode : ∀ rest : GuestCode γ, (.code p rest : Control γ) ≠ .finished := by
    intro rest h
    cases h
  cases h with
  | ret guest => exact iff_of_true (honoured_of_terminateFree hfree) trivial
  | readMemory guest addr size k =>
    refine (honoured_iff_of_ne_finished (hcode _)).trans ?_
    exact (terminateFree_raise_iff rfl).trans (and_iff_right hfree)
  | writeMemory guest addr size value k =>
    refine (honoured_iff_of_ne_finished (hcode _)).trans ?_
    exact (terminateFree_raise_iff rfl).trans (and_iff_right hfree)
  | hyperCall guest name k =>
    cases name with
    | x86SysCall =>
      refine (honoured_iff_of_ne_finished (hcode _)).trans ?_
      exact (terminateFree_execSyscall_iff guest).trans (and_iff_right hfree)
    | aarch64Breakpoint => exact iff_of_true (honoured_execTrap hfree guest) trivial
    | other => exact iff_of_true (honoured_of_terminateFree hfree) trivial

/-- host の関数の slot での条件。 -/
theorem answered_slot_iff {p : Slot} {x : Instruction} {f : EventFunc} (hp : s.control = .slot p)
    (hx : s.slotAt p = some x) (hf : x.handler = .func f) : Answered e s ↔ FuncAnswered e s f := by
  rw [Answered, hp]
  exact forall_slotFunc_iff hx hf

/-- まだ `Terminate` が返されていない状態からの一歩で守られるのは、答えの条件を満たすときに限る。 -/
theorem honoured_exec_iff (hfree : TerminateFree s.log) (hs : s.exec e = some s') :
    s'.Honoured ↔ Answered e s := by
  obtain ⟨p, x, f, hp, hx, hf, hs⟩ | ⟨p, x, entry, hp, hx, hentry, rfl⟩ | ⟨p, h, hp, rfl⟩ :=
    exec_cases hs
  · rw [honoured_execFunc_iff hfree hs, answered_slot_iff hp hx hf]
  · rw [Answered, hp]
    refine iff_of_true ?_ (forall_slotEntry hx hentry)
    refine honoured_of_terminateFree (terminateFree_append.mpr ⟨hfree, ?_⟩)
    exact terminateFree_singleton rfl
  · rw [honoured_execCode_iff hfree, Answered, hp]

/-- 一歩進める状態は、まだ終わっていない。 -/
theorem control_ne_finished (hs : s.exec e = some s') : s.control ≠ .finished := by
  intro h
  unfold exec at hs
  rw [h] at hs
  cases hs

/-! ## run -/

/--
答えの条件を満たす一歩だけの run では、どの状態まででも `Terminate` が守られる。そこからの一歩が
それを保つのは、条件を満たすときに限る。
-/
theorem run_honoured {s₀ : Vm σ γ} (h0 : s₀.log = [])
    (hrun : Run (fun s (_ : Unit) s' => exec e s = some s') (fun s _ => Answered e s) s₀ s) :
    s.Honoured ∧ ∀ s', s.exec e = some s' → (s'.Honoured ↔ Answered e s) := by
  have hstep : ∀ {s s' : Vm σ γ}, s.Honoured → s.exec e = some s' →
      (s'.Honoured ↔ Answered e s) := by
    intro s s' hs hexec
    have hfree := (honoured_iff_of_ne_finished (control_ne_finished hexec)).mp hs
    exact honoured_exec_iff hfree hexec
  have hhonoured : s.Honoured := by
    refine hrun.invariant (p := Honoured) ?_ fun s _ s' hs hok hexec => (hstep hs hexec).mpr hok
    refine honoured_of_terminateFree ?_
    rw [h0]
    intro i t hm
    cases hm
  exact ⟨hhonoured, fun s' hexec => hstep hhonoured hexec⟩

/-! ## 例 -/

/-- 一種類の event にだけ `Terminate` を返す callback の engine。guest は 4 byte ずつ進むだけである。 -/
def stopper (type : EventType) : Engine Unit Nat where
  cfg := ⟨false, false, false, false, true, false, false, false, false⟩
  arch := .arm64
  callbacks := [fun w ev => (if ev.type = type then .terminate else .continue, ⟨[], 0⟩, w)]
  sameArch := true
  disassemble := fun _ => 4
  defaultSize := 1
  remill := fun _ => ⟨true, true, []⟩
  entryOf := fun _ => 0x5000
  code := fun _ pc => .ret (pc + 4)
  initContext := fun entry _ => entry
  pc := id
  retaddr := fun _ => 0
  load := fun _ _ _ => 0
  store := fun pc _ _ _ => pc
  sysno := fun _ => 93
  syscall := id

/-- system call の命令が一つだけの binary を始めたところ。 -/
def sampleStart : Vm Unit Nat where
  world := ()
  lifted := [[0x01, 0x00, 0x00, 0xd4]]
  blocks := [encode ⟨false, false, true, false⟩ (fun _ => some 0x5000)
    ⟨.arm64, [⟨0x1000, 0x1004, [⟨0, 4, .syscall, false, [0x01, 0x00, 0x00, 0xd4]⟩]⟩]⟩ 0]
  cache := Cache.empty
  guest := 0x1000
  control := .slot ⟨0, 0⟩
  log := []

/-- 命令の前の event の `Terminate` では、命令の実装を実行せずに終わる。 -/
theorem sampleStart_honoured : ∃ s : Vm Unit Nat,
    Run (fun s (_ : Unit) s' => exec (stopper .insnBefore) s = some s')
      (fun s _ => Answered (stopper .insnBefore) s) sampleStart s ∧
      s.log = [.delivered 0 .insnBefore .terminate] ∧ s.control = .finished ∧ s.Honoured := by
  have hok : Answered (stopper .insnBefore) sampleStart :=
    (answered_slot_iff (f := .insnBefore) rfl rfl rfl).mpr trivial
  have hrun : ∃ s : Vm Unit Nat,
      Run (fun s (_ : Unit) s' => exec (stopper .insnBefore) s = some s')
        (fun s _ => Answered (stopper .insnBefore) s) sampleStart s ∧
        s.log = [.delivered 0 .insnBefore .terminate] ∧ s.control = .finished :=
    ⟨_, .tail (i := ()) .refl hok rfl, rfl, rfl⟩
  obtain ⟨s, hrun, hlog, hcontrol⟩ := hrun
  exact ⟨s, hrun, hlog, hcontrol, (run_honoured rfl hrun).1⟩

/-- system call の前の event に `Terminate` を返しても、host の system call は実行される。 -/
theorem sampleStart_not_honoured : ∃ s : Vm Unit Nat,
    Run (fun s (_ : Unit) s' => exec (stopper .syscallBefore) s = some s') (fun _ _ => True)
      sampleStart s ∧ ¬ s.Honoured := by
  have hrun : ∃ s : Vm Unit Nat,
      Run (fun s (_ : Unit) s' => exec (stopper .syscallBefore) s = some s') (fun _ _ => True)
        sampleStart s ∧ s.log = [.delivered 0 .insnBefore .continue, .handler 0x5000] ++
          .delivered 0 .syscallBefore .terminate ::
          [.syscall, .delivered 0 .syscallAfter .continue] :=
    ⟨_, .tail (i := ()) (.tail (i := ()) (.tail (i := ()) (.tail (i := ()) .refl trivial rfl)
      trivial rfl) trivial rfl) trivial rfl, rfl⟩
  obtain ⟨s, hrun, hlog⟩ := hrun
  refine ⟨s, hrun, fun h => ?_⟩
  have hguest := (h _ _ _ _ hlog rfl).1 .syscall List.mem_cons_self
  cases hguest

end Vm

end AetherVM
