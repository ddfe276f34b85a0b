import Mathlib.Tactic.Common
import AetherVM.Infra.Run

/-!
# 停止と再開（`lldb/src/Thread.cpp`）

VM の thread は `WatchDog` で停止を報告し、条件変数で待つ。debugger の thread は `Resume` と `SingleStep` で
`m_state` を書き換え、`notify_all` で起こす。debugger の側は mutex を取らず、待つ側は起きてから
`m_state` を見直さない。二つの thread の step は、どの順にも混ざる。

何回目の停止の報告の後に呼ばれた再開かを言うために、報告を数える。
-/

namespace AetherVM.Debugger

open Infra

/-- `m_state` に入る値。ほかの `lldb::StateType` は書かれない。 -/
inductive StateType where
  | stopped | stepping | running
deriving DecidableEq, Repr

/-- VM の thread のいる所。 -/
inductive VmPoint where
  /-- guest を実行している。 -/
  | guest
  /-- `WatchDog` に入り、`switch (m_state)` の前にいる。 -/
  | watchDog
  /-- `eStateStepping` の枝で、`m_state` を書く前にいる。 -/
  | stepping
  /-- `eStateStopped` の枝で、`m_mutex` を取ろうとしている。 -/
  | locking
  /-- `m_mutex` を取り、`ReportStopped` の前にいる。 -/
  | reporting
  /-- 報告を終え、`m_condvar.wait` の前にいる。 -/
  | reported
  /-- `m_condvar.wait` で待っている。 -/
  | waiting
  /-- 起こされ、`m_mutex` を取り直そうとしている。 -/
  | woken
deriving DecidableEq, Repr

/-- 途中の `Resume` か `SingleStep`。`after` は、呼ばれたときまでの停止の報告の数である。 -/
structure ResumeCall where
  target : StateType
  stored : Bool
  after : Nat
deriving DecidableEq, Repr

/--
二つの thread の状態。`completed` は、終わった再開が呼ばれたときの報告の数のうち、最大のものである。
-/
structure Session where
  state : StateType
  mutex : Bool
  vm : VmPoint
  call : Option ResumeCall
  reports : Nat
  completed : Nat
deriving DecidableEq, Repr

/-- 二つの thread の step。 -/
inductive Action where
  | enter
  | hitBreakpoint
  | switch
  | stop
  | lock
  | report
  | wait
  | spurious
  | leave
  | resume
  | singleStep
  | store
  | notify
  | interrupt
deriving DecidableEq, Repr

namespace Session

/-- `AetherThread` を作ったときの状態。 -/
def init : Session := ⟨.stopped, false, .guest, none, 0, 0⟩

/-- `AetherThread::WatchDog` の `switch`。`m_state` を一度だけ読む。 -/
def switch (s : Session) : Session :=
  match s.state with
  | .stopped => { s with vm := .locking }
  | .stepping => { s with vm := .stepping }
  | .running => { s with vm := .guest }

/-- `m_condvar.notify_all`。待っている thread が無ければ何も残さない。 -/
def notifyAll (s : Session) (call : ResumeCall) : Session :=
  { s with
    vm := if s.vm = .waiting then .woken else s.vm
    call := none
    completed := max s.completed call.after }

/-- 一つの step。その所にいない step は `none` である。 -/
def step (s : Session) : Action → Option Session
  | .enter => if s.vm = .guest then some { s with vm := .watchDog } else none
  | .hitBreakpoint =>
    if s.vm = .guest then some { s with state := .stopped, vm := .watchDog } else none
  | .switch => if s.vm = .watchDog then some s.switch else none
  -- `eStateStopped` を書き、`WatchDog` に入り直す
  | .stop => if s.vm = .stepping then some { s with state := .stopped, vm := .watchDog } else none
  | .lock =>
    if s.vm = .locking ∧ s.mutex = false then some { s with mutex := true, vm := .reporting }
    else none
  | .report =>
    if s.vm = .reporting then some { s with vm := .reported, reports := s.reports + 1 } else none
  | .wait => if s.vm = .reported then some { s with mutex := false, vm := .waiting } else none
  | .spurious => if s.vm = .waiting then some { s with vm := .woken } else none
  -- mutex を取り直して `wait` から戻り、scope を出て放す
  | .leave => if s.vm = .woken ∧ s.mutex = false then some { s with vm := .guest } else none
  | .resume => if s.call = none then some { s with call := some ⟨.running, false, s.reports⟩ }
    else none
  | .singleStep =>
    if s.call = none then some { s with call := some ⟨.stepping, false, s.reports⟩ } else none
  | .store =>
    match s.call with
    | some ⟨target, false, after⟩ =>
      some { s with state := target, call := some ⟨target, true, after⟩ }
    | _ => none
  | .notify =>
    match s.call with
    | some ⟨target, true, after⟩ => some (s.notifyAll ⟨target, true, after⟩)
    | _ => none
  | .interrupt => if s.call = none then some { s with state := .stopped } else none

/-- 待っているのに、その停止の報告の後に呼ばれた再開が終わっていること。 -/
def Lost (s : Session) : Prop := s.vm = .waiting ∧ s.reports ≤ s.completed

/-- 途中の再開が、最後の停止の報告の後に呼ばれたこと。 -/
def answers (s : Session) : Bool := s.call.any fun call => call.after = s.reports

/-- 報告の後に呼ばれた再開の `notify_all` が、その報告と `wait` の間に来ないこと。 -/
def Ok (s : Session) (a : Action) : Prop :=
  ¬ (a = .notify ∧ s.vm = .reported ∧ s.answers = true)

instance (s : Session) (a : Action) : Decidable (Ok s a) :=
  inferInstanceAs (Decidable (¬ (a = .notify ∧ s.vm = .reported ∧ s.answers = true)))

/-! ## 不変条件 -/

/--
報告を終えた thread については、その報告の後に呼ばれた再開はまだ終わっていない。再開の数える報告が
いまの報告を越えることは無い。
-/
structure Inv (s : Session) : Prop where
  call : ∀ c, s.call = some c → c.after ≤ s.reports
  completed : s.completed ≤ s.reports
  fresh : s.vm = .reported ∨ s.vm = .waiting → s.completed < s.reports

theorem inv_init : Inv init where
  call := fun _ h => by cases h
  completed := Nat.le_refl 0
  fresh := by decide

variable {s s' : Session} {a : Action}

theorem Inv.not_lost (h : Inv s) : ¬ Lost s := by
  rintro ⟨hvm, hle⟩
  have hlt := h.fresh (.inr hvm)
  omega

/-- VM の thread だけが進み、報告も再開も変わらない step。 -/
theorem Inv.of_eq (h : Inv s) (hcall : s'.call = s.call) (hreports : s'.reports = s.reports)
    (hcompleted : s'.completed = s.completed)
    (hvm : s'.vm = .reported ∨ s'.vm = .waiting → s.vm = .reported ∨ s.vm = .waiting) : Inv s' where
  call := fun c hc => by
    rw [hreports]
    exact h.call c (hcall ▸ hc)
  completed := by
    rw [hreports, hcompleted]
    exact h.completed
  fresh := fun hv => by
    rw [hreports, hcompleted]
    exact h.fresh (hvm hv)

/-- 再開を始めても、終わった再開は変わらない。 -/
theorem Inv.begin (h : Inv s) (target : StateType) :
    Inv { s with call := some ⟨target, false, s.reports⟩ } where
  call := fun c hc => by
    cases hc
    exact Nat.le_refl _
  completed := h.completed
  fresh := h.fresh

theorem Inv.notifyAll (h : Inv s) {call : ResumeCall} (hcall : s.call = some call)
    (hok : ¬ (s.vm = .reported ∧ call.after = s.reports)) : Inv (s.notifyAll call) := by
  have hle := h.call call hcall
  refine ⟨fun c hc => (nomatch hc), Nat.max_le.mpr ⟨h.completed, hle⟩, fun hvm => ?_⟩
  -- 待っていれば起こされるので、残るのは `wait` の前にいる場合である
  have hreported : s.vm = .reported := by
    by_cases hw : s.vm = .waiting
    · simp [Session.notifyAll, hw] at hvm
    · simpa [Session.notifyAll, hw] using hvm
  have hlt := h.fresh (.inl hreported)
  have hne : call.after ≠ s.reports := fun heq => hok ⟨hreported, heq⟩
  show max s.completed call.after < s.reports
  omega

theorem Inv.switch (h : Inv s) : Inv s.switch := by
  unfold Session.switch
  split <;> exact h.of_eq rfl rfl rfl (by simp)

/-- 条件を満たす step は不変条件を保つ。 -/
theorem Inv.step (h : Inv s) (hok : Ok s a) (hs : s.step a = some s') : Inv s' := by
  cases a with
  | enter | hitBreakpoint | stop | spurious | leave | lock =>
    simp only [Session.step, Option.ite_none_right_eq_some, Option.some.injEq] at hs
    obtain ⟨-, rfl⟩ := hs
    exact h.of_eq rfl rfl rfl (by simp)
  | interrupt =>
    simp only [Session.step, Option.ite_none_right_eq_some, Option.some.injEq] at hs
    obtain ⟨-, rfl⟩ := hs
    exact h.of_eq rfl rfl rfl id
  | wait =>
    simp only [Session.step, Option.ite_none_right_eq_some, Option.some.injEq] at hs
    obtain ⟨hvm, rfl⟩ := hs
    exact h.of_eq rfl rfl rfl fun _ => .inl hvm
  | «switch» =>
    simp only [Session.step, Option.ite_none_right_eq_some, Option.some.injEq] at hs
    obtain ⟨-, rfl⟩ := hs
    exact h.switch
  | report =>
    simp only [Session.step, Option.ite_none_right_eq_some, Option.some.injEq] at hs
    obtain ⟨-, rfl⟩ := hs
    -- 数え直した報告より前の再開は、もう古い
    have hle := h.completed
    refine ⟨fun c hc => Nat.le_succ_of_le (h.call c hc), Nat.le_succ_of_le hle, fun _ => ?_⟩
    exact Nat.lt_succ_of_le hle
  | resume | singleStep =>
    simp only [Session.step, Option.ite_none_right_eq_some, Option.some.injEq] at hs
    obtain ⟨-, rfl⟩ := hs
    exact h.begin _
  | store =>
    simp only [Session.step] at hs
    split at hs
    · next target after hcall =>
      cases hs
      refine ⟨fun c hc => ?_, h.completed, h.fresh⟩
      cases hc
      exact h.call ⟨target, false, after⟩ hcall
    · cases hs
  | notify =>
    simp only [Session.step] at hs
    split at hs
    · next target after hcall =>
      cases hs
      -- 待ち始める前の `notify_all` は、条件が除いている
      refine h.notifyAll hcall fun hbad => hok ⟨rfl, hbad.1, ?_⟩
      simpa [answers, hcall] using hbad.2
    · cases hs

/-- 条件を破る `notify_all` の後で `wait` に入ると、再開は失われる。 -/
theorem lost_of_not_ok (hok : ¬ Ok s a) (hs : s.step a = some s') :
    ∃ s'', s'.step .wait = some s'' ∧ Lost s'' := by
  obtain ⟨rfl, hvm, hanswers⟩ := not_not.mp hok
  simp only [Session.step] at hs
  split at hs
  · next target after hcall =>
    cases hs
    have hafter : after = s.reports := by simpa [answers, hcall] using hanswers
    refine ⟨{ s.notifyAll ⟨target, true, after⟩ with mutex := false, vm := .waiting }, ?_, rfl, ?_⟩
    · simp [Session.step, Session.notifyAll, hvm]
    · show s.reports ≤ max s.completed after
      omega
  · cases hs

/--
条件を満たす step だけで着く状態では、再開は失われない。また、そのような状態から条件を破る step を
進めると、次の `wait` で再開は失われる。
-/
theorem run_not_lost (h : Run (fun s a s' => step s a = some s') Ok init s) :
    ¬ Lost s ∧ ∀ a s', ¬ Ok s a → s.step a = some s' →
      ∃ s'', s'.step .wait = some s'' ∧ Lost s'' := by
  have hinv : Inv s := h.invariant inv_init fun _ _ _ hp hok hs => hp.step hok hs
  exact ⟨hinv.not_lost, fun _ _ hok hs => lost_of_not_ok hok hs⟩

/-! ## 例 -/

/-- 停止を報告して待つ間に、`Resume` が来る。 -/
def sampleResumed : List Action :=
  [.enter, .switch, .lock, .report, .wait, .resume, .store, .notify]

/-- `Resume` が、報告と `wait` の間に終わる。 -/
def sampleLost : List Action := [.enter, .switch, .lock, .report, .resume, .store, .notify, .wait]

theorem sampleResumed_not_lost : ∃ s, runTrace step Ok sampleResumed init = some s ∧
    s.vm = .woken ∧ ¬ Lost s := by
  have htrace : ∃ s, runTrace step Ok sampleResumed init = some s ∧ s.vm = .woken := by decide
  obtain ⟨s, hs, hvm⟩ := htrace
  exact ⟨s, hs, hvm, (run_not_lost (Run.of_trace _ hs)).1⟩

/-- 起こす相手のいない `notify_all` は残らず、VM の thread は待ち続ける。 -/
theorem sampleLost_lost : ∃ s,
    Run (fun s a s' => step s a = some s') (fun _ _ => True) init s ∧ Lost s := by
  refine ⟨⟨.running, false, .waiting, none, 1, 1⟩, Run.of_trace sampleLost rfl, rfl, ?_⟩
  exact Nat.le_refl 1

end Session

end AetherVM.Debugger
