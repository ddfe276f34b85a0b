import Mathlib.Data.List.Basic
import Mathlib.Tactic.Common

/-!
# 全ての thread の再開（`lldb/src/Process.cpp` の `ResumeThread`、`Resume`）

`Resume` は thread を順に見て、`running` か `stepping` の action のある thread を再開する。loop の中から
`return` するので、再開されるのは最初の一つだけである。

どの thread にどの action があるかは `ResumeActionList::GetActionForThread` が決める。parameter として受け取る。
-/

namespace AetherVM.Debugger

/-- `lldb::StateType`。 -/
inductive LldbState where
  | invalid | unloaded | connected | attaching | launching | stopped | running | stepping
  | crashed | detached | exited | suspended
deriving DecidableEq, Repr

/-- `ResumeAction` のうち、`Resume` の読むもの。 -/
structure ResumeAction where
  state : LldbState
  signal : Int
deriving DecidableEq, Repr

/-- `AetherThread`。`notified` は `m_condvar.notify_all` を呼んだ回数である。 -/
structure VmThread where
  id : UInt64
  state : LldbState
  notified : Nat
deriving DecidableEq, Repr

/-- `AetherThread::Resume`。 -/
def VmThread.resume (t : VmThread) : VmThread :=
  { t with state := .running, notified := t.notified + 1 }

/-- `AetherThread::SingleStep`。 -/
def VmThread.singleStep (t : VmThread) : VmThread :=
  { t with state := .stepping, notified := t.notified + 1 }

/-- `AetherProcess` のうち、再開に関わるもの。`state` は `SetState` の書くものである。 -/
structure VmProcess where
  threads : List VmThread
  state : LldbState
deriving DecidableEq, Repr

/-- `AetherProcess::ResumeThread`。`none` は `abort` である。返すのは、再開した thread と process の状態である。 -/
def resumeThread (t : VmThread) : LldbState → Option (VmThread × LldbState)
  | .running => some (t.resume, .running)
  | .stepping => some (t.singleStep, .running)
  | _ => none

/-- `running` か `stepping` であること。 -/
def LldbState.resumes : LldbState → Bool
  | .running | .stepping => true
  | _ => false

section

variable (actions : UInt64 → Option ResumeAction)

/-- `AetherProcess::Resume` の loop。 -/
def resumeLoop (state : LldbState) : List VmThread → Option (List VmThread × LldbState)
  | [] => some ([], state)
  | t :: rest =>
    match actions t.id with
    | none => (resumeLoop state rest).map fun r => (t :: r.1, r.2)
    | some action =>
      if action.state.resumes then
        -- `return ResumeThread(…)`。残りの thread は見ない
        (resumeThread t action.state).map fun r => (r.1 :: rest, r.2)
      else (resumeLoop state rest).map fun r => (t :: r.1, r.2)

/-- `AetherProcess::Resume`。 -/
def VmProcess.resume (p : VmProcess) : Option VmProcess :=
  (resumeLoop actions p.state p.threads).map fun r => ⟨r.1, r.2⟩

/-- `running` か `stepping` の action のある thread。 -/
def Resumed (t : VmThread) : Bool := ((actions t.id).map fun a => a.state.resumes).getD false

/-- action の通りに再開した thread。 -/
def commanded (t : VmThread) : VmThread :=
  match (actions t.id).map ResumeAction.state with
  | some .running => t.resume
  | some .stepping => t.singleStep
  | _ => t

/-- どの thread も action の通りになること。 -/
def VmProcess.ReachesAll (p : VmProcess) : Prop :=
  ∃ p', p.resume actions = some p' ∧ p'.threads = p.threads.map (commanded actions)

variable {actions} {t : VmThread} {ts : List VmThread}

/-- 再開する thread は起こされ、ほかの thread は変わらない。 -/
theorem commanded_cases (actions : UInt64 → Option ResumeAction) (t : VmThread) :
    (Resumed actions t = true ∧ (commanded actions t).notified = t.notified + 1) ∨
      (Resumed actions t = false ∧ commanded actions t = t) := by
  unfold Resumed commanded
  cases ha : actions t.id with
  | none => exact .inr ⟨rfl, rfl⟩
  | some action =>
    obtain ⟨state, signal⟩ := action
    cases state with
    | running | stepping => exact .inl ⟨rfl, rfl⟩
    | _ => exact .inr ⟨rfl, rfl⟩

theorem commanded_eq_self_iff : commanded actions t = t ↔ Resumed actions t = false := by
  rcases commanded_cases actions t with ⟨hr, hn⟩ | ⟨hr, hc⟩
  · refine iff_of_false (fun heq => ?_) (by simp [hr])
    rw [heq] at hn
    omega
  · exact iff_of_true hc hr

/-- action の通りになるのは、再開する thread が無いときに、何も変えないことである。 -/
theorem eq_map_commanded_iff :
    ts = ts.map (commanded actions) ↔ ts.countP (Resumed actions) = 0 := by
  induction ts with
  | nil => simp
  | cons t ts ih =>
    rw [List.map_cons, List.cons.injEq, ih, eq_comm (a := t), commanded_eq_self_iff,
      List.countP_cons]
    cases Resumed actions t <;> simp

/-- loop の一周。 -/
theorem resumeLoop_cons (actions : UInt64 → Option ResumeAction) (state : LldbState) (t : VmThread)
    (ts : List VmThread) : resumeLoop actions state (t :: ts) =
      if Resumed actions t then some (commanded actions t :: ts, .running)
      else (resumeLoop actions state ts).map fun r => (commanded actions t :: r.1, r.2) := by
  rw [resumeLoop]
  unfold Resumed commanded
  cases ha : actions t.id with
  | none => rfl
  | some action =>
    obtain ⟨state', signal⟩ := action
    cases state' <;> rfl

/-- loop は `abort` せず、action の通りになるのは、再開する thread が一つまでのときに限る。 -/
theorem exists_resumeLoop (actions : UInt64 → Option ResumeAction) (state : LldbState)
    (ts : List VmThread) : ∃ r, resumeLoop actions state ts = some r ∧
      (r.1 = ts.map (commanded actions) ↔ ts.countP (Resumed actions) ≤ 1) := by
  induction ts with
  | nil => exact ⟨([], state), rfl, by simp⟩
  | cons t ts ih =>
    rw [resumeLoop_cons, List.map_cons, List.countP_cons]
    by_cases hr : Resumed actions t = true
    · refine ⟨_, if_pos hr, ?_⟩
      rw [List.cons.injEq, eq_map_commanded_iff, if_pos hr]
      simp
    · obtain ⟨r, hloop, hiff⟩ := ih
      refine ⟨_, (if_neg hr).trans (by rw [hloop, Option.map_some]), ?_⟩
      rw [List.cons.injEq, hiff, if_neg hr]
      simp

/--
どの thread の列、どの action の列でも、どの thread も action の通りになるのは、`running` か `stepping` の
action のある thread が一つまでのときに限る。
-/
theorem VmProcess.reachesAll_iff (actions : UInt64 → Option ResumeAction) (p : VmProcess) :
    p.ReachesAll actions ↔ p.threads.countP (Resumed actions) ≤ 1 := by
  obtain ⟨r, hloop, hiff⟩ := exists_resumeLoop actions p.state p.threads
  unfold ReachesAll resume
  rw [← hiff, hloop]
  simp

/-- 二つの thread をどちらも再開しようとしても、二つ目は止まったままである。 -/
theorem VmProcess.not_reachesAll_pair :
    ¬ VmProcess.ReachesAll (fun _ => some ⟨.running, 0⟩)
      ⟨[⟨1, .stopped, 0⟩, ⟨2, .stopped, 0⟩], .stopped⟩ := by
  rintro ⟨p', hp', hthreads⟩
  obtain rfl := Option.some.inj hp'
  revert hthreads
  decide

end

end AetherVM.Debugger
