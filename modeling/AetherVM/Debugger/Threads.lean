import Mathlib.Logic.Function.Basic
import Mathlib.Tactic.Common
import AetherVM.Infra.Run

/-!
# debugger の thread の表（`lldb/src/Debugger.cpp` の `thread_handler`、`src/CPUState.cpp`）

debug の設定では、`CPUState::initContext` のたびに `AttachThread` が `AetherThread` を一つ足し、
`freeContext` のたびに `DetachThread` が、この native thread のものを一つだけ除く。`initContext` は engine の
構築と `enterThread` のほかに `startVM` も呼ぶ。

engine はどれも debug の設定で作られ、debugger の接続は切れないものとする。
-/

namespace AetherVM.Debugger

open Infra

/-- `AetherThread` のうち、表の出し入れが見るもの。`id` は作った native thread である。 -/
structure AetherThread where
  tid : UInt64
  id : Nat
deriving DecidableEq, Repr

/--
thread ごとの `CPU` のうち、初期化に関わるもの。`stack` は確保したかどうか、`runtime` は engine の
番号である。
-/
structure CpuContext where
  stack : Bool
  runtime : Option Nat
deriving DecidableEq, Repr

/--
process の状態。`engines` は生きている engine、`threads` は `AetherProcess::m_threads`、`tid` は
次に使う `m_tid` である。
-/
structure Host where
  engines : List Nat
  cpu : Nat → CpuContext
  threads : List AetherThread
  tid : UInt64

/-- native thread の上の操作。 -/
inductive HostOp where
  | construct (thread engine : Nat)
  | startVM (thread engine : Nat)
  | enterThread (thread engine : Nat)
  | leaveThread (thread engine : Nat)
  | destroy (thread engine : Nat)
deriving DecidableEq, Repr

namespace Host

/-- 何も作っていない process。`m_tid` は 1 から始まる。 -/
def init : Host := ⟨[], fun _ => ⟨false, none⟩, [], 1⟩

variable (h : Host)

/-- `AetherProcess::AttachThread`。 -/
def attachThread (thread : Nat) : Host :=
  { h with threads := h.threads ++ [⟨h.tid, thread⟩], tid := h.tid + 1 }

/-- `AetherProcess::DetachThread`。この native thread の最初のものを除く。 -/
def detachThread (thread : Nat) : Host :=
  { h with threads := h.threads.eraseP fun t => t.id = thread }

/-- この thread の `CPU.runtime` が指す engine。`none` は、空か、消えた engine の参照である。 -/
def liveRuntime (thread : Nat) : Option Nat :=
  (h.cpu thread).runtime.filter fun engine => engine ∈ h.engines

/-- `CPUState::initContext`。`thread_handler(this)` は `AttachThread` である。 -/
def initContext (thread : Nat) : Option Host := do
  let _ ← h.liveRuntime thread
  let cpu := Function.update h.cpu thread { h.cpu thread with stack := true }
  some ({ h with cpu := cpu }.attachThread thread)

/-- `CPUState::freeContext`。`runtime` が空なら、debugger には知らせない。 -/
def freeContext (thread : Nat) : Option Host := do
  let h ← (if (h.cpu thread).runtime = none then some h
    else (h.liveRuntime thread).map fun _ => h.detachThread thread)
  some { h with cpu := Function.update h.cpu thread ⟨false, none⟩ }

/-- `CPU.runtime = engine`。 -/
def setRuntime (thread engine : Nat) : Host :=
  { h with cpu := Function.update h.cpu thread { h.cpu thread with runtime := some engine } }

/-- 操作一つ。消えた engine を使うか、`CPU.runtime` の無い thread で動かすと `none` である。 -/
def step : HostOp → Option Host
  | .construct thread engine =>
    if engine ∈ h.engines then none
    else ({ h with engines := engine :: h.engines }.setRuntime thread engine).initContext thread
  | .startVM thread engine => if engine ∈ h.engines then h.initContext thread else none
  | .enterThread thread engine =>
    if engine ∈ h.engines then (h.setRuntime thread engine).initContext thread else none
  | .leaveThread thread engine => if engine ∈ h.engines then h.freeContext thread else none
  | .destroy thread engine =>
    if engine ∈ h.engines then
      (h.freeContext thread).map fun h => { h with engines := h.engines.erase engine }
    else none

/-- `AetherThread` が、初期化した native thread にちょうど一つずつあり、番号が異なること。 -/
structure Balanced : Prop where
  count : ∀ thread, (h.threads.map AetherThread.id).count thread
    = if (h.cpu thread).stack then 1 else 0
  tids : (h.threads.map AetherThread.tid).Nodup

/--
操作の条件。`startVM` を呼ばず、engine の構築と `enterThread` は、まだ初期化していない native thread で、
次の `m_tid` が使われていないときに行う。
-/
def Ok : HostOp → Prop
  | .construct thread _ | .enterThread thread _ =>
    (h.cpu thread).stack = false ∧ h.tid ∉ h.threads.map AetherThread.tid
  | .startVM _ _ => False
  | .leaveThread _ _ | .destroy _ _ => True

/-! ## 操作の結果 -/

variable {h} {h' : Host} {thread engine : Nat} {op : HostOp}

/-- この native thread の `AetherThread` の数。 -/
def attached (h : Host) (thread : Nat) : Nat := (h.threads.map AetherThread.id).count thread

theorem attached_attachThread (h : Host) (thread t : Nat) :
    (h.attachThread thread).attached t = h.attached t + if t = thread then 1 else 0 := by
  simp only [attached, attachThread, List.map_append, List.map_cons, List.map_nil,
    List.count_append, List.count_singleton]
  congr 1
  by_cases ht : t = thread
  · simp [ht]
  · simp [ht, Ne.symm ht]

theorem attached_detachThread (h : Host) (thread t : Nat) :
    (h.detachThread thread).attached t = h.attached t - if t = thread then 1 else 0 := by
  have hmap : (h.threads.eraseP fun x => x.id = thread).map AetherThread.id
      = (h.threads.map AetherThread.id).erase thread := by
    rw [List.erase_eq_eraseP', List.eraseP_map]
    rfl
  simp only [attached, detachThread, hmap, List.count_erase, beq_iff_eq]
  by_cases ht : t = thread
  · simp [ht]
  · simp [ht, Ne.symm ht]

/-- `initContext` は、stack を確保して `AetherThread` を一つ足す。 -/
theorem initContext_eq (hs : h.initContext thread = some h') :
    (∃ e, (h.cpu thread).runtime = some e) ∧ h'.tid = h.tid + 1 ∧
      h'.threads = h.threads ++ [⟨h.tid, thread⟩] ∧
      h'.cpu = Function.update h.cpu thread { h.cpu thread with stack := true } := by
  obtain ⟨e, he, hs⟩ := Option.bind_eq_some_iff.mp hs
  cases hs
  exact ⟨⟨e, (Option.filter_eq_some_iff.mp he).1⟩, rfl, rfl, rfl⟩

/-- `freeContext` は、`runtime` があれば `AetherThread` を一つ除き、`CPU` を消す。 -/
theorem freeContext_eq (hs : h.freeContext thread = some h') :
    h'.tid = h.tid ∧ h'.cpu = Function.update h.cpu thread ⟨false, none⟩ ∧
      h'.threads = if (h.cpu thread).runtime = none then h.threads
        else (h.detachThread thread).threads := by
  obtain ⟨g, hg, hs⟩ := Option.bind_eq_some_iff.mp hs
  cases hs
  split at hg
  · next hnone =>
    cases hg
    exact ⟨rfl, rfl, (if_pos hnone).symm⟩
  · next hsome =>
    obtain ⟨e, -, rfl⟩ := Option.map_eq_some_iff.mp hg
    exact ⟨rfl, rfl, (if_neg hsome).symm⟩

/-! ## 不変条件 -/

/-- 釣り合った状態。stack のある thread には必ず `runtime` がある。 -/
structure Inv (h : Host) : Prop where
  balanced : h.Balanced
  context : ∀ thread, (h.cpu thread).stack = (h.cpu thread).runtime.isSome

theorem inv_init : Inv init where
  balanced := ⟨fun _ => rfl, List.nodup_nil⟩
  context := fun _ => rfl

/-- 釣り合った状態から一つ足すと、まだ無い thread で番号が新しいときに限り、釣り合ったままになる。 -/
theorem balanced_attach_iff (hb : h.Balanced)
    (hthreads : h'.threads = h.threads ++ [⟨h.tid, thread⟩])
    (hcpu : ∀ t, (h'.cpu t).stack = if t = thread then true else (h.cpu t).stack) :
    h'.Balanced ↔ (h.cpu thread).stack = false ∧ h.tid ∉ h.threads.map AetherThread.tid := by
  -- 新しい thread の数だけが一つ増え、釣り合うのはもとが 0 のとき
  have hcount : ∀ t, (h'.threads.map AetherThread.id).count t
      = (if (h.cpu t).stack then 1 else 0) + if t = thread then 1 else 0 := by
    intro t
    rw [← hb.count t, hthreads]
    exact attached_attachThread h thread t
  have htids : (h'.threads.map AetherThread.tid).Nodup ↔
      h.tid ∉ h.threads.map AetherThread.tid := by
    rw [hthreads, List.map_append, List.map_cons, List.map_nil,
      List.perm_append_comm.nodup_iff, List.singleton_append, List.nodup_cons]
    exact and_iff_left hb.tids
  constructor
  · intro hb'
    refine ⟨?_, htids.mp hb'.tids⟩
    have hone := hb'.count thread
    rw [hcount, hcpu, if_pos rfl, if_pos rfl, if_pos rfl] at hone
    cases hstack : (h.cpu thread).stack with
    | false => rfl
    | true =>
      rw [hstack, if_pos rfl] at hone
      cases hone
  · rintro ⟨hstack, htid⟩
    refine ⟨fun t => ?_, htids.mpr htid⟩
    rw [hcount, hcpu]
    by_cases ht : t = thread
    · simp [ht, hstack]
    · simp [ht]

theorem Inv.freeContext (hi : Inv h) (hs : h.freeContext thread = some h') : Inv h' := by
  obtain ⟨-, hcpu, hthreads⟩ := freeContext_eq hs
  have hcontext := hi.context thread
  refine ⟨⟨fun t => ?_, ?_⟩, fun t => ?_⟩
  · rw [hthreads, hcpu]
    have hcount := hi.balanced.count t
    have hdetach := attached_detachThread h thread t
    unfold attached at hdetach
    -- `runtime` の無い thread は列に無く、ある thread は列に一つだけある
    by_cases ht : t = thread
    · subst ht
      rw [Function.update_self]
      cases hr : (h.cpu t).runtime with
      | none =>
        rw [hr] at hcontext
        rw [if_pos rfl, hcount, hcontext]
        rfl
      | some e =>
        rw [hr] at hcontext
        rw [if_neg (Option.some_ne_none e), hdetach, hcount, hcontext, if_pos rfl]
        rfl
    · rw [Function.update_of_ne ht, ← hcount]
      split
      · rfl
      · rw [hdetach, if_neg ht, Nat.sub_zero]
  · rw [hthreads]
    split
    · exact hi.balanced.tids
    · refine List.Nodup.sublist ?_ hi.balanced.tids
      exact List.Sublist.map _ List.eraseP_sublist
  · rw [hcpu]
    by_cases ht : t = thread
    · subst ht
      rw [Function.update_self]
      rfl
    · rw [Function.update_of_ne ht]
      exact hi.context t

/-- `initContext` で釣り合うのは、まだ初期化していない thread で番号が新しいときに限る。 -/
theorem balanced_initContext_iff (hb : h.Balanced) (hs : h.initContext thread = some h') :
    h'.Balanced ↔ (h.cpu thread).stack = false ∧ h.tid ∉ h.threads.map AetherThread.tid := by
  obtain ⟨-, -, hthreads, hcpu⟩ := initContext_eq hs
  refine balanced_attach_iff hb hthreads fun t => ?_
  rw [hcpu]
  by_cases ht : t = thread
  · subst ht
    simp
  · simp [ht]

theorem Inv.initContext (hb : h.Balanced)
    (hcontext : ∀ t, t ≠ thread → (h.cpu t).stack = (h.cpu t).runtime.isSome)
    (hok : (h.cpu thread).stack = false ∧ h.tid ∉ h.threads.map AetherThread.tid)
    (hs : h.initContext thread = some h') : Inv h' := by
  obtain ⟨⟨e, he⟩, -, -, hcpu⟩ := initContext_eq hs
  refine ⟨(balanced_initContext_iff hb hs).mpr hok, fun t => ?_⟩
  rw [hcpu]
  by_cases ht : t = thread
  · subst ht
    rw [Function.update_self, he]
    rfl
  · rw [Function.update_of_ne ht]
    exact hcontext t ht

/-- `runtime` を書いても、thread の表も stack も変わらない。 -/
theorem setRuntime_spec (h : Host) (thread engine : Nat) :
    (h.setRuntime thread engine).threads = h.threads ∧
      (h.setRuntime thread engine).tid = h.tid ∧
      (∀ t, ((h.setRuntime thread engine).cpu t).stack = (h.cpu t).stack) ∧
      ∀ t, t ≠ thread → (h.setRuntime thread engine).cpu t = h.cpu t := by
  refine ⟨rfl, rfl, fun t => ?_, fun t ht => Function.update_of_ne ht _ _⟩
  by_cases ht : t = thread
  · subst ht
    simp [setRuntime]
  · simp [setRuntime, ht]

theorem Balanced.setRuntime (hb : h.Balanced) (thread engine : Nat) :
    (h.setRuntime thread engine).Balanced where
  count := fun t => by
    rw [(setRuntime_spec h thread engine).2.2.1 t]
    exact hb.count t
  tids := hb.tids

/-- engine の構築と `enterThread` に共通の部分。 -/
theorem setRuntime_initContext (hi : Inv h)
    (hs : (h.setRuntime thread engine).initContext thread = some h') :
    (h'.Balanced ↔ (h.cpu thread).stack = false ∧ h.tid ∉ h.threads.map AetherThread.tid) ∧
      (h'.Balanced → Inv h') := by
  obtain ⟨-, -, hstack, hother⟩ := setRuntime_spec h thread engine
  have hb := hi.balanced.setRuntime thread engine
  have hiff := balanced_initContext_iff hb hs
  refine ⟨by rw [hiff, hstack]; rfl, fun hb' => ?_⟩
  refine Inv.initContext hb (fun t ht => ?_) (hiff.mp hb') hs
  rw [hother t ht]
  exact hi.context t

/-- 一つの操作で釣り合うのは、条件を満たすときに限る。釣り合えば不変条件も保たれる。 -/
theorem step_spec (hi : Inv h) (hs : h.step op = some h') :
    (h'.Balanced ↔ h.Ok op) ∧ (h'.Balanced → Inv h') := by
  cases op with
  | construct thread engine =>
    simp only [step, Option.ite_none_left_eq_some] at hs
    have hi' : Inv { h with engines := engine :: h.engines } := ⟨⟨hi.1.1, hi.1.2⟩, hi.2⟩
    have hspec := setRuntime_initContext hi' hs.2
    exact hspec
  | enterThread thread engine =>
    simp only [step, Option.ite_none_right_eq_some] at hs
    exact setRuntime_initContext hi hs.2
  | startVM thread engine =>
    simp only [step, Option.ite_none_right_eq_some] at hs
    -- `runtime` があるので、この thread の `AetherThread` はもうある
    obtain ⟨⟨e, he⟩, -⟩ := initContext_eq hs.2
    have hstack : (h.cpu thread).stack = true := by
      rw [hi.context, he]
      rfl
    have hnot : ¬ h'.Balanced := fun hb' => by
      have hfalse := ((balanced_initContext_iff hi.balanced hs.2).mp hb').1
      rw [hstack] at hfalse
      cases hfalse
    exact ⟨iff_of_false hnot id, fun hb' => absurd hb' hnot⟩
  | leaveThread thread engine =>
    simp only [step, Option.ite_none_right_eq_some] at hs
    have hi' := hi.freeContext hs.2
    exact ⟨iff_of_true hi'.balanced trivial, fun _ => hi'⟩
  | destroy thread engine =>
    simp only [step, Option.ite_none_right_eq_some] at hs
    obtain ⟨-, hs⟩ := hs
    obtain ⟨g, hg, rfl⟩ := Option.map_eq_some_iff.mp hs
    have hg' := hi.freeContext hg
    exact ⟨iff_of_true ⟨hg'.1.1, hg'.1.2⟩ trivial, fun _ => ⟨⟨hg'.1.1, hg'.1.2⟩, hg'.2⟩⟩

/--
条件を満たす操作だけで着く状態では、初期化した native thread にちょうど一つずつ `AetherThread` がある。
そこからの操作がそれを保つのは、条件を満たすときに限る。
-/
theorem run_balanced (hrun : Run (fun h op h' => step h op = some h') Ok init h) :
    h.Balanced ∧ ∀ op h', h.step op = some h' → (h'.Balanced ↔ h.Ok op) := by
  have hinv : Inv h := hrun.invariant inv_init fun h op h' hi hok hs =>
    (step_spec hi hs).2 ((step_spec hi hs).1.mpr hok)
  exact ⟨hinv.balanced, fun op h' hs => (step_spec hinv hs).1⟩

/-! ## 例 -/

/-- engine を作り、別の thread が入って出て、engine を消す。 -/
theorem sampleHost_balanced : ∃ h : Host,
    Run (fun h op h' => step h op = some h') Ok init h ∧ h.threads = [⟨1, 0⟩] ∧ h.Balanced := by
  have hrun : ∃ h : Host, Run (fun h op h' => step h op = some h') Ok init h ∧
      h.threads = [⟨1, 0⟩] := by
    refine ⟨_, .tail (i := .leaveThread 1 7) (.tail (i := .enterThread 1 7)
      (.tail (i := .construct 0 7) .refl ?_ rfl) ?_ rfl) ?_ rfl, rfl⟩
    · exact ⟨rfl, List.not_mem_nil⟩
    · exact ⟨rfl, by decide⟩
    · exact trivial
  obtain ⟨h, hrun, hthreads⟩ := hrun
  exact ⟨h, hrun, hthreads, (run_balanced hrun).1⟩

/-- engine を作って一度動かすと、同じ native thread の `AetherThread` が二つになる。 -/
theorem sampleHost_not_balanced : ∃ h : Host,
    Run (fun h op h' => step h op = some h') (fun _ _ => True) init h ∧ ¬ h.Balanced := by
  have hrun : ∃ h : Host, Run (fun h op h' => step h op = some h') (fun _ _ => True) init h ∧
      h.threads = [⟨1, 0⟩, ⟨2, 0⟩] ∧ (h.cpu 0).stack = true :=
    ⟨_, .tail (i := .startVM 0 7) (.tail (i := .construct 0 7) .refl trivial rfl) trivial rfl,
      rfl, rfl⟩
  obtain ⟨h, hrun, hthreads, hstack⟩ := hrun
  refine ⟨h, hrun, fun hb => ?_⟩
  have hcount := hb.count 0
  rw [hthreads, hstack] at hcount
  exact absurd hcount (by decide)

end Host

end AetherVM.Debugger
