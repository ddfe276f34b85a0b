import AetherVM.Engine.Load
import AetherVM.Infra.RefCount

/-!
# breakpoint（`lldb/src/Process.cpp` の `SetBreakpoint`、`RemoveBreakpoint`、`WatchDog`）

breakpoint の表の鍵は、そのときの `mappedAddress` で直した番地である。直せない番地はそのまま鍵になる。
memory を commit すると直せるようになるので、同じ番地の鍵が、置いたときと外すときで違うことがある。

どの番地が何度置かれたままかは、置いた番地の列 `outstanding` として覚えておく。
-/

namespace AetherVM.Debugger

open Infra

/-- `AetherProcess` と `Engine` のうち、breakpoint に関わるもの。 -/
structure Debuggee where
  memory : GuestMemory
  opcode : Option OpcodeBinary
  softwareBreakpoints : RefTable UInt64

/-- `AetherProcess::WatchDog` のすること。 -/
inductive WatchDogOutcome where
  | hitBreakpoint
  | watchDog
deriving DecidableEq, Repr

namespace Debuggee

variable (d : Debuggee)

/-- 今の実行時の番地。 -/
def runtimeAddress (addr : UInt64) : UInt64 :=
  let rtaddr := d.memory.mappedAddress d.opcode addr 1
  if rtaddr ≠ 0 then rtaddr else addr

/-- `SetBreakpoint`。 -/
def setBreakpoint (addr : UInt64) : Debuggee :=
  { d with softwareBreakpoints := d.softwareBreakpoints.acquire (d.runtimeAddress addr) }

/-- `RemoveBreakpoint`。失敗は `none` である。 -/
def removeBreakpoint (addr : UInt64) : Option Debuggee :=
  (d.softwareBreakpoints.release (d.runtimeAddress addr)).map fun t =>
    { d with softwareBreakpoints := t }

/-- `AetherProcess::WatchDog(pc)`。 -/
def watchDog (pc : UInt64) : WatchDogOutcome :=
  if (d.softwareBreakpoints pc).isSome then .hitBreakpoint else .watchDog

end Debuggee

/-- debugger と loader の呼び出し。`success` は `page_commit` の成否である。 -/
inductive DebugCall where
  | setBreakpoint (addr : UInt64)
  | removeBreakpoint (addr : UInt64)
  | mapMemory (size : UInt64) (success : Bool)
  | orchBinary (bin : AttachedBinary) (addend : UInt64) (success : Bool)
  | setOpcodeBinary (bin : Option OpcodeBinary)

/-- 置いた番地の列とともに見る状態。 -/
structure BreakpointHistory where
  debuggee : Debuggee
  outstanding : List UInt64

namespace BreakpointHistory

/-- breakpoint を一つも置いていない状態。 -/
def init (memory : GuestMemory) (opcode : Option OpcodeBinary) : BreakpointHistory :=
  ⟨⟨memory, opcode, fun _ => none⟩, []⟩

variable (page : UInt64) (h : BreakpointHistory)

/-- 一つの呼び出し。 -/
def step : DebugCall → BreakpointHistory
  | .setBreakpoint addr => ⟨h.debuggee.setBreakpoint addr, addr :: h.outstanding⟩
  | .removeBreakpoint addr =>
    ⟨(h.debuggee.removeBreakpoint addr).getD h.debuggee, h.outstanding.erase addr⟩
  | .mapMemory size success =>
    { h with debuggee := { h.debuggee with
        memory := (h.debuggee.memory.mapMemory page size success).2 } }
  | .orchBinary bin addend success =>
    { h with debuggee := { h.debuggee with
        memory := (h.debuggee.memory.commit (loadCall page bin addend success)).2 } }
  | .setOpcodeBinary bin => { h with debuggee := { h.debuggee with opcode := bin } }

/-- 置いてある番地の鍵。 -/
def keys : List UInt64 := h.outstanding.map h.debuggee.runtimeAddress

/--
呼び出しの条件。置く所の数は 32 bit に収まり、外す番地は置いてあるか、置いてあるどの番地とも鍵が違い、
memory と binary の操作は置いてあるどの番地の鍵も変えない。
-/
def Ok : DebugCall → Prop
  | .setBreakpoint addr => h.keys.count (h.debuggee.runtimeAddress addr) + 1 < 2 ^ 32
  | .removeBreakpoint addr =>
    addr ∈ h.outstanding ∨ h.debuggee.runtimeAddress addr ∉ h.keys
  | call => ∀ addr ∈ h.outstanding,
    (h.step page call).debuggee.runtimeAddress addr = h.debuggee.runtimeAddress addr

instance : (call : DebugCall) → Decidable (h.Ok page call)
  | .setBreakpoint _ => inferInstanceAs (Decidable (_ < _))
  | .removeBreakpoint _ => inferInstanceAs (Decidable (_ ∨ _))
  | .mapMemory _ _ | .orchBinary _ _ _ | .setOpcodeBinary _ =>
    List.decidableBAll _ h.outstanding

/-- 止まるのは、置いたままの番地の実行時の番地に限ること。 -/
def Stops : Prop := ∀ pc, h.debuggee.watchDog pc = .hitBreakpoint ↔
  ∃ addr ∈ h.outstanding, h.debuggee.runtimeAddress addr = pc

/-- 外すのに失敗するのは、置いていないときに限ること。 -/
def RemoveFails (addr : UInt64) : Prop :=
  h.debuggee.removeBreakpoint addr = none ↔ addr ∉ h.outstanding

/-- 表が、置いてある番地の鍵を数えていること。 -/
def Counted : Prop := h.debuggee.softwareBreakpoints.Counts h.keys

/-! ## 不変条件 -/

variable {page h} {addr : UInt64} {call : DebugCall}

theorem counted_init (memory : GuestMemory) (opcode : Option OpcodeBinary) :
    (init memory opcode).Counted := RefTable.counts_nil

theorem Counted.stops (hc : h.Counted) : h.Stops := by
  intro pc
  rw [Debuggee.watchDog, ite_eq_left_iff, not_imp_comm]
  simp only [reduceCtorEq, not_false_eq_true, forall_const, hc.isSome_iff, keys, List.mem_map]

/-- 外すのに失敗するのが置いていないときに限るのは、鍵が重なっていないときに限る。 -/
theorem Counted.removeFails_iff (hc : h.Counted) (page addr : UInt64) :
    h.RemoveFails addr ↔ h.Ok page (.removeBreakpoint addr) := by
  have hmem : addr ∈ h.outstanding → h.debuggee.runtimeAddress addr ∈ h.keys :=
    fun hm => List.mem_map_of_mem hm
  unfold RemoveFails Ok
  rw [Debuggee.removeBreakpoint, Option.map_eq_none_iff, hc.release_eq_none_iff]
  tauto

/-- 鍵の列が変わらなければ、表は数えたままである。 -/
theorem Counted.of_runtimeAddress {h' : BreakpointHistory} (hc : h.Counted)
    (htable : h'.debuggee.softwareBreakpoints = h.debuggee.softwareBreakpoints)
    (hout : h'.outstanding = h.outstanding)
    (hkeys : ∀ addr ∈ h.outstanding,
      h'.debuggee.runtimeAddress addr = h.debuggee.runtimeAddress addr) : h'.Counted := by
  have heq : h'.keys = h.keys := by
    rw [keys, hout]
    exact List.map_congr_left hkeys
  rw [Counted, htable, heq]
  exact hc

theorem Counted.setBreakpoint (hc : h.Counted) (hok : h.Ok page (.setBreakpoint addr)) :
    (h.step page (.setBreakpoint addr)).Counted := hc.acquire hok

theorem Counted.removeBreakpoint (hc : h.Counted) (hok : h.Ok page (.removeBreakpoint addr)) :
    (h.step page (.removeBreakpoint addr)).Counted := by
  by_cases hmem : addr ∈ h.outstanding
  · -- 列から除いた番地の鍵が、表から返した鍵である
    have hkey : h.debuggee.runtimeAddress addr ∈ h.keys := List.mem_map_of_mem hmem
    obtain ⟨t, ht⟩ := Option.ne_none_iff_exists'.mp
      (mt hc.release_eq_none_iff.mp (not_not_intro hkey))
    have hperm : (h.keys.erase (h.debuggee.runtimeAddress addr)).Perm
        ((h.outstanding.erase addr).map h.debuggee.runtimeAddress) := by
      refine (List.perm_cons_erase hkey).symm.trans ?_ |>.cons_inv
      exact (List.perm_cons_erase hmem).map _
    have hstep : h.step page (.removeBreakpoint addr) =
        ⟨{ h.debuggee with softwareBreakpoints := t }, h.outstanding.erase addr⟩ := by
      simp [step, Debuggee.removeBreakpoint, ht]
    rw [hstep]
    exact (hc.release ht).perm hperm
  · have hnone := ((hc.removeFails_iff page addr).mpr hok).mpr hmem
    have hstep : h.step page (.removeBreakpoint addr) = h := by
      rw [step, hnone, List.erase_of_not_mem hmem]
      rfl
    rw [hstep]
    exact hc

theorem Counted.step (hc : h.Counted) (hok : h.Ok page call) : (h.step page call).Counted := by
  cases call with
  | setBreakpoint addr => exact hc.setBreakpoint hok
  | removeBreakpoint addr => exact hc.removeBreakpoint hok
  | mapMemory size success => exact hc.of_runtimeAddress rfl rfl hok
  | orchBinary bin addend success => exact hc.of_runtimeAddress rfl rfl hok
  | setOpcodeBinary bin => exact hc.of_runtimeAddress rfl rfl hok

/--
どの memory と binary から始めても、条件を満たす呼び出しだけで着くどの状態でも、`WatchDog` が止まるのは
置いたままの番地の実行時の番地に限り、条件を満たす `RemoveBreakpoint` が失敗するのは置いていない番地に
限る。条件を満たさない `RemoveBreakpoint` では、そうならない。
-/
theorem run_follows (page : UInt64) (memory : GuestMemory) (opcode : Option OpcodeBinary)
    (hrun : Run (fun h call h' => h.step page call = h') (Ok page) (init memory opcode) h) :
    h.Stops ∧ ∀ addr, h.RemoveFails addr ↔ h.Ok page (.removeBreakpoint addr) := by
  have hc : h.Counted := by
    refine hrun.invariant (counted_init memory opcode) ?_
    rintro h call h' hc hok rfl
    exact hc.step hok
  exact ⟨hc.stops, hc.removeFails_iff page⟩

/-! ## 例 -/

/-- 0x10000 から予約した、まだ何も commit していない memory から始める。 -/
def sampleRun (calls : List DebugCall) : BreakpointHistory :=
  calls.foldl (step 0x1000) (init (.new 0x10000) none)

theorem run_sampleRun : ∀ (calls : List DebugCall) {s : BreakpointHistory},
    runTrace (fun h call => some (h.step 0x1000 call)) (Ok 0x1000) calls
      (init (.new 0x10000) none) = some s →
    Run (fun h call h' => h.step 0x1000 call = h') (Ok 0x1000) (init (.new 0x10000) none) s := by
  intro calls s h
  have hrun := Run.of_trace calls h
  simpa only [Option.some.injEq] using hrun

/-- 先に commit しておけば、別の所を commit しても、breakpoint は置いた番地のものである。 -/
theorem sampleRun_follows : ∃ h : BreakpointHistory, h.outstanding = [0x1000] ∧
    h.debuggee.runtimeAddress 0x1000 = 0x11000 ∧
    h.Stops ∧ ∀ addr, h.RemoveFails addr ↔ h.Ok 0x1000 (.removeBreakpoint addr) :=
  let calls := [.mapMemory 0x4000 true, .setBreakpoint 0x1000, .setBreakpoint 0x1000,
    .mapMemory 0x2000 true, .removeBreakpoint 0x1000]
  ⟨sampleRun calls, by decide, by decide,
    run_follows 0x1000 (.new 0x10000) none (run_sampleRun calls rfl)⟩

/-- 置いてから commit すると、その番地では止まらず、外すこともできない。 -/
theorem sampleRun_not_follows : ∃ h : BreakpointHistory,
    h = sampleRun [.setBreakpoint 0x1000, .mapMemory 0x4000 true] ∧
      ¬ h.Stops ∧ ¬ h.RemoveFails 0x1000 := by
  refine ⟨_, rfl, fun hstops => ?_, fun hfails => ?_⟩
  · have hhit := (hstops 0x11000).mpr ⟨0x1000, by decide, by decide⟩
    revert hhit
    decide
  · have hmem := hfails.mp (by
      rw [Debuggee.removeBreakpoint, Option.map_eq_none_iff, RefTable.release,
        Option.map_eq_none_iff]
      decide)
    revert hmem
    decide

end BreakpointHistory

end AetherVM.Debugger
