import Mathlib.Tactic.Common
import AetherVM.Infra.Bytes

/-!
# event と callback（`include/Event.h`、`src/BinaryEngine.h` の `handleEvent`）

callback は登録した順に呼ばれ、`Continue` でない答えを返したものがその event の答えを決める。後の callback は
呼ばれない。callback が書き換えてよいのは、lift の event の opcode と、memory の event の値だけである。

callback は host の任意の関数なので、その内部の状態を型変数 `σ` で表す。
-/

namespace AetherVM

open Infra

/-- `EventType`。 -/
inductive EventType where
  | liftBefore
  | liftAfter
  | memRead
  | memWrite
  | memMap
  | memUnmap
  | memProtect
  | insnBefore
  | insnAfter
  | blockBefore
  | blockAfter
  | funcBefore
  | funcAfter
  | syscallBefore
  | syscallAfter
  | hostBridgeBefore
  | hostBridgeAfter
  | trapHit
  | exceptionThrown
  | invalidInsn
deriving DecidableEq, Repr

/-- `EventResult`。 -/
inductive EventResult where
  | continue
  | processed
  | terminate
deriving DecidableEq, Repr

/-- `EventConfig` のうち、event と debugger の bit。 -/
structure EventConfig where
  lift : Bool
  memory : Bool
  func : Bool
  block : Bool
  insn : Bool
  syscall : Bool
  trap : Bool
  bridge : Bool
  debug : Bool
deriving DecidableEq, Repr

/-- この種類の event を望む bit が立っているか。解読できない命令の event には bit が無く、いつも届いてよい。 -/
def EventConfig.enabled (cfg : EventConfig) : EventType → Bool
  | .liftBefore | .liftAfter => cfg.lift
  | .memRead | .memWrite | .memMap | .memUnmap | .memProtect => cfg.memory
  | .insnBefore | .insnAfter => cfg.insn
  | .blockBefore | .blockAfter => cfg.block
  | .funcBefore | .funcAfter => cfg.func
  | .syscallBefore | .syscallAfter => cfg.syscall
  | .hostBridgeBefore | .hostBridgeAfter => cfg.bridge
  | .trapHit => cfg.trap
  | .exceptionThrown => false
  | .invalidInsn => true

/-- `Event` の種類ごとの中身。 -/
inductive EventBody where
  | runtime
  | lift (opcode : Bytes) (name : String)
  | memory (mem size value : Nat)
  | hyperCall (sysno : Nat)
deriving DecidableEq, Repr

structure Event where
  type : EventType
  addr : Nat
  body : EventBody
deriving DecidableEq, Repr

/-- callback の書いた opcode と値。 -/
structure EventEdit where
  opcode : Bytes
  value : Nat
deriving DecidableEq, Repr

/-- 書き換えを event に写す。 -/
def Event.edit (ev : Event) (e : EventEdit) : Event :=
  match ev.body with
  | .lift _ name => { ev with body := .lift e.opcode name }
  | .memory mem size _ => { ev with body := .memory mem size e.value }
  | _ => ev

@[simp] theorem Event.edit_type (ev : Event) (e : EventEdit) : (ev.edit e).type = ev.type := by
  unfold Event.edit
  split <;> rfl

/-- lift の event の持つ opcode。 -/
def Event.opcode (ev : Event) : Bytes :=
  match ev.body with
  | .lift opcode _ => opcode
  | _ => []

/--
`EventCallback`。自分の状態を進め、event に書き込んで答える。callback が `setRegister` や `writeMemory` で guest の
register や memory を書き換えることは、ここでは扱わない。
-/
abbrev EventCallback (σ : Type) := σ → Event → EventResult × EventEdit × σ

/-- engine の外から見える動作。event が callback に届くこと、命令の実装の実行、host の system call。 -/
inductive Action where
  | delivered (callback : Nat) (type : EventType) (result : EventResult)
  | handler (entry : UInt64)
  | syscall
deriving DecidableEq, Repr

/-- `handleEvent` の結果。 -/
structure Handled (σ : Type) where
  result : EventResult
  event : Event
  world : σ
  log : List Action

variable {σ : Type}

/-- `BinaryEngineImpl::handleEvent`。`i` は callback の番号である。 -/
def handleEvent : List (EventCallback σ) → Nat → σ → Event → Handled σ
  | [], _, w, ev => ⟨.continue, ev, w, []⟩
  | callback :: rest, i, w, ev =>
    let (result, edit, w) := callback w ev
    if result = .continue then
      let h := handleEvent rest (i + 1) w (ev.edit edit)
      { h with log := .delivered i ev.type result :: h.log }
    else ⟨result, ev.edit edit, w, [.delivered i ev.type result]⟩

/-! ## 届いた event -/

/-- callback には、起きた event の種類のまま届く。 -/
theorem mem_log_handleEvent {cbs : List (EventCallback σ)} {i : Nat} {w : σ} {ev : Event}
    {a : Action} (ha : a ∈ (handleEvent cbs i w ev).log) :
    ∃ j result, a = .delivered j ev.type result := by
  induction cbs generalizing i w ev with
  | nil => cases ha
  | cons callback rest ih =>
    unfold handleEvent at ha
    dsimp only at ha
    split at ha
    · rcases List.mem_cons.mp ha with rfl | ha
      · exact ⟨i, _, rfl⟩
      · obtain ⟨j, result, rfl⟩ := ih ha
        exact ⟨j, result, by rw [Event.edit_type]⟩
    · rw [List.mem_singleton] at ha
      exact ⟨i, _, ha⟩

/-- callback があれば、最初のものには必ず届く。 -/
theorem exists_delivered {cbs : List (EventCallback σ)} (hne : cbs ≠ []) (i : Nat) (w : σ)
    (ev : Event) : ∃ result, .delivered i ev.type result ∈ (handleEvent cbs i w ev).log := by
  cases cbs with
  | nil => exact absurd rfl hne
  | cons callback rest =>
    refine ⟨(callback w ev).1, ?_⟩
    unfold handleEvent
    dsimp only
    split
    · exact List.mem_cons_self
    · exact List.mem_singleton_self _

/-- どの callback も `Terminate` を返さないことは、event の答えが `Terminate` でないことである。 -/
theorem terminate_mem_log_iff {cbs : List (EventCallback σ)} {i : Nat} {w : σ} {ev : Event} :
    (∃ j t, .delivered j t .terminate ∈ (handleEvent cbs i w ev).log) ↔
      (handleEvent cbs i w ev).result = .terminate := by
  induction cbs generalizing i w ev with
  | nil =>
    refine iff_of_false ?_ (by simp [handleEvent])
    rintro ⟨j, t, h⟩
    cases h
  | cons callback rest ih =>
    unfold handleEvent
    dsimp only
    split
    · next hcont =>
      rw [← ih]
      refine exists₂_congr fun j t => ?_
      rw [hcont, List.mem_cons, or_iff_right (by simp)]
    · simp only [List.mem_singleton, Action.delivered.injEq]
      constructor
      · rintro ⟨j, t, -, -, h⟩
        exact h.symm
      · intro h
        exact ⟨i, ev.type, rfl, rfl, h.symm⟩

end AetherVM
