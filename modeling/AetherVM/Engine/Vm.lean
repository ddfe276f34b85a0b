import AetherVM.Engine.Event
import AetherVM.Orchestrator.Find

/-!
# 命令列の実行（`src/Event.cpp`、`src/Intrinsic.cpp`、`src/Lifter.cpp` の `transform`、`src/AetherVM.cpp`）

engine は binary の命令を lift し、slot の列に並べてから、slot を一つずつ実行する。event はこの間の多くの
場所で起きる。

* lift の前後（`Lifter::transform`）と、解読できない命令（`liftOpcodes`）
* 関数・block・命令の前後の slot。slot を置くかどうかは `encode` が設定で決める
* lift した命令の memory access（`AccessMemory`）と hyper call（`__remill_sync_hyper_call`）
* system call と trap の slot（`syscall_interpret`、`interrupt_interpret`）

callback が無ければ `handleEvent` は何もしないので、`hasEventHandler` の確かめは書かない。

命令の実装は Remill の作る code なので、intrinsic を呼ぶ木 `GuestCode` として受け取る。`f80` と atomic の access は
event を起こさないので、木の節にはしない。debugger の呼び出しも event を起こさない。
-/

namespace AetherVM

open Infra Orchestrator

/-- `SyncHyperCall::Name` のうち、engine が扱うもの。 -/
inductive HyperCall where
  | x86SysCall
  | aarch64Breakpoint
  | other
deriving DecidableEq, Repr

/--
lift した命令の実装。`γ` は guest の CPU と memory である。節は intrinsic の呼び出しで、`guest` は
その時の状態、`next` は残りの実装である。
-/
inductive GuestCode (γ : Type) where
  | ret (guest : γ)
  | readMemory (guest : γ) (addr size : Nat) (next : Nat → GuestCode γ)
  | writeMemory (guest : γ) (addr size value : Nat) (next : γ → GuestCode γ)
  | hyperCall (guest : γ) (name : HyperCall) (next : γ → GuestCode γ)

/-- Remill が命令を lift した結果。`isels` は呼び出す instruction handler の名前と、それが表にあるかである。 -/
structure LiftOutcome where
  valid : Bool
  lifted : Bool
  isels : List (String × Bool)
deriving DecidableEq, Repr

/-- binary のうち、`orchBinary` が読むもの。 -/
structure LoadedBinary where
  sections : List (Nat × Bytes × Bool)
  binary : Orchestrator.Binary

/--
engine の動かないもの。lift と実行が外から受け取る関数を含む。callback は guest の状態 `γ` を受け取らないので、
callback が engine の API で guest を書き換える場合はここに入らない。
-/
structure Engine (σ γ : Type) where
  cfg : EventConfig
  arch : ArchType
  callbacks : List (EventCallback σ)
  /-- guest と host の architecture が同じか。 -/
  sameArch : Bool
  /-- 命令の長さ。解読できなければ 0 である。 -/
  disassemble : Bytes → Nat
  /-- 解読できない x86 の命令を飛ばす長さ。 -/
  defaultSize : Nat
  remill : Bytes → LiftOutcome
  entryOf : Bytes → UInt64
  code : UInt64 → γ → GuestCode γ
  initContext : Nat → γ → γ
  pc : γ → Nat
  retaddr : γ → Nat
  load : γ → Nat → Nat → Nat
  store : γ → Nat → Nat → Nat → γ
  sysno : γ → Nat
  syscall : γ → γ

/-- 次に実行するもの。`finished` は `finish_emulation`、`aborted` は `abort` である。 -/
inductive Control (γ : Type) where
  | idle
  | slot (s : Slot)
  | code (s : Slot) (rest : GuestCode γ)
  | finished
  | aborted

/-- 実行中の状態。`log` は起きた動作を順に並べたものである。 -/
structure Vm (σ γ : Type) where
  world : σ
  lifted : List Bytes
  blocks : List BasicBlocks
  cache : Cache
  guest : γ
  control : Control γ
  log : List Action

/-- `encode` の見る bit。 -/
def EventConfig.orchestrator (cfg : EventConfig) : Orchestrator.EventConfig :=
  ⟨cfg.func, cfg.block, cfg.insn, cfg.debug⟩

namespace Vm

variable {σ γ : Type} (e : Engine σ γ) (s : Vm σ γ)

/-- `handleEvent` を呼び、届いた event を記録する。 -/
def raise (ev : Event) : EventResult × Event × Vm σ γ :=
  let h := handleEvent e.callbacks 0 s.world ev
  (h.result, h.event, { s with world := h.world, log := s.log ++ h.log })

/-! ## lift -/

/-- lift の後に起きる event の名前。同じ architecture なら、そのままの命令を置いて終わる。 -/
def liftAfterNames (outcome : LiftOutcome) : List String :=
  let isels := outcome.isels.map fun p => if p.2 then p.1 else "abort"
  let unlifted := if outcome.lifted then isels
    else "AetherVM_NativeImpl" :: if e.sameArch then [] else isels
  if outcome.valid then unlifted
  else "AetherVM_NativeImpl" :: if e.sameArch then [] else unlifted

/-- `LiftAfter` の event を順に起こす。event は `LiftBefore` のものを使い回すので、書き換えた opcode が残る。 -/
def raiseLiftAfter (addr : Nat) : Bytes → List String → Vm σ γ → Vm σ γ
  | _, [], s => s
  | opcode, name :: rest, s =>
    let (_, ev, s) := s.raise e ⟨.liftAfter, addr, .lift opcode name⟩
    raiseLiftAfter addr ev.opcode rest s

/--
`Lifter::transform`。`Processed` なら、callback の書いた opcode を lift する。event には、答えによらず callback の
書いた opcode が残る。
-/
def transform (opcode : Bytes) (addr : Nat) : Vm σ γ :=
  if opcode ∈ s.lifted then s
  else
    let (result, ev, s) := s.raise e ⟨.liftBefore, addr, .lift opcode ""⟩
    let edited := match result, ev.body with
      | .processed, .lift custom _ => custom
      | _, _ => opcode
    raiseLiftAfter e addr ev.opcode (liftAfterNames e (e.remill edited))
      { s with lifted := opcode :: s.lifted }

/-- 命令列を解読した一単位。 -/
inductive LiftUnit where
  | insn (opcode : Bytes) (addr : Nat)
  | invalid (addr : Nat)
deriving DecidableEq, Repr

/-- 命令列を先頭から解読する。`fuel` は残りの byte 数で足りる。 -/
def liftUnits : Nat → Nat → Bytes → List LiftUnit
  | 0, _, _ => []
  | _ + 1, _, [] => []
  | fuel + 1, addr, ptr =>
    match e.arch with
    | .arm64 =>
      (if e.disassemble ptr = 4 then .insn (ptr.take 4) addr else .invalid addr)
        :: liftUnits fuel (addr + 4) (ptr.drop 4)
    | .x86_64 =>
      let oplen := e.disassemble ptr
      if oplen ≠ 0 then
        .insn (ptr.take oplen) addr :: liftUnits fuel (addr + oplen) (ptr.drop oplen)
      else
        .invalid addr :: liftUnits fuel (addr + e.defaultSize) (ptr.drop e.defaultSize)

/-- 一単位を lift する。解読できない命令では `InvalidInsn` が起きる。 -/
def liftUnit (s : Vm σ γ) : LiftUnit → Vm σ γ
  | .insn opcode addr => s.transform e opcode addr
  | .invalid addr => (s.raise e ⟨.invalidInsn, addr, .runtime⟩).2.2

/-- binary の `TEXT` の section をすべて解読したもの。 -/
def binaryUnits (bin : LoadedBinary) (addend : Nat) : List LiftUnit :=
  bin.sections.flatMap fun (addr, bytes, text) =>
    if text then liftUnits e bytes.length (addr + addend) bytes else []

/-- `BinaryEngine::orchBinary`。lift してから、slot の列を足す。 -/
def orchBinary (bin : LoadedBinary) (addend : Nat) : Vm σ γ :=
  let s := (binaryUnits e bin addend).foldl (liftUnit e) s
  let entries opcode := if opcode ∈ s.lifted then some (e.entryOf opcode) else none
  { s with
    blocks := s.blocks ++ [encode e.cfg.orchestrator entries bin.binary addend]
    cache := { s.cache with current := some s.blocks.length } }

/-! ## 実行 -/

/-- slot の中身。列の外は未定義である。 -/
def slotAt (p : Slot) : Option Instruction := do
  let bb ← s.blocks[p.bin]?
  if p.index < 0 then none else bb.rthandlers[p.index.toNat]?

/-- `forward_event_default`。 -/
def next (p : Slot) : Control γ := .slot { p with index := p.index + 1 }

/-- `Orchestrator::find` の返す slot へ移る。見つからなければ `terminate_execution` が動く。 -/
def jump (vmaddr : Nat) : Option (Vm σ γ) :=
  match find s.blocks s.cache vmaddr with
  | (.undefined, _) => none
  | (.null, cache) => some { s with cache := cache, control := .aborted }
  | (.slot p, cache) => some { s with cache := cache, control := .slot p }

/-- 関数・block・命令の前後の event。 -/
def runtimeEvent (type : EventType) : EventResult × Vm σ γ :=
  let (result, _, s) := s.raise e ⟨type, e.pc s.guest, .runtime⟩
  (result, s)

/-- 答えを見ない event の slot。 -/
def execNotify (p : Slot) (type : EventType) : Vm σ γ :=
  { (s.runtimeEvent e type).2 with control := next p }

/-- `host_event_insn_before`。 -/
def execInsnBefore (p : Slot) : Vm σ γ :=
  match s.runtimeEvent e .insnBefore with
  | (.processed, s) => { s with control := .slot { p with index := p.index + 2 } }
  | (.terminate, s) => { s with control := .finished }
  | (.continue, s) => { s with control := next p }

/--
system call。`Processed` でなければ host の system call を行い、その後の event の答えは見ない。
`syscall_interpret` と、`__remill_sync_hyper_call` の `kX86SysCall` に共通である。
-/
def execSyscall (guest : γ) : Vm σ γ :=
  let ev : Event := ⟨.syscallBefore, e.pc guest, .hyperCall (e.sysno guest)⟩
  let (result, ev, s) := s.raise e ev
  if result = .processed then { s with guest := guest }
  else
    let s := { s with guest := e.syscall guest, log := s.log ++ [Action.syscall] }
    (s.raise e { ev with type := .syscallAfter }).2.2

/-- trap。event の後で必ず `abort` する。 -/
def execTrap (guest : γ) : Vm σ γ :=
  { (s.raise e ⟨.trapHit, e.pc guest, .runtime⟩).2.2 with guest := guest, control := .aborted }

/-- host の関数の slot。 -/
def execFunc (p : Slot) : EventFunc → Option (Vm σ γ)
  | .funcBefore => some (s.execNotify e p .funcBefore)
  | .funcAfter => some (s.execNotify e p .funcAfter)
  | .insnBefore => some (s.execInsnBefore e p)
  | .insnAfter => some (s.execNotify e p .insnAfter)
  | .blockBefore => some (s.execNotify e p .blockBefore)
  | .blockAfter => some (s.execNotify e p .blockAfter)
  | .debugging => some { s with control := next p }
  | .syscallInterpret => some { s.execSyscall e s.guest with control := next p }
  | .interruptInterpret => some (s.execTrap e s.guest)
  | .jumpInterpret | .callInterpret => s.jump (e.pc s.guest)
  | .finishFunction =>
    if e.pc s.guest = e.retaddr s.guest then some { s with control := .finished }
    else s.jump (e.pc s.guest)
  | .finishEmulation => some { s with control := .finished }
  | .terminateExecution => some { s with control := .aborted }

/-- 読み出した値。`Processed` なら callback の書いた値で、そうでなければ memory の値である。 -/
def answeredValue (result : EventResult) (ev : Event) (size value : Nat) : Nat :=
  match result, ev.body with
  | .processed, .memory _ _ custom => custom % 256 ^ size
  | _, _ => value

/--
命令の実装を、次の intrinsic まで進める。書き込みでは、代入の右辺が callback より先に読まれるので、callback の
書いた値は使われない。
-/
def execCode (p : Slot) : GuestCode γ → Vm σ γ
  | .ret guest => { s with guest := guest, control := next p }
  | .readMemory guest addr size k =>
    let value := e.load guest addr size
    let (result, ev, s) := s.raise e ⟨.memRead, e.pc guest, .memory addr size value⟩
    { s with guest := guest, control := .code p (k (answeredValue result ev size value)) }
  | .writeMemory guest addr size value k =>
    let s := (s.raise e ⟨.memWrite, e.pc guest, .memory addr size value⟩).2.2
    let guest := e.store guest addr size value
    { s with guest := guest, control := .code p (k guest) }
  | .hyperCall guest .x86SysCall k =>
    let s := s.execSyscall e guest
    { s with control := .code p (k s.guest) }
  | .hyperCall guest .aarch64Breakpoint _ => s.execTrap e guest
  | .hyperCall guest .other _ => { s with guest := guest, control := .aborted }

/-- slot 一つ、または intrinsic 一つを実行する。`none` は、終わった後か、未定義の動作である。 -/
def exec : Option (Vm σ γ) :=
  match s.control with
  | .slot p =>
    match s.slotAt p with
    | none => none
    | some insn =>
      match insn.handler with
      | .func f => s.execFunc e p f
      | .entry entry =>
        some { s with
          control := .code p (e.code entry s.guest), log := s.log ++ [Action.handler entry] }
  | .code p h => some (s.execCode e p h)
  | .idle | .finished | .aborted => none

/-- `BinaryEngineImpl::startVM`。 -/
def startVM (entry : Nat) : Option (Vm σ γ) :=
  { s with guest := e.initContext entry s.guest }.jump entry

/-- `startVM` や `orchBinary` を呼べる、実行していない状態。 -/
def resting : Bool :=
  match s.control with
  | .idle | .finished => true
  | .slot _ | .code _ _ | .aborted => false

/-- engine の使い手の操作と、実行の一歩。 -/
inductive Input where
  | orchBinary (bin : LoadedBinary) (addend : Nat)
  | startVM (entry : Nat)
  | exec

def step : Input → Option (Vm σ γ)
  | .orchBinary bin addend => if s.resting then some (s.orchBinary e bin addend) else none
  | .startVM entry => if s.resting then s.startVM e entry else none
  | .exec => s.exec e

/-- まだ何もしていない engine。lift した命令の表は、前の engine のものが残っていてもよい。 -/
def init (world : σ) (lifted : List Bytes) (guest : γ) : Vm σ γ :=
  ⟨world, lifted, [], Cache.empty, guest, .idle, []⟩

/-! ## 一歩の場合分け -/

variable {e s} {s' : Vm σ γ}

/-- 別の slot へ移っても、動作は起きず、slot の列は変わらない。 -/
theorem jump_eq {vmaddr : Nat} (hs : s.jump vmaddr = some s') :
    s'.log = s.log ∧ s'.blocks = s.blocks := by
  unfold jump at hs
  split at hs
  · cases hs
  · cases hs
    exact ⟨rfl, rfl⟩
  · cases hs
    exact ⟨rfl, rfl⟩

/-- 一歩は、host の関数の slot、命令の実装の slot、実装の intrinsic のどれかである。 -/
theorem exec_cases (hs : s.exec e = some s') :
    (∃ p x f, s.control = .slot p ∧ s.slotAt p = some x ∧ x.handler = .func f ∧
      s.execFunc e p f = some s') ∨
    (∃ p x entry, s.control = .slot p ∧ s.slotAt p = some x ∧ x.handler = .entry entry ∧
      s' = { s with
        control := .code p (e.code entry s.guest), log := s.log ++ [Action.handler entry] }) ∨
    ∃ p h, s.control = .code p h ∧ s' = s.execCode e p h := by
  unfold exec at hs
  split at hs
  · next p hp =>
    split at hs
    · cases hs
    next x hx =>
    split at hs
    · next f hf => exact .inl ⟨p, x, f, hp, hx, hf, hs⟩
    · next entry hentry =>
      cases hs
      exact .inr (.inl ⟨p, x, entry, hp, hx, hentry, rfl⟩)
  · next p h hp =>
    cases hs
    exact .inr (.inr ⟨p, h, hp, rfl⟩)
  · cases hs
  · cases hs
  · cases hs

/-- host の関数の slot について言うことは、その関数について言うことである。 -/
theorem forall_slotFunc_iff {p : Slot} {x : Instruction} {f : EventFunc} {P : EventFunc → Prop}
    (hx : s.slotAt p = some x) (hf : x.handler = .func f) :
    (∀ y g, s.slotAt p = some y → y.handler = .func g → P g) ↔ P f := by
  refine ⟨fun h => h x f hx hf, fun h y g hy hg => ?_⟩
  rw [hx] at hy
  cases hy
  rw [hf] at hg
  cases hg
  exact h

/-- 命令の実装の slot は、host の関数の slot ではない。 -/
theorem forall_slotEntry {p : Slot} {x : Instruction} {entry : UInt64} {P : EventFunc → Prop}
    (hx : s.slotAt p = some x) (hentry : x.handler = .entry entry) :
    ∀ y g, s.slotAt p = some y → y.handler = .func g → P g := by
  intro y g hy hg
  rw [hx] at hy
  cases hy
  rw [hentry] at hg
  cases hg

/-- `finish_function` は、戻り先に着いたら終わり、そうでなければ移る。 -/
theorem execFunc_finishFunction {p : Slot} (hs : s.execFunc e p .finishFunction = some s') :
    s' = { s with control := .finished } ∨ s.jump (e.pc s.guest) = some s' := by
  have hs : (if e.pc s.guest = e.retaddr s.guest then some { s with control := .finished }
    else s.jump (e.pc s.guest)) = some s' := hs
  split at hs
  · cases hs
    exact .inl rfl
  · exact .inr hs

end Vm

end AetherVM
