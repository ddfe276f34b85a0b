import AetherVM.Engine.OptIn
import AetherVM.Entry.Return

/-!
# engine の実行と handler の連鎖

`Engine.Vm` は、slot を一つずつ、intrinsic を一つずつ実行する。ここでは同じ slot の列を memory に置き、host の handler が
飛び続けても、engine の実行と同じ結果で `startVM` から戻ることを言う。

engine の guest の状態は、`State` の register と pc と、それ以外のものに分かれる。engine のほかの状態も合わせて、host の
`guest` に置く。
-/

namespace AetherVM

namespace Entry.AArch64

open Infra Lifter Lifter.AArch64 Orchestrator

/-- engine の guest の状態。 -/
structure Cpu (ρ : Type) where
  regs : hostModel.Values
  pc : BitVec 64
  rest : ρ

/-- host の関数の扱う、`State` の外のもの。 -/
structure Surroundings (σ ρ : Type) where
  world : σ
  lifted : List Bytes
  cache : Cache
  log : List Action
  rest : ρ

section Layout

/-- 列の中の slot。 -/
def slotIn (blocks : List BasicBlocks) (p : Slot) : Option Instruction := do
  let bb ← blocks[p.bin]?
  if p.index < 0 then none else bb.rthandlers[p.index.toNat]?

/-- slot の番地。`base` は binary ごとの `rthandlers` の先頭である。 -/
def slotAddr (base : Nat → BitVec 64) (p : Slot) : BitVec 64 :=
  base p.bin + BitVec.ofInt 64 (8 * p.index)

/-- slot の列の置き場。slot は互いに、`CPU.retaddr` とも、違う番地にある。 -/
structure SlotLayout (blocks : List BasicBlocks) where
  base : Nat → BitVec 64
  retCell : BitVec 64
  inj : ∀ p q, (slotIn blocks p).isSome → (slotIn blocks q).isSome →
    slotAddr base p = slotAddr base q → p = q
  apart : ∀ p, (slotIn blocks p).isSome → slotAddr base p ≠ retCell

variable {blocks : List BasicBlocks}

/-- 列の中の slot をすべて並べたもの。 -/
def allSlots (blocks : List BasicBlocks) : List Slot :=
  (List.range blocks.length).flatMap fun b =>
    (List.range ((blocks[b]?.map fun bb => bb.rthandlers.length).getD 0)).map fun i : Nat => ⟨b, i⟩

theorem mem_allSlots {p : Slot} (h : (slotIn blocks p).isSome) : p ∈ allSlots blocks := by
  obtain ⟨x, hx⟩ := Option.isSome_iff_exists.mp h
  obtain ⟨bb, hbb, hx⟩ := Option.bind_eq_some_iff.mp hx
  split at hx
  · cases hx
  · next hindex =>
    have hbin := (List.getElem?_eq_some_iff.mp hbb).1
    have hlen := (List.getElem?_eq_some_iff.mp hx).1
    simp only [allSlots, List.mem_flatMap, List.mem_map, List.mem_range]
    refine ⟨p.bin, hbin, p.index.toNat, by simpa [hbb] using hlen, ?_⟩
    rw [Int.toNat_of_nonneg (by omega)]

namespace SlotLayout

variable (l : SlotLayout blocks)

def addr (p : Slot) : BitVec 64 := slotAddr l.base p

/-- 番地にある slot。 -/
def slotOf (a : BitVec 64) : Option Slot :=
  (allSlots blocks).find? fun p => (slotIn blocks p).isSome && l.addr p == a

theorem slotOf_addr {p : Slot} (h : (slotIn blocks p).isSome) : l.slotOf (l.addr p) = some p := by
  cases hfind : l.slotOf (l.addr p) with
  | none =>
    rw [slotOf, List.find?_eq_none] at hfind
    exact absurd (hfind p (mem_allSlots h)) (by simp [h])
  | some q =>
    have hq := List.find?_some hfind
    simp only [Bool.and_eq_true, beq_iff_eq] at hq
    rw [l.inj q p hq.1 h hq.2]

/-- 次の slot の番地。 -/
theorem addr_next (p : Slot) : l.addr { p with index := p.index + 1 } = l.addr p + 8 := by
  have hmul : 8 * (p.index + 1) = 8 * p.index + 8 := by omega
  rw [addr, addr, slotAddr, slotAddr, hmul, BitVec.ofInt_add, ← BitVec.add_assoc]
  rfl

/-- 次に実行する `Instruction` の番地。実行中でも終わりでもなければ、決まらない。 -/
def insnOf {γ : Type} : Control γ → Option (BitVec 64)
  | .slot p => some (l.addr p)
  | .finished => some l.retCell
  | .idle | .code _ _ | .aborted => none

end SlotLayout

end Layout

section Program

variable {σ ρ : Type} {blocks : List BasicBlocks} (e : Engine σ (Cpu ρ)) (l : SlotLayout blocks)

/-- 意味の状態の表す、engine の状態。 -/
def vmOf (blocks : List BasicBlocks) (control : Control (Cpu ρ)) (t : Thread (Surroundings σ ρ)) :
    Vm σ (Cpu ρ) where
  world := t.guest.world
  lifted := t.guest.lifted
  blocks := blocks
  cache := t.guest.cache
  guest := ⟨t.regs, t.pc, t.guest.rest⟩
  control := control
  log := t.guest.log

/-- engine の状態を表す、意味の状態。 -/
def threadOf (s : Vm σ (Cpu ρ)) (insn : BitVec 64) : Thread (Surroundings σ ρ) where
  regs := s.guest.regs
  pc := s.guest.pc
  guest := ⟨s.world, s.lifted, s.cache, s.log, s.guest.rest⟩
  insn := insn

/-- 命令の実装を、終わりまで実行する。`abort` するなら `none` である。 -/
def runGuest {γ : Type} (e : Engine σ γ) (p : Slot) : GuestCode γ → Vm σ γ → Option (Vm σ γ)
  | .ret guest, s => some (s.execCode e p (.ret guest))
  | .readMemory guest addr size k, s =>
    let value := e.load guest addr size
    let answer := s.raise e ⟨.memRead, e.pc guest, .memory addr size value⟩
    runGuest e p (k (Vm.answeredValue answer.1 answer.2.1 size value))
      (s.execCode e p (.readMemory guest addr size k))
  | .writeMemory guest addr size value k, s =>
    runGuest e p (k (e.store guest addr size value))
      (s.execCode e p (.writeMemory guest addr size value k))
  | .hyperCall guest .x86SysCall k, s =>
    runGuest e p (k (s.execSyscall e guest).guest) (s.execCode e p (.hyperCall guest .x86SysCall k))
  | .hyperCall _ .aarch64Breakpoint _, _ => none
  | .hyperCall _ .other _, _ => none

/-- host の関数の slot の意味。 -/
def funcMeaning (f : EventFunc) : Meaning (Surroundings σ ρ) := fun t => do
  let p ← l.slotOf t.insn
  let s ← (vmOf blocks (.slot p) t).execFunc e p f
  let insn ← l.insnOf s.control
  some (threadOf s insn)

/-- 命令の実装の意味。 -/
def entryMeaning (entry : UInt64) (t : Thread (Surroundings σ ρ)) :
    Option (Thread (Surroundings σ ρ)) := do
  let p ← l.slotOf t.insn
  let s := vmOf blocks (.slot p) t
  let h := e.code entry s.guest
  let s ← runGuest e p h { s with control := .code p h, log := s.log ++ [Action.handler entry] }
  some (threadOf s t.insn)

/-- engine の slot の列。`address` は handler の番地である。 -/
def engineProgram (address : HandlerRef → Nat) : Program (Surroundings σ ρ) where
  slot a := (l.slotOf a).bind (slotIn blocks)
  retCell := l.retCell
  address := address
  meaning r :=
    if r ∈ blocks.flatMap fun bb => bb.rthandlers.map Instruction.handler then
      match r with
      | .func f => some (funcMeaning e l f)
      | .entry entry => some (liftedMeaning (entryMeaning e l entry))
    else none

/-! ## slot を一つ実行する -/

variable {e l} {address : HandlerRef → Nat}

theorem handler_mem {p : Slot} {x : Instruction} (hx : slotIn blocks p = some x) :
    x.handler ∈ blocks.flatMap fun bb => bb.rthandlers.map Instruction.handler := by
  obtain ⟨bb, hbb, hx⟩ := Option.bind_eq_some_iff.mp hx
  split at hx
  · cases hx
  · rw [List.mem_flatMap]
    exact ⟨bb, List.mem_of_getElem? hbb, List.mem_map_of_mem (List.mem_of_getElem? hx)⟩

/-- slot の意味が決まれば、列はその意味の通りに一つ進む。 -/
theorem engineProgram_step {p : Slot} {x : Instruction} {m : Meaning (Surroundings σ ρ)}
    {t t' : Thread (Surroundings σ ρ)} (hx : slotIn blocks p = some x) (ht : t.insn = l.addr p)
    (hm : (engineProgram e l address).meaning x.handler = some m) (ht' : m t = some t') :
    (engineProgram e l address).step t = .inl t' := by
  have hslot : slotIn blocks p ≠ none := by simp [hx]
  have hsome : (slotIn blocks p).isSome := by simp [hx]
  have hne : t.insn ≠ (engineProgram e l address).retCell := by
    rw [ht]
    exact l.apart p hsome
  have hcell : (engineProgram e l address).slot t.insn = some x := by
    simp only [engineProgram, ht, l.slotOf_addr hsome, Option.bind_some, hx]
  unfold Program.step
  simp only [if_neg hne, hcell, hm, Option.bind_some, ht']

variable {s s' : Vm σ (Cpu ρ)}

theorem vmOf_threadOf (hblocks : s.blocks = blocks) (insn : BitVec 64) :
    vmOf blocks s.control (threadOf s insn) = s := by
  subst hblocks
  rfl

/-- host の関数の slot は、意味の一歩になる。 -/
theorem step_func {p : Slot} {x : Instruction} {f : EventFunc} {insn : BitVec 64}
    (hblocks : s.blocks = blocks) (hp : s.control = .slot p) (hx : slotIn blocks p = some x)
    (hf : x.handler = .func f) (hs : s.execFunc e p f = some s')
    (hinsn : l.insnOf s'.control = some insn) :
    (engineProgram e l address).step (threadOf s (l.addr p)) = .inl (threadOf s' insn) := by
  have hsome : (slotIn blocks p).isSome := by simp [hx]
  have hvm : vmOf blocks (.slot p) (threadOf s (l.addr p)) = s := by
    rw [← hp]
    exact vmOf_threadOf hblocks _
  refine engineProgram_step (m := funcMeaning e l f) hx rfl ?_ ?_
  · have hmem := handler_mem hx
    rw [hf] at hmem ⊢
    exact if_pos hmem
  · have hinsnOf : (threadOf s (l.addr p)).insn = l.addr p := rfl
    simp only [funcMeaning, hinsnOf, l.slotOf_addr hsome, Option.bind_eq_bind, Option.bind_some,
      hvm, hs, hinsn]

/-- 命令の実装の slot は、実装を終わりまで実行すると、意味の一歩になる。 -/
theorem step_entry {p : Slot} {x : Instruction} {entry : UInt64}
    (hblocks : s.blocks = blocks) (hp : s.control = .slot p) (hx : slotIn blocks p = some x)
    (hentry : x.handler = .entry entry)
    (hs : runGuest e p (e.code entry s.guest) { s with
      control := .code p (e.code entry s.guest), log := s.log ++ [Action.handler entry] } = some s') :
    (engineProgram e l address).step (threadOf s (l.addr p)) =
      .inl (threadOf s' (l.addr p + 8)) := by
  have hsome : (slotIn blocks p).isSome := by simp [hx]
  have hvm : vmOf blocks (.slot p) (threadOf s (l.addr p)) = s := by
    rw [← hp]
    exact vmOf_threadOf hblocks _
  refine engineProgram_step (m := liftedMeaning (entryMeaning e l entry)) hx rfl ?_ ?_
  · have hmem := handler_mem hx
    rw [hentry] at hmem ⊢
    exact if_pos hmem
  · have hinsnOf : (threadOf s (l.addr p)).insn = l.addr p := rfl
    simp only [liftedMeaning, entryMeaning, hinsnOf, l.slotOf_addr hsome, Option.bind_eq_bind,
      Option.bind_some, hvm, hs, Option.map_some]
    rfl

/-! ## engine の実行 -/

/-- engine を一歩ずつ進めて着くこと。 -/
abbrev Executes (e : Engine σ (Cpu ρ)) : Vm σ (Cpu ρ) → Vm σ (Cpu ρ) → Prop :=
  Relation.ReflTransGen fun s s' => s.exec e = some s'

/-- 列の意味が、engine の今の状態から、終わりの状態に着くこと。実装の途中なら、それを終わりまで実行してから着く。 -/
def Settles (e : Engine σ (Cpu ρ)) (l : SlotLayout blocks) (address : HandlerRef → Nat)
    (t : Thread (Surroundings σ ρ)) (s : Vm σ (Cpu ρ)) : Prop :=
  match s.control with
  | .slot p => Reaches (engineProgram e l address).step (threadOf s (l.addr p)) t
  | .code p h => ∃ s', runGuest e p h s = some s' ∧
    Reaches (engineProgram e l address).step (threadOf s' (l.addr p + 8)) t
  | .finished => threadOf s l.retCell = t
  | .idle | .aborted => False

/-- host の関数は、命令の実装の途中には移らない。 -/
theorem execFunc_ne_code {p : Slot} {f : EventFunc} (hs : s.execFunc e p f = some s')
    {q : Slot} {h : GuestCode (Cpu ρ)} : s'.control ≠ .code q h := by
  have hjump : s.jump (e.pc s.guest) = some s' → s'.control ≠ .code q h := by
    intro hj
    unfold Vm.jump at hj
    split at hj <;> cases hj <;> simp
  cases f with
  | insnBefore =>
    cases hs
    unfold Vm.execInsnBefore
    split <;> simp [Vm.next]
  | jumpInterpret => exact hjump hs
  | callInterpret => exact hjump hs
  | finishFunction =>
    rcases Vm.execFunc_finishFunction hs with rfl | hs
    · simp
    · exact hjump hs
  | _ =>
    cases hs
    simp [Vm.execNotify, Vm.execTrap, Vm.next]

/-- 次の `Instruction` の番地が決まれば、そこから列の意味が続く。 -/
theorem Settles.insn {t : Thread (Surroundings σ ρ)} (h : Settles e l address t s)
    (hcode : ∀ q k, s.control ≠ .code q k) : ∃ insn, l.insnOf s.control = some insn ∧
      Reaches (engineProgram e l address).step (threadOf s insn) t := by
  unfold Settles at h
  split at h
  · next p hp => exact ⟨l.addr p, by rw [hp]; rfl, h⟩
  · next p k hp => exact absurd hp (hcode p k)
  · next hp => exact ⟨l.retCell, by rw [hp]; rfl, h ▸ .refl⟩
  · exact h.elim
  · exact h.elim

/-- engine が終わりに着くなら、列の意味も終わりに着く。 -/
theorem settles_of_executes (hend : s'.control = .finished) (h : Executes e s s')
    (hblocks : s.blocks = blocks) :
    Settles e l address (threadOf s' l.retCell) s := by
  induction h using Relation.ReflTransGen.head_induction_on with
  | refl => simp [Settles, hend]
  | @head a b hab _ ih =>
    have hb : b.blocks = blocks := (Vm.exec_blocks hab).trans hblocks
    have hset := ih hb
    rcases Vm.exec_cases hab with ⟨p, x, f, hp, hx, hf, hfunc⟩ | ⟨p, x, entry, hp, hx, hentry, rfl⟩ |
      ⟨p, h, hp, rfl⟩
    · have hx : slotIn blocks p = some x := hblocks ▸ hx
      obtain ⟨insn, hinsn, hreach⟩ := hset.insn fun q k => execFunc_ne_code hfunc
      unfold Settles
      rw [hp]
      exact .head (step_func hblocks hp hx hf hfunc hinsn) hreach
    · have hx : slotIn blocks p = some x := hblocks ▸ hx
      obtain ⟨s₁, hrun, hreach⟩ := hset
      unfold Settles
      rw [hp]
      exact .head (step_entry hblocks hp hx hentry hrun) hreach
    · unfold Settles
      rw [hp]
      cases h with
      | ret guest =>
        refine ⟨_, rfl, ?_⟩
        rw [← l.addr_next]
        exact hset
      | readMemory guest addr size k => exact hset
      | writeMemory guest addr size value k => exact hset
      | hyperCall guest name k =>
        cases name with
        | x86SysCall => exact hset
        | aarch64Breakpoint => exact hset.elim
        | other => exact hset.elim

/-- 列の意味は、決まった回数で `CPU.retaddr` に着いて終わる。 -/
theorem exists_loop_of_settles {t₀ t : Thread (Surroundings σ ρ)}
    (h : Reaches (engineProgram e l address).step t₀ t) (ht : t.insn = l.retCell) :
    ∃ fuel, loop (engineProgram e l address).step fuel t₀ = .inr (some t) := by
  obtain ⟨n, hn⟩ := exists_loop_of_reaches h
  refine ⟨n + 1, ?_⟩
  have hstep : (engineProgram e l address).step t = .inr (some t) := if_pos ht
  rw [hn 1, loop, hstep]

/-! ## `startVM` -/

section Start

variable {i : Image (Surroundings σ ρ)} {place : RetPlace} {ptr link : BitVec 64} {lo : Nat}
  {host : Host (Surroundings σ ρ)} {s₀ : Vm σ (Cpu ρ)} {p : Slot} {entry : Nat}

/--
`startVM` の後で engine の実行が終わるなら、`aether_vm_entry` も戻る。戻った時、`State` と pc は engine の終わりの状態を
表し、callback の状態も、起きた動作も、engine の実行と同じである。
-/
theorem startVM_returns (hblocks : s₀.blocks = blocks) (hstart : s₀.startVM e entry = some s)
    (hexec : Executes e s s') (hend : s'.control = .finished) (hp : s.control = .slot p)
    (hf : RetaddrObeys i.vmRetaddr lo ptr)
    (h : Enters i.offsets (engineProgram e l address) place ptr lo host)
    (hentered : entered i place host = threadOf s (l.addr p)) (hret : i.ret.toNat < 2 ^ 59)
    (hcode : ∀ r f, (engineProgram e l address).meaning r = some f →
      address r < 2 ^ 59 ∧ address r ≠ i.ret.toNat ∧ ∃ b, i.handler (address r) = some b ∧
        Implements i.offsets (fixed i (engineProgram e l address) link host) b f) :
    ∃ fuel host', i.aetherVmEntry link fuel host = .inr (some host') ∧
      Returned i.offsets host host' (threadOf s' l.retCell) := by
  have hset : Settles e l address (threadOf s' l.retCell) s :=
    settles_of_executes hend hexec ((Vm.jump_eq hstart).2.trans hblocks)
  unfold Settles at hset
  rw [hp] at hset
  obtain ⟨fuel, hloop⟩ := exists_loop_of_settles hset rfl
  rw [← hentered] at hloop
  exact ⟨fuel, finished_returns hf h hret hcode hloop⟩

end Start

end Program

/-! ## 命令が一つの engine -/

/-- `0x100` の実装は `add x0, x0, x26` である。 -/
def sampleEngine : Engine Unit (Cpu Unit) where
  cfg := ⟨false, false, false, false, false, false, false, false, false⟩
  arch := .arm64
  callbacks := []
  sameArch := true
  disassemble _ := 4
  defaultSize := 1
  remill _ := ⟨true, true, []⟩
  entryOf _ := 0x100
  code _ g := .ret { g with regs := (addX26 g.regs ()).1, pc := g.pc + 4 }
  initContext entry g := { g with pc := BitVec.ofNat 64 entry }
  pc g := g.pc.toNat
  retaddr _ := 0x7000
  load _ _ _ := 0
  store g _ _ _ := g
  sysno _ := 0
  syscall g := g

def sampleBlocks : List BasicBlocks :=
  [⟨[5], 9, [[0]], [.ofEntry (.entry 0x100) 4, .ofEvent .finishEmulation]⟩]

/-- 列の slot は二つである。 -/
theorem sampleBlocks_slots {p : Slot} (h : (slotIn sampleBlocks p).isSome) :
    p = ⟨0, 0⟩ ∨ p = ⟨0, 1⟩ := by
  have hmem := mem_allSlots h
  have hall : allSlots sampleBlocks = [⟨0, 0⟩, ⟨0, 1⟩] := by decide
  rw [hall] at hmem
  simpa using hmem

def sampleLayout : SlotLayout sampleBlocks where
  base _ := 0x5000
  retCell := 0x6000
  inj p q hp hq h := by
    rcases sampleBlocks_slots hp with rfl | rfl <;> rcases sampleBlocks_slots hq with rfl | rfl <;>
      first | rfl | exact absurd h (by decide)
  apart p hp := by
    rcases sampleBlocks_slots hp with rfl | rfl <;> decide

/-- engine から見た `add x0, x0, x26` の効果。実行したことも残す。 -/
def addX26Logged : Effect hostModel (Surroundings Unit Unit) := fun R g =>
  ((addX26 R ()).1, { g with log := g.log ++ [Action.handler 0x100] })

theorem addX26Logged_confined :
    addX26Logged.Confined (· ∈ ({.x 0, .x 26} : Finset HostReg)) where
  writes R _ k hk := addX26_confined.writes R () k hk
  reads R R' _ hR := ⟨(addX26_confined.reads R R' () hR).1, rfl⟩

/-- handler の番地。 -/
def sampleAddress : HandlerRef → Nat
  | .entry addr => addr.toNat
  | .func _ => 0x200

/-- 実行する前の engine。 -/
def sampleVm (guest : Cpu Unit) : Vm Unit (Cpu Unit) :=
  { Vm.init () [] guest with blocks := sampleBlocks }

/-- engine の slot の列は、memory に置いた列と同じである。 -/
theorem sampleEngine_slot (a : BitVec 64) :
    (engineProgram sampleEngine sampleLayout sampleAddress).slot a =
      (sampleProgram addX26Logged).slot a := by
  by_cases h0 : a = 0x5000
  · subst h0
    rfl
  by_cases h8 : a = 0x5008
  · subst h8
    rfl
  have hnone : sampleLayout.slotOf a = none := by
    rw [SlotLayout.slotOf, List.find?_eq_none]
    intro p hp hslot
    simp only [Bool.and_eq_true, beq_iff_eq] at hslot
    rcases sampleBlocks_slots hslot.1 with rfl | rfl
    · exact h0 hslot.2.symm
    · exact h8 hslot.2.symm
  simp only [engineProgram, hnone, sampleProgram, if_neg h0, if_neg h8, Option.bind_none]

/-- slot の handler を置いた host の code。 -/
def sampleEngineImage : Image (Surroundings Unit Unit) := sampleImage {.x 0, .x 26} addX26Logged

/-- slot の handler は、列の意味の通りに動く。 -/
theorem sampleEngine_implements {F : Fixed} {r : HandlerRef} {f : Meaning (Surroundings Unit Unit)}
    (hf : (engineProgram sampleEngine sampleLayout sampleAddress).meaning r = some f) :
    sampleAddress r < 2 ^ 59 ∧ sampleAddress r ≠ sampleEngineImage.ret.toNat ∧
      ∃ b, sampleEngineImage.handler (sampleAddress r) = some b ∧
        Implements sampleEngineImage.offsets F b f := by
  have hmem : r = .entry 0x100 ∨ r = .func .finishEmulation := by
    simp only [engineProgram] at hf
    split at hf
    · next hmem => simpa [sampleBlocks, Instruction.ofEntry, Instruction.ofEvent] using hmem
    · cases hf
  rcases hmem with rfl | rfl
  · refine ⟨by decide, by decide, _, rfl,
      .native (by decide) ⟨1, by decide, by decide⟩ addX26Logged_confined ?_⟩
    cases hf
    intro t t' ht
    obtain ⟨t₁, ht₁, rfl⟩ := Option.map_eq_some_iff.mp ht
    obtain ⟨p, -, hrun⟩ := Option.bind_eq_some_iff.mp ht₁
    cases hrun
    rfl
  · refine ⟨by decide, by decide, _, rfl, .event fun s t t' hrep h0 h1 h2 ht => ?_⟩
    cases hf
    obtain ⟨p, -, hrun⟩ := Option.bind_eq_some_iff.mp ht
    cases hrun
    exact hostFinishEmulation_obeys _ F 0x6000 s t _ hrep h0 h1 h2 rfl

/-- `LR` に戻り先を書いた、`State` の中身。 -/
def sampleCpu : Cpu Unit where
  regs := RetPlace.lr.regs 0x7000 fun k =>
    BitVec.ofNat (hostModel.width k) (sampleMem.loadLE (0x1000 + sampleOffsets.offsetReg k) k.bytes)
  pc := 0
  rest := ()

/-- `startVM` の移った先の状態。 -/
def sampleStarted : Vm Unit (Cpu Unit) :=
  { sampleVm { sampleCpu with pc := 5 } with
    cache := { Cache.empty.store 5 ⟨0, 0⟩ with current := some 0 }
    control := .slot ⟨0, 0⟩ }

def sampleSurroundings : Surroundings Unit Unit := ⟨(), [], sampleStarted.cache, [], ()⟩

/-- `aether_vm_entry` に渡る状態は、engine の状態を表す。 -/
theorem sampleCall_entered :
    entered sampleEngineImage .lr (sampleCall sampleSurroundings) =
      threadOf sampleStarted (sampleLayout.addr ⟨0, 0⟩) := by
  have hregs : (stateView sampleOffsets).regs (lowered (sampleCall sampleSurroundings)) = fun k =>
      BitVec.ofNat (hostModel.width k)
        (sampleMem.loadLE (0x1000 + sampleOffsets.offsetReg k) k.bytes) := by
    funext k
    rw [StateView.regs, sampleCall, (sampleHost_addr sampleMem sampleSurroundings k).1]
    rfl
  have hinsn : sampleLayout.addr ⟨0, 0⟩ = 0x5000 := by decide
  have hoffsets : sampleEngineImage.offsets = sampleOffsets := rfl
  rw [entered, hoffsets, hregs, hinsn]
  rfl

theorem sampleStarted_startVM :
    (sampleVm sampleCpu).startVM sampleEngine 5 = some sampleStarted := rfl

theorem sampleStarted_executes :
    ∃ s, Executes sampleEngine sampleStarted s ∧ s.control = .finished :=
  ⟨_, .head rfl (.head rfl (.head rfl .refl)), rfl⟩

theorem sampleCall_enters_engine :
    Enters sampleEngineImage.offsets (engineProgram sampleEngine sampleLayout sampleAddress) .lr
      0x11f0 0x600 (sampleCall sampleSurroundings) :=
  (sampleCall_enters addX26Logged sampleSurroundings).congr (funext sampleEngine_slot) rfl rfl

/-- 命令を一つ実行して終わる engine の通りに、`startVM` から戻る。 -/
theorem startVM_returns_sample : ∃ s fuel host', Executes sampleEngine sampleStarted s ∧
    sampleEngineImage.aetherVmEntry 0x9000 fuel (sampleCall sampleSurroundings) =
      .inr (some host') ∧
    Returned sampleOffsets (sampleCall sampleSurroundings) host' (threadOf s 0x6000) := by
  obtain ⟨s, hexec, hend⟩ := sampleStarted_executes
  have hobeys : RetaddrObeys sampleEngineImage.vmRetaddr 0x600 0x11f0 :=
    returnPointer_obeys 0x600 0x11f0
  have hblocks : (sampleVm sampleCpu).blocks = sampleBlocks := rfl
  have hp : sampleStarted.control = .slot ⟨0, 0⟩ := rfl
  have hmain : ∃ fuel host', sampleEngineImage.aetherVmEntry 0x9000 fuel
      (sampleCall sampleSurroundings) = .inr (some host') ∧ Returned sampleEngineImage.offsets
        (sampleCall sampleSurroundings) host' (threadOf s sampleLayout.retCell) :=
    startVM_returns hblocks sampleStarted_startVM hexec hend hp hobeys sampleCall_enters_engine
      sampleCall_entered (by decide) fun _ _ => sampleEngine_implements
  obtain ⟨fuel, host', hrun, hret⟩ := hmain
  exact ⟨s, fuel, host', hexec, hrun, hret⟩

end Entry.AArch64

end AetherVM
