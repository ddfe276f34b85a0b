import AetherVM.Infra.Loop
import AetherVM.Lifter.NativeAArch64
import AetherVM.Orchestrator.Encode

/-!
# VM への出入り（`src/AArch64.cpp`、`src/Orchestrator.h`、`src/Intrinsic.cpp` の `__remill_function_return`）

`aether_vm_entry` は、host の register を stack に退避して、最初の `Instruction` の handler に飛ぶ。handler は
自分の仕事をすると、次の `Instruction` の handler に直接飛ぶので、呼び出しの入れ子にはならない。

* `x26` は `State` の番地、`x27` は今の `Instruction` の番地、`x16` は飛び先である。
* handler は三種類ある。host の関数を呼ぶ event（`IMPL_EVENT_VM`）、元の命令を埋め込んだもの
  （`nativeHandlerAArch64`）、lift した命令の実装である。lift した実装は `__remill_function_return` に飛ぶ。
* `vm_enter_aarch64` は、自分の戻り先を `CPU.retaddr` に書く。`host_finish_emulation` は `&CPU.retaddr` を
  `Instruction*` として返すので、次に飛ぶ先は `aether_vm_entry` の残りになる。

host の関数と、lift した命令の実装は parameter である。
-/

namespace AetherVM

namespace Entry.AArch64

open Infra Lifter Lifter.AArch64 Orchestrator

/-! ## 命令の列 -/

-- register の番号を数字で書くための instance
scoped instance gprNonzero : NeZero 31 := ⟨by decide⟩

scoped instance simdNonzero : NeZero 32 := ⟨by decide⟩

/-- host の命令。`bl` は lr に戻り先を書き、`host` は呼ばれた関数が戻るまでを実行する。 -/
inductive Code (G : Type) where
  | asm (i : Asm)
  | movz (dst : Fin 31) (imm : BitVec 64)
  | bl (ret : BitVec 64)
  | host (f : Host G → Host G)

/-- `.opcode` を含まない列で使う、何もしない効果。 -/
def noEffect {G : Type} : Effect hostModel G := fun R g => (R, g)

def Code.exec {G : Type} (s : Host G) : Code G → Host G
  | asm i => i.exec noEffect s
  | movz dst imm => xBank.set s dst imm
  | bl ret => xBank.set s 30 ret
  | host f => f s

def runCode {G : Type} (prog : List (Code G)) (s : Host G) : Host G := prog.foldl Code.exec s

section Sequences

variable {G : Type}

/-- `stp`。 -/
def stp (k j base : HostReg) (off : Int) : List (Code G) :=
  [.asm (.str k base off), .asm (.str j base (off + 8))]

/-- `ldp`。 -/
def ldp (k j base : HostReg) (off : Int) : List (Code G) :=
  [.asm (.ldr k base off), .asm (.ldr j base (off + 8))]

/-- `extract_handler_x16`。 -/
def extractHandlerX16 : List (Code G) :=
  [.asm (.ldr (.x 16) (.x 27) 0), .asm (.ubfx (.x 16) (.x 16) 0 59)]

/-- `IMPL_EVENT_VM`。`host` は `host_` で始まる関数である。 -/
def eventVm (ret : BitVec 64) (host : Host G → Host G) : List (Code G) :=
  [.asm (.mov (.x 0) (.x 26)), .movz 1 0, .asm (.mov (.x 2) (.x 27)), .bl ret, .host host,
    .asm (.mov (.x 27) (.x 0)), .asm (.mov (.x 0) (.x 26)),
    .asm (.ldr (.x 1) (.x 0) (-0x10)), .asm (.ldr (.x 1) (.x 1) 0),
    .asm (.mov (.x 2) (.x 27))] ++
  extractHandlerX16 ++ [.asm (.br (.x 16))]

/-- `__remill_function_return`。 -/
def remillFunctionReturn : List (Code G) :=
  [.asm (.add (.x 27) (.x 27) 8), .asm (.mov (.x 2) (.x 27))] ++ extractHandlerX16 ++
  [.asm (.br (.x 16))]

/-- `vm_enter_aarch64`。 -/
def vmEnterAArch64 : List (Code G) :=
  [.asm (.str (.x 30) (.x 3) 0), .asm (.str (.x 30) (.x 4) 0)] ++ extractHandlerX16 ++
  [.asm (.br (.x 16))]

/-- `aether_vm_entry` の、`vm_retaddr` を呼ぶまで。`fp` は `x29`、`lr` は `x30` である。 -/
def prologue : List (Code G) :=
  .asm (.add .sp .sp (-0x30)) :: stp (.x 26) (.x 27) .sp 0x10 ++ stp (.x 29) (.x 30) .sp 0x20 ++
  [.asm (.add (.x 29) .sp 0x20), .asm (.mov (.x 26) (.x 0)), .asm (.mov (.x 27) (.x 2))] ++
  stp (.x 1) (.x 3) .sp 0

/-- `vm_retaddr` から戻って、最初の handler に飛ぶまで。`ret` は `vm_enter_aarch64` の戻り先である。 -/
def enterVm (ret : BitVec 64) : List (Code G) :=
  [.asm (.mov (.x 4) (.x 0)), .asm (.mov (.x 0) (.x 26)), .asm (.mov (.x 2) (.x 27))] ++
  ldp (.x 1) (.x 3) .sp 0 ++ .bl ret :: vmEnterAArch64

/-- `vm_enter_aarch64` から戻ったあと。 -/
def epilogue : List (Code G) :=
  ldp (.x 29) (.x 30) .sp 0x20 ++ ldp (.x 26) (.x 27) .sp 0x10 ++
  [.asm (.add .sp .sp 0x30), .asm (.br (.x 30))]

end Sequences

/-! ## handler の連鎖 -/

/-- handler の code。`event` の `ret` は、host の関数の戻り先である。 -/
inductive Handler (G : Type) where
  | event (ret : BitVec 64) (host : Host G → Host G)
  | native (used : Finset HostReg) (f : Effect hostModel G)
  | lifted (host : Host G → Host G)

/-- handler に飛んでから、次の handler に飛ぶまで。 -/
def Handler.run {G : Type} (o : StateOffsets) (s : Host G) : Handler G → Host G
  | event ret host => runCode (eventVm ret host) s
  | native used f => runAsm f (nativeHandlerAArch64 o used) s
  | lifted host => runCode remillFunctionReturn (host s)

/-- host の code。`ret` は `aether_vm_entry` の中で `vm_enter_aarch64` が戻る番地である。 -/
structure Image (G : Type) where
  offsets : StateOffsets
  ret : BitVec 64
  vmRetaddr : Host G → Host G
  handler : Nat → Option (Handler G)

namespace Image

variable {G : Type} (i : Image G)

/-- `x16` に飛ぶ。戻り先に着けば終わる。知らない番地なら、何が起きるか分からない。 -/
def step (s : Host G) : Host G ⊕ Option (Host G) :=
  if gpr s 16 = i.ret then .inr (some s)
  else
    match i.handler (gpr s 16).toNat with
    | none => .inr none
    | some h => .inl (h.run i.offsets s)

/-- 最初の handler に飛ぶまで。`blr` の戻り先は `link` である。 -/
def enter (link : BitVec 64) (s : Host G) : Host G :=
  runCode (prologue ++ [.bl link, .host i.vmRetaddr] ++ enterVm i.ret) s

/-- `aether_vm_entry`。`fuel` は実行する handler の数の上限である。 -/
def aetherVmEntry (link : BitVec 64) (fuel : Nat) (s : Host G) : Host G ⊕ Option (Host G) :=
  match loop i.step fuel (i.enter link s) with
  | .inl s' => .inl s'
  | .inr none => .inr none
  | .inr (some s') => .inr (some (runCode epilogue s'))

end Image

/-! ## slot の列の意味 -/

/-- 実行の途中の、guest の register と pc、handler の扱うほかのもの、今の `Instruction` の番地。 -/
structure Thread (G : Type) where
  regs : hostModel.Values
  pc : BitVec 64
  guest : G
  insn : BitVec 64

/-- handler のすること。`abort` するか、何が起きるか分からないときは `none` である。 -/
abbrev Meaning (G : Type) : Type := Thread G → Option (Thread G)

/-- 元の命令の意味。 -/
def nativeMeaning {G : Type} (f : Effect hostModel G) : Meaning G := fun t => some
  { regs := (f t.regs t.guest).1, pc := t.pc + 4, guest := (f t.regs t.guest).2, insn := t.insn + 8 }

/-- lift した命令の意味。次の `Instruction` へ進む。 -/
def liftedMeaning {G : Type} (f : Thread G → Option (Thread G)) : Meaning G := fun t =>
  (f t).map fun t' => { t' with insn := t.insn + 8 }

/--
実行する slot の列。`slot` は番地にある `Instruction`、`retCell` は `&CPU.retaddr`、`address` は handler の
番地である。
-/
structure Program (G : Type) where
  slot : BitVec 64 → Option Instruction
  retCell : BitVec 64
  address : HandlerRef → Nat
  meaning : HandlerRef → Option (Meaning G)

/-- `Instruction` の bit field。下から `handler` の 59 bit、`event`、`oplen` の 4 bit である。 -/
def Program.word {G : Type} (p : Program G) (x : Instruction) : Nat :=
  p.address x.handler % 2 ^ 59 + 2 ^ 59 * (if x.event then 1 else 0) + 2 ^ 60 * (x.oplen % 16)

/-- 今の slot を一つ実行する。`retCell` に着けば終わる。slot が無ければ、何が起きるか分からない。 -/
def Program.step {G : Type} (p : Program G) (t : Thread G) : Thread G ⊕ Option (Thread G) :=
  if t.insn = p.retCell then .inr (some t)
  else
    match p.slot t.insn with
    | none => .inr none
    | some x =>
      match (p.meaning x.handler).bind (· t) with
      | none => .inr none
      | some t' => .inl t'

end Entry.AArch64

end AetherVM
