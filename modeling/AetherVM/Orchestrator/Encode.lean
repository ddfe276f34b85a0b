import AetherVM.Infra.Search
import AetherVM.MetaData.Layout

/-!
# 命令列の組み立て（`src/Orchestrator.cpp` の `encode` と `convert`）

`encode` は binary の関数を基本 block に分け、block ごとに実行できる命令（slot）の列を作る。
設定に応じて、関数・block・命令の前後に event の slot が入る。slot の `oplen` は元の命令の
長さで、event の slot では 0 である。

address は 64 bit で、`addend` を足すときに折り返す。関数と命令の一覧は binary の解析が与える。
-/

namespace AetherVM.Orchestrator

open Infra

/-- `EventConfig` のうち `encode` が見る bit。 -/
structure EventConfig where
  func : Bool
  block : Bool
  insn : Bool
  debug : Bool
deriving DecidableEq, Repr

/-- 命令の種類。`other` は `encode` が区別しないものである。 -/
inductive InsnType where
  | syscall
  | trap
  | jcond
  | jump
  | call
  | ret
  | other
deriving DecidableEq, Repr

/-- binary の命令。`comins` は、他の block から参照されているかどうかである。 -/
structure Insn where
  fnoff : Nat
  oplen : Nat
  type : InsnType
  comins : Bool
  opcode : Bytes
deriving DecidableEq

/-- binary の関数。範囲は `[addr, fin)` である。 -/
structure Func where
  addr : Nat
  fin : Nat
  insns : List Insn
deriving DecidableEq

structure Binary where
  arch : ArchType
  functions : List Func

/-- slot の実行する関数。 -/
inductive EventFunc where
  | funcBefore
  | funcAfter
  | insnBefore
  | insnAfter
  | blockBefore
  | blockAfter
  | debugging
  | syscallInterpret
  | interruptInterpret
  | jumpInterpret
  | callInterpret
  | finishFunction
  | finishEmulation
  | terminateExecution
deriving DecidableEq, Repr

/-- `handler` の指す先。host の関数か、lift した命令の実装である。 -/
inductive HandlerRef where
  | func (f : EventFunc)
  | entry (addr : UInt64)
deriving DecidableEq, Repr

/-- 実行できる命令。`oplen` は 4 bit の field である。 -/
structure Instruction where
  handler : HandlerRef
  event : Bool
  oplen : Nat
deriving DecidableEq, Repr

/-- `Instruction(event_func_t)`。 -/
def Instruction.ofEvent (f : EventFunc) : Instruction := ⟨.func f, true, 0⟩

/-- `Instruction(uintptr_t, uintptr_t)`。 -/
def Instruction.ofEntry (entry : HandlerRef) (size : Nat) : Instruction := ⟨entry, false, size % 16⟩

/-- `addr_t` の加算。 -/
def addAddr (a b : Nat) : Nat := (a + b) % 2 ^ 64

section Encode

variable (cfg : EventConfig) (arch : ArchType) (lifted : Bytes → Option UInt64)

/-- 設定が有効なときだけ event の slot を置く（`do_setup_event`）。 -/
def setupEvent (f : EventFunc) : List Instruction :=
  match f with
  | .insnBefore | .insnAfter => if cfg.insn then [.ofEvent f] else []
  | .blockBefore | .blockAfter => if cfg.block then [.ofEvent f] else []
  | .funcBefore | .funcAfter => if cfg.func then [.ofEvent f] else []
  | _ => []

/-- 命令の実装の前に置く slot。 -/
def beforeSlots : List Instruction :=
  setupEvent cfg .insnBefore ++ if cfg.debug then [.ofEvent .debugging] else []

/-- 命令の実装の slot。lift されていない命令では実行を打ち切る。 -/
def realSlot (i : Insn) : Instruction :=
  match lifted i.opcode with
  | none => .ofEntry (.func .terminateExecution) i.oplen
  | some entry => .ofEntry (.entry entry) i.oplen

/-- 命令の実装の後に置く slot。 -/
def afterSlots (i : Insn) : List Instruction :=
  (match i.type with
    | .syscall => if arch = .arm64 then [.ofEvent .syscallInterpret] else []
    | .trap => if arch = .x86_64 then [.ofEvent .interruptInterpret] else []
    | _ => setupEvent cfg .insnAfter)
  ++ (match i.type with
    | .jcond | .jump => [.ofEvent .jumpInterpret]
    | .call => [.ofEvent .callInterpret]
    | .ret => setupEvent cfg .funcAfter ++ [.ofEvent .finishFunction]
    | _ => [])

/-- 命令一つのために置く slot。 -/
def insnSlots (i : Insn) : List Instruction :=
  beforeSlots cfg ++ realSlot lifted i :: afterSlots cfg arch i

/-- 基本 block を終わらせる命令か。 -/
def endsBlock (i : Insn) : Bool :=
  match i.type with
  | .jcond | .jump | .call | .ret => true
  | _ => false

/-- 基本 block。`vmaddr` は実行時の address である。 -/
structure Block where
  vmaddr : Nat
  handlers : List Instruction
deriving DecidableEq

/--
関数の命令の loop。`first` は関数の最初の命令か、`newbb` は直前の命令が block を終わらせたか、
`cur` は作りかけの block である。`fin` は最後の block の後ろに足す slot である。
-/
def encodeInsns (addr addend : Nat) (fin : List Instruction) :
    List Insn → Bool → Bool → Block → List Block
  | [], _, _, cur => [{ cur with handlers := cur.handlers ++ fin }]
  | i :: rest, first, newbb, cur =>
    if !first && (i.comins || newbb) then
      { cur with handlers := cur.handlers ++ setupEvent cfg .blockAfter }
        :: encodeInsns addr addend fin rest false (endsBlock i)
          ⟨addAddr (addr + i.fnoff) addend,
            setupEvent cfg .blockBefore ++ insnSlots cfg arch lifted i⟩
    else
      encodeInsns addr addend fin rest false (newbb || endsBlock i)
        { cur with handlers := cur.handlers ++ insnSlots cfg arch lifted i }

/-- 関数一つ。 -/
def encodeFunc (addend : Nat) (fin : List Instruction) (f : Func) : List Block :=
  encodeInsns cfg arch lifted f.addr addend fin f.insns true false
    ⟨addAddr f.addr addend, setupEvent cfg .funcBefore ++ setupEvent cfg .blockBefore⟩

end Encode

/-- 実行のために並べ直した binary。`bbhandlers` は block ごとの slot の番号である。 -/
structure BasicBlocks where
  vmaddrs : List Nat
  maxaddr : Nat
  bbhandlers : List (List Nat)
  rthandlers : List Instruction

/-- `convert` の loop。`rt` は次の slot の番号である。 -/
def convertFrom : Nat → List (List Instruction) → List (List Nat)
  | _, [] => []
  | rt, insns :: rest =>
    (List.range insns.length).map (rt + ·) :: convertFrom (rt + insns.length) rest

/-- `BasicBlocks::convert`。 -/
def convert (maxaddr : Nat) (blocks : List Block) : BasicBlocks where
  vmaddrs := blocks.map Block.vmaddr
  maxaddr := maxaddr
  bbhandlers := convertFrom 0 (blocks.map Block.handlers)
  rthandlers := (blocks.map Block.handlers).flatten

/-- 最後の関数の終わり。 -/
def lastEnd (functions : List Func) : Nat :=
  match functions.getLast? with
  | some f => f.fin
  | none => 0

/--
`Orchestrator::encode`。関数が一つだけの binary では、明示的な RET が無くても終われるように、
最後の block の後ろに `finish_emulation` を足す。
-/
def encode (cfg : EventConfig) (lifted : Bytes → Option UInt64) (bin : Binary) (addend : Nat) :
    BasicBlocks :=
  let fin := if bin.functions.length = 1 then [Instruction.ofEvent .finishEmulation] else []
  convert (addAddr (lastEnd bin.functions) addend)
    (bin.functions.flatMap (encodeFunc cfg bin.arch lifted addend fin))

end AetherVM.Orchestrator
