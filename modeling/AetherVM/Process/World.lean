import AetherVM.Encode.Prefetch

/-!
# process の状態（`src/AetherVM.cpp`・`src/BinaryEngine.cpp`・`src/OpcodeEngine.cpp`）

一つの thread の上で、`BinaryEngine` と `PreEncoder` を作り、使い、消す。どちらも `readonly` の
`OpcodeEngine` を持ち、thread には `readonly` でない `EMU` がある。handler の指す operand・register の表・
page は、どの engine のものでもなく、file の中の大域変数である。

object は address で呼び分ける。`interpret` の実行する命令の意味は扱わない。
-/

namespace AetherVM

open Infra

/-- engine を持つ object。`machine` は、`Machine` から作った `BinaryEngine` かどうかである。 -/
inductive Owner where
  | binaryEngine (arch : ArchType) (machine : Bool)
  | preEncoder (bin : PreEncoder.Binary)

/-- 生きている object。 -/
structure Live where
  owner : Owner
  handlers : OpcodeEngine

/--
`runtime` は `CPU.runtime` の architecture である。`BinaryEngine` を一つでも消すと
`CPUState::freeContext` が `CPU` を 0 で埋めるので、`CPU.runtime` が消えた engine を指すことはない。
-/
structure World (μ : Type) where
  g : Globals μ
  runtime : Option ArchType
  live : Nat → Option Live
  emu : OpcodeEngine

def World.empty {μ : Type} : World μ := ⟨.empty, none, fun _ => none, fun _ => []⟩

/-- `readonly` の `OpcodeEngine::~OpcodeEngine`。`insts` は残る。 -/
def Globals.clear {μ : Type} (g : Globals μ) : Globals μ :=
  { g with operands := .empty, regoffs := none, dynhandlers := [], pagestart := none, pagecur := 0 }

/--
thread の上の操作。`prefetch` の buffer は `mem` の先頭の `size` byte で、decode はその先も読みうる。
`emulate` の `span` は、opcode の長さの決まっていない `emulate` である。
-/
inductive Op where
  | newEngine (id : Nat) (arch : ArchType) (machine : Bool)
  | newPreEncoder (id : Nat) (bin : PreEncoder.Binary)
  | delete (id : Nat)
  | enterThread (id : Nat)
  | leaveThread (id : Nat)
  | prefetch (id : Nat) (mem : Nat → UInt8) (size : Nat)
  | encode (id : Nat)
  | emulate (id : Nat) (span : Bool) (bytes : Bytes)

namespace World

variable {μ : Type}

/-- `CPU.runtime` を通した読み出し。null なら落ちる。 -/
def runtimeArch (w : World μ) : Except Fault ArchType :=
  match w.runtime with
  | some arch => .ok arch
  | none => .error .undefined

/-- object の engine と大域変数を置き換える。 -/
def put (w : World μ) (id : Nat) (owner : Owner) (s : Globals μ × OpcodeEngine) : World μ :=
  { w with g := s.1, live := Function.update w.live id (some ⟨owner, s.2⟩) }

end World

namespace Toolchain

variable {μ : Type} (tc : Toolchain μ)

/-- `BinaryEngine::emulate`。object の engine が実行できなければ、`EMU` に回す。 -/
def emulateOpcode (arch : ArchType) (handlers : OpcodeEngine) (bytes : Bytes) (w : World μ) :
    Except Fault (World μ) := do
  let (_, done) ← tc.emulate true arch bytes (w.g, handlers)
  if done then .ok w
  else do
    let (s, _) ← tc.emulate false arch bytes (w.g, w.emu)
    .ok { w with g := s.1, emu := s.2 }

/-- `emulate` が見る opcode。 -/
def emulated (arch : ArchType) (span : Bool) (bytes : Bytes) : Option Bytes :=
  if span then tc.spanOpcode arch bytes else some bytes

/-- 操作の一つ。生きていない object を使えば未定義である。 -/
def step (w : World μ) : Op → Except Fault (World μ)
  | .newEngine id arch machine =>
    match w.live id with
    | some _ => .error .undefined
    | none =>
      .ok { w.put id (.binaryEngine arch machine) (w.g, fun _ => []) with runtime := some arch }
  | .newPreEncoder id bin =>
    match w.live id with
    | some _ => .error .undefined
    | none => .ok (w.put id (.preEncoder bin) (w.g, fun _ => []))
  | .delete id =>
    match w.live id with
    | none => .error .undefined
    | some e =>
      .ok { w with
        g := w.g.clear
        live := Function.update w.live id none
        runtime := match e.owner with
          | .binaryEngine _ _ => none
          | .preEncoder _ => w.runtime }
  | .enterThread id =>
    match w.live id with
    | some ⟨.binaryEngine arch _, _⟩ => .ok { w with runtime := some arch }
    | _ => .error .undefined
  | .leaveThread id =>
    match w.live id with
    | some ⟨.binaryEngine _ _, _⟩ => .ok { w with runtime := none }
    | _ => .error .undefined
  | .prefetch id mem size =>
    match w.live id with
    | some ⟨.binaryEngine own true, handlers⟩ => do
      let arch ← w.runtimeArch
      let s ← tc.prefetch arch mem 0 size (w.g, handlers)
      .ok (w.put id (.binaryEngine own true) s)
    | some ⟨.binaryEngine _ false, _⟩ => .ok w
    | _ => .error .undefined
  | .encode id =>
    match w.live id with
    | some ⟨.preEncoder bin, handlers⟩ =>
      if bin.functions = [] then .ok w
      else do
        let arch ← w.runtimeArch
        let s ← PreEncoder.prefetchFrom tc arch bin bin.functions (w.g, handlers)
        .ok (w.put id (.preEncoder bin) s)
    | _ => .error .undefined
  | .emulate id span bytes =>
    match w.live id with
    | some ⟨.binaryEngine _ true, handlers⟩ => do
      let arch ← w.runtimeArch
      match tc.emulated arch span bytes with
      | none => .ok w
      | some bytes => tc.emulateOpcode arch handlers bytes w
    | some ⟨.binaryEngine _ false, _⟩ => .ok w
    | _ => .error .undefined

end Toolchain

end AetherVM
