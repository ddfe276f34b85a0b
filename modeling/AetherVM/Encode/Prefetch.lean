import AetherVM.Encode.Serialize
import AetherVM.Opcode.Engine

/-!
# 事前符号化の準備（`src/PreEncoder.cpp` の `prefetch`・`handlerIndex`・`analyzeInsnMeta`）

binary のすべての関数を opcode engine に読ませ、できた handler に番号を振り、命令の表を作る。
表の命令は binary の解析が与えるもので、engine が順に decode した命令の列とは限らない。
-/

namespace AetherVM.PreEncoder

open Infra IMetaData

/-- binary の解析が与える命令。`isData` は `IDATA` である。 -/
structure BinaryInsn where
  fnoff : Nat
  oplen : Nat
  isData : Bool
deriving DecidableEq, Repr

/-- binary の関数。範囲は `[start, start + size)` である。 -/
structure BinaryFunc where
  start : UInt64
  size : Nat
  insns : List BinaryInsn

/-- `addrBuff addr i` は、`m_bin->addrBuff(addr)` から `i` 番目の byte である。 -/
structure Binary where
  arch : ArchType
  imageBase : UInt64
  functions : List BinaryFunc
  addrBuff : UInt64 → Nat → UInt8

section

variable {μ : Type} (tc : Toolchain μ) (arch : ArchType) (bin : Binary)

/--
`prefetch` の前半。すべての関数を engine に読ませる。`arch` は `CPU.runtime` の architecture で、
binary のものとは限らない。
-/
def prefetchFrom : List BinaryFunc → Globals μ × OpcodeEngine →
    Except Fault (Globals μ × OpcodeEngine)
  | [], s => .ok s
  | func :: rest, s => do
    let s ← tc.prefetch arch (bin.addrBuff func.start) 0 func.size s
    prefetchFrom rest s

/-- `PreEncoder::prefetch`。`PreEncoder` の engine は空から始まる。 -/
def prefetch (g : Globals μ) : Except Fault (Globals μ × OpcodeEngine) :=
  prefetchFrom tc arch bin bin.functions (g, fun _ => [])

/-- `prefetch` が decode する命令。 -/
def visited : List (Decoded × Bytes) :=
  bin.functions.flatMap fun func =>
    tc.visits arch (bin.addrBuff func.start) func.size func.size 0

end

theorem prefetchFrom_eq {μ : Type} {tc : Toolchain μ} {arch : ArchType} {bin : Binary} :
    ∀ (funcs : List BinaryFunc) (s : Globals μ × OpcodeEngine),
    prefetchFrom tc arch bin funcs s = tc.prefetchAll arch (funcs.flatMap fun func =>
      tc.visits arch (bin.addrBuff func.start) func.size func.size 0) s
  | [], s => rfl
  | func :: funcs, s => by
    rw [prefetchFrom, List.flatMap_cons, Toolchain.prefetchAll_append, Toolchain.prefetch,
      Toolchain.prefetchLoop_eq]
    exact congrArg (_ >>= ·) (funext fun s' => prefetchFrom_eq funcs s')

/-- `load_handlers`。幅の小さい集合から順に並べる。 -/
def loadHandlers (engine : OpcodeEngine) : List Handler :=
  (engine .w1 ++ engine .w2 ++ engine .w4 ++ engine .w8 ++ engine .w16).map fun x =>
    ⟨x.handler.opcode.length, x.handler, rfl⟩

/-- 幅ごとの番号の始まり（`m_ranges`）。 -/
def rangeStart (engine : OpcodeEngine) : OpcodeWidth → Nat
  | .w1 => 0
  | .w2 => (engine .w1).length
  | .w4 => (engine .w1).length + (engine .w2).length
  | .w8 => (engine .w1).length + (engine .w2).length + (engine .w4).length
  | .w16 =>
    (engine .w1).length + (engine .w2).length + (engine .w4).length + (engine .w8).length

/-- `std::lower_bound`。opcode が key より小さくない最初の位置である。 -/
def lowerBound (handlers : HandlerSet) (key : Bytes) : Nat :=
  handlers.findIdx fun x => ofLE key ≤ ofLE x.handler.opcode

/-- `PreEncoder::handlerIndex`。 -/
def handlerIndex (engine : OpcodeEngine) (opcode : Bytes) : UInt32 :=
  if opcode.length = 0 ∨ 16 < opcode.length then noHandler
  else
    let width := OpcodeWidth.ofLength opcode.length
    let it := lowerBound (engine width) (opcodeKey opcode)
    match (engine width)[it]? with
    | none => noHandler
    | some x =>
      if x.handler.opcode = opcodeKey opcode then UInt32.ofNat (rangeStart engine width + it)
      else noHandler

/-- 命令の opcode の byte 列。 -/
def insnBytes (bin : Binary) (func : BinaryFunc) (insn : BinaryInsn) : Bytes :=
  (List.range insn.oplen).map fun i => bin.addrBuff func.start (insn.fnoff + i)

/-- 表に載る命令。data は載らない。 -/
def tableInsns (bin : Binary) : List (BinaryFunc × BinaryInsn) :=
  bin.functions.flatMap fun func =>
    (func.insns.filter fun insn => !insn.isData).map fun insn => (func, insn)

/-- `PreEncoder::analyzeInsnMeta`。 -/
def analyzeInsnMeta (bin : Binary) (engine : OpcodeEngine) : List InsnMeta :=
  (tableInsns bin).map fun p =>
    ⟨(p.1.start - bin.imageBase + UInt64.ofNat p.2.fnoff).toUInt32,
      handlerIndex engine (insnBytes bin p.1 p.2)⟩

/--
`PreEncoder::encode` が `serialize` に渡す状態。`mem` は、そのときの process の memory である。
-/
def ofEngine (tables : HandlerTables) (bin : Binary) (haswx : Bool) (mem : UInt64 → UInt8)
    (engine : OpcodeEngine) : PreEncoder where
  arch := bin.arch
  haswx := haswx
  tables := tables
  mem := mem
  handlers := loadHandlers engine
  insnmetas := analyzeInsnMeta bin engine

end AetherVM.PreEncoder
