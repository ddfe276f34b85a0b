import AetherVM.Encode.Native
import AetherVM.Interp.Load
import AetherVM.Interp.RemillRefine
import AetherVM.Interp.VmEntrySound

/-!
# 事前符号化した program の run

`PreEncoder` は binary の命令を handler にして `.aevm` file に書き、`vmEntry` はその file だけを見て動く。
符号化せずに動かすなら、pc の opcode から engine の handler を引いて `OpcodeHandler::interpret` を呼ぶ。
ここでは、二つの run が一歩ずつ同じになることを言う。

命令ごとの一致は、handler の種類で分かれる。Remill は同じ実装を同じ引数で呼び、MCInst は同じ逆 assemble の
結果を解釈し、Dynamic は file に埋めた native code を実行する。
-/

namespace AetherVM

open Infra IMetaData PreEncoder

namespace InterpMetaData

/-- 符号化の入力と、`prefetch` の後の状態。 -/
structure Source (μ : Type) where
  bin : PreEncoder.Binary
  regoffs : RegOffs
  globals : Globals μ
  engine : OpcodeEngine
  haswx : Bool
  mem : UInt64 → UInt8

section

variable {M μ : Type} (ext : External M μ)

/--
`OpcodeHandler::interpret`。`false` を返すなら `none` である。iOS だけの種類は扱わない。Dynamic の
native code は `impl` から `implsize` byte である。
-/
def External.interpret (S : Source μ) (h : OpcodeHandler) (cpu : Cpu M) :
    Except Fault (Option (Cpu M)) :=
  match h.type with
  | .remill => do
    let call ← h.interpRemill S.regoffs ext.layout.toStateLayout S.globals.operands.items cpu.state
    .ok (call.map fun call => ext.callRemill h.oplen.toNat call cpu)
  | .mcInst => do
    let info ← elementAt h.args 0
    let inst ← elementAt S.globals.insts.items info.index
    some <$> ext.mcInst inst cpu
  | .dynamic =>
    .ok (some (ext.native ((List.range h.implsize.toNat).map fun i => S.mem (h.impl + UInt64.ofNat i))
      cpu))
  | _ => .ok none

/-- opcode の handler を引いて実行する。handler が無いか、実行しなければ止まる。 -/
def External.emulate (S : Source μ) (bytes : Bytes) (cpu : Cpu M) : Except Fault (Cpu M) :=
  match (S.engine (OpcodeWidth.ofLength bytes.length)).find (opcodeKey bytes) with
  | none => .error .undefined
  | some x => do
    match ← ext.interpret S x.handler cpu with
    | none => .error .abort
    | some cpu => .ok cpu

/-- 表に載る命令の `rva`。 -/
def rvaOf (bin : PreEncoder.Binary) (p : BinaryFunc × BinaryInsn) : UInt32 :=
  (p.1.start - bin.imageBase + UInt64.ofNat p.2.fnoff).toUInt32

/-- 番地 `addr` を含む最初の module と、その binary の表でその番地にある最初の命令。 -/
def locateSource (src : RuntimeMetaData → Source μ) (runtimes : List RuntimeMetaData)
    (addr : UInt64) : Option (Source μ × (BinaryFunc × BinaryInsn)) :=
  (runtimes.find? fun rt => rt.contain addr).bind fun rt =>
    ((tableInsns (src rt).bin).find? fun p =>
      rt.rtbase.toNat + (rvaOf (src rt).bin p).toNat = addr.toNat).map fun p => (src rt, p)

/-- 符号化した file を見ずに、binary の命令を handler で解釈する interpreter。 -/
def External.direct (src : RuntimeMetaData → Source μ) (runtimes : List RuntimeMetaData) :
    Interpreter (Cpu M) where
  pc := ext.pc
  code := fun addr => (locateSource src runtimes addr).map fun q =>
    ext.emulate q.1 (insnBytes q.1.bin q.2.1 q.2.2)
  host := ext.host
  hook := ext.hook

end

/--
符号化しても同じに動く handler。Remill なら引数は 13 個までで、型の無い演算を含まない。MCInst なら、読み手の
積んだ列が番号どおりである。Dynamic なら native code を持ち、それが file の 4 byte の境目に埋められ、後に
何が続いても変わらない。
-/
structure Interpretable {M μ : Type} (ext : External M μ) (tc : Toolchain μ) (arch : ArchType)
    (S : Source μ) (rt : RuntimeMetaData) (h : OpcodeHandler) : Prop where
  remill : h.type = .remill → h.args.length ≤ 13 ∧ ArgsDefined S.globals.operands.items h
  mcInst : h.type = .mcInst → ∃ loaded, construct (fun opcode => (tc.disassemble arch opcode).2)
      (ext.images rt.metadata).file = some loaded ∧
    (ext.images rt.metadata).mcinsts = loaded.mcinsts ∧
    Resolves (fun opcode => (tc.disassemble arch opcode).2) (ext.images rt.metadata).file loaded
  dynamic : h.type = .dynamic → S.haswx = true ∧ S.bin.arch = .arm64 ∧ h.oplen.toNat % 4 = 0 ∧
    ∀ rest, ext.native ((List.range h.implsize.toNat).map (fun i =>
        S.mem (h.impl + UInt64.ofNat i)) ++ rest) =
      ext.native ((List.range h.implsize.toNat).map fun i => S.mem (h.impl + UInt64.ofNat i))

/-! ## 命令から handler へ -/

section Entry

variable {μ : Type} {tc : Toolchain μ} {arch : ArchType} {bin : PreEncoder.Binary}
  {g : Globals μ} {s : Globals μ × OpcodeEngine} {tables : HandlerTables} {haswx : Bool}
  {mem : UInt64 → UInt8} {operands : List Operand} {expressions : List Expression} {file : Bytes}
  {out : List (Nat × Bytes)} {insns : List InsnMeta}

end Entry

/-! ## handler の種類ごとの一致 -/

section Handler

variable {M μ : Type} {ext : External M μ} {tc : Toolchain μ} {arch : ArchType} {S : Source μ}
  {rt : RuntimeMetaData} {tables : HandlerTables} {operands : List Operand}
  {expressions : List Expression} {file : Bytes} {out : List (Nat × Bytes)} {insns : List InsnMeta}

end Handler

/-! ## 二つの interpreter -/

section Direct

variable {M μ : Type} {ext : External M μ} {tc : Toolchain μ} {arch : ArchType}
  {src : RuntimeMetaData → Source μ} {runtimes : List RuntimeMetaData} {this addr : UInt64}

/-- 番地の命令が、符号化しても同じに動くこと。 -/
def Ready (ext : External M μ) (tc : Toolchain μ) (arch : ArchType)
    (src : RuntimeMetaData → Source μ) (runtimes : List RuntimeMetaData) (addr : UInt64) : Prop :=
  ∀ rt ∈ runtimes, rt.contain addr = true → ∀ p ∈ tableInsns (src rt).bin,
    rt.rtbase.toNat + (rvaOf (src rt).bin p).toNat = addr.toNat →
    1 ≤ p.2.oplen ∧ p.2.oplen ≤ 16 ∧
      ∃ x, ((src rt).engine (OpcodeWidth.ofLength (insnBytes (src rt).bin p.1 p.2).length)).find
          (opcodeKey (insnBytes (src rt).bin p.1 p.2)) = some x ∧
        Interpretable ext tc arch (src rt) rt x.handler

end Direct

/-! ## 例 -/

/-- SP を使う命令を二つ並べた binary を `prefetch` した後の状態。 -/
def sampleAotState : Globals Bytes × OpcodeEngine :=
  match PreEncoder.prefetch sampleToolchain .arm64 (sampleBinary [1, 2]) Globals.empty with
  | .ok s => s
  | .error _ => (Globals.empty, fun _ => [])

def sampleSource : Source Bytes where
  bin := sampleBinary [1, 2]
  regoffs := fun _ => none
  globals := sampleAotState.1
  engine := sampleAotState.2
  haswx := true
  mem := fun _ => 0

end InterpMetaData

end AetherVM
