import AetherVM.Encode.Serialize
import Mathlib.Data.Finset.Basic

/-!
# file の検査（`src/PreEncoder.cpp` の `dump`）

`dump` は file を先頭から読み、header と section の位置を確かめてから、handler の record を
一つずつ辿る。record の長さは自前の規則で計算し、native code が続くかどうかは header の
`kFlag_HasWX` だけで決める。最後に、命令の指す offset が辿った offset の中にあるかを調べる。

標準出力への文面のうち、判定に関わらないもの（operand と expression の一覧、hex dump）は扱わない。
`disas` は逆 assembler で、byte 列の先頭の命令の文面と長さを返す。長さ 0 は失敗を表す。
-/

namespace AetherVM.PreEncoder

open Infra IMetaData

/-- `dump` が途中で止まる理由。 -/
inductive DumpError where
  | tooSmall
  | tooLarge
  | header
  | magic
  | version
  | size
  | sections
  | truncatedRecord (i : Nat)
  | invalidRecord (i : Nat)
  | truncatedAot (i : Nat)
deriving DecidableEq, Repr

def DumpError.message (path : String) : DumpError → String
  | tooSmall => s!"Metadata file is too small to contain its header: {path}"
  | tooLarge => s!"Metadata file exceeds the 32-bit format size limit: {path}"
  | header => s!"Unable to read metadata header: {path}"
  | magic => "Invalid metadata magic; remaining bytes are not decoded"
  | version => "Unsupported metadata version; remaining bytes are not decoded"
  | size => "Metadata size does not match the file length; remaining sections are not decoded"
  | sections =>
    "Invalid or overlapping metadata section offsets/counts; remaining bytes are not decoded"
  | truncatedRecord i => s!"Truncated handler record {i}"
  | invalidRecord i => s!"Invalid or truncated handler record {i}"
  | truncatedAot i => s!"Truncated aot implementation of handler {i}"

/-- record 一つについて表示するもの。`offset` は section の先頭からの offset である。 -/
structure DumpRecord where
  offset : Nat
  head : IMetaData.Handler
  opcode : Bytes
  asm : Option String
  operands : List IMetaData.OperandInfo
  code : List (Nat × Option String)
deriving DecidableEq

structure DumpReport where
  metadata : Header
  insns : List InsnMeta
  handlers : List DumpRecord
  mismatches : Finset UInt32

variable (disas : ArchType → Bytes → String × Nat)

/-- 逆 assembler の結果。長さ 0 は「(invalid)」と表示される。 -/
def disasOpcode (arch : ArchType) (code : Bytes) : Option String :=
  match disas arch code with
  | (_, 0) => none
  | (text, _ + 1) => some text

/-- native code の一覧。読めない所が出たら、残りを byte で表示して止まる。 -/
def dumpCode (arch : ArchType) (code : Bytes) : Nat → Nat → List (Nat × Option String)
  | 0, _ => []
  | fuel + 1, pos =>
    if pos < code.length then
      match disas arch ((code.drop pos).take 16) with
      | (_, 0) => [(pos, none)]
      | (text, len + 1) => (pos, some text) :: dumpCode arch code fuel (pos + (len + 1))
    else []

/-- header の flag から決まる architecture。 -/
def archOfFlags (md : Header) : ArchType :=
  if md.flags &&& kFlagARM64 ≠ 0 then .arm64 else .x86_64

/-- `dump` の中の `recordSize`。 -/
def dumpRecordSize (head : IMetaData.Handler) : Nat :=
  IMetaData.Handler.fixedSize + head.oplen.toNat
    + if head.type.toNat = HandlerType.remill.toNat then head.oprnum.toNat * 2 else 0

/-- `handler_offset` にある record の表示。 -/
def dumpRecord (file : Bytes) (md : Header) (ho : Nat) (head : IMetaData.Handler)
    (code : List (Nat × Option String)) : DumpRecord :=
  let opcode := (file.drop (ho + IMetaData.Handler.fixedSize)).take head.oplen.toNat
  { offset := ho - md.offHandlers.toNat
    head := head
    opcode := opcode
    asm := disasOpcode disas (archOfFlags md) opcode
    operands :=
      if head.type.toNat = HandlerType.remill.toNat then
        (operandInfoCodec.readArray file (head.operand ho) head.oprnum.toNat).getD []
      else []
    code := code }

/-- record 一つ。表示と、次の `handler_offset` を返す。 -/
def dumpHandler (file : Bytes) (md : Header) (i ho : Nat) : Except DumpError (DumpRecord × Nat) :=
  match handlerCodec.read file ho with
  | none => .error (.truncatedRecord i)
  | some head =>
    let size := dumpRecordSize head
    if HandlerType.prebuiltMapped.toNat < head.type.toNat ∨ file.length - ho < size then
      .error (.invalidRecord i)
    else if md.flags &&& kFlagHasWX = 0 then
      .ok (dumpRecord disas file md ho head [], ho + size)
    else if head.type.toNat = HandlerType.dynamic.toNat then
      let codeOffset := align4 size
      if file.length - ho < codeOffset + head.impl.toNat then .error (.truncatedAot i)
      else
        let code := (file.drop (ho + codeOffset)).take head.impl.toNat
        .ok (dumpRecord disas file md ho head
            (dumpCode disas (archOfFlags md) code code.length 0),
          ho + align4 (codeOffset + head.impl.toNat))
    else .ok (dumpRecord disas file md ho head [], ho + align4 size)

/-- handler の section を辿る loop。残り `n` 個である。 -/
def dumpHandlers (file : Bytes) (md : Header) :
    Nat → Nat → Nat → Except DumpError (List DumpRecord)
  | 0, _, _ => .ok []
  | n + 1, i, ho =>
    match dumpHandler disas file md i ho with
    | .error err => .error err
    | .ok (record, next) =>
      match dumpHandlers file md n (i + 1) next with
      | .error err => .error err
      | .ok rest => .ok (record :: rest)

/-- 命令の section。読めない所は零のままになる。 -/
def dumpInsns (file : Bytes) (md : Header) : List InsnMeta :=
  (List.range md.numInstruction.toNat).map fun i =>
    (insnMetaCodec.read file (md.offInstruction.toNat + i * insnMetaCodec.size)).getD ⟨0, 0⟩

/-- 命令の指す offset の集まり。 -/
def referencedOffsets (insns : List InsnMeta) : Finset UInt32 :=
  ((insns.filter fun insn => insn.handler ≠ noHandler).map InsnMeta.handler).toFinset

/-- 辿った offset の集まり。32 bit に切り詰める。 -/
def computedOffsets (records : List DumpRecord) : Finset UInt32 :=
  (records.map fun record => UInt32.ofNat record.offset).toFinset

/-- section の位置の検査（`sections_valid`）。 -/
def sectionsValid (file : Bytes) (md : Header) : Prop :=
  md.offInstruction.toNat = headerCodec.size ∧
    md.offInstruction.toNat + md.numInstruction.toNat * insnMetaCodec.size
      = md.offOperands.toNat ∧
    md.offOperands.toNat + md.numOperands.toNat * operandCodec.size = md.offExpressions.toNat ∧
    md.offExpressions.toNat + md.numExpressions.toNat * expressionCodec.size
      = md.offHandlers.toNat ∧
    md.offHandlers.toNat ≤ file.length

instance (file : Bytes) (md : Header) : Decidable (sectionsValid file md) :=
  inferInstanceAs (Decidable (_ ∧ _))

/-- `PreEncoder::dump`。file を開けないときのことは扱わない。 -/
def dump (file : Bytes) : Except DumpError DumpReport :=
  if file.length < headerCodec.size then .error .tooSmall
  else if uint32Max < file.length then .error .tooLarge
  else
    match headerCodec.read file 0 with
    | none => .error .header
    | some md =>
      if md.magic ≠ kMagic then .error .magic
      else if md.version ≠ kVersion then .error .version
      else if md.size.toNat ≠ file.length then .error .size
      else if ¬ sectionsValid file md then .error .sections
      else
        let insns := dumpInsns file md
        match dumpHandlers disas file md md.numHandlers.toNat 0 md.offHandlers.toNat with
        | .error err => .error err
        | .ok records =>
          .ok ⟨md, insns, records, referencedOffsets insns \ computedOffsets records⟩

end AetherVM.PreEncoder
