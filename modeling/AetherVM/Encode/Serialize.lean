import AetherVM.Opcode.Handler

/-!
# 事前符号化の書き出し（`src/PreEncoder.cpp` の `serializeHandler` と `serialize`）

`PreEncoder` の状態から `.aevm` file の byte 列を作る。record も file も、零で埋めた buffer に
`memcpy` で書き込んで作るので、ここでも同じ順に同じ offset へ書く。

失敗は `EncodeError` で返す。文面は `log_print` に渡るものである。
-/

namespace AetherVM

open Infra

namespace PreEncoder

/-- 書き出しが失敗する理由。 -/
inductive EncodeError where
  | invalidWidth
  | unsupported
  | offsetLimit
  | missingHandler (index : UInt32)
  | countLimit
  | sizeLimit
deriving DecidableEq, Repr

def EncodeError.message : EncodeError → String
  | invalidWidth => "Failed to serialize opcode handler: invalid opcode width"
  | unsupported =>
    "Failed to serialize opcode handler: handler fields exceed metadata limits or are unsupported"
  | offsetLimit =>
    "Failed to serialize opcode handler: handler section offset exceeds metadata limits"
  | missingHandler index => s!"Instruction handler index {index} has no serialized handler"
  | countLimit => "Metadata section count exceeds the 32-bit format limit"
  | sizeLimit => "Metadata size exceeds the 32-bit format limit"

/-- `PreEncoder::Handler`。`oplen` は `sizeof(T)` で、`ptr` の指す先の `T` を決める。 -/
structure Handler where
  oplen : Nat
  ptr : OpcodeHandler
  width : ptr.opcode.length = oplen

end PreEncoder

/--
`PreEncoder` のうち、書き出しが読むもの。`arch` は `m_bin->archType()`、`mem` は native code を
読むための process の memory である。`insnmetas` の `handler` は `handlers` の番号か番兵である。
-/
structure PreEncoder where
  arch : ArchType
  haswx : Bool
  tables : HandlerTables
  mem : UInt64 → UInt8
  handlers : List PreEncoder.Handler
  insnmetas : List IMetaData.InsnMeta

namespace PreEncoder

open IMetaData

/-- `UINT32_MAX`。 -/
def uint32Max : Nat := 0xFFFFFFFF

/-- `UINT16_MAX`。実装の無いことを表す。 -/
def noImpl : Nat := 0xFFFF

def operandIndexMask : Nat := 0x7fff

def operandPointerFlag : Nat := 0x8000

/-- `(n + 3u) & ~size_t{3}`。 -/
def align4 (n : Nat) : Nat := (n + 3) / 4 * 4

variable (e : PreEncoder)

/-- native code を file に埋めるか。 -/
def aotimpl : Bool := e.haswx && e.arch == .arm64

/-- handler の native code。`impl` から `implsize` byte である。 -/
def nativeCode (h : OpcodeHandler) : Bytes :=
  (List.range h.implsize.toNat).map fun i => e.mem (h.impl + UInt64.ofNat i)

/-! ## handler 一つ -/

/--
record の `impl` に書く値。`dyn` は `dynamic_handler_index` で、native code を埋めないときだけ進む。
-/
def implField (h : OpcodeHandler) (dyn : Nat) : Option (UInt16 × Nat) :=
  match h.type with
  | .remill =>
    match (e.tables.of e.arch).findIdx? (fun candidate => candidate.impl == h.impl) with
    | none => none
    | some index => if noImpl ≤ index then none else some (UInt16.ofNat index, dyn)
  | .mcInst =>
    match h.args with
    | [arg] => if noImpl ≤ arg.index then none else some (UInt16.ofNat arg.index, dyn)
    | _ => none
  | .dynamic =>
    if e.aotimpl then
      if h.implsize ≠ 0 ∧ h.impl = 0 then none else some (h.implsize, dyn)
    else if noImpl ≤ dyn then none else some (UInt16.ofNat dyn, dyn + 1)
  | _ => none

def operandBytes (h : OpcodeHandler) : Nat :=
  if h.type = .remill then h.args.length * 2 else 0

/-- native code を置く位置。 -/
def aotimplOffset (h : OpcodeHandler) : Nat :=
  let off := IMetaData.Handler.fixedSize + h.oplen.toNat + operandBytes h
  if e.aotimpl then align4 off else off

def codeSize (h : OpcodeHandler) : Nat :=
  if e.aotimpl ∧ h.type = .dynamic then h.implsize.toNat else 0

def recordSize (h : OpcodeHandler) : Nat :=
  if e.aotimpl then align4 (e.aotimplOffset h + e.codeSize h)
  else IMetaData.Handler.fixedSize + h.oplen.toNat + operandBytes h

/-- record の先頭に書く固定部分。 -/
def recordHead (h : OpcodeHandler) (impl : UInt16) : IMetaData.Handler where
  impl := impl
  type := BitVec.ofNat 4 h.type.toNat
  oplen := BitVec.ofNat 4 h.oplen.toNat
  oprnum := UInt8.ofNat (if operandBytes h ≠ 0 then h.args.length else 0)

/-- 引数を一つずつ 2 byte で書く。番号が 15 bit に収まらなければ失敗する。 -/
def writeArgs (record : Bytes) (off : Nat) : List OperandInfo → Option Bytes
  | [] => some record
  | arg :: rest =>
    if operandIndexMask < arg.index then none
    else
      let operandIndex := arg.index ||| (if arg.pointer then operandPointerFlag else 0)
      writeArgs (memcpy record off (toLE 2 operandIndex)) (off + 2) rest

/-- handler 一つを record にする（`serializeHandler` の `convert`）。 -/
def convert (source : Handler) (dyn : Nat) : Option (Bytes × Nat) :=
  let h := source.ptr
  if 15 < h.oplen.toNat ∨ source.oplen < h.oplen.toNat ∨ 255 < h.args.length then none
  else
    (e.implField h dyn).bind fun (impl, dyn') =>
      let fixedSize := IMetaData.Handler.fixedSize
      let record := zeros (e.recordSize h)
      let record := memcpy record 0 (handlerCodec.enc (recordHead h impl))
      let record := memcpy record fixedSize (h.opcode.take h.oplen.toNat)
      let record :=
        if operandBytes h ≠ 0 then writeArgs record (fixedSize + h.oplen.toNat) h.args
        else some record
      record.bind fun record =>
        if e.codeSize h ≠ 0 then
          some (memcpy record (e.aotimplOffset h) (e.nativeCode h), dyn')
        else some (record, dyn')

/-! ## handler の列 -/

/-- `handlers` の残りを、section の先頭からの offset と並べて書き出す。 -/
def serializeHandlerFrom : List Handler → Nat → Nat → Except EncodeError (List (Nat × Bytes))
  | [], _, _ => .ok []
  | source :: rest, off, dyn =>
    if source.oplen = 1 ∨ source.oplen = 2 ∨ source.oplen = 4 ∨ source.oplen = 8
        ∨ source.oplen = 16 then
      match e.convert source dyn with
      | none => .error .unsupported
      | some (record, dyn') =>
        if uint32Max < off ∨ uint32Max - off < record.length then .error .offsetLimit
        else
          match serializeHandlerFrom rest (off + record.length) dyn' with
          | .error err => .error err
          | .ok tail => .ok ((off, record) :: tail)
    else .error .invalidWidth

/-- すべての handler。返すのは `hoffsets` と `serialized` を組にしたものである。 -/
def serializeHandler : Except EncodeError (List (Nat × Bytes)) :=
  e.serializeHandlerFrom e.handlers 0 0

/-! ## file 全体 -/

/-- 命令の `handler` を、番号から section の中の offset に書き換える。 -/
def resolveInsns (hoffsets : List Nat) : List InsnMeta → Except EncodeError (List InsnMeta)
  | [] => .ok []
  | insn :: rest =>
    if insn.handler = noHandler then
      match resolveInsns hoffsets rest with
      | .error err => .error err
      | .ok tail => .ok (insn :: tail)
    else
      match hoffsets[insn.handler.toNat]? with
      | none => .error (.missingHandler insn.handler)
      | some off =>
        match resolveInsns hoffsets rest with
        | .error err => .error err
        | .ok tail => .ok ({ insn with handler := UInt32.ofNat off } :: tail)

/-- architecture と haswx から header の `flags` を作る。 -/
def flags : UInt32 :=
  (if e.haswx then kFlagHasWX else 0)
    ||| (match e.arch with | .arm64 => kFlagARM64 | .x86_64 => kFlagX64)

/-- header の値。offset は計算した `uint64_t` を切り詰めたものである。 -/
def header (insns operands expressions handlers outsize : Nat) : Header :=
  let offInstruction := headerCodec.size
  let offOperands := offInstruction + insns * insnMetaCodec.size
  let offExpressions := offOperands + operands * operandCodec.size
  let offHandlers := offExpressions + expressions * expressionCodec.size
  { magic := kMagic
    version := kVersion
    size := UInt32.ofNat outsize
    flags := e.flags
    offInstruction := UInt32.ofNat offInstruction
    numInstruction := UInt32.ofNat insns
    offOperands := UInt32.ofNat offOperands
    numOperands := UInt32.ofNat operands
    offExpressions := UInt32.ofNat offExpressions
    numExpressions := UInt32.ofNat expressions
    offHandlers := UInt32.ofNat offHandlers
    numHandlers := UInt32.ofNat handlers }

/-- record を順に `off` から書く。 -/
def writeRecords (outbuf : Bytes) (off : Nat) : List Bytes → Bytes
  | [] => outbuf
  | record :: rest => writeRecords (memcpy outbuf off record) (off + record.length) rest

/--
`PreEncoder::serialize`。`operands` と `expressions` は `OpcodeEngine::convertOperands` の結果である。
返すのは file に書く byte 列で、`ofstream` の失敗は扱わない。
-/
def serialize (operands : List Operand) (expressions : List Expression) :
    Except EncodeError Bytes :=
  match e.serializeHandler with
  | .error err => .error err
  | .ok serialized =>
    match resolveInsns (serialized.map Prod.fst) e.insnmetas with
    | .error err => .error err
    | .ok insns =>
      let handlers := serialized.map Prod.snd
      let offInstruction := headerCodec.size
      let offOperands := offInstruction + insns.length * insnMetaCodec.size
      let offExpressions := offOperands + operands.length * operandCodec.size
      let offHandlers := offExpressions + expressions.length * expressionCodec.size
      if uint32Max < insns.length ∨ uint32Max < operands.length
          ∨ uint32Max < expressions.length ∨ uint32Max < handlers.length then
        .error .countLimit
      else
        let outsize := offHandlers + (handlers.map List.length).sum
        if uint32Max < outsize then .error .sizeLimit
        else
          let metadata := e.header insns.length operands.length expressions.length
            handlers.length outsize
          let outbuf := zeros outsize
          let outbuf := memcpy outbuf 0 (headerCodec.enc metadata)
          let outbuf := memcpy outbuf offInstruction (insnMetaCodec.encArray insns)
          let outbuf := memcpy outbuf offOperands (operandCodec.encArray operands)
          let outbuf := memcpy outbuf offExpressions (expressionCodec.encArray expressions)
          .ok (writeRecords outbuf offHandlers handlers)

end PreEncoder

end AetherVM
