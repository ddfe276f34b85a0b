import AetherVM.Encode.File
import AetherVM.MetaData.Reader

/-!
# `.aevm` file の往復

書き手（`PreEncoder::serialize`）と読み手（`IMetaData` の accessor）は別々に書かれている。
record は可変長で、読み手は offset の加算だけで record を辿る。
ここでは、書き出しに成功した file を読み手が読むと、書いた表がそのまま戻ることを示す。
-/

namespace AetherVM.PreEncoder

open Infra IMetaData

variable {e : PreEncoder} {operands : List Operand} {expressions : List Expression} {file : Bytes}
  {out : List (Nat × Bytes)} {insns : List InsnMeta}

/-! ## record -/

theorem recordHead_oplen {source : Handler} (hf : Fits source) (impl : UInt16) :
    (recordHead source.ptr impl).oplen.toNat = source.ptr.oplen.toNat := by
  have hle := hf.oplen_le
  show (BitVec.ofNat 4 source.ptr.oplen.toNat).toNat = _
  rw [BitVec.toNat_ofNat, Nat.mod_eq_of_lt (by omega)]

theorem recordHead_type (h : OpcodeHandler) (impl : UInt16) :
    (recordHead h impl).type.toNat = h.type.toNat := by
  have hlt := h.type.toNat_lt
  show (BitVec.ofNat 4 h.type.toNat).toNat = _
  rw [BitVec.toNat_ofNat, Nat.mod_eq_of_lt (by omega)]

theorem recordHead_oprnum {source : Handler} (hf : Fits source) (impl : UInt16) :
    (recordHead source.ptr impl).oprnum.toNat = (metaArgs source.ptr).length := by
  have hle := hf.args_le
  have hnum : (if operandBytes source.ptr ≠ 0 then source.ptr.args.length else 0)
      = (metaArgs source.ptr).length := by
    unfold metaArgs operandBytes
    by_cases hty : source.ptr.type = .remill
    · rw [if_pos hty, if_pos hty, List.length_map]
      split <;> omega
    · rw [if_neg hty, if_neg hty]
      rfl
  show (UInt8.ofNat (if operandBytes source.ptr ≠ 0 then source.ptr.args.length else 0)).toNat = _
  rw [hnum, UInt8.toNat_ofNat']
  refine Nat.mod_eq_of_lt ?_
  unfold metaArgs
  split
  · rw [List.length_map]; omega
  · simp

/-- record の先頭を読めば、書いた固定部分が戻る。 -/
theorem read_recordHead (h : OpcodeHandler) (impl : UInt16) (p q : Bytes) :
    handlerCodec.read (p ++ e.recordBytes h impl ++ q) p.length = some (recordHead h impl) := by
  rw [recordBytes]
  simp only [List.append_assoc]
  rw [← List.append_assoc]
  exact Codec.read_of_eq rfl rfl

/-- opcode は固定部分の直後にある。 -/
theorem read_recordOpcode {source : Handler} (hf : Fits source) (impl : UInt16) (p q : Bytes) :
    readBytes (p ++ e.recordBytes source.ptr impl ++ q) (p.length + IMetaData.Handler.fixedSize)
        source.ptr.oplen.toNat
      = some (source.ptr.opcode.take source.ptr.oplen.toNat) := by
  rw [recordBytes]
  simp only [List.append_assoc]
  rw [← List.append_assoc p, ← List.append_assoc]
  refine readBytes_of_eq rfl ?_ hf.length_take.symm
  rw [List.length_append, Codec.length_enc]
  rfl

/-- 引数は opcode の直後にある。 -/
theorem read_recordArgs {source : Handler} (hf : Fits source) (impl : UInt16) (p q : Bytes) :
    operandInfoCodec.readArray (p ++ e.recordBytes source.ptr impl ++ q)
        (p.length + IMetaData.Handler.fixedSize + source.ptr.oplen.toNat)
        (metaArgs source.ptr).length
      = some (metaArgs source.ptr) := by
  rw [recordBytes]
  simp only [List.append_assoc]
  rw [← List.append_assoc p, ← List.append_assoc _ _ (operandInfoCodec.encArray _ ++ _),
    ← List.append_assoc]
  refine Codec.readArray_of_eq _ _ rfl ?_
  rw [List.length_append, List.length_append, Codec.length_enc, hf.length_take]
  rfl

/-- 三つを合わせた、record 一つの往復。 -/
theorem readHandler_recordBytes {source : Handler} (hf : Fits source) (impl : UInt16)
    (p q : Bytes) :
    readHandler (p ++ e.recordBytes source.ptr impl ++ q) p.length
      = some ⟨recordHead source.ptr impl, source.ptr.opcode.take source.ptr.oplen.toNat,
          metaArgs source.ptr⟩ := by
  rw [readHandler, read_recordHead, Option.bind_some, IMetaData.Handler.operand,
    recordHead_oplen hf, recordHead_oprnum hf, read_recordOpcode hf, Option.bind_some,
    read_recordArgs hf, Option.bind_some]

/-- 読んだ record が handler の種類・長さ・opcode・引数を伝えていること。 -/
structure Describes (view : HandlerView) (h : OpcodeHandler) : Prop where
  type : view.head.type.toNat = h.type.toNat
  oplen : view.head.oplen.toNat = h.oplen.toNat
  opcode : view.opcode = h.opcode.take h.oplen.toNat
  args : h.type = .remill →
    view.operands.map (fun o => (o.index.toNat, o.pointer))
      = h.args.map fun arg => (arg.index, arg.pointer)

/-- 書いた record は handler を伝える。 -/
theorem describes_record {source : Handler} (hf : Fits source) (impl : UInt16) :
    Describes ⟨recordHead source.ptr impl, source.ptr.opcode.take source.ptr.oplen.toNat,
      metaArgs source.ptr⟩ source.ptr where
  type := recordHead_type _ _
  oplen := recordHead_oplen hf impl
  opcode := rfl
  args := by
    intro hty
    show (metaArgs source.ptr).map _ = _
    rw [metaArgs, if_pos hty, List.map_map]
    refine List.map_congr_left fun arg harg => ?_
    have hle := hf.index_le hty arg harg
    have hlt : arg.index < 2 ^ 15 := Nat.lt_succ_of_le hle
    show ((BitVec.ofNat 15 arg.index).toNat, arg.pointer) = _
    rw [BitVec.toNat_ofNat, Nat.mod_eq_of_lt hlt]

/-! ## file -/

namespace Written

theorem sections (h : Written e operands expressions file out insns) :
    h.metadata.Sections (out.map Prod.snd).flatten.length := by
  obtain ⟨hsize, hoi, hni, hoo, hno, hox, hnx, hoh, -⟩ := h.metadata_toNat
  have hlen := h.length_eq
  constructor
  · rw [Header.insns, hoi]
  · rw [Header.insns, Header.operands, hoi, hni, hoo]
  · rw [Header.operands, Header.expressions, hoo, hno, hox]
  · rw [Header.expressions, hox, hnx, hoh]
  · rw [hoh, hsize, hlen]

theorem readInsns (h : Written e operands expressions file out insns) :
    h.metadata.readInsns file = some insns := by
  obtain ⟨-, hoi, hni, -⟩ := h.metadata_toNat
  rw [Header.readInsns, Header.insns, hoi, hni]
  have hb := h.bytes
  rw [List.append_assoc, List.append_assoc] at hb
  exact Codec.readArray_of_eq _ _ hb (by rw [Codec.length_enc])

theorem readOperands (h : Written e operands expressions file out insns) :
    h.metadata.readOperands file = some operands := by
  obtain ⟨-, -, -, hoo, hno, -⟩ := h.metadata_toNat
  rw [Header.readOperands, Header.operands, hoo, hno]
  have hb := h.bytes
  rw [List.append_assoc] at hb
  exact Codec.readArray_of_eq _ _ hb
    (by rw [List.length_append, Codec.length_enc, Codec.length_encArray])

theorem readExpressions (h : Written e operands expressions file out insns) :
    h.metadata.readExpressions file = some expressions := by
  obtain ⟨-, -, -, -, -, hox, hnx, -⟩ := h.metadata_toNat
  rw [Header.readExpressions, Header.expressions, hox, hnx]
  exact Codec.readArray_of_eq _ _ h.bytes
    (by simp only [List.length_append, Codec.length_enc, Codec.length_encArray])

/-- `i` 番目の record は、file の中で前後を挟まれて置かれている。 -/
theorem split_record (h : Written e operands expressions file out insns) {i off : Nat}
    {record : Bytes} (hi : out[i]? = some (off, record))
    (hoff : off = ((out.take i).map Prod.snd).flatten.length) :
    ∃ p q, file = p ++ record ++ q ∧ p.length = h.metadata.offHandlers.toNat + off := by
  obtain ⟨-, -, -, -, -, -, -, hoh, -⟩ := h.metadata_toNat
  have hget : (out.map Prod.snd)[i]? = some record := by
    rw [List.getElem?_map, hi]
    rfl
  have hb := h.bytes
  rw [flatten_split hget, ← List.append_assoc, ← List.append_assoc] at hb
  refine ⟨_, _, hb, ?_⟩
  rw [hoh, hoff]
  simp only [List.length_append, Codec.length_enc, Codec.length_encArray, List.map_take]

/-- 命令から辿った record は、その命令の handler を伝える。 -/
theorem readHandler_insn (h : Written e operands expressions file out insns) {i : Nat}
    {src insn : InsnMeta} (hsrc : e.insnmetas[i]? = some src) (hno : src.handler ≠ noHandler)
    (hinsn : insns[i]? = some insn) :
    ∃ source impl d d', e.handlers[src.handler.toNat]? = some source ∧ Fits source ∧
      e.implField source.ptr d = some (impl, d') ∧
      readHandler file (h.metadata.handler insn)
        = some ⟨recordHead source.ptr impl, source.ptr.opcode.take source.ptr.oplen.toNat,
            metaArgs source.ptr⟩ := by
  obtain ⟨-, hget⟩ := resolveInsns_getElem? h.resolved
  obtain ⟨o, ho, -, hcase⟩ := hget hsrc
  rw [hinsn, Option.some.injEq] at ho
  subst ho
  rcases hcase with ⟨hc, -⟩ | ⟨-, off, hoff, hhandler⟩
  · exact absurd hc hno
  rw [List.getElem?_map] at hoff
  obtain ⟨⟨off', record⟩, hrec, rfl⟩ := Option.map_eq_some_iff.mp hoff
  -- 番号は handler の列の中にある
  have hlt : src.handler.toNat < e.handlers.length := by
    rw [← h.isSerialized.length_eq]
    exact (List.getElem?_eq_some_iff.mp hrec).1
  obtain ⟨impl, d, d', himpl, hf, hout⟩ :=
    h.isSerialized.getElem? (List.getElem?_eq_getElem hlt)
  rw [hrec, Option.some.injEq, Prod.mk.injEq, Nat.zero_add] at hout
  obtain ⟨hoff', rfl⟩ := hout
  refine ⟨_, impl, d, d', List.getElem?_eq_getElem hlt, hf, himpl, ?_⟩
  obtain ⟨p, q, hfile, hp⟩ := h.split_record hrec hoff'
  have hself : h.metadata.handler insn = p.length := by
    have hmem := h.isSerialized.offset_lt _ (List.mem_of_getElem? hrec)
    rw [Header.handler, hhandler, toNat_ofNat (Nat.le_of_lt hmem), hp]
  rw [hself, hfile]
  exact readHandler_recordBytes hf impl p q

end Written

/--
`.aevm` file 全体の往復。

書き出しが成功した file を読むと、`rva` の列、operand の表、expression の表が元のまま戻る。
handler を持つ命令から辿った record は、その handler の種類・長さ・opcode・引数を伝える。
四つの section は隙間も重なりも無く並び、`size`（file の長さ）でちょうど終わる。
-/
theorem serialize_roundtrip (h : e.serialize operands expressions = .ok file) :
    ∃ md insns serialized, headerCodec.read file 0 = some md ∧
      md.readInsns file = some insns ∧
      insns.map InsnMeta.rva = e.insnmetas.map InsnMeta.rva ∧
      md.readOperands file = some operands ∧
      md.readExpressions file = some expressions ∧
      (∀ (i : Nat) (src insn : InsnMeta), e.insnmetas[i]? = some src → insns[i]? = some insn →
        src.handler ≠ noHandler →
        ∃ (source : Handler) (view : HandlerView), e.handlers[src.handler.toNat]? = some source ∧
          readHandler file (md.handler insn) = some view ∧ Describes view source.ptr) ∧
      e.serializeHandler = .ok serialized ∧
      md.numHandlers.toNat = e.handlers.length ∧
      md.Sections (serialized.map Prod.snd).flatten.length ∧
      md.size.toNat = file.length := by
  obtain ⟨out, insns, hw⟩ := written_of_ok h
  obtain ⟨hsize, -, -, -, -, -, -, -, hnum⟩ := hw.metadata_toNat
  obtain ⟨hlen, hget⟩ := resolveInsns_getElem? hw.resolved
  refine ⟨hw.metadata, insns, out, hw.read_header, hw.readInsns, ?_, hw.readOperands,
    hw.readExpressions, ?_, hw.serialized, ?_, hw.sections, hsize⟩
  · refine List.ext_getElem? fun i => ?_
    rw [List.getElem?_map, List.getElem?_map]
    cases hi : e.insnmetas[i]? with
    | none =>
      have hge : insns.length ≤ i := by rw [hlen]; exact List.getElem?_eq_none_iff.mp hi
      rw [List.getElem?_eq_none hge]
    | some src =>
      obtain ⟨o, ho, hrva, -⟩ := hget hi
      rw [ho, Option.map_some, Option.map_some, hrva]
  · intro i src insn hsrc hinsn hno
    obtain ⟨source, impl, -, -, hs, hf, -, hread⟩ := hw.readHandler_insn hsrc hno hinsn
    exact ⟨source, _, hs, hread, describes_record hf impl⟩
  · rw [hnum, hw.isSerialized.length_eq]

/-- `ADD` の handler。引数を二つ持つ。 -/
def sampleAddHandler : Handler :=
  ⟨4, ⟨[0x20, 0, 2, 0x8b], 4, .remill, 0, [⟨0, true⟩, ⟨1, false⟩], 0x4000⟩, rfl⟩

/-- `SUB` の handler。引数を一つ持つ。 -/
def sampleSubHandler : Handler :=
  ⟨4, ⟨[0x20, 0, 2, 0xcb], 4, .remill, 0, [⟨1, false⟩], 0x4010⟩, rfl⟩

/-- 長さの違う二つの Remill の handler と、それを使う命令、handler の無い命令を持つ ARM64 の binary。 -/
def sample : PreEncoder where
  arch := .arm64
  haswx := true
  tables := ⟨[⟨7, 0x4000⟩, ⟨9, 0x4010⟩], []⟩
  mem := fun _ => 0
  handlers := [sampleAddHandler, sampleSubHandler]
  insnmetas := [⟨0x1000, 0⟩, ⟨0x1004, noHandler⟩, ⟨0x1008, 1⟩]

def sampleOperands : List Operand :=
  [⟨64, .write, .reg ⟨544, 64⟩⟩, ⟨64, .read, .immediate ⟨5, 0⟩⟩]

/-- 二つ目の record も、三番目の命令から辿って読める。 -/
theorem sample_roundtrip : ∃ file, sample.serialize sampleOperands [] = .ok file ∧
    ∃ md insns insn view, headerCodec.read file 0 = some md ∧ md.readInsns file = some insns ∧
      insns.map InsnMeta.rva = [0x1000, 0x1004, 0x1008] ∧
      md.readOperands file = some sampleOperands ∧ md.size.toNat = file.length ∧
      insns[2]? = some insn ∧ readHandler file (md.handler insn) = some view ∧
      Describes view sampleSubHandler.ptr := by
  have h : ∃ file, sample.serialize sampleOperands [] = .ok file := ⟨_, rfl⟩
  obtain ⟨file, h⟩ := h
  obtain ⟨md, insns, -, h1, h2, h3, h4, -, hrecord, -, -, -, h5⟩ := serialize_roundtrip h
  have hlen : insns.length = 3 := by
    rw [← List.length_map (f := InsnMeta.rva), h3]
    rfl
  have hinsn : insns[2]? = some insns[2] := List.getElem?_eq_getElem (by omega)
  obtain ⟨source, view, hsource, hview, hdescribes⟩ :=
    hrecord 2 ⟨0x1008, 1⟩ _ rfl hinsn (by decide)
  obtain rfl : sampleSubHandler = source := Option.some.inj hsource
  exact ⟨file, h, md, insns, _, view, h1, h2, h3, h4, h5, hinsn, hview, hdescribes⟩

end AetherVM.PreEncoder
