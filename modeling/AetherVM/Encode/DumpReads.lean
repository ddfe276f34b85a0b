import AetherVM.Infra.Reading
import AetherVM.Encode.Dump

/-!
# `dump` は file の外を読まない（`src/PreEncoder.cpp` の `dump`）

`dump` を、file を読む手続きとして書き直す。file の byte を得る道は `read` だけで、読んだ範囲はすべて記録に残る。
loop の counter は source の型の幅で折り返し、`handler_offset` の計算は `uint64_t` で行う。

逆 assembler は、渡された byte だけを読み、その長さを越える長さを返さないと仮定する。このとき `dump` はどんな
file に対しても終わり、記録のどの範囲も file の中にあって、結果は `dump` の値である。
-/

namespace AetherVM.PreEncoder

open Infra IMetaData

/-! ## 手続き -/

/-- `dump` の中の `readAt`。入りきらなければ何も読まない。 -/
def readAt {α : Type} (file : Bytes) (c : Codec α) (off : Nat) : Reading DumpError (Option α) :=
  if file.length < off ∨ file.length - off < c.size then pure none
  else do
    let bs ← Reading.read file off c.size
    pure (c.dec bs)

/-- `dump` の中の `printBytes`。16 byte ずつの行に、1 byte ずつ表示する。 -/
def printBytes (fuel : Nat) (file : Bytes) (off length : Nat) : Reading DumpError Unit := do
  let _ ← Reading.forLoop UInt64.size 16 length (fun i =>
    Reading.forLoop UInt64.size 1 (min 16 (length - i)) (fun j =>
      Reading.read file (off + i + j) 1) fuel 0) fuel 0
  pure ()

/-- 表の section を一つずつ写す loop。表示だけに使う値は、そのまま捨てる。 -/
def readTable {α : Type} (fuel : Nat) (file : Bytes) (c : Codec α) (off num : Nat) :
    Reading DumpError (List (Option α)) :=
  Reading.forLoop UInt32.size 1 num (fun i => readAt file c (off + i * c.size)) fuel 0

/-- `uint64_t` の加算。 -/
def add64 (a b : Nat) : Nat := (a + b) % UInt64.size

/-- `(n + 3u) & ~uint64_t{3}`。 -/
def align64 (n : Nat) : Nat := add64 n 3 / 4 * 4

variable (disas : ArchType → Bytes → String × Nat)

/-- `disasOpcode`。渡した範囲はすべて読むものとする。 -/
def disasReads (arch : ArchType) (file : Bytes) (off len : Nat) :
    Reading DumpError (Option String) := do
  let opcode ← Reading.read file off len
  pure (disasOpcode disas arch opcode)

/-- native code の一覧。読めない所が出たら、残りを 1 byte ずつ表示して止まる。 -/
def codeReads (arch : ArchType) (file : Bytes) (code impl : Nat) :
    Nat → Nat → Reading DumpError (List (Nat × Option String))
  | 0, _ => Reading.diverge
  | fuel + 1, pos =>
    if pos < impl then do
      let bytes ← Reading.read file (code + pos) (min 16 (impl - pos))
      match disas arch bytes with
      | (_, 0) =>
        let _ ← Reading.forLoop UInt32.size 1 impl (fun j => Reading.read file (code + j) 1)
          (fuel + 1) pos
        pure [(pos, none)]
      | (text, len + 1) =>
        let rest ← codeReads arch file code impl fuel ((pos + (len + 1)) % UInt32.size)
        pure ((pos, some text) :: rest)
    else pure []

/-- record の operand の一覧。2 byte ずつ写す。 -/
def operandReads (fuel : Nat) (file : Bytes) (ho : Nat) (head : IMetaData.Handler) :
    Reading DumpError (List IMetaData.OperandInfo) :=
  if head.type.toNat = HandlerType.remill.toNat then do
    let infos ← Reading.forLoop UInt8.size 1 head.oprnum.toNat (fun j => do
      let bs ← Reading.read file (head.operand ho + j * 2) 2
      pure (operandInfoCodec.dec bs).toList) fuel 0
    pure infos.flatten
  else pure []

/-- `dump` の中の `recordSize`。 -/
def recordSize64 (head : IMetaData.Handler) : Nat :=
  add64 (add64 IMetaData.Handler.fixedSize head.oplen.toNat)
    (if head.type.toNat = HandlerType.remill.toNat then head.oprnum.toNat * 2 else 0)

/-- handler の loop の本体。表示と、次の `handler_offset` を返す。 -/
def handlerReads (fuel : Nat) (file : Bytes) (md : Header) (i ho : Nat) :
    Reading DumpError (DumpRecord × Nat) := do
  match ← readAt file handlerCodec ho with
  | none => Reading.fail (.truncatedRecord i)
  | some head =>
    let size := recordSize64 head
    if HandlerType.prebuiltMapped.toNat < head.type.toNat ∨ file.length - ho < size then
      Reading.fail (.invalidRecord i)
    else
      let start := ho + IMetaData.Handler.fixedSize
      let opcode ← Reading.forLoop UInt8.size 1 head.oplen.toNat (fun j =>
        Reading.read file (start + j) 1) fuel 0
      let asm ← disasReads disas (archOfFlags md) file start head.oplen.toNat
      let operands ← operandReads fuel file ho head
      let record := fun code : List (Nat × Option String) =>
        (⟨ho - md.offHandlers.toNat, head, opcode.flatten, asm, operands, code⟩ : DumpRecord)
      if md.flags &&& kFlagHasWX = 0 then pure (record [], add64 ho size)
      else if head.type.toNat = HandlerType.dynamic.toNat then
        let codeOffset := align64 size
        let size := add64 codeOffset head.impl.toNat
        if file.length - ho < size then Reading.fail (.truncatedAot i)
        else
          let code ← codeReads disas (archOfFlags md) file (ho + codeOffset) head.impl.toNat fuel 0
          pure (record code, add64 ho (align64 size))
      else pure (record [], add64 ho (align64 size))

/-- handler の section を辿る loop。 -/
def handlersReads (fuel : Nat) (file : Bytes) (md : Header) :
    Nat → Nat → Nat → Reading DumpError (List DumpRecord)
  | 0, _, _ => Reading.diverge
  | n + 1, i, ho =>
    if i < md.numHandlers.toNat then do
      let (record, next) ← handlerReads disas fuel file md i ho
      let rest ← handlersReads fuel file md n ((i + 1) % UInt32.size) next
      pure (record :: rest)
    else pure []

/-- 読んだ範囲を記録する `PreEncoder::dump`。 -/
def dumpReads (fuel : Nat) (file : Bytes) : Reading DumpError DumpReport :=
  if file.length < headerCodec.size then Reading.fail .tooSmall
  else if uint32Max < file.length then Reading.fail .tooLarge
  else do
    match ← readAt file headerCodec 0 with
    | none => Reading.fail .header
    | some md =>
      if md.magic ≠ kMagic then
        printBytes fuel file 0 file.length
        Reading.fail .magic
      else if md.version ≠ kVersion then
        printBytes fuel file 0 file.length
        Reading.fail .version
      else if md.size.toNat ≠ file.length then
        printBytes fuel file 0 file.length
        Reading.fail .size
      else if ¬ sectionsValid file md then
        printBytes fuel file 0 file.length
        Reading.fail .sections
      else
        let insns ← readTable fuel file insnMetaCodec md.offInstruction.toNat
          md.numInstruction.toNat
        let insns := insns.map fun insn => insn.getD ⟨0, 0⟩
        let _ ← readTable fuel file operandCodec md.offOperands.toNat md.numOperands.toNat
        let _ ← readTable fuel file expressionCodec md.offExpressions.toNat
          md.numExpressions.toNat
        let records ← handlersReads disas fuel file md fuel 0 md.offHandlers.toNat
        pure ⟨md, insns, records, referencedOffsets insns \ computedOffsets records⟩

/-! ## 部品 -/

variable {disas} {file : Bytes} {fuel : Nat}

theorem readAt_within {α : Type} (file : Bytes) (c : Codec α) (off : Nat) :
    Within file.length (readAt file c off) (.ok (c.read file off)) := by
  unfold readAt Codec.read readBytes
  split
  · next h =>
    rw [if_neg (by omega)]
    exact .pure _
  · next h =>
    rw [if_pos (by omega)]
    exact (Within.read (by omega)).bind (.pure _)

theorem printBytes_within (hlen : file.length ≤ uint32Max) (hfuel : uint32Max < fuel) :
    Within file.length (printBytes fuel file 0 file.length) (.ok ()) := by
  have hmax : uint32Max = 4294967295 := rfl
  have hsize : UInt64.size = 18446744073709551616 := rfl
  -- 一行の中の byte はどれも file の中にある
  have hline : ∀ i < file.length, Within file.length
      (Reading.forLoop UInt64.size 1 (min 16 (file.length - i))
        (fun j => (Reading.read file (0 + i + j) 1 : Reading DumpError Bytes)) fuel 0)
      (.ok ((List.range' 0 (min 16 (file.length - i) - 0)).map
        fun j => (file.drop (0 + i + j)).take 1)) := fun i hi =>
    Within.forLoop_one (by omega) (fun j hj => .read (by omega)) (by omega)
  exact (Within.forLoop (by decide) (by omega) hline fuel 0 (by omega)).bind (.pure _)

theorem readTable_within {α : Type} (c : Codec α) (off : Nat) (num : UInt32)
    (hfuel : uint32Max < fuel) : Within file.length (readTable fuel file c off num.toNat)
      (.ok ((List.range num.toNat).map fun i => c.read file (off + i * c.size))) := by
  have hlt : num.toNat < UInt32.size := num.toNat_lt
  have hmax : uint32Max + 1 = UInt32.size := rfl
  have h : Within file.length (readTable fuel file c off num.toNat)
      (.ok ((List.range' 0 (num.toNat - 0)).map fun i => c.read file (off + i * c.size))) :=
    Within.forLoop_one hlt (fun i _ => readAt_within file c (off + i * c.size)) (by omega)
  rwa [Nat.sub_zero, ← List.range_eq_range'] at h

/-- 1 byte ずつ読んだものを並べると、続けて読んだものになる。 -/
theorem flatten_range_take (file : Bytes) (off : Nat) : ∀ n s : Nat,
    ((List.range' s n).map fun j => (file.drop (off + j)).take 1).flatten
      = (file.drop (off + s)).take n
  | 0, s => by simp
  | n + 1, s => by
    rw [List.range'_succ, List.map_cons, List.flatten_cons, flatten_range_take file off n (s + 1),
      Nat.add_comm n 1, List.take_add, List.drop_drop, Nat.add_assoc]

theorem operandInfo_dec {bs : Bytes} (h : bs.length = 2) :
    ∃ o, operandInfoCodec.dec bs = some o := by
  have hlt : ofLE bs < 256 ^ 2 := h ▸ ofLE_lt bs
  simp only [operandInfoCodec, Codec.uint16, Codec.map, Codec.nat, dif_pos hlt, Option.bind_some]
  exact ⟨_, rfl⟩

/-- どれも読めれば、続けて読んだ列は一つずつ読んだものの列である。 -/
theorem readArray_of_forall {α : Type} {c : Codec α} {file : Bytes} {off : Nat} : ∀ {n s : Nat},
    (∀ j, s ≤ j → j < s + n → ∃ a, c.read file (off + j * c.size) = some a) →
    c.readArray file (off + s * c.size) n
      = some (((List.range' s n).map fun j => (c.read file (off + j * c.size)).toList).flatten)
  | 0, s, _ => rfl
  | n + 1, s, h => by
    obtain ⟨a, ha⟩ := h s (Nat.le_refl s) (by omega)
    have hrest := readArray_of_forall (n := n) (s := s + 1) fun j hj hlt =>
      h j (by omega) (by omega)
    rw [Nat.succ_mul, ← Nat.add_assoc] at hrest
    rw [Codec.readArray, ha, Option.bind_some, hrest, List.range'_succ, List.map_cons,
      List.flatten_cons, ha]
    rfl

/-! ## handler の record -/

section

variable (hdisas : ∀ arch code, (disas arch code).2 ≤ code.length)
include hdisas

/-- native code の一覧は、code の中だけを読んで終わる。 -/
theorem codeReads_within (arch : ArchType) {code impl : Nat} (hin : code + impl ≤ file.length)
    (himpl : impl < UInt32.size) : ∀ (fuel pos : Nat), impl - pos < fuel →
    Within file.length (codeReads disas arch file code impl fuel pos)
      (.ok (dumpCode disas arch ((file.drop code).take impl) fuel pos))
  | 0, pos, h => absurd h (Nat.not_lt_zero _)
  | fuel + 1, pos, h => by
    have hlength : ((file.drop code).take impl).length = impl := by
      simp only [List.length_take, List.length_drop]
      omega
    rw [codeReads, dumpCode, hlength]
    split
    · next hpos =>
      have hbytes : (((file.drop code).take impl).drop pos).take 16
          = (file.drop (code + pos)).take (min 16 (impl - pos)) := by
        rw [List.drop_take, List.drop_drop, List.take_take]
      rw [hbytes]
      refine (Within.read (by omega)).bind ?_
      have hle := hdisas arch ((file.drop (code + pos)).take (min 16 (impl - pos)))
      rw [List.length_take, List.length_drop] at hle
      cases hd : disas arch ((file.drop (code + pos)).take (min 16 (impl - pos))) with
      | mk text len =>
        rw [hd] at hle
        cases len with
        | zero =>
          exact (Within.forLoop_one himpl (fun j hj => .read (by omega)) h).bind (.pure _)
        | succ len =>
          have hle : len + 1 ≤ impl - pos := by
            dsimp only at hle
            omega
          have hwrap : (pos + (len + 1)) % UInt32.size = pos + (len + 1) :=
            Nat.mod_eq_of_lt (by omega)
          dsimp only
          rw [hwrap]
          exact (codeReads_within arch hin himpl fuel (pos + (len + 1)) (by omega)).bind (.pure _)
    · exact .pure _

end

/-- fuel が code より短くなければ、一覧は fuel に依らない。 -/
theorem dumpCode_fuel (arch : ArchType) (code : Bytes) : ∀ (m n pos : Nat),
    code.length - pos ≤ m → code.length - pos ≤ n →
    dumpCode disas arch code m pos = dumpCode disas arch code n pos
  | 0, 0, _, _, _ => rfl
  | 0, n + 1, pos, hm, _ => by
    rw [dumpCode, dumpCode, if_neg (by omega)]
  | m + 1, 0, pos, _, hn => by
    rw [dumpCode, dumpCode, if_neg (by omega)]
  | m + 1, n + 1, pos, hm, hn => by
    rw [dumpCode, dumpCode]
    split
    · cases disas arch ((code.drop pos).take 16) with
      | mk text len =>
        cases len with
        | zero => rfl
        | succ len =>
          dsimp only
          rw [dumpCode_fuel arch code m n (pos + (len + 1)) (by omega) (by omega)]
    · rfl

theorem recordSize64_eq (head : IMetaData.Handler) : recordSize64 head = dumpRecordSize head := by
  have hsize : UInt64.size = 18446744073709551616 := rfl
  have hoplen := head.oplen.isLt
  have hoprnum := head.oprnum.toNat_lt
  have hfixed : IMetaData.Handler.fixedSize = 4 := rfl
  unfold recordSize64 dumpRecordSize add64
  rw [hsize, hfixed]
  split
  · omega
  · omega

theorem add64_eq {a b : Nat} (h : a + b < UInt64.size) : add64 a b = a + b := Nat.mod_eq_of_lt h

theorem align64_eq {n : Nat} (h : n + 3 < UInt64.size) : align64 n = align4 n := by
  rw [align64, add64_eq h]
  rfl

/-- record の後ろの offset は、どれも file の長さに小さい数を足したもので、64 bit に収まる。 -/
theorem recordOffsets_eq {ho size impl : Nat} (hin : ho + size ≤ uint32Max) (himpl : impl < 2 ^ 16) :
    add64 ho size = ho + size ∧ align64 size = align4 size ∧
      add64 (align4 size) impl = align4 size + impl ∧
      align64 (align4 size + impl) = align4 (align4 size + impl) ∧
      add64 ho (align4 size) = ho + align4 size ∧
      add64 ho (align4 (align4 size + impl)) = ho + align4 (align4 size + impl) := by
  have hmax : uint32Max = 4294967295 := rfl
  have hsize : UInt64.size = 18446744073709551616 := rfl
  have hle : align4 size ≤ size + 3 := Nat.div_mul_le_self _ _
  have hle' : align4 (align4 size + impl) ≤ align4 size + impl + 3 := Nat.div_mul_le_self _ _
  exact ⟨add64_eq (by omega), align64_eq (by omega), add64_eq (by omega), align64_eq (by omega),
    add64_eq (by omega), add64_eq (by omega)⟩

theorem disasReads_within {off len : Nat} (arch : ArchType) (h : off + len ≤ file.length) :
    Within file.length (disasReads disas arch file off len)
      (.ok (disasOpcode disas arch ((file.drop off).take len))) :=
  (Within.read h).bind (.pure _)

theorem operandReads_within {ho : Nat} {head : IMetaData.Handler}
    (hin : ho + dumpRecordSize head ≤ file.length) (hfuel : uint32Max < fuel) :
    Within file.length (operandReads fuel file ho head)
      (.ok (if head.type.toNat = HandlerType.remill.toNat then
        (operandInfoCodec.readArray file (head.operand ho) head.oprnum.toNat).getD []
        else [])) := by
  have hmax : uint32Max = 4294967295 := rfl
  have hoprnum : head.oprnum.toNat < UInt8.size := head.oprnum.toNat_lt
  have hbyte : UInt8.size = 256 := rfl
  have hoperand : head.operand ho = ho + IMetaData.Handler.fixedSize + head.oplen.toNat := rfl
  unfold operandReads
  split
  · next hremill =>
    rw [dumpRecordSize, if_pos hremill] at hin
    have hread : ∀ j < head.oprnum.toNat,
        operandInfoCodec.read file (head.operand ho + j * operandInfoCodec.size)
          = operandInfoCodec.dec ((file.drop (head.operand ho + j * 2)).take 2) := fun j hj => by
      have hle : head.operand ho + j * 2 + 2 ≤ file.length := by omega
      change (readBytes file (head.operand ho + j * 2) 2).bind _ = _
      rw [readBytes, if_pos hle]
      rfl
    have hsome : ∀ j, 0 ≤ j → j < 0 + head.oprnum.toNat →
        ∃ o, operandInfoCodec.read file (head.operand ho + j * operandInfoCodec.size) = some o := by
      intro j _ hj
      rw [hread j (by omega)]
      refine operandInfo_dec ?_
      rw [List.length_take, List.length_drop]
      omega
    have harray := readArray_of_forall (n := head.oprnum.toNat) (s := 0) hsome
    rw [Nat.zero_mul, Nat.add_zero] at harray
    rw [harray, Option.getD_some]
    refine (Within.forLoop_one hoprnum (fun j hj => ?_) (by omega)).bind (.pure _)
    rw [hread j hj]
    exact (Within.read (by omega)).bind (.pure _)
  · exact .pure _

section

variable (hdisas : ∀ arch code, (disas arch code).2 ≤ code.length)
include hdisas

/-- record の native code は、code の長さを fuel にした一覧になる。 -/
theorem implReads_within (arch : ArchType) {code impl : Nat} (hin : code + impl ≤ file.length)
    (himpl : impl < UInt32.size) (hfuel : impl < fuel) :
    Within file.length (codeReads disas arch file code impl fuel 0)
      (.ok (dumpCode disas arch ((file.drop code).take impl)
        ((file.drop code).take impl).length 0)) := by
  have hlength : ((file.drop code).take impl).length = impl := by
    rw [List.length_take, List.length_drop]
    omega
  have hwithin := codeReads_within hdisas arch hin himpl fuel 0 (by omega)
  rw [dumpCode_fuel _ _ fuel impl 0 (by omega) (by omega)] at hwithin
  rw [hlength]
  exact hwithin

/-- record 一つは file の中だけを読み、`uint64_t` の計算は溢れない。 -/
theorem handlerReads_within (hlen : file.length ≤ uint32Max) (hfuel : uint32Max < fuel)
    (md : Header) (i ho : Nat) : Within file.length (handlerReads disas fuel file md i ho)
      (dumpHandler disas file md i ho) := by
  have hmax : uint32Max = 4294967295 := rfl
  have hbyte : UInt8.size = 256 := rfl
  have hword : UInt32.size = 4294967296 := rfl
  refine (readAt_within file handlerCodec ho).bind ?_
  unfold dumpHandler
  cases hread : handlerCodec.read file ho with
  | none => exact .fail _
  | some head =>
    dsimp only
    rw [recordSize64_eq]
    split
    · exact .fail _
    next hguard =>
    have hho : ho ≤ file.length := by
      obtain ⟨bs, hbs, -⟩ := Option.bind_eq_some_iff.mp hread
      have hle := (readBytes_eq_some.mp hbs).1
      omega
    have hin : ho + dumpRecordSize head ≤ file.length := by omega
    have hrecord : dumpRecordSize head = IMetaData.Handler.fixedSize + head.oplen.toNat
      + if head.type.toNat = HandlerType.remill.toNat then head.oprnum.toNat * 2 else 0 := rfl
    have himpl := head.impl.toNat_lt
    have hopcode : Within file.length (Reading.forLoop UInt8.size 1 head.oplen.toNat (fun j =>
        (Reading.read file (ho + IMetaData.Handler.fixedSize + j) 1 : Reading DumpError Bytes))
          fuel 0) _ := Within.forLoop_one (by omega) (fun j hj => .read (by omega)) (by omega)
    refine hopcode.bind ?_
    refine (disasReads_within _ (by omega)).bind ?_
    refine (operandReads_within hin hfuel).bind ?_
    have hflatten := flatten_range_take file (ho + IMetaData.Handler.fixedSize) head.oplen.toNat 0
    have hrec : ∀ code, (⟨ho - md.offHandlers.toNat, head,
        ((List.range' 0 (head.oplen.toNat - 0)).map
          fun j => (file.drop (ho + IMetaData.Handler.fixedSize + j)).take 1).flatten, _, _, code⟩
          : DumpRecord) = dumpRecord disas file md ho head code := fun code => by
      rw [Nat.sub_zero, hflatten]
      rfl
    obtain ⟨hplain, hoffset, hend, hendpad, hnext, hcodenext⟩ :=
      recordOffsets_eq (show ho + dumpRecordSize head ≤ uint32Max by omega) himpl
    rw [hrec, hplain, hoffset, hend, hendpad, hnext, hcodenext]
    split
    · exact .pure _
    split
    · split
      · exact .fail _
      · refine (implReads_within hdisas (archOfFlags md) (by omega) (by omega) (by omega)).bind ?_
        rw [hrec]
        exact .pure _
    · exact .pure _

theorem handlersReads_within (hlen : file.length ≤ uint32Max) (hfuel : uint32Max < fuel)
    (md : Header) : ∀ (n i ho : Nat), i ≤ md.numHandlers.toNat → md.numHandlers.toNat - i < n →
    Within file.length (handlersReads disas fuel file md n i ho)
      (dumpHandlers disas file md (md.numHandlers.toNat - i) i ho)
  | 0, i, ho, _, h => absurd h (Nat.not_lt_zero _)
  | n + 1, i, ho, hi, h => by
    rw [handlersReads]
    split
    · next hlt =>
      have hcount : md.numHandlers.toNat - i = md.numHandlers.toNat - (i + 1) + 1 := by omega
      have hwrap : (i + 1) % UInt32.size = i + 1 :=
        Nat.mod_eq_of_lt (Nat.lt_of_le_of_lt hlt md.numHandlers.toNat_lt)
      have hrecord := handlerReads_within hdisas hlen hfuel md i ho
      rw [hcount, dumpHandlers]
      cases hd : dumpHandler disas file md i ho with
      | error e =>
        rw [hd] at hrecord
        exact hrecord.bind_error
      | ok p =>
        rw [hd] at hrecord
        have hrest := handlersReads_within hlen hfuel md n (i + 1) p.2 (by omega) (by omega)
        refine hrecord.bind ?_
        dsimp only
        rw [hwrap]
        cases hds : dumpHandlers disas file md (md.numHandlers.toNat - (i + 1)) (i + 1) p.2 with
        | error e =>
          rw [hds] at hrest
          exact hrest.bind_error
        | ok rest =>
          rw [hds] at hrest
          exact hrest.bind (.pure _)
    · next hge =>
      have hzero : md.numHandlers.toNat - i = 0 := by omega
      rw [hzero]
      exact .pure _

/-! ## file 全体 -/

/--
どんな file についても、`uint32_t` の上限より多い fuel があれば `dump` は終わり、記録のどの範囲も file の中に
ある。結果は `dump` の値である。
-/
theorem dumpReads_within (file : Bytes) (hfuel : uint32Max < fuel) :
    Within file.length (dumpReads disas fuel file) (dump disas file) := by
  unfold dumpReads dump
  split
  · exact .fail _
  split
  · exact .fail _
  next hle =>
  have hlen : file.length ≤ uint32Max := Nat.le_of_not_lt hle
  refine (readAt_within file headerCodec 0).bind ?_
  cases headerCodec.read file 0 with
  | none => exact .fail _
  | some md =>
    dsimp only
    split
    · exact (printBytes_within hlen hfuel).bind (.fail _)
    split
    · exact (printBytes_within hlen hfuel).bind (.fail _)
    split
    · exact (printBytes_within hlen hfuel).bind (.fail _)
    split
    · exact (printBytes_within hlen hfuel).bind (.fail _)
    refine (readTable_within insnMetaCodec _ md.numInstruction hfuel).bind ?_
    refine (readTable_within operandCodec _ md.numOperands hfuel).bind ?_
    refine (readTable_within expressionCodec _ md.numExpressions hfuel).bind ?_
    have hinsns : (((List.range md.numInstruction.toNat).map fun i =>
        insnMetaCodec.read file (md.offInstruction.toNat + i * insnMetaCodec.size)).map
          fun insn => insn.getD ⟨0, 0⟩) = dumpInsns file md := by
      rw [List.map_map]
      rfl
    have hlt : md.numHandlers.toNat < fuel := Nat.lt_of_lt_of_le md.numHandlers.toNat_lt hfuel
    have hhandlers := handlersReads_within hdisas hlen hfuel md fuel 0 md.offHandlers.toNat
      (Nat.zero_le _) hlt
    rw [hinsns]
    rw [Nat.sub_zero] at hhandlers
    cases hd : dumpHandlers disas file md md.numHandlers.toNat 0 md.offHandlers.toNat with
    | error e =>
      rw [hd] at hhandlers
      exact hhandlers.bind_error
    | ok records =>
      rw [hd] at hhandlers
      exact hhandlers.bind (.pure _)

end

/-- 1 byte ずつ読む逆 assembler。 -/
def byteDisas : ArchType → Bytes → String × Nat := fun _ code => ("nop", min 1 code.length)

/-- native code を持つ Dynamic の record 一つだけの file。 -/
def sampleDynamicFile : Bytes :=
  headerCodec.enc ⟨kMagic, kVersion, 60, kFlagHasWX ||| kFlagARM64, 48, 0, 48, 0, 48, 0, 48, 1⟩
    ++ handlerCodec.enc ⟨4, 2, 4, 0⟩ ++ [0xc0, 0x03, 0x5f, 0xd6] ++ [0x1f, 0x20, 0x03, 0xd5]

theorem sampleDynamicFile_within : ∃ report, dump byteDisas sampleDynamicFile = .ok report ∧
    report.handlers.map DumpRecord.code
      = [[(0, some "nop"), (1, some "nop"), (2, some "nop"), (3, some "nop")]] ∧
    Within 60 (dumpReads byteDisas (uint32Max + 1) sampleDynamicFile) (.ok report) := by
  have h : ∃ report, dump byteDisas sampleDynamicFile = .ok report ∧
      report.handlers.map DumpRecord.code
        = [[(0, some "nop"), (1, some "nop"), (2, some "nop"), (3, some "nop")]] := ⟨_, rfl, rfl⟩
  obtain ⟨report, hdump, hcode⟩ := h
  refine ⟨report, hdump, hcode, hdump ▸ ?_⟩
  exact dumpReads_within (fun _ code => Nat.min_le_right 1 code.length) sampleDynamicFile
    (Nat.lt_succ_self _)

end AetherVM.PreEncoder
