import AetherVM.Encode.Roundtrip

/-!
# 埋め込まれた native code

`InterpMetaData::vmEntry` は Dynamic の handler を、record の `handler()` が返す pointer として
実行する。書き手は native code を 4 byte に揃えた位置へ置き、しかも guest が ARM64 のときしか
置かない。読み手の `handler()` は揃えも architecture も見ず、opcode と引数の直後を返す。
二つが一致するのはいつかを、ちょうど言う。
-/

namespace AetherVM.PreEncoder

open Infra IMetaData

variable {e : PreEncoder} {operands : List Operand} {expressions : List Expression} {file : Bytes}
  {out : List (Nat × Bytes)} {insns : List InsnMeta}

/--
record（file の `self` から `size` byte）の `handler()` が、handler の native code ちょうどを
record の中で指していること。guest が ARM64 なら 4 byte に揃っていることも求める。
-/
def NativeRecoverable (e : PreEncoder) (file : Bytes) (self size : Nat) (h : OpcodeHandler) :
    Prop :=
  ∃ head, handlerCodec.read file self = some head ∧
    head.handler self + h.implsize.toNat ≤ self + size ∧
    readBytes file (head.handler self) h.implsize.toNat = some (e.nativeCode h) ∧
    (e.arch = .arm64 → head.handler self % 4 = 0)

/-! ## 揃え -/

theorem recordSize_dvd (ha : e.aotimpl = true) (h : OpcodeHandler) : e.recordSize h % 4 = 0 := by
  rw [recordSize, if_pos ha]
  exact align4_dvd _

/-- native code を埋める file では、どの record も 4 の倍数の offset から始まる。 -/
theorem Serialized.offset_dvd (ha : e.aotimpl = true) {hs : List Handler} {off dyn : Nat}
    {out : List (Nat × Bytes)} (h : Serialized e hs off dyn out) (ho : off % 4 = 0) :
    ∀ p ∈ out, p.1 % 4 = 0 := by
  induction h with
  | nil => intro p hp; simp at hp
  | @cons source rest off dyn dyn' impl out himpl hf hlim hrest ih =>
    have hdvd := recordSize_dvd ha source.ptr
    intro p hp
    rcases List.mem_cons.mp hp with rfl | hp
    · exact ho
    · exact ih (by omega) p hp

theorem Written.offHandlers_dvd (h : Written e operands expressions file out insns) :
    h.metadata.offHandlers.toNat % 4 = 0 := by
  obtain ⟨-, -, -, -, -, -, -, hoh, -⟩ := h.metadata_toNat
  have h1 : headerCodec.size = 48 := rfl
  have h2 : insnMetaCodec.size = 8 := rfl
  have h3 : operandCodec.size = 48 := rfl
  have h4 : expressionCodec.size = 12 := rfl
  rw [hoh, h1, h2, h3, h4]
  omega

/-! ## Dynamic の record -/

/-- Dynamic の record では、`handler()` は opcode の直後である。 -/
theorem recordHead_handler {source : Handler} (hf : Fits source) (hty : source.ptr.type = .dynamic)
    (impl : UInt16) (self : Nat) :
    (recordHead source.ptr impl).handler self = self + plainSize source.ptr := by
  have hty' : ¬ source.ptr.type = .remill := by rw [hty]; decide
  rw [IMetaData.Handler.handler, IMetaData.Handler.operand, recordHead_oprnum hf,
    recordHead_oplen hf, length_metaArgs, plainSize, operandBytes, if_neg hty']
  omega

theorem plainSize_dynamic {h : OpcodeHandler} (hty : h.type = .dynamic) :
    plainSize h = 4 + h.oplen.toNat := by
  show 4 + h.oplen.toNat + operandBytes h = 4 + h.oplen.toNat
  rw [operandBytes, if_neg (by rw [hty]; decide), Nat.add_zero]

/-- ARM64 の guest で opcode の長さが 4 の倍数なら、詰め物は要らない。 -/
theorem recordBytes_dynamic {source : Handler} (ha : e.aotimpl = true)
    (hty : source.ptr.type = .dynamic) (hop : source.ptr.oplen.toNat % 4 = 0) (impl : UInt16) :
    ∃ tail, e.recordBytes source.ptr impl
      = (handlerCodec.enc (recordHead source.ptr impl)
          ++ source.ptr.opcode.take source.ptr.oplen.toNat) ++ e.nativeCode source.ptr ++ tail := by
  have hplain := plainSize_dynamic hty
  have hoff : e.aotimplOffset source.ptr = plainSize source.ptr := by
    show (if e.aotimpl then align4 (plainSize source.ptr) else plainSize source.ptr) = _
    rw [if_pos ha]
    exact align4_eq_self.mpr (by omega)
  have hmeta : metaArgs source.ptr = [] := if_neg (by rw [hty]; decide)
  have hcode : e.aotCode source.ptr = e.nativeCode source.ptr := if_pos ⟨ha, hty⟩
  refine ⟨zeros (e.recordSize source.ptr - e.aotimplOffset source.ptr - e.codeSize source.ptr), ?_⟩
  rw [recordBytes, hmeta, hcode, hoff, Nat.sub_self]
  simp [Codec.encArray, zeros]

theorem codeSize_dynamic {h : OpcodeHandler} (ha : e.aotimpl = true) (hty : h.type = .dynamic) :
    e.codeSize h = h.implsize.toNat := if_pos ⟨ha, hty⟩

namespace Written

/-- 読み手の見る固定部分は書いた固定部分で、`handler()` は opcode の直後を指す。 -/
theorem dynamic_record (hw : Written e operands expressions file out insns) {i off : Nat}
    {source : Handler} {record : Bytes} (hi : e.handlers[i]? = some source)
    (hty : source.ptr.type = .dynamic) (hout : out[i]? = some (off, record)) :
    ∃ impl p q, Fits source ∧ record = e.recordBytes source.ptr impl ∧
      file = p ++ record ++ q ∧ p.length = hw.metadata.offHandlers.toNat + off ∧
      handlerCodec.read file p.length = some (recordHead source.ptr impl) ∧
      (recordHead source.ptr impl).handler p.length = p.length + plainSize source.ptr := by
  obtain ⟨impl, d, d', -, hf, hget⟩ := hw.isSerialized.getElem? hi
  rw [hout, Option.some.injEq, Prod.mk.injEq, Nat.zero_add] at hget
  obtain ⟨hoff, rfl⟩ := hget
  obtain ⟨p, q, hfile, hp⟩ := hw.split_record hout hoff
  refine ⟨impl, p, q, hf, rfl, hfile, hp, ?_, recordHead_handler hf hty impl p.length⟩
  rw [hfile]
  exact read_recordHead source.ptr impl p q

/-- native code が record の中にあるなら、書き手は native code を埋めている。 -/
theorem aotimpl_of_nativeRecoverable (hw : Written e operands expressions file out insns)
    {i off : Nat} {source : Handler} {record : Bytes} (hi : e.handlers[i]? = some source)
    (hty : source.ptr.type = .dynamic) (hsize : 0 < source.ptr.implsize.toNat)
    (hout : out[i]? = some (off, record))
    (hrec : NativeRecoverable e file (hw.metadata.offHandlers.toNat + off) record.length
      source.ptr) :
    e.aotimpl = true := by
  obtain ⟨impl, p, q, hf, rfl, -, hp, hhead, hptr⟩ := hw.dynamic_record hi hty hout
  obtain ⟨head, hread, hin, -⟩ := hrec
  rw [← hp, hhead, Option.some.injEq] at hread
  subst hread
  rw [← hp, hptr, length_recordBytes hf] at hin
  by_contra hc
  have hrs : e.recordSize source.ptr = plainSize source.ptr := if_neg hc
  omega

/-- 埋めた native code を `handler()` が指すのは、詰め物が要らないときに限る。 -/
theorem nativeRecoverable_of_aotimpl (hw : Written e operands expressions file out insns)
    {i off : Nat} {source : Handler} {record : Bytes} (hi : e.handlers[i]? = some source)
    (hty : source.ptr.type = .dynamic) (hout : out[i]? = some (off, record))
    (harch : e.arch = .arm64) (haot : e.aotimpl = true) :
    NativeRecoverable e file (hw.metadata.offHandlers.toNat + off) record.length source.ptr ↔
      source.ptr.oplen.toNat % 4 = 0 := by
  obtain ⟨impl, p, q, hf, rfl, hfile, hp, hhead, hptr⟩ := hw.dynamic_record hi hty hout
  have hplain := plainSize_dynamic hty
  -- record の始まりは 4 の倍数なので、pointer の揃いは opcode の長さで決まる
  have hoh := hw.offHandlers_dvd
  have hod : off % 4 = 0 :=
    hw.isSerialized.offset_dvd haot rfl _ (List.mem_of_getElem? hout)
  rw [← hp]
  constructor
  · rintro ⟨head, hread, -, -, halign⟩
    rw [hhead, Option.some.injEq] at hread
    subst hread
    have halign := halign harch
    rw [hptr, hp] at halign
    omega
  · intro hop
    refine ⟨_, hhead, ?_, ?_, fun _ => ?_⟩
    · have h1 := plainSize_le_aotimplOffset (e := e) source.ptr
      have h2 := aotimplOffset_le_recordSize (e := e) source.ptr
      have h3 := codeSize_dynamic haot hty
      rw [hptr, length_recordBytes hf]
      omega
    · obtain ⟨tail, htail⟩ := recordBytes_dynamic haot hty hop impl
      rw [hptr]
      refine readBytes_of_eq (p := p ++ (handlerCodec.enc (recordHead source.ptr impl)
        ++ source.ptr.opcode.take source.ptr.oplen.toNat)) (q := tail ++ q) ?_ ?_ ?_
      · rw [hfile, htail]
        simp only [List.append_assoc]
      · rw [List.length_append, List.length_append, Codec.length_enc, hf.length_take, hplain]
        rfl
      · rw [length_nativeCode]
    · rw [hptr, hp]
      omega

end Written

/--
Dynamic の handler の native code が復元できる条件。

`haswx` で書き出した file の、native code を持つ Dynamic の handler について、`vmEntry` の実行する
pointer が native code ちょうどを指すのは、guest が ARM64 で、opcode の長さが 4 の倍数のときに限る。
x86-64 の guest では native code がそもそも書かれず、pointer は record の終わりを指す。
-/
theorem nativeRecoverable_iff (h : e.serialize operands expressions = .ok file)
    (hwx : e.haswx = true) {i : Nat} {source : Handler} (hi : e.handlers[i]? = some source)
    (hty : source.ptr.type = .dynamic) (hsize : 0 < source.ptr.implsize.toNat) :
    ∃ md serialized off record, headerCodec.read file 0 = some md ∧
      e.serializeHandler = .ok serialized ∧ serialized[i]? = some (off, record) ∧
      (NativeRecoverable e file (md.offHandlers.toNat + off) record.length source.ptr ↔
        e.arch = .arm64 ∧ source.ptr.oplen.toNat % 4 = 0) := by
  obtain ⟨out, insns, hw⟩ := written_of_ok h
  obtain ⟨impl, d, d', -, -, hout⟩ := hw.isSerialized.getElem? hi
  refine ⟨hw.metadata, out, _, _, hw.read_header, hw.serialized, hout, ?_⟩
  have haot : e.aotimpl = true ↔ e.arch = .arm64 := by
    rw [aotimpl, hwx, Bool.true_and, beq_iff_eq]
  constructor
  · intro hrec
    have ha := hw.aotimpl_of_nativeRecoverable hi hty hsize hout hrec
    exact ⟨haot.mp ha, (hw.nativeRecoverable_of_aotimpl hi hty hout (haot.mp ha) ha).mp hrec⟩
  · rintro ⟨harch, hop⟩
    exact (hw.nativeRecoverable_of_aotimpl hi hty hout harch (haot.mpr harch)).mpr hop

/-- native code を 8 byte 持つ Dynamic の handler 一つの ARM64 の binary。 -/
def sampleNative : PreEncoder where
  arch := .arm64
  haswx := true
  tables := ⟨[], []⟩
  mem := fun addr => addr.toUInt8
  handlers := [⟨4, ⟨[0x1f, 0x20, 3, 0xd5], 4, .dynamic, 8, [], 0x7000⟩, rfl⟩]
  insnmetas := [⟨0x1000, 0⟩]

theorem sampleNative_recoverable : ∃ file md serialized off record,
    sampleNative.serialize [] [] = .ok file ∧ headerCodec.read file 0 = some md ∧
    sampleNative.serializeHandler = .ok serialized ∧ serialized[0]? = some (off, record) ∧
    NativeRecoverable sampleNative file (md.offHandlers.toNat + off) record.length
      ⟨[0x1f, 0x20, 3, 0xd5], 4, .dynamic, 8, [], 0x7000⟩ := by
  have h : ∃ file, sampleNative.serialize [] [] = .ok file := ⟨_, rfl⟩
  obtain ⟨file, h⟩ := h
  obtain ⟨md, serialized, off, record, h1, h2, h3, hiff⟩ :=
    nativeRecoverable_iff h rfl (i := 0) rfl rfl (by decide)
  exact ⟨file, md, serialized, off, record, h, h1, h2, h3, hiff.mpr ⟨rfl, rfl⟩⟩

/-- native code を 3 byte 持つ Dynamic の handler（`cpuid`）一つの x86-64 の binary。 -/
def sampleNativeX86 : PreEncoder where
  arch := .x86_64
  haswx := true
  tables := ⟨[], []⟩
  mem := fun addr => addr.toUInt8
  handlers := [⟨2, ⟨[0x0f, 0xa2], 2, .dynamic, 3, [], 0x7000⟩, rfl⟩]
  insnmetas := [⟨0x1000, 0⟩]

/-- record は 6 byte で終わり、pointer はその終わりを指す。 -/
theorem sampleNativeX86_not_recoverable : ∃ file md serialized off record,
    sampleNativeX86.serialize [] [] = .ok file ∧ headerCodec.read file 0 = some md ∧
    sampleNativeX86.serializeHandler = .ok serialized ∧ serialized[0]? = some (off, record) ∧
    ¬ NativeRecoverable sampleNativeX86 file (md.offHandlers.toNat + off) record.length
      ⟨[0x0f, 0xa2], 2, .dynamic, 3, [], 0x7000⟩ := by
  have h : ∃ file, sampleNativeX86.serialize [] [] = .ok file := ⟨_, rfl⟩
  obtain ⟨file, h⟩ := h
  obtain ⟨out, insns, hw⟩ := written_of_ok h
  obtain ⟨impl, d, d', -, -, hout⟩ := hw.isSerialized.getElem? (i := 0) rfl
  refine ⟨file, hw.metadata, out, _, _, h, hw.read_header, hw.serialized, hout, fun hrec => ?_⟩
  have ha := hw.aotimpl_of_nativeRecoverable (i := 0) rfl rfl (by decide) hout hrec
  exact absurd ha (by decide)

end AetherVM.PreEncoder
