import AetherVM.Encode.Serialize

/-!
# 書き出した record の形

`convert` は零の buffer へ順に書き込むが、できあがるものは
「固定部分・opcode・引数・詰め物・native code・詰め物」の連結である（`recordBytes`）。
以後の往復や走査の証明は、この連結だけを見る。

`serializeHandler` の結果は、帰納的な関係 `Serialized` に移す。offset と
`dynamic_handler_index` がどう進むかを constructor が一つで言う。
-/

namespace AetherVM.PreEncoder

open Infra IMetaData

variable {e : PreEncoder}

/-! ## `align4` -/

theorem align4_dvd (n : Nat) : align4 n % 4 = 0 := Nat.mul_mod_left _ _

theorem le_align4 (n : Nat) : n ≤ align4 n := by unfold align4; omega

theorem align4_eq_self {n : Nat} : align4 n = n ↔ n % 4 = 0 := by unfold align4; omega

@[simp] theorem align4_align4 (n : Nat) : align4 (align4 n) = align4 n :=
  align4_eq_self.mpr (align4_dvd n)

/-! ## 引数 -/

/-- metadata に書かれる引数の列。Remill の handler だけが持つ。 -/
def metaArgs (h : OpcodeHandler) : List IMetaData.OperandInfo :=
  if h.type = .remill then h.args.map fun arg => ⟨BitVec.ofNat 15 arg.index, arg.pointer⟩ else []

theorem length_metaArgs (h : OpcodeHandler) :
    (metaArgs h).length * operandInfoCodec.size = operandBytes h := by
  unfold metaArgs operandBytes
  split
  · rw [List.length_map]; rfl
  · rfl

/-- 収まる番号と flag の `|` は、bit-field の並びに一致する。 -/
theorem toLE_operandIndex {arg : OperandInfo} (h : arg.index ≤ operandIndexMask) :
    toLE 2 (arg.index ||| (if arg.pointer then operandPointerFlag else 0))
      = operandInfoCodec.enc ⟨BitVec.ofNat 15 arg.index, arg.pointer⟩ := by
  have hlt : arg.index < 2 ^ 15 := Nat.lt_succ_of_le h
  have hor : arg.index ||| (if arg.pointer then operandPointerFlag else 0)
      = arg.index + (if arg.pointer then 0x8000 else 0) := by
    cases arg.pointer with
    | false => simp
    | true =>
      rw [if_pos rfl, if_pos rfl, Nat.add_comm, Nat.or_comm]
      exact (Nat.two_pow_add_eq_or_of_lt hlt 1).symm
  have hbv : (BitVec.ofNat 15 arg.index).toNat = arg.index := by
    rw [BitVec.toNat_ofNat, Nat.mod_eq_of_lt hlt]
  have hsum : arg.index + (if arg.pointer then 0x8000 else 0) < 2 ^ 16 := by
    split <;> omega
  rw [hor]
  show _ = toLE 2 (UInt16.ofNat _).toNat
  rw [UInt16.toNat_ofNat', hbv, Nat.mod_eq_of_lt hsum]

/-- 引数の loop は、書き終えた部分の後ろに引数の列を足す。 -/
theorem writeArgs_zeros : ∀ (args : List OperandInfo) (p : Bytes) (n : Nat) (record : Bytes),
    writeArgs (p ++ zeros n) p.length args = some record →
    (∀ arg ∈ args, arg.index ≤ operandIndexMask) ∧
      record = p ++ operandInfoCodec.encArray
          (args.map fun arg => ⟨BitVec.ofNat 15 arg.index, arg.pointer⟩)
        ++ zeros (n - args.length * 2)
  | [], p, n, record, h => by
    rw [writeArgs, Option.some.injEq] at h
    refine ⟨fun _ hm => absurd hm List.not_mem_nil, ?_⟩
    rw [← h]
    simp [Codec.encArray]
  | arg :: args, p, n, record, h => by
    rw [writeArgs] at h
    split at h
    · cases h
    · next hle =>
      have hle : arg.index ≤ operandIndexMask := Nat.le_of_not_lt hle
      simp only [toLE_operandIndex hle, memcpy_zeros] at h
      have hlen : ∀ o, (operandInfoCodec.enc o).length = 2 := operandInfoCodec.length_enc
      -- 書いた 2 byte を前の部分に移して、残りの引数に進む
      have hp : p.length + 2
          = (p ++ operandInfoCodec.enc ⟨BitVec.ofNat 15 arg.index, arg.pointer⟩).length := by
        rw [List.length_append, hlen]
      rw [hp] at h
      obtain ⟨hall, hrec⟩ := writeArgs_zeros args _ _ record h
      refine ⟨fun a ha => ?_, ?_⟩
      · rcases List.mem_cons.mp ha with rfl | ha
        · exact hle
        · exact hall a ha
      · have hn : n - 2 - args.length * 2 = n - (args.length + 1) * 2 := by omega
        rw [hrec, hlen, hn, List.map_cons, Codec.encArray_cons, List.length_cons]
        simp only [List.append_assoc]

/-! ## record 一つ -/

/-- 詰め物より前の長さ。 -/
def plainSize (h : OpcodeHandler) : Nat :=
  IMetaData.Handler.fixedSize + h.oplen.toNat + operandBytes h

/-- file に埋められる native code。 -/
def aotCode (e : PreEncoder) (h : OpcodeHandler) : Bytes :=
  if e.aotimpl ∧ h.type = .dynamic then e.nativeCode h else []

@[simp] theorem length_nativeCode (h : OpcodeHandler) :
    (e.nativeCode h).length = h.implsize.toNat := by
  rw [nativeCode, List.length_map, List.length_range]

theorem length_aotCode (h : OpcodeHandler) : (e.aotCode h).length = e.codeSize h := by
  unfold aotCode codeSize
  split
  · exact length_nativeCode h
  · rfl

/-- record の中身を連結で書いたもの。 -/
def recordBytes (e : PreEncoder) (h : OpcodeHandler) (impl : UInt16) : Bytes :=
  handlerCodec.enc (recordHead h impl) ++ h.opcode.take h.oplen.toNat
    ++ operandInfoCodec.encArray (metaArgs h) ++ zeros (e.aotimplOffset h - plainSize h)
    ++ e.aotCode h ++ zeros (e.recordSize h - e.aotimplOffset h - e.codeSize h)

/-- `convert` が通す handler の条件。 -/
structure Fits (source : Handler) : Prop where
  oplen_le : source.ptr.oplen.toNat ≤ 15
  oplen_le_width : source.ptr.oplen.toNat ≤ source.oplen
  args_le : source.ptr.args.length ≤ 255
  index_le : source.ptr.type = .remill → ∀ arg ∈ source.ptr.args, arg.index ≤ operandIndexMask

theorem Fits.length_take {source : Handler} (hf : Fits source) :
    (source.ptr.opcode.take source.ptr.oplen.toNat).length = source.ptr.oplen.toNat := by
  rw [List.length_take, source.width]
  exact Nat.min_eq_left hf.oplen_le_width

theorem plainSize_le_aotimplOffset (h : OpcodeHandler) : plainSize h ≤ e.aotimplOffset h := by
  show plainSize h ≤ if e.aotimpl then align4 (plainSize h) else plainSize h
  split
  · exact le_align4 _
  · exact Nat.le_refl _

theorem aotimplOffset_le_recordSize (h : OpcodeHandler) :
    e.aotimplOffset h + e.codeSize h ≤ e.recordSize h := by
  unfold recordSize
  split
  · exact le_align4 _
  · next ha =>
    have hoff : e.aotimplOffset h = plainSize h := if_neg ha
    have hcode : e.codeSize h = 0 := if_neg fun hc => ha hc.1
    rw [hoff, hcode]
    exact Nat.le_refl _

theorem length_recordBytes {source : Handler} (hf : Fits source) (impl : UInt16) :
    (e.recordBytes source.ptr impl).length = e.recordSize source.ptr := by
  have h1 := plainSize_le_aotimplOffset (e := e) source.ptr
  have h2 := aotimplOffset_le_recordSize (e := e) source.ptr
  have hplain : plainSize source.ptr
      = handlerCodec.size + source.ptr.oplen.toNat + operandBytes source.ptr := rfl
  simp only [recordBytes, List.length_append, Codec.length_enc, hf.length_take,
    Codec.length_encArray, length_metaArgs, length_zeros, length_aotCode]
  omega

/-! ## 書き込みの三つの段階 -/

/-- 固定部分と opcode。 -/
def headBytes (h : OpcodeHandler) (impl : UInt16) : Bytes :=
  handlerCodec.enc (recordHead h impl) ++ h.opcode.take h.oplen.toNat

theorem length_headBytes {source : Handler} (hwidth : source.ptr.oplen.toNat ≤ source.oplen)
    (impl : UInt16) : (headBytes source.ptr impl).length
      = IMetaData.Handler.fixedSize + source.ptr.oplen.toNat := by
  rw [headBytes, List.length_append, Codec.length_enc, List.length_take, source.width,
    Nat.min_eq_left hwidth]
  rfl

/-- 固定部分と opcode を書いたところまで。 -/
theorem memcpy_headBytes (h : OpcodeHandler) (impl : UInt16) (n : Nat) :
    memcpy (memcpy (zeros n) 0 (handlerCodec.enc (recordHead h impl)))
        IMetaData.Handler.fixedSize (h.opcode.take h.oplen.toNat)
      = headBytes h impl ++ zeros (n - (headBytes h impl).length) := by
  have h0 := memcpy_zeros [] (handlerCodec.enc (recordHead h impl)) n
  rw [List.nil_append, List.nil_append, List.length_nil] at h0
  have h1 := memcpy_zeros (handlerCodec.enc (recordHead h impl)) (h.opcode.take h.oplen.toNat)
    (n - handlerCodec.size)
  rw [Codec.length_enc] at h0 h1
  rw [h0]
  show memcpy _ handlerCodec.size _ = _
  rw [h1, headBytes, List.length_append, Codec.length_enc, Nat.sub_sub]

/-- 引数を書いたところまで。Remill でない handler の引数は書かれない。 -/
theorem writeArgs_metaArgs {h : OpcodeHandler} {pre record : Bytes} {n : Nat}
    (hr : (if operandBytes h ≠ 0 then writeArgs (pre ++ zeros n) pre.length h.args
      else some (pre ++ zeros n)) = some record) :
    (h.type = .remill → ∀ arg ∈ h.args, arg.index ≤ operandIndexMask) ∧
      record = pre ++ operandInfoCodec.encArray (metaArgs h) ++ zeros (n - operandBytes h) := by
  by_cases hty : h.type = .remill
  · have hmeta : metaArgs h
        = h.args.map fun arg => ⟨BitVec.ofNat 15 arg.index, arg.pointer⟩ := if_pos hty
    have hbytes : operandBytes h = h.args.length * 2 := if_pos hty
    rw [hmeta, hbytes]
    by_cases hz : operandBytes h ≠ 0
    · rw [if_pos hz] at hr
      obtain ⟨hall, hr⟩ := writeArgs_zeros _ _ _ _ hr
      exact ⟨fun _ => hall, hr⟩
    · rw [if_neg hz, Option.some.injEq] at hr
      have hnil : h.args = [] := by
        rw [hbytes] at hz
        exact List.length_eq_zero_iff.mp (by omega)
      rw [← hr, hnil]
      exact ⟨fun _ _ hm => absurd hm List.not_mem_nil, by simp [Codec.encArray]⟩
  · have hbytes : operandBytes h = 0 := if_neg hty
    have hmeta : metaArgs h = [] := if_neg hty
    rw [if_neg (by rw [hbytes]; simp), Option.some.injEq] at hr
    refine ⟨fun hc => absurd hc hty, ?_⟩
    rw [← hr, hmeta, hbytes]
    simp [Codec.encArray]

/-- native code を書くところ。書かないときは、そこも 0 のまま残る。 -/
theorem writeCode_zeros {h : OpcodeHandler} {body : Bytes} (hlen : body.length = plainSize h) :
    (if e.codeSize h ≠ 0 then
        memcpy (body ++ zeros (e.recordSize h - plainSize h)) (e.aotimplOffset h) (e.nativeCode h)
      else body ++ zeros (e.recordSize h - plainSize h))
      = body ++ zeros (e.aotimplOffset h - plainSize h) ++ e.aotCode h
        ++ zeros (e.recordSize h - e.aotimplOffset h - e.codeSize h) := by
  have h1 := plainSize_le_aotimplOffset (e := e) h
  have h2 := aotimplOffset_le_recordSize (e := e) h
  -- native code の無い record では、二つの詰め物が繋がって一つの零の列になる
  split
  · next hcode =>
    have haot : e.aotCode h = e.nativeCode h := by
      by_cases hc : e.aotimpl ∧ h.type = .dynamic
      · exact if_pos hc
      · exact absurd (if_neg hc) hcode
    have hcodelen : (e.nativeCode h).length = e.codeSize h := by rw [← haot, length_aotCode]
    have hgap : e.aotimplOffset h = body.length + (e.aotimplOffset h - plainSize h) := by omega
    rw [hgap, memcpy_zeros_gap _ _ _ _ (by omega), hcodelen, haot, ← hgap]
    congr 2
    omega
  · next hcode =>
    have hcode : e.codeSize h = 0 := not_not.mp hcode
    have haot : e.aotCode h = [] :=
      List.length_eq_zero_iff.mp (by rw [length_aotCode, hcode])
    have hsplit : e.recordSize h - plainSize h
        = (e.aotimplOffset h - plainSize h)
          + (e.recordSize h - e.aotimplOffset h - e.codeSize h) := by omega
    rw [hsplit, zeros_add, haot]
    simp only [List.append_assoc, List.nil_append]

/-- `convert` が作る record は `recordBytes` である。 -/
theorem convert_eq_some {source : Handler} {dyn dyn' : Nat} {record : Bytes}
    (h : e.convert source dyn = some (record, dyn')) :
    ∃ impl, e.implField source.ptr dyn = some (impl, dyn') ∧ Fits source ∧
      record = e.recordBytes source.ptr impl := by
  simp only [convert] at h
  split at h
  · cases h
  next hlim =>
  simp only [not_or, Nat.not_lt] at hlim
  obtain ⟨hop, hwidth, hargs⟩ := hlim
  obtain ⟨⟨impl, d⟩, himpl, h⟩ := Option.bind_eq_some_iff.mp h
  simp only at h
  obtain ⟨r, hr, h⟩ := Option.bind_eq_some_iff.mp h
  have hheadlen := length_headBytes hwidth impl
  rw [memcpy_headBytes, ← hheadlen] at hr
  obtain ⟨hindex, hr⟩ := writeArgs_metaArgs hr
  have hbodylen : (headBytes source.ptr impl
      ++ operandInfoCodec.encArray (metaArgs source.ptr)).length = plainSize source.ptr := by
    rw [List.length_append, hheadlen, Codec.length_encArray, length_metaArgs]
    rfl
  rw [hheadlen, Nat.sub_sub] at hr
  have hcode := writeCode_zeros (e := e) hbodylen
  rw [← apply_ite (fun record => some (record, d)), Option.some.injEq, Prod.mk.injEq] at h
  refine ⟨impl, by rw [himpl, h.2], ⟨hop, hwidth, hargs, hindex⟩, ?_⟩
  rw [← h.1, hr]
  exact hcode

end AetherVM.PreEncoder
