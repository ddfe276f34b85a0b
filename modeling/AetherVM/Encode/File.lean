import AetherVM.Encode.Record

/-!
# 書き出した file の形

`serialize` が成功したときの file は、header と四つの section の連結である（`Written`）。
header の offset は 32 bit に収まっているので、切り詰めで失われるものは無い。
-/

namespace AetherVM.PreEncoder

open Infra IMetaData

variable {e : PreEncoder}

/-! ## handler の列 -/

/--
`serializeHandler` の一回の走査。`off` は次の record の offset、`dyn` は次の
`dynamic_handler_index` である。
-/
inductive Serialized (e : PreEncoder) : List Handler → Nat → Nat → List (Nat × Bytes) → Prop
  | nil {off dyn : Nat} : Serialized e [] off dyn []
  | cons {source : Handler} {rest : List Handler} {off dyn dyn' : Nat} {impl : UInt16}
      {out : List (Nat × Bytes)} (himpl : e.implField source.ptr dyn = some (impl, dyn'))
      (hf : Fits source) (hlim : off + e.recordSize source.ptr ≤ uint32Max)
      (hrest : Serialized e rest (off + e.recordSize source.ptr) dyn' out) :
      Serialized e (source :: rest) off dyn ((off, e.recordBytes source.ptr impl) :: out)

theorem serialized_of_ok : ∀ {hs : List Handler} {off dyn : Nat} {out : List (Nat × Bytes)},
    e.serializeHandlerFrom hs off dyn = .ok out → Serialized e hs off dyn out
  | [], off, dyn, out, h => by
    rw [serializeHandlerFrom, Except.ok.injEq] at h
    rw [← h]
    exact .nil
  | source :: rest, off, dyn, out, h => by
    rw [serializeHandlerFrom] at h
    split at h
    · split at h
      · cases h
      · next record dyn' hconv =>
        obtain ⟨impl, himpl, hf, rfl⟩ := convert_eq_some hconv
        rw [length_recordBytes hf] at h
        split at h
        · cases h
        · next hlim =>
          split at h
          · cases h
          · next tail htail =>
            rw [Except.ok.injEq] at h
            rw [← h]
            exact .cons himpl hf (by omega) (serialized_of_ok htail)
    · cases h

namespace Serialized

theorem length_eq {hs : List Handler} {off dyn : Nat} {out : List (Nat × Bytes)}
    (h : Serialized e hs off dyn out) : out.length = hs.length := by
  induction h with
  | nil => rfl
  | cons _ _ _ _ ih => rw [List.length_cons, List.length_cons, ih]

/-- record の offset は、それより前の record の長さの和である。 -/
theorem getElem? {hs : List Handler} {off dyn : Nat} {out : List (Nat × Bytes)}
    (h : Serialized e hs off dyn out) : ∀ {i : Nat} {source : Handler}, hs[i]? = some source →
    ∃ impl d d', e.implField source.ptr d = some (impl, d') ∧ Fits source ∧
      out[i]? = some (off + ((out.take i).map Prod.snd).flatten.length,
        e.recordBytes source.ptr impl) := by
  induction h with
  | nil => intro i source hi; simp at hi
  | @cons source rest off dyn dyn' impl out himpl hf hlim hrest ih =>
    intro i s hi
    cases i with
    | zero =>
      rw [List.getElem?_cons_zero, Option.some.injEq] at hi
      subst hi
      exact ⟨impl, dyn, dyn', himpl, hf, by simp⟩
    | succ i =>
      rw [List.getElem?_cons_succ] at hi
      obtain ⟨im, d, d', h1, h2, h3⟩ := ih hi
      refine ⟨im, d, d', h1, h2, ?_⟩
      rw [List.getElem?_cons_succ, h3, List.take_succ_cons, List.map_cons, List.flatten_cons,
        List.length_append, length_recordBytes hf, Nat.add_assoc]

/-- offset は 32 bit に収まり、番兵にもならない。 -/
theorem offset_lt {hs : List Handler} {off dyn : Nat} {out : List (Nat × Bytes)}
    (h : Serialized e hs off dyn out) : ∀ p ∈ out, p.1 < uint32Max := by
  induction h with
  | nil => intro p hp; simp at hp
  | @cons source rest off dyn dyn' impl out himpl hf hlim hrest ih =>
    intro p hp
    rcases List.mem_cons.mp hp with rfl | hp
    · have h1 := plainSize_le_aotimplOffset (e := e) source.ptr
      have h2 := aotimplOffset_le_recordSize (e := e) source.ptr
      have h4 : 4 ≤ plainSize source.ptr := by
        show 4 ≤ 4 + source.ptr.oplen.toNat + operandBytes source.ptr
        omega
      show off < uint32Max
      omega
    · exact ih p hp

end Serialized

/-! ## 命令の表 -/

/-- 書き換えは `rva` を変えず、番号を offset に取り替えるだけである。 -/
theorem resolveInsns_getElem? {hoffsets : List Nat} : ∀ {insns out : List InsnMeta},
    resolveInsns hoffsets insns = .ok out →
    out.length = insns.length ∧ ∀ {i : Nat} {insn : InsnMeta}, insns[i]? = some insn →
      ∃ o, out[i]? = some o ∧ o.rva = insn.rva ∧
        (insn.handler = noHandler ∧ o.handler = noHandler ∨
          insn.handler ≠ noHandler ∧
            ∃ off, hoffsets[insn.handler.toNat]? = some off ∧ o.handler = UInt32.ofNat off)
  | [], out, h => by
    rw [resolveInsns, Except.ok.injEq] at h
    rw [← h]
    exact ⟨rfl, fun hi => by simp at hi⟩
  | insn :: rest, out, h => by
    rw [resolveInsns] at h
    split at h
    · -- 番兵の命令は、そのまま残る
      next hno =>
      split at h
      · cases h
      · next tail htail =>
        rw [Except.ok.injEq] at h
        rw [← h]
        obtain ⟨hlen, hget⟩ := resolveInsns_getElem? htail
        refine ⟨by rw [List.length_cons, List.length_cons, hlen], fun {i} {x} hi => ?_⟩
        cases i with
        | zero =>
          rw [List.getElem?_cons_zero, Option.some.injEq] at hi
          subst hi
          exact ⟨insn, rfl, rfl, Or.inl ⟨hno, hno⟩⟩
        | succ i => exact hget hi
    · next hno =>
      split at h
      · cases h
      · next off hoff =>
        split at h
        · cases h
        · next tail htail =>
          rw [Except.ok.injEq] at h
          rw [← h]
          obtain ⟨hlen, hget⟩ := resolveInsns_getElem? htail
          refine ⟨by rw [List.length_cons, List.length_cons, hlen], fun {i} {x} hi => ?_⟩
          cases i with
          | zero =>
            rw [List.getElem?_cons_zero, Option.some.injEq] at hi
            subst hi
            exact ⟨_, rfl, rfl, Or.inr ⟨hno, off, hoff, rfl⟩⟩
          | succ i => exact hget hi

/-! ## file 全体 -/

theorem writeRecords_zeros : ∀ (records : List Bytes) (p : Bytes) (n : Nat),
    writeRecords (p ++ zeros n) p.length records
      = p ++ records.flatten ++ zeros (n - records.flatten.length)
  | [], p, n => by simp [writeRecords]
  | record :: rest, p, n => by
    rw [writeRecords, memcpy_zeros, ← List.length_append, writeRecords_zeros rest,
      List.flatten_cons, List.length_append, Nat.sub_sub]
    simp only [List.append_assoc]

/-- 零の buffer へ先頭から隙間なく書くと、書いたものの連結になる。 -/
theorem outbuf_eq (hd a b c : Bytes) (records : List Bytes) :
    writeRecords
        (memcpy (memcpy (memcpy (memcpy
          (zeros (hd.length + a.length + b.length + c.length + records.flatten.length)) 0 hd)
          hd.length a) (hd.length + a.length) b) (hd.length + a.length + b.length) c)
        (hd.length + a.length + b.length + c.length) records
      = hd ++ a ++ b ++ c ++ records.flatten := by
  set n := hd.length + a.length + b.length + c.length + records.flatten.length with hn
  have h0 : memcpy (zeros n) 0 hd = hd ++ zeros (n - hd.length) := memcpy_zeros [] hd n
  rw [h0, memcpy_zeros, ← List.length_append, memcpy_zeros, ← List.length_append, memcpy_zeros,
    ← List.length_append, writeRecords_zeros]
  have hz : n - hd.length - a.length - b.length - c.length - records.flatten.length = 0 := by
    omega
  rw [hz]
  simp [zeros]

/-- `serialize` が成功したときの file。 -/
structure Written (e : PreEncoder) (operands : List Operand) (expressions : List Expression)
    (file : Bytes) (out : List (Nat × Bytes)) (insns : List InsnMeta) : Prop where
  serialized : e.serializeHandler = .ok out
  resolved : resolveInsns (out.map Prod.fst) e.insnmetas = .ok insns
  handlers_le : out.length ≤ uint32Max
  size_le : file.length ≤ uint32Max
  bytes : file = headerCodec.enc
      (e.header insns.length operands.length expressions.length out.length file.length)
    ++ insnMetaCodec.encArray insns ++ operandCodec.encArray operands
    ++ expressionCodec.encArray expressions ++ (out.map Prod.snd).flatten

theorem written_of_ok {operands : List Operand} {expressions : List Expression} {file : Bytes}
    (h : e.serialize operands expressions = .ok file) :
    ∃ out insns, Written e operands expressions file out insns := by
  unfold serialize at h
  split at h
  · cases h
  next out hout =>
  split at h
  · cases h
  next insns hinsns =>
  simp only at h
  split at h
  · cases h
  next hcount =>
  split at h
  · cases h
  next hsize =>
  rw [Except.ok.injEq, ← List.length_flatten] at h
  rw [← List.length_flatten] at hsize
  simp only [not_or, Nat.not_lt, List.length_map] at hcount hsize h
  obtain ⟨-, -, -, hnum⟩ := hcount
  -- header の中身に依らず、書いた順の連結になる
  have hfile := outbuf_eq (headerCodec.enc
      (e.header insns.length operands.length expressions.length out.length
        (headerCodec.size + insns.length * insnMetaCodec.size
          + operands.length * operandCodec.size + expressions.length * expressionCodec.size
          + (out.map Prod.snd).flatten.length)))
    (insnMetaCodec.encArray insns) (operandCodec.encArray operands)
    (expressionCodec.encArray expressions) (out.map Prod.snd)
  simp only [Codec.length_enc, Codec.length_encArray] at hfile
  rw [h] at hfile
  have hlen : file.length = headerCodec.size + insns.length * insnMetaCodec.size
      + operands.length * operandCodec.size + expressions.length * expressionCodec.size
      + (out.map Prod.snd).flatten.length := by
    rw [hfile]
    simp only [List.length_append, Codec.length_enc, Codec.length_encArray]
  refine ⟨out, insns, hout, hinsns, hnum, by omega, ?_⟩
  rw [hlen]
  exact hfile

namespace Written

variable {operands : List Operand} {expressions : List Expression} {file : Bytes}
  {out : List (Nat × Bytes)} {insns : List InsnMeta}

/-- `serialize` が書いた header。 -/
def metadata (_ : Written e operands expressions file out insns) : Header :=
  e.header insns.length operands.length expressions.length out.length file.length

theorem length_eq (h : Written e operands expressions file out insns) :
    file.length = headerCodec.size + insns.length * insnMetaCodec.size
      + operands.length * operandCodec.size + expressions.length * expressionCodec.size
      + (out.map Prod.snd).flatten.length := by
  have hb := congrArg List.length h.bytes
  simpa only [List.length_append, Codec.length_enc, Codec.length_encArray] using hb

theorem toNat_ofNat {n : Nat} (h : n ≤ uint32Max) : (UInt32.ofNat n).toNat = n := by
  rw [UInt32.toNat_ofNat']
  exact Nat.mod_eq_of_lt (Nat.lt_succ_of_le h)

/-- header の offset と個数は、切り詰めで変わらない。 -/
theorem metadata_toNat (h : Written e operands expressions file out insns) :
    h.metadata.size.toNat = file.length ∧
      h.metadata.offInstruction.toNat = headerCodec.size ∧
      h.metadata.numInstruction.toNat = insns.length ∧
      h.metadata.offOperands.toNat = headerCodec.size + insns.length * insnMetaCodec.size ∧
      h.metadata.numOperands.toNat = operands.length ∧
      h.metadata.offExpressions.toNat = headerCodec.size + insns.length * insnMetaCodec.size
        + operands.length * operandCodec.size ∧
      h.metadata.numExpressions.toNat = expressions.length ∧
      h.metadata.offHandlers.toNat = headerCodec.size + insns.length * insnMetaCodec.size
        + operands.length * operandCodec.size + expressions.length * expressionCodec.size ∧
      h.metadata.numHandlers.toNat = out.length := by
  have hlen := h.length_eq
  have hle := h.size_le
  have hi : insns.length ≤ insns.length * insnMetaCodec.size :=
    Nat.le_mul_of_pos_right _ (by decide)
  have ho : operands.length ≤ operands.length * operandCodec.size :=
    Nat.le_mul_of_pos_right _ (by decide)
  have hx : expressions.length ≤ expressions.length * expressionCodec.size :=
    Nat.le_mul_of_pos_right _ (by decide)
  exact ⟨toNat_ofNat hle, toNat_ofNat (by omega), toNat_ofNat (by omega), toNat_ofNat (by omega),
    toNat_ofNat (by omega), toNat_ofNat (by omega), toNat_ofNat (by omega),
    toNat_ofNat (by omega), toNat_ofNat h.handlers_le⟩

theorem isSerialized (h : Written e operands expressions file out insns) :
    Serialized e e.handlers 0 0 out := serialized_of_ok h.serialized

/-- header を読み戻す。 -/
theorem read_header (h : Written e operands expressions file out insns) :
    headerCodec.read file 0 = some h.metadata := by
  have hb := h.bytes
  rw [List.append_assoc, List.append_assoc, List.append_assoc] at hb
  exact Codec.read_zero_of_eq hb

end Written

end AetherVM.PreEncoder
