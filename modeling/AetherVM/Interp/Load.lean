import AetherVM.Interp.MCInst
import AetherVM.Opcode.Keys

/-!
# 読み込みと handler の pointer

`RuntimeMetaData` の constructor は、命令の表のすべての entry から `metadata->handler(insn)` を計算して
record を読む。`vmEntry` も、いまの entry から同じ pointer を計算する。どちらも番兵を確かめない。

書き手は、`handlerIndex` が見つけなかった命令に番兵を書く。表の命令は binary の解析が与えるもので、
`prefetch` が順に decode した命令とは境目がずれることがある。
-/

namespace AetherVM.InterpMetaData

open Infra IMetaData PreEncoder

variable {μ : Type}

/-- file の中の `self` が、書いた record のどれかの先頭であること。record は handler の section の中にある。 -/
def RecordAt (file : Bytes) (md : Header) (serialized : List (Nat × Bytes)) (self : Nat) : Prop :=
  ∃ p ∈ serialized, self = md.offHandlers.toNat + p.1 ∧ readBytes file self p.2.length = some p.2 ∧
    self + p.2.length ≤ md.size.toNat

/-- 表のどの命令からも、`metadata->handler(insn)` が record の先頭になること。 -/
def Loadable (e : PreEncoder) (file : Bytes) : Prop :=
  ∃ md insns serialized, headerCodec.read file 0 = some md ∧ md.readInsns file = some insns ∧
    e.serializeHandler = .ok serialized ∧
    ∀ insn ∈ insns, RecordAt file md serialized (md.handler insn)

/-! ## 書いた file の pointer -/

section Written

variable {e : PreEncoder} {operands : List Operand} {expressions : List Expression} {file : Bytes}
  {out : List (Nat × Bytes)} {insns : List InsnMeta}

/-- 番兵でない命令の pointer は、record の先頭である。 -/
theorem recordAt_of_handler (hw : Written e operands expressions file out insns) {i : Nat}
    {src insn : InsnMeta} (hsrc : e.insnmetas[i]? = some src) (hinsn : insns[i]? = some insn)
    (hno : src.handler ≠ noHandler) : RecordAt file hw.metadata out (hw.metadata.handler insn) := by
  obtain ⟨-, hget⟩ := resolveInsns_getElem? hw.resolved
  obtain ⟨o, ho, -, hcase⟩ := hget hsrc
  rw [hinsn, Option.some.injEq] at ho
  subst ho
  rcases hcase with ⟨hc, -⟩ | ⟨-, off, hoff, hhandler⟩
  · exact absurd hc hno
  rw [List.getElem?_map] at hoff
  obtain ⟨⟨off', record⟩, hrec, rfl⟩ := Option.map_eq_some_iff.mp hoff
  have hlt : src.handler.toNat < e.handlers.length := by
    rw [← hw.isSerialized.length_eq]
    exact (List.getElem?_eq_some_iff.mp hrec).1
  obtain ⟨impl, d, d', -, -, hout⟩ := hw.isSerialized.getElem? (List.getElem?_eq_getElem hlt)
  rw [hrec, Option.some.injEq, Prod.mk.injEq, Nat.zero_add] at hout
  -- 命令の handler は record の列の中の offset で、前の部分の長さに等しい
  obtain ⟨p, q, hfile, hp⟩ := hw.split_record hrec hout.1
  have hself : hw.metadata.handler insn = p.length := by
    have hmem := hw.isSerialized.offset_lt _ (List.mem_of_getElem? hrec)
    rw [Header.handler, hhandler, Written.toNat_ofNat (Nat.le_of_lt hmem), hp]
  obtain ⟨hsize, -⟩ := hw.metadata_toNat
  refine ⟨(off', record), List.mem_of_getElem? hrec, ?_, ?_, ?_⟩
  · rw [hself, hp]
  · rw [hself, hfile]
    exact readBytes_mid p record q
  · rw [hself, hsize, hfile, List.length_append, List.length_append]
    show p.length + record.length ≤ _
    omega

/-- 番兵を持つ命令の pointer は、どの record の先頭でもない。 -/
theorem not_recordAt_of_noHandler (hw : Written e operands expressions file out insns)
    {insn : InsnMeta} (h : insn.handler = noHandler) :
    ¬ RecordAt file hw.metadata out (hw.metadata.handler insn) := by
  rintro ⟨p, hp, hself, -⟩
  have hlt := hw.isSerialized.offset_lt p hp
  have hno : noHandler.toNat = uint32Max := rfl
  rw [Header.handler, h, hno] at hself
  omega

/-- 表の命令がどれも handler を持つときに限り、pointer はすべて record の先頭になる。 -/
theorem loadable_iff_handlers (hw : Written e operands expressions file out insns) :
    Loadable e file ↔ ∀ src ∈ e.insnmetas, src.handler ≠ noHandler := by
  obtain ⟨hlen, hget⟩ := resolveInsns_getElem? hw.resolved
  constructor
  · rintro ⟨md, insns', out', hmd, hinsns, hout, hall⟩ src hsrc hno
    rw [hw.read_header, Option.some.injEq] at hmd
    subst hmd
    rw [hw.readInsns, Option.some.injEq] at hinsns
    subst hinsns
    rw [hw.serialized, Except.ok.injEq] at hout
    subst hout
    obtain ⟨i, hi⟩ := List.getElem?_of_mem hsrc
    obtain ⟨o, ho, -, hcase⟩ := hget hi
    have hohandler : o.handler = noHandler := hcase.elim And.right fun hc => absurd hno hc.1
    exact not_recordAt_of_noHandler hw hohandler (hall o (List.mem_of_getElem? ho))
  · intro hall
    refine ⟨hw.metadata, insns, out, hw.read_header, hw.readInsns, hw.serialized,
      fun insn hinsn => ?_⟩
    obtain ⟨i, hi⟩ := List.getElem?_of_mem hinsn
    have hlt : i < e.insnmetas.length := hlen ▸ (List.getElem?_eq_some_iff.mp hi).1
    have hsrc := List.getElem?_eq_getElem hlt
    exact recordAt_of_handler hw hsrc hi (hall _ (List.getElem_mem hlt))

end Written

/-! ## 見つかる命令 -/

/-- 集合にある opcode は、`std::lower_bound` の位置にある。 -/
theorem getElem?_lowerBound {w : OpcodeWidth} {s : HandlerSet} (hs : s.Sorted w) {x : HandlerEntry}
    (hx : x ∈ s) : s[lowerBound s x.handler.opcode]? = some x := by
  obtain ⟨i, hi, rfl⟩ := List.getElem_of_mem hx
  have hfound : lowerBound s s[i].handler.opcode = i := by
    rw [lowerBound, List.findIdx_eq hi]
    refine ⟨decide_eq_true (Nat.le_refl _), fun j hj => decide_eq_false ?_⟩
    exact Nat.not_le.mpr (List.pairwise_iff_getElem.mp hs.pairwise j i (by omega) hi hj)
  rw [hfound]
  exact List.getElem?_eq_getElem hi

/-- `handlerIndex` が見つけるのは、長さが 1 から 16 で、engine の持つ opcode である。 -/
theorem handlerIndex_ne_iff {keys : List Bytes} {engine : OpcodeEngine} (hk : engine.Keyed keys)
    (hlen : (loadHandlers engine).length ≤ uint32Max) (opcode : Bytes) :
    handlerIndex engine opcode ≠ noHandler ↔
      1 ≤ opcode.length ∧ opcode.length ≤ 16 ∧ opcodeKey opcode ∈ keys := by
  constructor
  · intro h
    obtain ⟨w, x, hx, hop, -⟩ := handlerIndex_spec hlen h
    have hbad : ¬ (opcode.length = 0 ∨ 16 < opcode.length) := by
      intro hbad
      rw [handlerIndex, if_pos hbad] at h
      exact h rfl
    refine ⟨by omega, by omega, (hk.mem_iff w _ ?_).mp ⟨x, hx, hop⟩⟩
    rw [← hop]
    exact (hk.sorted w).length x hx
  · rintro ⟨h1, h16, hmem⟩
    obtain ⟨x, hx, hop⟩ := (hk.mem_iff _ _ (length_opcodeKey opcode)).mpr hmem
    have hget := getElem?_lowerBound (hk.sorted _) hx
    rw [hop] at hget
    have hidx := loadHandlers_getElem? engine _ hget
    have hlt := (List.getElem?_eq_some_iff.mp hidx).1
    simp only [handlerIndex, if_neg (show ¬ (opcode.length = 0 ∨ 16 < opcode.length) by omega),
      hget, if_pos hop]
    intro hno
    have hnat := congrArg UInt32.toNat hno
    rw [Written.toNat_ofNat (by omega)] at hnat
    have hval : noHandler.toNat = uint32Max := rfl
    omega

section Encode

variable {tc : Toolchain μ} {arch : ArchType} {bin : PreEncoder.Binary} {g : Globals μ}
  {s : Globals μ × OpcodeEngine} {tables : HandlerTables} {haswx : Bool} {mem : UInt64 → UInt8}
  {operands : List Operand} {expressions : List Expression} {file : Bytes}

theorem prefetch_keyed (hp : prefetch tc arch bin g = .ok s) :
    s.2.Keyed (stream tc arch bin) := by
  rw [prefetch, prefetchFrom_eq] at hp
  exact Toolchain.prefetchAll_keyed hp OpcodeEngine.keyed_empty

/-- 表の命令がどれも handler を持つのは、どの opcode も順に decode した列の中にあるときに限る。 -/
theorem insnmetas_handler_iff (hp : prefetch tc arch bin g = .ok s)
    {out : List (Nat × Bytes)} {insns : List InsnMeta}
    (hw : Written (ofEngine tables bin haswx mem s.2) operands expressions file out insns) :
    (∀ src ∈ analyzeInsnMeta bin s.2, src.handler ≠ noHandler) ↔
      ∀ p ∈ tableInsns bin, 1 ≤ p.2.oplen ∧ p.2.oplen ≤ 16 ∧
        opcodeKey (insnBytes bin p.1 p.2) ∈ stream tc arch bin := by
  have hlen : (loadHandlers s.2).length ≤ uint32Max := by
    have hle := hw.handlers_le
    rw [hw.isSerialized.length_eq] at hle
    exact hle
  unfold analyzeInsnMeta
  rw [List.forall_mem_map]
  refine forall₂_congr fun p _ => ?_
  have hindex := handlerIndex_ne_iff (prefetch_keyed hp) hlen (insnBytes bin p.1 p.2)
  have hbytes : (insnBytes bin p.1 p.2).length = p.2.oplen := by
    simp [insnBytes]
  rw [hbytes] at hindex
  exact hindex

/--
書いた file のどの命令からも record を読めるのは、data でないすべての命令について、長さが 1 から 16 で、
その opcode が `prefetch` の順に decode した列の中にあるときに限る。
-/
theorem encode_loadable_iff (hp : prefetch tc arch bin g = .ok s)
    (hser : (ofEngine tables bin haswx mem s.2).serialize operands expressions = .ok file) :
    Loadable (ofEngine tables bin haswx mem s.2) file ↔
      ∀ p ∈ tableInsns bin, 1 ≤ p.2.oplen ∧ p.2.oplen ≤ 16 ∧
        opcodeKey (insnBytes bin p.1 p.2) ∈ stream tc arch bin := by
  obtain ⟨out, insns, hw⟩ := written_of_ok hser
  rw [loadable_iff_handlers hw]
  exact insnmetas_handler_iff hp hw

end Encode

/-! ## 例 -/

/-- `eb`（`jmp rel8`）と `b0`（`mov al, imm8`）だけが 2 byte である。 -/
def sampleLength (opcode : Bytes) : Nat :=
  if opcode.head? = some 0xeb ∨ opcode.head? = some 0xb0 then 2 else 1

/-- 命令の長さだけを知り、Remill の実装が一つも無い x86-64 の環境。 -/
def sampleDecoder : Toolchain Bytes where
  decode := fun _ opcode => ⟨⟨[], opcode.take (sampleLength opcode), []⟩, false⟩
  disassemble := fun _ opcode => (sampleLength opcode, opcode.take (sampleLength opcode))
  hasSP := fun _ => false
  nativeCode := fun _ _ opcode => opcode
  hash := fun _ => 0
  tables := ⟨[], []⟩
  isPointerArg := fun _ _ _ => false
  loadRegoffs := fun _ _ => none
  pageBase := fun _ => 0
  pageSize := 0x1000
  abortImpl := 0

/--
`jmp +1; db 0xb0; nop; ret` の関数。`boundary` は、`jmp` の先の `nop` を解析が一つの命令として
見つけるかどうかである。
-/
def sampleJump (boundary : Bool) : PreEncoder.Binary where
  arch := .x86_64
  imageBase := 0
  functions := [⟨0x1000, 5, if boundary then [⟨0, 2, false⟩, ⟨3, 1, false⟩, ⟨4, 1, false⟩]
    else [⟨0, 2, false⟩, ⟨2, 2, false⟩, ⟨4, 1, false⟩]⟩]
  addrBuff := fun _ i => [0xeb, 0x01, 0xb0, 0x90, 0xc3].getD i 0

/-- `sampleJump` を `file` に符号化すること。 -/
def SampleEncodes (boundary : Bool) (s : Globals Bytes × OpcodeEngine) (file : Bytes) : Prop :=
  prefetch sampleDecoder .x86_64 (sampleJump boundary) Globals.empty = .ok s ∧
    (ofEngine ⟨[], []⟩ (sampleJump boundary) true (fun _ => 0) s.2).serialize [] [] = .ok file

set_option maxRecDepth 4000 in
theorem exists_sampleEncodes : ∀ boundary, ∃ s file, SampleEncodes boundary s file
  | true => ⟨_, _, rfl, rfl⟩
  | false => ⟨_, _, rfl, rfl⟩

/-- 境目が順に decode したものと同じなら、どの pointer も record の先頭である。 -/
theorem sampleJump_loadable : ∃ s file, SampleEncodes false s file ∧
    Loadable (ofEngine ⟨[], []⟩ (sampleJump false) true (fun _ => 0) s.2) file := by
  obtain ⟨s, file, hp, hser⟩ := exists_sampleEncodes false
  exact ⟨s, file, ⟨hp, hser⟩, (encode_loadable_iff hp hser).mpr (by decide)⟩

/--
`prefetch` は `eb 01`、`b0 90`、`c3` と decode するので、解析の見つけた `90` には handler が無い。
その pointer は `off_handlers` から 4 GiB 先で、file の外である。
-/
theorem sampleJump_not_loadable : ∃ s file, SampleEncodes true s file ∧
    ¬ Loadable (ofEngine ⟨[], []⟩ (sampleJump true) true (fun _ => 0) s.2) file := by
  obtain ⟨s, file, hp, hser⟩ := exists_sampleEncodes true
  refine ⟨s, file, ⟨hp, hser⟩, fun hload => ?_⟩
  obtain ⟨out, insns, hw⟩ := written_of_ok hser
  have hall := (insnmetas_handler_iff hp hw).mp ((loadable_iff_handlers hw).mp hload)
  exact absurd hall (by decide)

end AetherVM.InterpMetaData
