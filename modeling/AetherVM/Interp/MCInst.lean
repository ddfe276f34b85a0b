import Mathlib.Data.List.Forall2
import AetherVM.Encode.Prefetch
import AetherVM.Encode.Roundtrip
import AetherVM.Opcode.MCInst

/-!
# MCInst の handler の解決（`src/InterpMetaData.cpp` の `RuntimeMetaData::RuntimeMetaData`）

書き手は、`OHT_MCInst` の handler に process の中の番号を書く。番号は opcode が初めて現れた順である。
読み手は、命令の表を先頭から見て、`OHT_MCInst` の命令ごとに逆 assemble したものを積み、書かれた番号を
その列の位置として使う。二つの番号が合うのは、特別な並びのときだけである。
-/

namespace AetherVM.InterpMetaData

open Infra IMetaData PreEncoder

variable {μ ν : Type}

/-! ## 読み手 -/

/--
constructor の loop。`disas` は `CPU.runtime` の逆 assembler である。`assert` は無いものとして扱う。
file の外を読むか、`abort` すれば `none` である。
-/
def loadMCInsts (disas : Bytes → ν) (file : Bytes) (md : Header) :
    List InsnMeta → List ν → Option (List ν)
  | [], mcinsts => some mcinsts
  | insn :: rest, mcinsts =>
    match readHandler file (md.handler insn) with
    | none => none
    | some view =>
      if view.head.type.toNat = HandlerType.mcInst.toNat then
        loadMCInsts disas file md rest (mcinsts ++ [disas view.opcode])
      else if view.head.type.toNat = HandlerType.prebuilt.toNat
          ∨ view.head.type.toNat = HandlerType.prebuiltMapped.toNat then none
      else loadMCInsts disas file md rest mcinsts

/-- 読み込んだ module のうち、MCInst に関わるもの。 -/
structure MCInstTable (ν : Type) where
  metadata : Header
  insns : List InsnMeta
  mcinsts : List ν

/-- `RuntimeMetaData::RuntimeMetaData`。 -/
def construct (disas : Bytes → ν) (file : Bytes) : Option (MCInstTable ν) := do
  let md ← headerCodec.read file 0
  let insns ← md.readInsns file
  let mcinsts ← loadMCInsts disas file md insns []
  some ⟨md, insns, mcinsts⟩

/-- `OHT_MCInst` の命令が、どれも自分の opcode を逆 assemble したものに解決されること。 -/
def Resolves (disas : Bytes → ν) (file : Bytes) (rt : MCInstTable ν) : Prop :=
  ∀ insn ∈ rt.insns, ∀ view, readHandler file (rt.metadata.handler insn) = some view →
    view.head.type.toNat = HandlerType.mcInst.toNat →
    rt.mcinsts[view.head.impl.toNat]? = some (disas view.opcode)

/-! ## 書き手の番号 -/

section

variable (tc : Toolchain μ) (arch : ArchType) (bin : PreEncoder.Binary)

/-- decode する opcode の列。 -/
def stream : List Bytes := (visited tc arch bin).map fun v => opcodeKey v.2

/-- 表に載る命令の opcode。 -/
def tableOpcodes : List Bytes := (tableInsns bin).map fun p => opcodeKey (insnBytes bin p.1 p.2)

/-- 表に載る `OHT_MCInst` の命令の opcode。 -/
def tableMCInsts : List Bytes := (tableOpcodes bin).filter (tc.isMCInst arch)

/--
opcode に振られる番号。`hist` は、この符号化の前に process が登録した opcode である。
番号は 31 bit の field に入る。
-/
def rank (hist : List UInt32) (opcode : Bytes) : Nat :=
  (hist ++ ((stream tc arch bin).filter (tc.isMCInst arch)).map
    Toolchain.opcodeWord).eraseDups.idxOf (Toolchain.opcodeWord opcode) % 2 ^ 31

end

variable {tc : Toolchain μ} {arch : ArchType} {bin : PreEncoder.Binary}

/-- 符号化の準備が終わった engine と番号の表は、decode した列を反映している。 -/
theorem prefetch_numbered (hfix : tc.FixedWidth)
    {hist : List (Request Fault UInt32 μ OperandInfo)} {g : Globals μ} (hg : g.insts.Holds hist)
    {s : Globals μ × OpcodeEngine} (h : prefetch tc arch bin g = .ok s) :
    tc.Numbered arch hist (stream tc arch bin) s := by
  rw [prefetch, prefetchFrom_eq] at h
  have hinit : tc.Numbered arch hist [] (g, fun _ => []) := by
    refine ⟨?_, fun w x hx => by cases hx⟩
    show g.insts.Holds (hist ++ [])
    rw [List.append_nil]
    exact hg
  have hs := Toolchain.prefetchAll_numbered h ?_ hinit
  · exact hs
  · intro v hv
    obtain ⟨func, -, hv⟩ := List.mem_flatMap.mp hv
    exact Toolchain.visits_agreeing hfix _ _ _ _ v hv

/-! ## 表の命令と handler -/

/-- 番号の範囲は、集合の並びに合っている。 -/
theorem loadHandlers_getElem? (engine : OpcodeEngine) (w : OpcodeWidth) {i : Nat}
    {x : HandlerEntry} (h : (engine w)[i]? = some x) :
    (loadHandlers engine)[rangeStart engine w + i]?
      = some ⟨x.handler.opcode.length, x.handler, rfl⟩ := by
  have hlt := (List.getElem?_eq_some_iff.mp h).1
  rw [loadHandlers, List.getElem?_map]
  -- 表は幅の順に連結してあり、先立つ幅の長さだけずれる
  have hget : (engine .w1 ++ engine .w2 ++ engine .w4 ++ engine .w8 ++ engine .w16)[
      rangeStart engine w + i]? = some x := by
    rw [← h]
    cases w with
    | w1 =>
      simp only [rangeStart, List.append_assoc]
      rw [List.getElem?_append_left (by omega), Nat.zero_add]
    | w2 =>
      simp only [rangeStart, List.append_assoc]
      rw [List.getElem?_append_right (by omega), List.getElem?_append_left (by omega),
        Nat.add_sub_cancel_left]
    | w4 =>
      simp only [rangeStart]
      rw [List.getElem?_append_left (by simp only [List.length_append]; omega),
        List.getElem?_append_left (by simp only [List.length_append]; omega),
        List.getElem?_append_right (by simp only [List.length_append]; omega)]
      simp only [List.length_append, Nat.add_sub_cancel_left]
    | w8 =>
      simp only [rangeStart]
      rw [List.getElem?_append_left (by simp only [List.length_append]; omega),
        List.getElem?_append_right (by simp only [List.length_append]; omega)]
      simp only [List.length_append, Nat.add_sub_cancel_left]
    | w16 =>
      simp only [rangeStart]
      rw [List.getElem?_append_right (by simp only [List.length_append]; omega)]
      simp only [List.length_append, Nat.add_sub_cancel_left]
  rw [hget]
  rfl

/-- `handlerIndex` の返す番号の handler は、求めた opcode を持つ。 -/
theorem handlerIndex_spec {engine : OpcodeEngine} {opcode : Bytes}
    (hlen : (loadHandlers engine).length ≤ uint32Max)
    (h : handlerIndex engine opcode ≠ noHandler) :
    ∃ w, ∃ x ∈ engine w, x.handler.opcode = opcodeKey opcode ∧
      (loadHandlers engine)[(handlerIndex engine opcode).toNat]?
        = some ⟨x.handler.opcode.length, x.handler, rfl⟩ := by
  unfold handlerIndex at h ⊢
  split
  · next hbad => rw [if_pos hbad] at h; exact absurd rfl h
  next hbad =>
  rw [if_neg hbad] at h
  dsimp only at h ⊢
  cases hx : (engine (.ofLength opcode.length))[lowerBound (engine (.ofLength opcode.length))
      (opcodeKey opcode)]? with
  | none => rw [hx] at h; exact absurd rfl h
  | some x =>
    rw [hx] at h
    dsimp only at h ⊢
    split at h
    · next hop =>
      have hget := loadHandlers_getElem? engine _ hx
      have hlt := (List.getElem?_eq_some_iff.mp hget).1
      refine ⟨_, x, List.mem_of_getElem? hx, hop, ?_⟩
      rw [if_pos hop, Written.toNat_ofNat (by omega)]
      exact hget
    · exact absurd rfl h

/-- 番兵を持つ命令の record は、file の外を指す。 -/
theorem readHandler_noHandler {e : PreEncoder} {operands : List Operand}
    {expressions : List Expression} {file : Bytes} {out : List (Nat × Bytes)}
    {insns : List InsnMeta} (hw : Written e operands expressions file out insns)
    {insn : InsnMeta} (h : insn.handler = noHandler) :
    readHandler file (hw.metadata.handler insn) = none := by
  have hle := hw.size_le
  have hno : noHandler.toNat = uint32Max := rfl
  have hread : handlerCodec.read file (hw.metadata.handler insn) = none := by
    rw [Codec.read, readBytes, if_neg, Option.bind_none]
    rw [Header.handler, h, hno]
    have hsize : handlerCodec.size = 4 := rfl
    omega
  rw [readHandler, hread, Option.bind_none]

/-- process がそれまでに登録した命令。 -/
def histRequests (hist : List (Bytes × μ)) : List (Request Fault UInt32 μ OperandInfo) :=
  hist.map fun p => Toolchain.mcInstRequest p.1 p.2

/-- 登録された番号は、初出の順位である。 -/
theorem lookup_rank {hist : List (Bytes × μ)} {s : Globals μ × OpcodeEngine}
    (hs : tc.Numbered arch (histRequests hist) (stream tc arch bin) s) {opcode : Bytes}
    {info : OperandInfo} (h : s.1.insts.map.lookup (Toolchain.opcodeWord opcode) = some info) :
    info.index = rank tc arch bin (hist.map fun p => Toolchain.opcodeWord p.1) opcode := by
  obtain ⟨r, hr, -, hinfo⟩ := hs.insts.value_idxOf h
  have hmake : ∀ n, (r.make n).index = n % 2 ^ 31 := by
    rcases List.mem_append.mp hr with hr | hr
    · obtain ⟨p, -, rfl⟩ := List.mem_map.mp hr
      exact fun n => rfl
    · obtain ⟨o, -, rfl⟩ := List.mem_map.mp hr
      exact fun n => rfl
  rw [hinfo, hmake, rank, List.map_append, histRequests, Toolchain.mcRequests, List.map_map,
    List.map_map]
  rfl

section

variable {hist : List (Bytes × μ)} {g : Globals μ} {s : Globals μ × OpcodeEngine}
  {tables : HandlerTables} {haswx : Bool} {mem : UInt64 → UInt8} {operands : List Operand}
  {expressions : List Expression} {file : Bytes} {out : List (Nat × Bytes)}
  {insns : List InsnMeta}

/-- 読めた record は、表の命令の opcode の handler のものである。 -/
theorem entry_handler (hs : tc.Numbered arch (histRequests hist) (stream tc arch bin) s)
    (hw : Written (ofEngine tables bin haswx mem s.2) operands expressions file out insns)
    {i : Nat} {p : BinaryFunc × BinaryInsn} {insn : InsnMeta} {view : HandlerView}
    (hp : (tableInsns bin)[i]? = some p) (hi : insns[i]? = some insn)
    (hview : readHandler file (hw.metadata.handler insn) = some view) :
    ∃ x impl d d', tc.Described arch s.1.insts x ∧
      x.handler.opcode = opcodeKey (insnBytes bin p.1 p.2) ∧
      (ofEngine tables bin haswx mem s.2).implField x.handler d = some (impl, d') ∧
      view = ⟨recordHead x.handler impl, x.handler.opcode.take x.handler.oplen.toNat,
        metaArgs x.handler⟩ := by
  have hsrc : (ofEngine tables bin haswx mem s.2).insnmetas[i]?
      = some ⟨(p.1.start - bin.imageBase + UInt64.ofNat p.2.fnoff).toUInt32,
          handlerIndex s.2 (insnBytes bin p.1 p.2)⟩ := by
    show (analyzeInsnMeta bin s.2)[i]? = _
    rw [analyzeInsnMeta, List.getElem?_map, hp]
    rfl
  by_cases hno : handlerIndex s.2 (insnBytes bin p.1 p.2) = noHandler
  · -- 番兵の番号は offset も番兵になるので、読み手は handler を得ない
    obtain ⟨o, ho, -, hcase⟩ := (resolveInsns_getElem? hw.resolved).2 hsrc
    rw [hi, Option.some.injEq] at ho
    rcases hcase with ⟨-, hsentinel⟩ | ⟨hne, -⟩
    · rw [readHandler_noHandler hw (ho ▸ hsentinel)] at hview
      cases hview
    · exact absurd hno hne
  · obtain ⟨source, impl, d, d', hsource, -, himpl, hread⟩ := hw.readHandler_insn hsrc hno hi
    have hlen : (loadHandlers s.2).length ≤ uint32Max := by
      have hle := hw.handlers_le
      rw [hw.isSerialized.length_eq] at hle
      exact hle
    obtain ⟨w, x, hx, hop, hget⟩ := handlerIndex_spec hlen hno
    have heq : source = ⟨x.handler.opcode.length, x.handler, rfl⟩ :=
      Option.some.inj (hsource.symm.trans hget)
    subst heq
    rw [hread, Option.some.injEq] at hview
    exact ⟨x, impl, d, d', hs.described w x hx, hop, himpl, hview.symm⟩

/-- `OHT_MCInst` の命令の record には、opcode と、その初出の順位が書かれている。 -/
theorem entry_spec (hfix : tc.FixedWidth)
    (hs : tc.Numbered arch (histRequests hist) (stream tc arch bin) s)
    (hw : Written (ofEngine tables bin haswx mem s.2) operands expressions file out insns)
    {i : Nat} {p : BinaryFunc × BinaryInsn} {insn : InsnMeta} {view : HandlerView}
    (hp : (tableInsns bin)[i]? = some p) (hi : insns[i]? = some insn)
    (hview : readHandler file (hw.metadata.handler insn) = some view) :
    (view.head.type.toNat = HandlerType.mcInst.toNat ↔
        tc.isMCInst arch (opcodeKey (insnBytes bin p.1 p.2)) = true) ∧
      (tc.isMCInst arch (opcodeKey (insnBytes bin p.1 p.2)) = true →
        view.opcode = opcodeKey (insnBytes bin p.1 p.2) ∧
        view.head.impl.toNat = rank tc arch bin (hist.map fun p => Toolchain.opcodeWord p.1)
          (opcodeKey (insnBytes bin p.1 p.2))) := by
  obtain ⟨x, impl, d, d', hx, hop, himpl, rfl⟩ := entry_handler hs hw hp hi hview
  rw [← hop]
  refine ⟨?_, fun hmc => ?_⟩
  · rw [recordHead_type, ← hx.type_iff]
    exact ⟨HandlerType.toNat_inj, congrArg HandlerType.toNat⟩
  · -- `MCInst` になるのは arm64 の固定長の命令だけで、番号は初出の順位である
    have harch : arch = .arm64 := by
      rw [Toolchain.isMCInst, Toolchain.goesMCInst, Bool.and_eq_true, Bool.and_eq_true] at hmc
      exact of_decide_eq_true hmc.1.1
    have hsp : tc.hasSP (tc.disassemble .arm64 x.handler.opcode).2 = true := by
      rw [Toolchain.isMCInst, Toolchain.goesMCInst, Bool.and_eq_true, harch] at hmc
      exact hmc.2
    obtain ⟨info, hargs, hlookup, hoplen⟩ := hx.args hmc
    have hlen := hx.length harch
    have hoplen : x.handler.oplen.toNat = 4 := by
      rw [hoplen, harch, hfix.disassemble _ hlen hsp]
      rfl
    refine ⟨?_, ?_⟩
    · rw [hoplen, List.take_of_length_le (by omega)]
    · rw [← lookup_rank hs hlookup]
      simp only [PreEncoder.implField, hx.type_iff.mpr hmc, hargs] at himpl
      split at himpl
      · cases himpl
      next hlt =>
      have hno : noImpl = 65535 := rfl
      simp only [Option.some.injEq, Prod.mk.injEq] at himpl
      show impl.toNat = _
      rw [← himpl.1, UInt16.toNat_ofNat']
      exact Nat.mod_eq_of_lt (by omega)

/-- 命令 `insn` から読める record が、opcode `key` の判定と opcode を伝えること。 -/
def Reads (tc : Toolchain μ) (arch : ArchType) (file : Bytes) (md : Header) (insn : InsnMeta)
    (key : Bytes) : Prop :=
  ∀ view, readHandler file (md.handler insn) = some view →
    (view.head.type.toNat = HandlerType.mcInst.toNat ↔ tc.isMCInst arch key = true) ∧
      (tc.isMCInst arch key = true → view.opcode = key)

/-- 読み手の積む列は、表の `OHT_MCInst` の命令を順に逆 assemble したものである。 -/
theorem loadMCInsts_eq {disas : Bytes → ν} {md : Header} {insns : List InsnMeta}
    {keys : List Bytes} (hr : List.Forall₂ (Reads tc arch file md) insns keys) :
    ∀ {acc mcinsts : List ν}, loadMCInsts disas file md insns acc = some mcinsts →
    mcinsts = acc ++ (keys.filter (tc.isMCInst arch)).map disas ∧
      ∀ insn ∈ insns, ∃ view, readHandler file (md.handler insn) = some view := by
  -- 読み手は表の順に `OHT_MCInst` の命令だけを積む
  induction hr with
  | nil =>
    intro acc mcinsts h
    cases h
    exact ⟨(List.append_nil _).symm, fun _ hm => absurd hm List.not_mem_nil⟩
  | @cons insn key insns keys hread _ ih =>
    intro acc mcinsts h
    rw [loadMCInsts] at h
    split at h
    · cases h
    next view hview =>
    obtain ⟨htype, hop⟩ := hread view hview
    split at h
    · next hmc =>
      have hmc := htype.mp hmc
      obtain ⟨heq, hall⟩ := ih h
      refine ⟨?_, List.forall_mem_cons.mpr ⟨⟨view, hview⟩, hall⟩⟩
      rw [heq, List.filter_cons_of_pos hmc, List.map_cons, hop hmc, List.append_assoc]
      rfl
    · next hmc =>
      split at h
      · cases h
      obtain ⟨heq, hall⟩ := ih h
      refine ⟨?_, List.forall_mem_cons.mpr ⟨⟨view, hview⟩, hall⟩⟩
      rw [heq, List.filter_cons_of_neg fun hc => hmc (htype.mpr hc)]

theorem forall₂_reads (hfix : tc.FixedWidth)
    (hs : tc.Numbered arch (histRequests hist) (stream tc arch bin) s)
    (hw : Written (ofEngine tables bin haswx mem s.2) operands expressions file out insns) :
    List.Forall₂ (Reads tc arch file hw.metadata) insns (tableOpcodes bin) := by
  have hlen : insns.length = (tableInsns bin).length := by
    rw [(resolveInsns_getElem? hw.resolved).1]
    exact List.length_map _
  refine List.forall₂_iff_get.mpr ⟨by rw [hlen, tableOpcodes, List.length_map], ?_⟩
  intro i hi hk view hview
  have hp : i < (tableInsns bin).length := hlen ▸ hi
  obtain ⟨htype, hspec⟩ := entry_spec hfix hs hw (List.getElem?_eq_getElem hp)
    (List.getElem?_eq_getElem hi) hview
  have hkey : (tableOpcodes bin).get ⟨i, hk⟩
      = opcodeKey (insnBytes bin (tableInsns bin)[i].1 (tableInsns bin)[i].2) := by
    simp only [tableOpcodes, List.get_eq_getElem, List.getElem_map]
  rw [hkey]
  exact ⟨htype, fun hmc => (hspec hmc).1⟩

/-- 読めた module の中身。 -/
theorem construct_spec (hfix : tc.FixedWidth)
    (hs : tc.Numbered arch (histRequests hist) (stream tc arch bin) s)
    (hw : Written (ofEngine tables bin haswx mem s.2) operands expressions file out insns)
    {disas : Bytes → ν} {rt : MCInstTable ν} (hrt : construct disas file = some rt) :
    rt.metadata = hw.metadata ∧ rt.insns = insns ∧
      rt.mcinsts = (tableMCInsts tc arch bin).map disas ∧
      ∀ insn ∈ insns, ∃ view, readHandler file (hw.metadata.handler insn) = some view := by
  rw [construct, hw.read_header, Option.bind_eq_bind, Option.bind_some, hw.readInsns,
    Option.bind_eq_bind, Option.bind_some, Option.bind_eq_bind] at hrt
  obtain ⟨mcinsts, hload, hrt⟩ := Option.bind_eq_some_iff.mp hrt
  cases hrt
  obtain ⟨heq, hall⟩ := loadMCInsts_eq (forall₂_reads hfix hs hw) hload
  exact ⟨rfl, rfl, heq, hall⟩

/-- 解決されるなら、初出の順位の位置に同じ命令がある。 -/
theorem rank_of_resolves (hfix : tc.FixedWidth)
    (hs : tc.Numbered arch (histRequests hist) (stream tc arch bin) s)
    (hw : Written (ofEngine tables bin haswx mem s.2) operands expressions file out insns)
    {disas : Bytes → ν} {rt : MCInstTable ν} (hrt : construct disas file = some rt)
    (hres : Resolves disas file rt) {o : Bytes} (ho : o ∈ tableMCInsts tc arch bin) :
    ((tableMCInsts tc arch bin).map disas)[
      rank tc arch bin (hist.map fun p => Toolchain.opcodeWord p.1) o]? = some (disas o) := by
  obtain ⟨hmd, hinsns, heq, hall⟩ := construct_spec hfix hs hw hrt
  have hlen := (forall₂_reads hfix hs hw).length_eq
  rw [tableOpcodes, List.length_map] at hlen
  obtain ⟨hmem, hmc⟩ := List.mem_filter.mp ho
  obtain ⟨p, hpmem, rfl⟩ := List.mem_map.mp hmem
  obtain ⟨i, hi, rfl⟩ := List.getElem_of_mem hpmem
  have hii : i < insns.length := hlen ▸ hi
  obtain ⟨view, hview⟩ := hall _ (List.getElem_mem hii)
  obtain ⟨htype, hspec⟩ := entry_spec hfix hs hw (List.getElem?_eq_getElem hi)
    (List.getElem?_eq_getElem hii) hview
  obtain ⟨hop, himpl⟩ := hspec hmc
  have hget := hres _ (hinsns ▸ List.getElem_mem hii) view (hmd ▸ hview) (htype.mpr hmc)
  rw [← himpl, ← hop, ← heq]
  exact hget

/-- 初出の順位の位置にいつも同じ命令があるなら、解決される。 -/
theorem resolves_of_rank (hfix : tc.FixedWidth)
    (hs : tc.Numbered arch (histRequests hist) (stream tc arch bin) s)
    (hw : Written (ofEngine tables bin haswx mem s.2) operands expressions file out insns)
    {disas : Bytes → ν} {rt : MCInstTable ν} (hrt : construct disas file = some rt)
    (hcond : ∀ o ∈ tableMCInsts tc arch bin, ((tableMCInsts tc arch bin).map disas)[
      rank tc arch bin (hist.map fun p => Toolchain.opcodeWord p.1) o]? = some (disas o)) :
    Resolves disas file rt := by
  obtain ⟨hmd, hinsns, heq, -⟩ := construct_spec hfix hs hw hrt
  have hlen := (forall₂_reads hfix hs hw).length_eq
  rw [tableOpcodes, List.length_map] at hlen
  intro insn hinsn view hview htype
  rw [hinsns] at hinsn
  rw [hmd] at hview
  obtain ⟨i, hi, rfl⟩ := List.getElem_of_mem hinsn
  have hii : i < (tableInsns bin).length := hlen ▸ hi
  obtain ⟨htype', hspec⟩ := entry_spec hfix hs hw (List.getElem?_eq_getElem hii)
    (List.getElem?_eq_getElem hi) hview
  have hmc := htype'.mp htype
  obtain ⟨hop, himpl⟩ := hspec hmc
  have hmem : opcodeKey (insnBytes bin (tableInsns bin)[i].1 (tableInsns bin)[i].2)
      ∈ tableMCInsts tc arch bin :=
    List.mem_filter.mpr ⟨List.mem_map.mpr ⟨_, List.getElem_mem hii, rfl⟩, hmc⟩
  rw [himpl, hop, heq]
  exact hcond _ hmem

/--
`OHT_MCInst` の命令がすべて自分の命令に解決されるのは、表の `OHT_MCInst` の命令のどれについても、
process の中での初出の順位を表の中の `OHT_MCInst` の命令の位置として見たとき、そこに同じ命令が
あるときに限る。
-/
theorem resolves_iff (hfix : tc.FixedWidth) (hg : g.insts.Holds (histRequests hist))
    (hp : prefetch tc arch bin g = .ok s)
    (hser : (ofEngine tables bin haswx mem s.2).serialize operands expressions = .ok file)
    {disas : Bytes → ν} {rt : MCInstTable ν} (hrt : construct disas file = some rt) :
    Resolves disas file rt ↔ ∀ o ∈ tableMCInsts tc arch bin,
      ((tableMCInsts tc arch bin).map disas)[
        rank tc arch bin (hist.map fun p => Toolchain.opcodeWord p.1) o]? = some (disas o) := by
  have hs := prefetch_numbered hfix hg hp
  obtain ⟨out, insns, hw⟩ := written_of_ok hser
  exact ⟨fun hres o ho => rank_of_resolves hfix hs hw hrt hres ho, resolves_of_rank hfix hs hw hrt⟩

end

/-! ## 例 -/

/-- 先頭の byte が 1 か 2 の命令だけが SP を使い、Remill の実装は一つも無い環境。 -/
def sampleToolchain : Toolchain Bytes where
  decode := fun _ _ => ⟨⟨[], [], []⟩, false⟩
  disassemble := fun _ opcode => (opcode.length, opcode)
  hasSP := fun inst => inst.head? = some 1 ∨ inst.head? = some 2
  nativeCode := fun _ _ _ => []
  hash := fun _ => 0
  tables := ⟨[], []⟩
  isPointerArg := fun _ _ _ => false
  loadRegoffs := fun _ _ => none
  pageBase := fun _ => 0
  pageSize := 0x1000
  abortImpl := 0

theorem sampleToolchain_fixedWidth : sampleToolchain.FixedWidth where
  decode := fun _ _ => .inl rfl
  disassemble := fun _ hlen _ => hlen

/-- 先頭の byte が `heads` の順に並ぶ、関数一つの ARM64 の binary。 -/
def sampleBinary (heads : List UInt8) : PreEncoder.Binary where
  arch := .arm64
  imageBase := 0
  functions := [⟨0x1000, heads.length * 4,
    (List.range heads.length).map fun i => ⟨i * 4, 4, false⟩⟩]
  addrBuff := fun _ i => if i % 4 = 0 then heads.getD (i / 4) 0 else 0

/-- binary を符号化して読み込むと、`mcinsts` が得られること。 -/
def SampleLoads (heads : List UInt8) (mcinsts : List Bytes) (s : Globals Bytes × OpcodeEngine)
    (file : Bytes) (rt : MCInstTable Bytes) : Prop :=
  prefetch sampleToolchain .arm64 (sampleBinary heads) Globals.empty = .ok s ∧
    (ofEngine ⟨[], []⟩ (sampleBinary heads) true (fun _ => 0) s.2).serialize [] [] = .ok file ∧
    construct id file = some rt ∧ rt.mcinsts = mcinsts

theorem holds_histRequests_nil :
    (Globals.empty : Globals Bytes).insts.Holds (histRequests []) := Interner.holds_empty

set_option maxRecDepth 4000 in
theorem sampleLoads_distinct : ∃ s file rt,
    SampleLoads [1, 2] [[1, 0, 0, 0], [2, 0, 0, 0]] s file rt := ⟨_, _, _, rfl, rfl, rfl, rfl⟩

set_option maxRecDepth 4000 in
theorem sampleLoads_repeated : ∃ s file rt,
    SampleLoads [1, 1, 2] [[1, 0, 0, 0], [1, 0, 0, 0], [2, 0, 0, 0]] s file rt :=
  ⟨_, _, _, rfl, rfl, rfl, rfl⟩

/-- 異なる命令が一度ずつなら、どれも自分の命令に解決される。 -/
theorem sampleBinary_resolves : ∃ s file rt,
    SampleLoads [1, 2] [[1, 0, 0, 0], [2, 0, 0, 0]] s file rt ∧ Resolves id file rt := by
  obtain ⟨s, file, rt, hload⟩ := sampleLoads_distinct
  refine ⟨s, file, rt, hload, ?_⟩
  obtain ⟨hp, hser, hrt, -⟩ := hload
  exact (resolves_iff sampleToolchain_fixedWidth holds_histRequests_nil hp hser hrt).mpr
    (by decide)

/--
同じ命令が二度現れた後の命令は、別の命令に解決される。番号 1 の `[2, 0, 0, 0]` に対して、読み手の
列の 1 番目は二度目の `[1, 0, 0, 0]` である。
-/
theorem sampleBinary_not_resolves : ∃ s file rt,
    SampleLoads [1, 1, 2] [[1, 0, 0, 0], [1, 0, 0, 0], [2, 0, 0, 0]] s file rt ∧
      ¬ Resolves id file rt := by
  obtain ⟨s, file, rt, hload⟩ := sampleLoads_repeated
  refine ⟨s, file, rt, hload, fun hres => ?_⟩
  obtain ⟨hp, hser, hrt, -⟩ := hload
  have hs := prefetch_numbered sampleToolchain_fixedWidth holds_histRequests_nil hp
  obtain ⟨out, insns, hw⟩ := written_of_ok hser
  have hget : ((tableMCInsts sampleToolchain .arm64 (sampleBinary [1, 1, 2])).map id)[
      rank sampleToolchain .arm64 (sampleBinary [1, 1, 2]) [] [2, 0, 0, 0]]?
        = some [2, 0, 0, 0] :=
    rank_of_resolves sampleToolchain_fixedWidth hs hw hrt hres (by decide)
  exact absurd hget (by decide)

end AetherVM.InterpMetaData
