import AetherVM.Opcode.Engine

/-!
# AArch64 の SP を使う命令の番号（`src/OpcodeAArch64.cpp` の `initMCInstARM64`）

SP を operand に持ち、Remill の実装の無い命令は `OHT_MCInst` になり、`insts` の中の番号を引数に持つ。
番号は process の中で opcode が初めて現れた順であり、engine が消えても消されない。

engine と番号の表は、`prefetch` が decode した命令の列（`visits`）を左から畳み込んだものである。
-/

namespace AetherVM.Toolchain

open Infra

variable {μ : Type} {tc : Toolchain μ} {arch : ArchType}

/-- decode の結果と opcode が `OHT_MCInst` になる条件。 -/
def goesMCInst (tc : Toolchain μ) (arch : ArchType) (decoded : Decoded) (opcode : Bytes) : Bool :=
  arch = .arm64 && !tc.hasHandler arch decoded && tc.hasSP (tc.disassemble arch opcode).2

/-- opcode だけで見た `goesMCInst`。 -/
def isMCInst (tc : Toolchain μ) (arch : ArchType) (opcode : Bytes) : Bool :=
  tc.goesMCInst arch (tc.decode arch opcode) opcode

/-- AArch64 の命令は 4 byte である。decode できなければ長さは 0 で、逆 assemble できなければ operand は無い。 -/
structure FixedWidth (tc : Toolchain μ) : Prop where
  decode : ∀ bytes, bytes.length = 4 →
    (tc.decode .arm64 bytes).inst.bytes.length = 0 ∨ (tc.decode .arm64 bytes).inst.bytes.length = 4
  disassemble : ∀ opcode, opcode.length = 4 → tc.hasSP (tc.disassemble .arm64 opcode).2 = true →
    (tc.disassemble .arm64 opcode).1 = 4

/-! ## decode した命令の列 -/

/-- 訪れた命令では、decode の結果で見ても opcode で見ても `OHT_MCInst` の判定は同じである。 -/
def Agreeing (tc : Toolchain μ) (arch : ArchType) (v : Decoded × Bytes) : Prop :=
  tc.goesMCInst arch v.1 (opcodeKey v.2) = tc.isMCInst arch (opcodeKey v.2) ∧
    (arch = .arm64 → (opcodeKey v.2).length = 4)

theorem opcodeKey_of_length {bytes : Bytes} (h : bytes.length = 4) : opcodeKey bytes = bytes := by
  simp only [opcodeKey, h]
  show bytes.take 4 ++ zeros 0 = bytes
  rw [List.take_of_length_le (by omega)]
  exact List.append_nil _

theorem decodeAt_agreeing (hfix : tc.FixedWidth) (mem : Nat → UInt8) (ptr : Nat) :
    tc.Agreeing arch (tc.decodeAt arch mem ptr,
      (List.range (tc.decodeAt arch mem ptr).inst.bytes.length).map fun i => mem (ptr + i)) := by
  cases arch with
  | x86_64 => exact ⟨rfl, fun h => by cases h⟩
  | arm64 =>
    set word := (List.range 4).map fun i => mem (ptr + i) with hword
    have hlen : word.length = 4 := by rw [hword, List.length_map, List.length_range]
    have hdec : (tc.decodeAt .arm64 mem ptr).inst.bytes.length = 4 ∧
        (tc.decodeAt .arm64 mem ptr).valid = (tc.decode .arm64 word).valid ∧
        (tc.decodeAt .arm64 mem ptr).inst.function = (tc.decode .arm64 word).inst.function := by
      simp only [decodeAt, if_true, ← hword]
      split
      · exact ⟨hlen, rfl, rfl⟩
      · next hne => exact ⟨(hfix.decode word hlen).resolve_left hne, rfl, rfl⟩
    obtain ⟨hbytes, hvalid, hfunction⟩ := hdec
    rw [hbytes, ← hword]
    refine ⟨?_, fun _ => by rw [opcodeKey_of_length hlen, hlen]⟩
    simp only [opcodeKey_of_length hlen, isMCInst, goesMCInst, hasHandler, hvalid, hfunction]

theorem visits_agreeing (hfix : tc.FixedWidth) (mem : Nat → UInt8) (fin : Nat) :
    ∀ (fuel ptr : Nat), ∀ v ∈ tc.visits arch mem fin fuel ptr, tc.Agreeing arch v
  | 0, ptr, v, hv => by cases hv
  | fuel + 1, ptr, v, hv => by
    rw [visits] at hv
    split at hv
    · rcases List.mem_cons.mp hv with rfl | hv
      · exact decodeAt_agreeing hfix mem ptr
      · exact visits_agreeing hfix mem fin fuel _ v hv
    · cases hv

/-! ## 番号の表と handler -/

/-- 命令の登録。 -/
def mcRequest (tc : Toolchain μ) (arch : ArchType) (opcode : Bytes) :
    Request Fault UInt32 μ OperandInfo :=
  mcInstRequest opcode (tc.disassemble arch opcode).2

/-- 列のうち `OHT_MCInst` になる命令の登録。 -/
def mcRequests (tc : Toolchain μ) (arch : ArchType) (opcodes : List Bytes) :
    List (Request Fault UInt32 μ OperandInfo) :=
  (opcodes.filter (tc.isMCInst arch)).map (tc.mcRequest arch)

/-- handler が、自分の opcode の判定と登録どおりであること。 -/
structure Described (tc : Toolchain μ) (arch : ArchType) (insts : Interner UInt32 μ OperandInfo)
    (x : HandlerEntry) : Prop where
  length : arch = .arm64 → x.handler.opcode.length = 4
  type_iff : x.handler.type = .mcInst ↔ tc.isMCInst arch x.handler.opcode = true
  args : tc.isMCInst arch x.handler.opcode = true → ∃ info, x.handler.args = [info] ∧
    insts.map.lookup (opcodeWord x.handler.opcode) = some info ∧
    x.handler.oplen = UInt8.ofNat (tc.disassemble arch x.handler.opcode).1

theorem Described.mono {insts insts' : Interner UInt32 μ OperandInfo} (h : insts.Extends insts')
    {x : HandlerEntry} (hx : tc.Described arch insts x) : tc.Described arch insts' x where
  length := hx.length
  type_iff := hx.type_iff
  args := fun hmc => by
    obtain ⟨info, hargs, hlookup, hoplen⟩ := hx.args hmc
    exact ⟨info, hargs, h.lookup hlookup, hoplen⟩

/--
`opcodes` を読み終えた engine と番号の表。`hist` は、それまでに process が登録したものである。
-/
structure Numbered (tc : Toolchain μ) (arch : ArchType)
    (hist : List (Request Fault UInt32 μ OperandInfo)) (opcodes : List Bytes)
    (s : Globals μ × OpcodeEngine) : Prop where
  insts : s.1.insts.Holds (hist ++ tc.mcRequests arch opcodes)
  described : ∀ w, ∀ x ∈ s.2 w, tc.Described arch s.1.insts x

theorem mcRequests_concat (opcodes : List Bytes) (opcode : Bytes) :
    tc.mcRequests arch (opcodes ++ [opcode]) = tc.mcRequests arch opcodes
      ++ if tc.isMCInst arch opcode then [tc.mcRequest arch opcode] else [] := by
  simp only [mcRequests, List.filter_append, List.map_append]
  congr 1
  cases hmc : tc.isMCInst arch opcode with
  | true => simp [hmc]
  | false => simp [hmc]

theorem described_of_not {insts : Interner UInt32 μ OperandInfo} {x : HandlerEntry}
    (hlen : arch = .arm64 → x.handler.opcode.length = 4) (htype : x.handler.type ≠ .mcInst)
    (hmc : tc.isMCInst arch x.handler.opcode = false) :
    tc.Described arch insts x where
  length := hlen
  type_iff := ⟨fun h => absurd h htype, fun h => by rw [hmc] at h; cases h⟩
  args := fun h => by rw [hmc] at h; cases h

theorem isMCInst_of_not_sp {opcode : Bytes} {decoded : Decoded}
    (hgoes : tc.goesMCInst arch decoded opcode = tc.isMCInst arch opcode)
    (hsp : ¬ (arch = .arm64 ∧ tc.hasSP (tc.disassemble arch opcode).2 = true)) :
    tc.isMCInst arch opcode = false := by
  rw [← hgoes, goesMCInst]
  by_cases harch : arch = .arm64
  · have hno : tc.hasSP (tc.disassemble arch opcode).2 = false :=
      Bool.not_eq_true _ ▸ fun h => hsp ⟨harch, h⟩
    rw [hno, Bool.and_false]
  · rw [decide_eq_false harch, Bool.false_and, Bool.false_and]

theorem reservePage_insts (size : Nat) (g : Globals μ) :
    (tc.reservePage size g).1.insts = g.insts := by
  unfold reservePage
  split
  · split
    · rfl
    · rfl
  · rfl

/-- `init` が作る handler は、判定と登録どおりである。番号の表に触れるのは `OHT_MCInst` だけである。 -/
theorem Inits.described {opcode : Bytes} {decoded : Decoded} {g g' : Globals μ} {x : HandlerEntry}
    (h : tc.Inits arch opcode decoded g g' x)
    (hgoes : tc.goesMCInst arch decoded opcode = tc.isMCInst arch opcode)
    (hlen : arch = .arm64 → opcode.length = 4) :
    x.handler.opcode = opcode ∧ tc.Described arch g'.insts x ∧
      ((∃ info, tc.isMCInst arch opcode = true ∧
          g.insts.intern (tc.mcRequest arch opcode) = .ok (g'.insts, info)) ∨
        tc.isMCInst arch opcode = false ∧ g'.insts = g.insts) := by
  cases h with
  | remill hfound hargs =>
    have hmc : tc.isMCInst arch opcode = false := by
      rw [← hgoes, goesMCInst, hfound, Bool.not_true, Bool.and_false, Bool.false_and]
    exact ⟨rfl, described_of_not hlen (fun h => by cases h) hmc, .inr ⟨hmc, rfl⟩⟩
  | @mcInst insts info hfound harch hsp hinfo =>
    have hmc : tc.isMCInst arch opcode = true := by
      rw [← hgoes, goesMCInst, hfound, hsp, harch]
      rfl
    refine ⟨rfl, ⟨hlen, ⟨fun _ => hmc, fun _ => rfl⟩, fun _ => ⟨info, rfl, ?_, rfl⟩⟩,
      .inl ⟨info, hmc, hinfo⟩⟩
    exact (Interner.intern_extends hinfo).2
  | abort hfound hsp =>
    have hmc := isMCInst_of_not_sp hgoes hsp
    exact ⟨rfl, described_of_not hlen (fun h => by cases h) hmc, .inr ⟨hmc, rfl⟩⟩
  | @code g₁ page oplen size hfound hsp hpage =>
    have hmc := isMCInst_of_not_sp hgoes hsp
    refine ⟨rfl, described_of_not hlen (fun h => by cases h) hmc, .inr ⟨hmc, ?_⟩⟩
    have hinsts : (tc.reservePage size (g.loadRegoffs arch)).1.insts = g.insts :=
      reservePage_insts size _
    rw [hpage] at hinsts
    exact hinsts

/-- 登録済みの命令をもう一度登録しても、表は変わらない。 -/
theorem holds_of_lookup {insts : Interner UInt32 μ OperandInfo}
    {seen : List (Request Fault UInt32 μ OperandInfo)} (hs : insts.Holds seen)
    {r : Request Fault UInt32 μ OperandInfo} {info : OperandInfo}
    (h : insts.map.lookup r.key = some info) : insts.Holds (seen ++ [r]) := by
  refine Interner.intern_holds hs (v := info) ?_
  rw [Interner.intern, h]

/-- 命令を一つ読んでも、engine と番号の表は列を反映している。 -/
theorem prefetchOne_numbered {hist : List (Request Fault UInt32 μ OperandInfo)}
    {opcodes : List Bytes} {v : Decoded × Bytes} {s s' : Globals μ × OpcodeEngine}
    (h : tc.prefetchOne arch v.1 v.2 s = .ok s') (hv : tc.Agreeing arch v)
    (hs : tc.Numbered arch hist opcodes s) :
    tc.Numbered arch hist (opcodes ++ [opcodeKey v.2]) s' := by
  -- 同じ opcode の handler がもうあれば、engine も番号の表も変わらない
  simp only [prefetchOne] at h
  split at h
  · next y hfind =>
    cases h
    refine ⟨?_, hs.described⟩
    rw [mcRequests_concat, ← List.append_assoc]
    split
    · next hmc =>
      have hy := hs.described _ y (List.mem_of_find?_eq_some hfind)
      have hop : y.handler.opcode = opcodeKey v.2 := by
        have := List.find?_some hfind
        exact of_decide_eq_true this
      obtain ⟨info, -, hlookup, -⟩ := hy.args (hop ▸ hmc)
      exact holds_of_lookup hs.insts (hop ▸ hlookup)
    · rw [List.append_nil]
      exact hs.insts
  · obtain ⟨⟨g, x⟩, hinit, h⟩ := ok_of_bind_eq_ok h
    cases h
    obtain ⟨hop, hx, hinsts⟩ := (init_inits hinit).described hv.1 hv.2
    -- 新しい handler が `OHT_MCInst` なら要求が一つ増え、ほかの種類なら表はそのまま
    have hnew : s.1.insts.Extends g.insts ∧
        g.insts.Holds (hist ++ tc.mcRequests arch (opcodes ++ [opcodeKey v.2])) := by
      rw [mcRequests_concat, ← List.append_assoc]
      rcases hinsts with ⟨info, hmc, hinfo⟩ | ⟨hmc, hsame⟩
      · rw [if_pos hmc]
        exact ⟨(Interner.intern_extends hinfo).1, Interner.intern_holds hs.insts hinfo⟩
      · rw [hmc, hsame]
        exact ⟨.refl _, by simpa using hs.insts⟩
    refine ⟨hnew.2, fun w y hy => ?_⟩
    rcases mem_update_insert hy with rfl | hy
    · exact hx
    · exact (hs.described w y hy).mono hnew.1

theorem prefetchAll_numbered {hist : List (Request Fault UInt32 μ OperandInfo)} :
    ∀ {vs : List (Decoded × Bytes)} {opcodes : List Bytes} {s s' : Globals μ × OpcodeEngine},
    tc.prefetchAll arch vs s = .ok s' → (∀ v ∈ vs, tc.Agreeing arch v) →
    tc.Numbered arch hist opcodes s →
    tc.Numbered arch hist (opcodes ++ vs.map fun v => opcodeKey v.2) s'
  | [], opcodes, s, s', h, _, hs => by
    cases h
    rw [List.map_nil, List.append_nil]
    exact hs
  | v :: vs, opcodes, s, s', h, hv, hs => by
    obtain ⟨s₁, h1, h⟩ := ok_of_bind_eq_ok h
    have hs₁ := prefetchOne_numbered h1 (hv v List.mem_cons_self) hs
    have hs' := prefetchAll_numbered h (fun w hw => hv w (List.mem_cons_of_mem _ hw)) hs₁
    rw [List.append_assoc] at hs'
    exact hs'

end AetherVM.Toolchain
