import AetherVM.Engine.Load
import AetherVM.Engine.Skip

/-!
# 番地の変換（`BinaryEngine::execute`、`mappedAddress`、`getRegister`）

binary の番地と実行時の番地を移し合う所が三つある。

* `encode` は、命令の番地に `basePointer` を足して登録する。
* `mappedAddress` も `basePointer` を足し、commit した範囲に収まるかを見る。
* `getRegister(PC)` は `imageBase + pc - basePointer` を返す。

`imageBase` を引くのは三番目だけなので、`imageBase` が 0 でない binary では食い違う。

opcode を解釈するときの PC は、section の表を先頭から見て、file の buffer の中の番地を section の番地に直す。表の
途中に `TEXT` でない section があると、そこで止まる。
-/

namespace AetherVM

open Infra Orchestrator

namespace EngineState

variable {σ γ : Type} {e : Engine σ γ} {page : UInt64} {success : Bool}
  {opcode : Option OpcodeBinary} {s : EngineState σ γ} {bin : AttachedBinary} {f : Func} {i : Insn}

/-- 命令の、binary の中の番地。 -/
def staticAddr (f : Func) (i : Insn) : UInt64 := UInt64.ofNat (f.addr + i.fnoff)

/--
命令の三つの番地が一つの番地 `rtaddr` であること。`registered` は `encode` の登録する番地、`mapped` は
`mappedAddress` の返す番地、`pc` は PC の変換がこの命令の番地を返す唯一の番地である。
-/
structure SameAddress (e : Engine σ γ) (page : UInt64) (success : Bool)
    (opcode : Option OpcodeBinary) (s : EngineState σ γ) (bin : AttachedBinary) (f : Func)
    (i : Insn) (rtaddr : UInt64) : Prop where
  registered : rtaddr.toNat = addAddr (f.addr + i.fnoff) s.memory.basePointer.toNat
  mapped : (s.orchOnce e page success bin).memory.mappedAddress opcode (staticAddr f i) 1 = rtaddr
  ne_zero : rtaddr ≠ 0
  pc : ∀ pc, PcBase.convert ⟨some bin.imageBase, s.memory.basePointer, none⟩ pc =
    some (staticAddr f i) ↔ pc = rtaddr

/--
三つが一致する条件。`imageBase` が 0 で、命令の番地の次が、section の大きさの和を切り上げたところより手前にあり、
それが予約より小さいこと。opcode の binary がこの番地を持つときは、その buffer の番地が一致することである。
-/
structure Translates (page : UInt64) (opcode : Option OpcodeBinary) (basePointer : UInt64)
    (bin : AttachedBinary) (a : UInt64) : Prop where
  imageBase_eq : bin.imageBase = 0
  mapped : match opcode.filter (·.holds a) with
    | some b => b.addrBuff a = basePointer + a ∧ basePointer + a ≠ 0
    | none => sectionsTotal page bin.sections < GuestMemory.guestSize ∧
      a.toNat + 1 < (sectionsTotal page bin.sections).toNat

theorem basePointer_orchOnce : (s.orchOnce e page success bin).memory.basePointer =
    s.memory.basePointer := by
  unfold orchOnce
  split
  · exact basePointer_commit _ _
  · rfl

/-- `encode` の登録する番地は、命令の番地に `basePointer` を足したものである。 -/
theorem toNat_eq_registered_iff (rtaddr basePointer : UInt64) :
    rtaddr.toNat = addAddr (f.addr + i.fnoff) basePointer.toNat ↔
      rtaddr = basePointer + staticAddr f i := by
  have htoNat : (basePointer + staticAddr f i).toNat =
      addAddr (f.addr + i.fnoff) basePointer.toNat := by
    rw [staticAddr, UInt64.toNat_add, UInt64.toNat_ofNat', addAddr, Nat.add_comm]
    exact Nat.mod_add_mod _ _ _
  rw [← htoNat, UInt64.toNat_inj]

/-- PC の変換の逆は、`imageBase` を引く。 -/
theorem convert_eq_iff (imageBase basePointer pc a : UInt64) :
    PcBase.convert ⟨some imageBase, basePointer, none⟩ pc = some a ↔
      pc = basePointer + a - imageBase := by
  show some (imageBase + pc - basePointer) = some a ↔ _
  rw [Option.some_inj]
  constructor
  · intro h
    rw [← h]
    grind
  · intro h
    rw [h]
    grind

/-- `imageBase` が 0 なら、読み込みの後の `m_offset` は、大きさの和を切り上げたものか、断られて 0 である。 -/
theorem offset_orchOnce (hoff : s.memory.offset = 0) (himage : bin.imageBase = 0) :
    (s.orchOnce e page success bin).memory.offset =
      if sectionsTotal page bin.sections < GuestMemory.guestSize then
        sectionsTotal page bin.sections else 0 := by
  have hrej : s.memory.Rejects (loadCall page bin s.memory.basePointer success) ↔
      GuestMemory.guestSize ≤ sectionsTotal page bin.sections := by
    unfold GuestMemory.Rejects loadCall
    rw [hoff, himage, UInt64.zero_add, UInt64.zero_add, UInt64.sub_self, UInt64.zero_add, or_self]
  rw [orchOnce_of_zero e page success bin hoff]
  show (s.memory.commit _).2.offset = _
  split
  · next hlt =>
    rw [GuestMemory.commit_of_not_rejects (mt hrej.mp (UInt64.not_le.mpr hlt)), hoff]
    exact UInt64.zero_add _
  · next hge =>
    rw [GuestMemory.commit_of_rejects (hrej.mpr (UInt64.not_lt.mp hge)), hoff]

/-- 読み込みの後で、次の番地まで範囲に収まる条件。 -/
theorem valid_orchOnce_iff (e : Engine σ γ) (page : UInt64) (success : Bool)
    (hoff : s.memory.offset = 0) (hbase : GuestMemory.Reserved s.memory.basePointer)
    (himage : bin.imageBase = 0) (a : UInt64) :
    (s.orchOnce e page success bin).memory.valid (s.memory.basePointer + a) 1 = true ↔
      sectionsTotal page bin.sections < GuestMemory.guestSize ∧
        a.toNat + 1 < (sectionsTotal page bin.sections).toNat := by
  have hoffset : (s.orchOnce e page success bin).memory.offset =
      if sectionsTotal page bin.sections < GuestMemory.guestSize then
        sectionsTotal page bin.sections else 0 := offset_orchOnce hoff himage
  have hle := hbase.le
  have hguest : GuestMemory.guestSize.toNat = 3221225472 := rfl
  have ha := a.toNat_lt
  have hb := s.memory.basePointer.toNat_lt
  by_cases hlt : sectionsTotal page bin.sections < GuestMemory.guestSize
  · rw [if_pos hlt] at hoffset
    have hltNat := UInt64.lt_iff_toNat_lt.mp hlt
    rw [GuestMemory.valid_iff (by rw [basePointer_orchOnce, hoffset]; omega),
      basePointer_orchOnce, hoffset, UInt64.toNat_add, and_iff_right hlt]
    simp only [UInt64.reduceToNat]
    omega
  · rw [if_neg hlt] at hoffset
    rw [GuestMemory.valid_iff (by rw [basePointer_orchOnce, hoffset]; simpa using hb),
      basePointer_orchOnce, hoffset]
    simp only [UInt64.reduceToNat, hlt, false_and, iff_false]
    omega

/-- 読み込みの後で、`mappedAddress` が `basePointer` を足した番地を返す条件。 -/
theorem mappedAddress_orchOnce_iff (e : Engine σ γ) (page : UInt64) (success : Bool)
    (opcode : Option OpcodeBinary) (hoff : s.memory.offset = 0)
    (hbase : GuestMemory.Reserved s.memory.basePointer) (himage : bin.imageBase = 0) (a : UInt64) :
    ((s.orchOnce e page success bin).memory.mappedAddress opcode a 1 = s.memory.basePointer + a ∧
        s.memory.basePointer + a ≠ 0) ↔
      match opcode.filter (·.holds a) with
      | some b => b.addrBuff a = s.memory.basePointer + a ∧ s.memory.basePointer + a ≠ 0
      | none => sectionsTotal page bin.sections < GuestMemory.guestSize ∧
        a.toNat + 1 < (sectionsTotal page bin.sections).toNat := by
  unfold GuestMemory.mappedAddress
  cases opcode.filter (·.holds a) with
  | some b => exact Iff.rfl
  | none =>
    dsimp only
    rw [basePointer_orchOnce, ← valid_orchOnce_iff e page success hoff hbase himage a]
    constructor
    · rintro ⟨hmapped, hne⟩
      by_contra hvalid
      rw [if_neg hvalid] at hmapped
      exact hne hmapped.symm
    · intro hvalid
      refine ⟨if_pos hvalid, fun h0 => ?_⟩
      -- 範囲に収まる番地は、予約の始まり以上である
      simp only [GuestMemory.valid, Bool.and_eq_true, decide_eq_true_eq] at hvalid
      have hge := hvalid.1.1
      rw [basePointer_orchOnce, h0] at hge
      exact hbase.ne_zero (UInt64.le_zero_iff.mp hge)

/-- 三つの番地が一致するのは、条件を満たすときに限る。 -/
theorem sameAddress_iff (hoff : s.memory.offset = 0)
    (hbase : GuestMemory.Reserved s.memory.basePointer) :
    (∃ rtaddr, SameAddress e page success opcode s bin f i rtaddr) ↔
      Translates page opcode s.memory.basePointer bin (staticAddr f i) := by
  constructor
  · rintro ⟨rtaddr, hreg, hmapped, hne, hpc⟩
    rw [toNat_eq_registered_iff] at hreg
    subst hreg
    -- PC の変換の逆が登録した番地なら、引かれる `imageBase` は 0 である
    have himage : bin.imageBase = 0 := by
      have hback := (convert_eq_iff bin.imageBase s.memory.basePointer _ (staticAddr f i)).mp
        ((hpc _).mpr rfl)
      grind
    exact ⟨himage, (mappedAddress_orchOnce_iff e page success opcode hoff hbase himage _).mp
      ⟨hmapped, hne⟩⟩
  · rintro ⟨himage, hmapped⟩
    obtain ⟨heq, hne⟩ :=
      (mappedAddress_orchOnce_iff e page success opcode hoff hbase himage _).mpr hmapped
    refine ⟨_, (toNat_eq_registered_iff _ _).mpr rfl, heq, hne, fun pc => ?_⟩
    rw [convert_eq_iff, himage, UInt64.sub_zero]

/--
`registered` の番地は、`encode` した列の中のその命令の番地である。命令の属する block の `vmaddrs` の番地から、前の
命令の長さだけ進んだ所になる。
-/
theorem SameAddress.exists_place {rtaddr : UInt64}
    (h : SameAddress e page success opcode s bin f i rtaddr)
    (hencode : Encodable bin.loaded.binary s.memory.basePointer.toNat)
    (hf : f ∈ bin.loaded.binary.functions) (hi : i ∈ f.insns) (cfg : Orchestrator.EventConfig)
    (lifted : Bytes → Option UInt64) :
    ∃ place : InsnPlace cfg bin.loaded.binary s.memory.basePointer.toNat,
      place.insn = i ∧ rtaddr.toNat = place.addr ∧
        (encode cfg lifted bin.loaded.binary s.memory.basePointer.toNat).vmaddrs[place.block]?
          = some place.seg.start ∧
        place.addr = place.seg.start
          + ((place.seg.insns.take place.index).map fun p => p.2.oplen).sum := by
  obtain ⟨place, hinsn, haddr⟩ : ∃ place : InsnPlace cfg bin.loaded.binary
      s.memory.basePointer.toNat, place.insn = i ∧
        place.addr = addAddr (f.addr + i.fnoff) s.memory.basePointer.toNat :=
    exists_insnPlace cfg hf hi
  exact ⟨place, hinsn, h.registered.trans haddr.symm, place.addr_eq hencode lifted⟩

/-- `imageBase` から始まる、RET 一つの binary。 -/
def retImage (imageBase : UInt64) : AttachedBinary where
  imageBase := imageBase
  sections := [⟨imageBase, 0x1000, 4, true⟩]
  addrBuff := fun addr => 0x7f0000001000 + (addr - imageBase)
  loaded := ⟨[(imageBase.toNat, [0xc0, 0x03, 0x5f, 0xd6], true)],
    ⟨.arm64, [⟨imageBase.toNat, imageBase.toNat + 4,
      [⟨0, 4, .ret, false, [0xc0, 0x03, 0x5f, 0xd6]⟩]⟩]⟩⟩

def retFunc (imageBase : UInt64) : Func :=
  ⟨imageBase.toNat, imageBase.toNat + 4, [⟨0, 4, .ret, false, [0xc0, 0x03, 0x5f, 0xd6]⟩]⟩

def retInsn : Insn := ⟨0, 4, .ret, false, [0xc0, 0x03, 0x5f, 0xd6]⟩

def retState : EngineState Unit Nat := ⟨Vm.init () [] 0, .new 0x10000⟩

theorem retImage_sameAddress : ∃ rtaddr,
    SameAddress (Vm.sampleEngine Vm.noEvents) 0x1000 true none retState (retImage 0) (retFunc 0)
      retInsn rtaddr :=
  (sameAddress_iff rfl ⟨by decide, by decide⟩).mpr ⟨rfl,
    show sectionsTotal 0x1000 (retImage 0).sections < GuestMemory.guestSize ∧
      (staticAddr (retFunc 0) retInsn).toNat + 1 <
        (sectionsTotal 0x1000 (retImage 0).sections).toNat by decide⟩

/--
`imageBase` が `0x400000` の binary。登録される番地は `0x410000` で、`mappedAddress` は 0 を返し、PC の変換が
先頭の番地を返すのは `0x10000` である。
-/
theorem retImage_not_sameAddress :
    (retState.orchOnce (Vm.sampleEngine Vm.noEvents) 0x1000 true
      (retImage 0x400000)).memory.mappedAddress none 0x400000 1 = 0 ∧
    PcBase.convert ⟨some 0x400000, 0x10000, none⟩ 0x10000 = some 0x400000 ∧
    ¬ ∃ rtaddr, SameAddress (Vm.sampleEngine Vm.noEvents) 0x1000 true none retState
      (retImage 0x400000) (retFunc 0x400000) retInsn rtaddr := by
  refine ⟨by decide, by decide, ?_⟩
  rintro ⟨rtaddr, hreg, -, -, hpc⟩
  rw [← (hpc 0x10000).mp (by decide)] at hreg
  revert hreg
  decide

end EngineState

/-! ## section の表を見る PC の変換 -/

namespace PcBase

variable {filebuf pc basePointer : UInt64} {sect : BinarySection} {sections : List BinarySection}

/-- `pc` が section の buffer の中にあること。 -/
def InBuffer (filebuf : UInt64) (sect : BinarySection) (pc : UInt64) : Prop :=
  filebuf.toNat + sect.foff.toNat ≤ pc.toNat ∧
    pc.toNat < filebuf.toNat + sect.foff.toNat + sect.size.toNat

/-- section の file の範囲は重ならず、buffer は address の上限で折り返さない。 -/
structure FileLayout (filebuf : UInt64) (sections : List BinarySection) : Prop where
  noWrap : ∀ t ∈ sections, filebuf.toNat + t.foff.toNat + t.size.toNat < 2 ^ 64
  disjoint : sections.Pairwise fun t u => t.foff.toNat + t.size.toNat ≤ u.foff.toNat ∨
    u.foff.toNat + u.size.toNat ≤ t.foff.toNat

/-- loop の比較は、buffer の中にあることである。 -/
theorem inBuffer_iff (hwrap : filebuf.toNat + sect.foff.toNat + sect.size.toNat < 2 ^ 64) :
    (filebuf + sect.foff ≤ pc ∧ pc < filebuf + sect.foff + sect.size) ↔
      InBuffer filebuf sect pc := by
  have hbuf : (filebuf + sect.foff).toNat = filebuf.toNat + sect.foff.toNat := by
    rw [UInt64.toNat_add, Nat.mod_eq_of_lt (by omega)]
  rw [UInt64.le_iff_toNat_le, UInt64.lt_iff_toNat_lt, UInt64.toNat_add (filebuf + sect.foff), hbuf,
    Nat.mod_eq_of_lt hwrap]
  exact Iff.rfl

/-- section の表を見る loop は、そこまでの section がどれも `TEXT` なら着き、そうでなければ途中で止まる。 -/
theorem scanSections_append {pre post : List BinarySection}
    (hlayout : FileLayout filebuf (pre ++ sect :: post)) (hpc : InBuffer filebuf sect pc) :
    scanSections filebuf pc (pre ++ sect :: post) =
      if ∀ t ∈ pre, t.text = true then some (sect.addr + pc - (filebuf + sect.foff)) else none := by
  induction pre with
  | nil =>
    have hin := (inBuffer_iff (hlayout.noWrap sect List.mem_cons_self)).mpr hpc
    rw [List.nil_append, scanSections, if_pos hin, if_pos nofun]
  | cons t pre ih =>
    obtain ⟨hwrap, hdisjoint⟩ := hlayout
    rw [List.cons_append, List.pairwise_cons] at hdisjoint
    have hrest := ih ⟨fun u hu => hwrap u (List.mem_cons_of_mem _ hu), hdisjoint.2⟩
    have hout : ¬ InBuffer filebuf t pc := by
      intro hin
      have hapart := hdisjoint.1 sect (List.mem_append_right _ List.mem_cons_self)
      unfold InBuffer at hin hpc
      omega
    have hskip := mt (inBuffer_iff (hwrap t List.mem_cons_self)).mp hout
    rw [List.cons_append, scanSections, if_neg hskip, hrest]
    cases htext : t.text with
    | true => simp [htext]
    | false => simp [htext]

/--
section の表を見る PC の変換が正しいのは、その section より前の section がどれも `TEXT` であるか、section の番地が
buffer の中の番地に等しいときに限る。
-/
theorem getRegister_text_iff {f : RegisterFile} {cpu : CPUState} {o : Nat}
    {pre post : List BinarySection} (ho : f.offset .pc = some o) (hflag : f.flagRegister ≠ .pc)
    (hlayout : FileLayout filebuf (pre ++ sect :: post))
    (hpc : InBuffer filebuf sect (UInt64.ofNat (cpu.mem.loadLE o 8))) :
    (PcBase.getRegister ⟨none, basePointer, some (filebuf, pre ++ sect :: post)⟩ f cpu .pc).map
        (fun r => r.1.load r.2 8) =
      some (sect.addr + (UInt64.ofNat (cpu.mem.loadLE o 8) - (filebuf + sect.foff))).toNat ↔
    (∀ t ∈ pre, t.text = true) ∨ sect.addr = filebuf + sect.foff := by
  generalize hraw : UInt64.ofNat (cpu.mem.loadLE o 8) = raw at hpc ⊢
  have hread : (PcBase.getRegister ⟨none, basePointer, some (filebuf, pre ++ sect :: post)⟩ f cpu
      .pc).map (fun r => r.1.load r.2 8) =
      some ((scanSections filebuf raw (pre ++ sect :: post)).getD raw).toNat := by
    have hpair := congrArg (Option.map Prod.fst)
      (getRegister_pc ⟨none, basePointer, some (filebuf, pre ++ sect :: post)⟩ cpu ho hflag)
    rw [Option.map_map, hraw] at hpair
    exact hpair
  rw [hread, scanSections_append hlayout hpc, Option.some_inj, UInt64.toNat_inj]
  by_cases hall : ∀ t ∈ pre, t.text = true
  · rw [if_pos hall]
    refine iff_of_true ?_ (.inl hall)
    show sect.addr + raw - (filebuf + sect.foff) = _
    grind
  · -- 途中で止まると、変換しない PC がそのまま返る
    rw [if_neg hall, or_iff_right hall, Option.getD_none]
    constructor
    · intro h
      grind
    · intro h
      rw [h]
      grind

/-- PC が、`0x7f0000000000` から読んだ file の `0x1010` byte 目を指す CPU。 -/
def sampleCpu : CPUState := ⟨Mem.storeLE (fun _ => 0) 0 8 0x7f0000001010, 0⟩

def sampleInit : BinarySection := ⟨0x200, 0x200, 0x100, true⟩
def sampleRodata : BinarySection := ⟨0x400, 0x400, 0x100, false⟩
def sampleCode : BinarySection := ⟨0x1000, 0x1000, 0x100, true⟩

/-- 前の section も `TEXT` なら、PC は section の番地に直る。 -/
theorem sampleCpu_text : (PcBase.getRegister ⟨none, 0, some (0x7f0000000000,
    [sampleInit, sampleCode, sampleRodata])⟩ AArch64State.sample.file sampleCpu .pc).map
      (fun r => r.1.load r.2 8) = some 0x1010 := by
  have hlayout : FileLayout 0x7f0000000000 ([sampleInit] ++ sampleCode :: [sampleRodata]) :=
    ⟨by decide, by decide⟩
  exact (getRegister_text_iff (f := AArch64State.sample.file) rfl nofun hlayout
    ⟨by decide, by decide⟩).mpr (.inl (by decide))

/-- 前に `TEXT` でない section があると、PC は buffer の中の番地のままである。 -/
theorem sampleCpu_not_text : (PcBase.getRegister ⟨none, 0, some (0x7f0000000000,
    [sampleRodata, sampleCode])⟩ AArch64State.sample.file sampleCpu .pc).map
      (fun r => r.1.load r.2 8) = some 0x7f0000001010 ∧
      InBuffer 0x7f0000000000 sampleCode 0x7f0000001010 ∧
      sampleCode.addr + (0x7f0000001010 - (0x7f0000000000 + sampleCode.foff)) = 0x1010 := by
  refine ⟨by decide, ⟨by decide, by decide⟩, by decide⟩

end PcBase

end AetherVM
