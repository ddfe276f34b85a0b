import AetherVM.Debugger.Context

/-!
# register の読み書きの忠実さ

どの register が、どの状態と値で忠実に読み書きできるかを、表の全体について言う。

* 8 byte と 16 byte の register は、PC のほかはいつでも忠実である。
* PC は読むときだけ番地を直すので、直しても変わらない値に限る。
* 4 byte の register は 8 byte を書くので、上の 4 byte が零のときに限る。segment は 4 byte おきに並ぶので、
  隣の segment を壊す。
* 10 byte の register への書き込みは捨てられる。
-/

namespace AetherVM.Debugger

open Infra

namespace RegisterContext

variable (c : RegisterContext) (e : PcBase)

/--
Remill の `State` の field の並び。register の byte は、segment どうしのほかは重ならず、flag の byte は
どの register の外にもあり、segment は 4 byte おきに並ぶ。
-/
structure Laid : Prop where
  apart : ∀ reg ∈ c.registers, ∀ reg' ∈ c.registers, reg ≠ reg' →
    ¬ (isSegment reg = true ∧ isSegment reg' = true) →
    ∀ o ∈ c.file.offset reg, ∀ o' ∈ c.file.offset reg',
      o + widthOf reg ≤ o' ∨ o' + widthOf reg' ≤ o
  flagsApart : ∀ p ∈ c.file.flags, ∀ reg ∈ c.registers, ∀ o ∈ c.file.offset reg,
    p.2 < o ∨ o + widthOf reg ≤ p.2
  flagsNodup : (c.file.flags.map Prod.snd).Nodup
  stride : ∀ o ∈ c.file.offset .ss, c.file.offset .es = some (o + 4) ∧
    c.file.offset .gs = some (o + 8) ∧ c.file.offset .fs = some (o + 12) ∧
    c.file.offset .ds = some (o + 16) ∧ c.file.offset .cs = some (o + 20)

/-- register の置き場所の、読み書きが触れる byte の値。 -/
def word (reg : CpuRegister) (cpu : CPUState) : Nat :=
  match c.file.offset reg with
  | some o => cpu.mem.loadLE o (widthOf reg)
  | none => 0

/-- 忠実に読み書きできる register、状態、値。 -/
def Direct (reg : CpuRegister) (cpu : CPUState) (v : Nat) : Prop :=
  if reg = .pc then
    e.view (UInt64.ofNat v) = UInt64.ofNat v ∧
      e.view (UInt64.ofNat (c.word reg cpu)) = UInt64.ofNat (c.word reg cpu)
  else if isSegment reg then reg = .cs ∧ c.word reg cpu = v
  else if byteSizeOf reg = 10 then c.word reg cpu = v
  else if byteSizeOf reg = 4 then
    c.word reg cpu < 256 ^ 4 ∧ (reg = c.file.flagRegister → ∀ p ∈ c.file.flags, cpu.mem p.2 < 2)
  else True

/-! ## 一つの番号の読み書き -/

variable {c e} {k v o : Nat} {reg : CpuRegister} {cpu cpu' : CPUState}

theorem WellFormed.info (hwf : c.WellFormed) (hk : c.registers[k]? = some reg) :
    ∃ info, c.registerInfos[k]? = some info ∧ info.byteSize = byteSizeOf reg := by
  have hsize := congrArg (fun l => l[k]?) hwf.sizes
  simp only [List.getElem?_map, hk, Option.map_some] at hsize
  exact Option.map_eq_some_iff.mp hsize

theorem WellFormed.readRegister_eq (hwf : c.WellFormed) (hk : c.registers[k]? = some reg) :
    c.readRegister e k cpu = (e.getRegister c.file cpu reg).map fun p =>
      (p.1.load p.2 (widthOf reg), p.2) := by
  obtain ⟨info, hinfo, hsize⟩ := hwf.info hk
  have hwidth : (if info.byteSize ≤ 8 then 8 else info.byteSize) = widthOf reg := by
    rw [hsize]
    unfold widthOf
    split <;> omega
  simp only [readRegister, hinfo, hk, Option.bind_eq_bind, Option.bind_some, hwidth]
  cases e.getRegister c.file cpu reg with
  | none => rfl
  | some p => rfl

theorem WellFormed.writeRegister_narrow (hwf : c.WellFormed) (hk : c.registers[k]? = some reg)
    (hsize : byteSizeOf reg ≤ 8) : c.writeRegister k v cpu
      = some (c.file.setRegister cpu reg (v % 256 ^ byteSizeOf reg)).2 := by
  obtain ⟨info, hinfo, hinfosize⟩ := hwf.info hk
  have hlt : v % 256 ^ byteSizeOf reg < 256 ^ 8 :=
    Nat.lt_of_lt_of_le (Nat.mod_lt _ (Nat.pow_pos (by decide)))
      (Nat.pow_le_pow_right (by decide) hsize)
  simp only [writeRegister, hinfo, hk, Option.bind_eq_bind, Option.bind_some, hinfosize]
  rw [if_neg (Nat.not_lt.mpr hsize), Nat.mod_eq_of_lt hlt]

theorem WellFormed.writeRegister_wide (hwf : c.WellFormed) (hk : c.registers[k]? = some reg)
    (hsize : 8 < byteSizeOf reg) : c.writeRegister k v cpu
      = some (c.file.setRegisterSIMD cpu reg (v % 256 ^ byteSizeOf reg)).2 := by
  obtain ⟨info, hinfo, hinfosize⟩ := hwf.info hk
  simp only [writeRegister, hinfo, hk, Option.bind_eq_bind, Option.bind_some, hinfosize]
  rw [if_pos hsize]

/-- 8 byte 以下の register は、8 byte を読み書きする。 -/
theorem widthOf_of_le (h : byteSizeOf reg ≤ 8) : widthOf reg = 8 := Nat.max_eq_left h

/-- 4 byte の値は、8 byte に収まる。 -/
theorem narrow_lt (v : Nat) : v % 256 ^ 4 < 256 ^ 8 :=
  Nat.lt_trans (Nat.mod_lt _ (by decide)) (by decide)

theorem WellFormed.ne_flag (hwf : c.WellFormed) (hsize : byteSizeOf reg ≠ 4) :
    reg ≠ c.file.flagRegister := by
  rintro rfl
  exact hsize hwf.flag.1

/-- PC でも flag でもない register を読む。 -/
theorem WellFormed.read_field (hwf : c.WellFormed) (hk : c.registers[k]? = some reg)
    (ho : c.file.offset reg = some o) (hpc : reg ≠ .pc) (hflag : reg ≠ c.file.flagRegister) :
    c.readRegister e k cpu = some (cpu.mem.loadLE o (widthOf reg), cpu) := by
  rw [hwf.readRegister_eq hk, PcBase.getRegister_of_ne_pc hpc,
    RegisterFile.getRegister_of_ne ho hflag]
  rfl

theorem WellFormed.collectFlags_lt (hwf : c.WellFormed) :
    collectFlags c.file.flags cpu.mem (cpu.mem.loadLE o 8) < 256 ^ 8 :=
  (collectFlags_lt_iff (k := 64) fun p hp => Nat.lt_trans (hwf.bits.2 p hp) (by decide)).mpr
    (Mem.loadLE_lt _ _ _)

/-- flag の register を読む。 -/
theorem WellFormed.read_flag (hwf : c.WellFormed)
    (hk : c.registers[k]? = some c.file.flagRegister)
    (ho : c.file.offset c.file.flagRegister = some o) :
    c.readRegister e k cpu = some (collectFlags c.file.flags cpu.mem (cpu.mem.loadLE o 8),
      { cpu with
        mem := cpu.mem.storeLE o 8 (collectFlags c.file.flags cpu.mem (cpu.mem.loadLE o 8)) }) := by
  have hpc : c.file.flagRegister ≠ .pc := by
    intro h
    have hsize := hwf.flag.1
    rw [h] at hsize
    cases hsize
  rw [hwf.readRegister_eq hk, PcBase.getRegister_of_ne_pc hpc, RegisterFile.getRegister_flag ho]
  simp only [Option.map_some, RegisterPtr.load, widthOf, hwf.flag.1, Nat.reduceLeDiff,
    sup_of_le_left, Mem.loadLE_storeLE _ _ hwf.collectFlags_lt]

/-- PC を読む。 -/
theorem WellFormed.read_pc (hwf : c.WellFormed) (hk : c.registers[k]? = some .pc)
    (ho : c.file.offset .pc = some o) :
    c.readRegister e k cpu = some ((e.view (UInt64.ofNat (cpu.mem.loadLE o 8))).toNat,
      { cpu with pc := (e.convert (UInt64.ofNat (cpu.mem.loadLE o 8))).getD cpu.pc }) := by
  have hflag : CpuRegister.pc ≠ c.file.flagRegister := hwf.ne_flag (by decide)
  rw [hwf.readRegister_eq hk]
  exact PcBase.getRegister_pc e cpu ho (Ne.symm hflag)

/-- 読んだ値は、register の置き場所と flag の byte だけで決まる。 -/
theorem WellFormed.value_congr (hwf : c.WellFormed) (hk : c.registers[k]? = some reg)
    (ho : c.file.offset reg = some o)
    (hfield : ∀ i < widthOf reg, cpu'.mem (o + i) = cpu.mem (o + i))
    (hflags : ∀ p ∈ c.file.flags, reg = c.file.flagRegister → cpu'.mem p.2 = cpu.mem p.2) :
    c.value e k cpu' = c.value e k cpu := by
  have hload : cpu'.mem.loadLE o (widthOf reg) = cpu.mem.loadLE o (widthOf reg) :=
    Mem.loadLE_eq_iff.mpr hfield
  unfold value
  by_cases hpc : reg = .pc
  · subst hpc
    have hload : cpu'.mem.loadLE o 8 = cpu.mem.loadLE o 8 := hload
    rw [hwf.read_pc hk ho, hwf.read_pc hk ho, hload]
    rfl
  by_cases hflag : reg = c.file.flagRegister
  · subst hflag
    rw [widthOf, hwf.flag.1] at hload
    have hload : cpu'.mem.loadLE o 8 = cpu.mem.loadLE o 8 := hload
    have hcollect : collectFlags c.file.flags cpu'.mem (cpu'.mem.loadLE o 8)
        = collectFlags c.file.flags cpu.mem (cpu.mem.loadLE o 8) := by
      rw [hload]
      exact List.foldl_ext _ _ _ fun w p hp => by rw [hflags p hp rfl]
    rw [hwf.read_flag hk ho, hwf.read_flag hk ho, hcollect]
    rfl
  · rw [hwf.read_field hk ho hpc hflag, hwf.read_field hk ho hpc hflag, hload]
    rfl

/-- 書いた byte が register の置き場所と、flag の register なら flag の byte だけのとき、他は変わらない。 -/
theorem WellFormed.frame (hwf : c.WellFormed) (hlaid : c.Laid) (hk : c.registers[k]? = some reg)
    (ho : c.file.offset reg = some o) (hseg : isSegment reg = false)
    (hwrite : c.writeRegister k v cpu = some cpu')
    (hout : ∀ a, (a < o ∨ o + widthOf reg ≤ a) →
      (reg = c.file.flagRegister → a ∉ c.file.flags.map Prod.snd) → cpu'.mem a = cpu.mem a) :
    ∀ j, j ≠ k → (c.writeRegister k v cpu).bind (c.value e j) = c.value e j cpu := by
  intro j hj
  rw [hwrite, Option.bind_some]
  cases hreg : c.registers[j]? with
  | none => simp [value, readRegister, hreg]
  | some reg' =>
    have hmem := List.mem_of_getElem? hk
    have hmem' := List.mem_of_getElem? hreg
    have hne : reg ≠ reg' := by
      rintro rfl
      obtain ⟨hlt, -⟩ := List.getElem?_eq_some_iff.mp hk
      exact hj ((List.getElem?_inj hlt hwf.nodup).mp (hk.trans hreg.symm)).symm
    obtain ⟨o', ho'⟩ := Option.isSome_iff_exists.mp (hwf.offsets reg' hmem')
    have hapart := hlaid.apart reg hmem reg' hmem' hne (by simp [hseg]) o ho o' ho'
    -- ほかの register の byte は、書いた範囲とも flag の byte とも重ならない
    refine hwf.value_congr hreg ho' (fun i hi => hout _ (by omega) ?_) fun p hp heq => hout _ ?_ ?_
    · rintro - hflag
      obtain ⟨p, hp, hpeq⟩ := List.mem_map.mp hflag
      have hpapart := hlaid.flagsApart p hp reg' hmem' o' ho'
      omega
    · exact hlaid.flagsApart p hp reg hmem o ho
    · rintro rfl
      exact absurd heq.symm hne

/-- 名前の重ならない表では、載っている名前で引ける。 -/
theorem lookup_of_getElem? : ∀ {fields : List (String × Nat)} {k : Nat} {f : String × Nat},
    (fields.map Prod.fst).Nodup → fields[k]? = some f → fields.lookup f.1 = some f.2
  | g :: fields, 0, f, _, hk => by
    rw [List.getElem?_cons_zero, Option.some_inj] at hk
    subst hk
    exact List.lookup_cons_self
  | g :: fields, k + 1, f, hnodup, hk => by
    rw [List.getElem?_cons_succ] at hk
    obtain ⟨hg, hnodup⟩ := List.nodup_cons.mp hnodup
    have hne : (f.1 == g.1) = false := by
      rw [beq_eq_false_iff_ne]
      intro heq
      exact hg (heq ▸ List.mem_map_of_mem (List.mem_of_getElem? hk))
    rw [List.lookup_cons, hne]
    exact lookup_of_getElem? hnodup hk

/-- 表の名前の register は、`named` の同じ番号の register である。 -/
theorem NamesMatch.named_eq {named : List CpuRegister} (hn : c.NamesMatch named)
    (hwf : c.WellFormed) (hk : c.registers[k]? = some reg) :
    ∃ reg', c.named k = c.file.offset reg' ∧ isSegment reg = isSegment reg' ∧
      (reg = reg' ↔ (isSegment reg = true → reg = .cs)) := by
  obtain ⟨info, hinfo, -⟩ := hwf.info hk
  have hname := congrArg (fun l => l[k]?) hn.names
  simp only [List.getElem?_map, hinfo, Option.map_some] at hname
  obtain ⟨f, hf, hfst⟩ := Option.map_eq_some_iff.mp hname.symm
  have hoffset := congrArg (fun l => l[k]?) hn.offsets
  simp only [List.getElem?_map, hf, Option.map_some] at hoffset
  obtain ⟨reg', hreg', hsnd⟩ := Option.map_eq_some_iff.mp hoffset.symm
  have hzip : (c.registers.zip named)[k]? = some (reg, reg') :=
    List.getElem?_zip_eq_some.mpr ⟨hk, hreg'⟩
  refine ⟨reg', ?_, hn.same (reg, reg') (List.mem_of_getElem? hzip)⟩
  have hlookup := lookup_of_getElem? (hn.names ▸ hn.nodup) hf
  rw [RegisterContext.named, hinfo, Option.bind_some, ← hfst, hlookup, hsnd]

theorem reached_eq (hk : c.registers[k]? = some reg) : c.reached k = c.file.offset reg := by
  rw [reached, hk, Option.bind_some]

/-- 名前の違う segment のほかは、名前の通りの field に着く。 -/
theorem WellFormed.name_of (hwf : c.WellFormed) (hk : c.registers[k]? = some reg)
    (h : isSegment reg = true → reg = .cs) : c.reached k = c.named k := by
  obtain ⟨named, hn⟩ := hwf.names
  obtain ⟨reg', hnamed, -, hsame⟩ := hn.named_eq hwf hk
  rw [reached_eq hk, hnamed, hsame.mpr h]

/-- segment の並びの中の番号。 -/
def segmentIndex : CpuRegister → Nat
  | .es => 1
  | .gs => 2
  | .fs => 3
  | .ds => 4
  | .cs => 5
  | _ => 0

theorem Laid.offset_segment (hlaid : c.Laid) (hss : c.file.offset .ss = some o)
    (hseg : isSegment reg = true) : c.file.offset reg = some (o + 4 * segmentIndex reg) := by
  obtain ⟨hes, hgs, hfs, hds, hcs⟩ := hlaid.stride o hss
  cases reg <;> first | assumption | cases hseg

/-- 同じ field に着く segment は、同じ register である。 -/
theorem Laid.segment_inj (hlaid : c.Laid) (hss : c.file.offset .ss = some o) {reg' : CpuRegister}
    (hseg : isSegment reg = true) (hseg' : isSegment reg' = true)
    (h : c.file.offset reg = c.file.offset reg') : reg = reg' := by
  rw [hlaid.offset_segment hss hseg, hlaid.offset_segment hss hseg', Option.some_inj] at h
  have hindex : segmentIndex reg = segmentIndex reg' := by omega
  have hmem : ∀ {r : CpuRegister}, isSegment r = true → r ∈ [.ss, .es, .gs, .fs, .ds, .cs] := by
    intro r hr
    cases r <;> simp [isSegment] at hr ⊢
  have hinj : ∀ r ∈ [CpuRegister.ss, .es, .gs, .fs, .ds, .cs],
      ∀ r' ∈ [CpuRegister.ss, .es, .gs, .fs, .ds, .cs], segmentIndex r = segmentIndex r' → r = r' := by
    decide
  exact hinj reg (hmem hseg) reg' (hmem hseg') hindex

/-- 名前の通りの field に着かないのは、`cs` のほかの segment だけである。 -/
theorem WellFormed.name_iff (hwf : c.WellFormed) (hlaid : c.Laid)
    (hk : c.registers[k]? = some reg) :
    c.reached k = c.named k ↔ (isSegment reg = true → reg = .cs) := by
  refine ⟨fun hname hseg => ?_, hwf.name_of hk⟩
  obtain ⟨named, hn⟩ := hwf.names
  obtain ⟨reg', hnamed, hseg', hsame⟩ := hn.named_eq hwf hk
  obtain ⟨hss, -⟩ := hwf.pairs reg (List.mem_of_getElem? hk) hseg
  obtain ⟨b, hb⟩ := Option.isSome_iff_exists.mp (hwf.offsets _ hss)
  rw [reached_eq hk, hnamed] at hname
  exact hsame.mp (hlaid.segment_inj hb hseg (hseg' ▸ hseg) hname) hseg

/-! ## 種類ごとの忠実さ -/

/-- 8 byte と 16 byte の register は、置き場所にちょうど書かれる。 -/
theorem WellFormed.write_field (hwf : c.WellFormed) (hk : c.registers[k]? = some reg)
    (ho : c.file.offset reg = some o) (hsize : byteSizeOf reg = 8 ∨ byteSizeOf reg = 16)
    (hv : v < 256 ^ byteSizeOf reg) :
    c.writeRegister k v cpu = some { cpu with mem := cpu.mem.storeLE o (widthOf reg) v } := by
  have hflag : reg ≠ c.file.flagRegister := hwf.ne_flag (by omega)
  rcases hsize with hsize | hsize
  · rw [hwf.writeRegister_narrow hk (by omega), RegisterFile.setRegister_of_ne ho hflag,
      Nat.mod_eq_of_lt hv, widthOf, hsize]
    rfl
  · have hsimd := (hwf.simd reg (List.mem_of_getElem? hk)).mpr hsize
    rw [hwf.writeRegister_wide hk (by omega), Nat.mod_eq_of_lt hv, RegisterFile.setRegisterSIMD,
      if_pos hsimd, RegisterFile.getRegister_of_ne ho hflag, widthOf, hsize]
    rfl

theorem faithful_field (hwf : c.WellFormed) (hlaid : c.Laid) (hk : c.registers[k]? = some reg)
    (ho : c.file.offset reg = some o) (hpc : reg ≠ .pc) (hseg : isSegment reg = false)
    (hsize : byteSizeOf reg = 8 ∨ byteSizeOf reg = 16) (hv : v < 256 ^ byteSizeOf reg) :
    c.Faithful e k cpu v := by
  have hflag : reg ≠ c.file.flagRegister := hwf.ne_flag (by omega)
  have hwidth : widthOf reg = byteSizeOf reg := by
    unfold widthOf
    omega
  have hwrite : ∀ {v : Nat} {cpu : CPUState}, v < 256 ^ byteSizeOf reg → c.writeRegister k v cpu
      = some { cpu with mem := cpu.mem.storeLE o (widthOf reg) v } :=
    fun hv => hwf.write_field hk ho hsize hv
  have hread : ∀ cpu, c.readRegister e k cpu = some (cpu.mem.loadLE o (widthOf reg), cpu) :=
    fun cpu => hwf.read_field hk ho hpc hflag
  refine ⟨?_, ?_, ?_, hwf.name_of hk (by simp [hseg])⟩
  · rw [hwrite hv, Option.bind_some, value, hread]
    exact congrArg some (Mem.loadLE_storeLE _ _ (hwidth ▸ hv))
  · rw [hread, Option.bind_some, hwrite (hwidth ▸ Mem.loadLE_lt _ _ _),
      (Mem.storeLE_eq_self_iff (Mem.loadLE_lt _ _ _)).mpr rfl]
    rfl
  · refine hwf.frame hlaid hk ho hseg (hwrite hv) fun a ha _ => ?_
    exact Mem.storeLE_outside ha

theorem faithful_pc_iff (hwf : c.WellFormed) (hlaid : c.Laid) (hk : c.registers[k]? = some .pc)
    (ho : c.file.offset .pc = some o) (hv : v < 256 ^ 8) :
    c.Faithful e k cpu v ↔ e.view (UInt64.ofNat v) = UInt64.ofNat v ∧
      e.view (UInt64.ofNat (cpu.mem.loadLE o 8)) = UInt64.ofNat (cpu.mem.loadLE o 8) := by
  have hwrite : ∀ {v : Nat} {cpu : CPUState}, v < 256 ^ 8 → c.writeRegister k v cpu
      = some { cpu with mem := cpu.mem.storeLE o 8 v } :=
    fun hv => hwf.write_field hk ho (.inl rfl) hv
  -- 64 bit の値は、PC の型と行き来しても変わらない
  have hview : ∀ {w : Nat}, w < 256 ^ 8 →
      ((e.view (UInt64.ofNat w)).toNat = w ↔ e.view (UInt64.ofNat w) = UInt64.ofNat w) := by
    intro w hw
    rw [← UInt64.toNat_inj, UInt64.toNat_ofNat_of_lt' hw]
  have hround : (c.writeRegister k v cpu).bind (c.value e k) = some v ↔
      e.view (UInt64.ofNat v) = UInt64.ofNat v := by
    rw [hwrite hv, Option.bind_some, value, hwf.read_pc hk ho, Option.map_some, Option.some_inj,
      ← hview hv]
    simp only [Mem.loadLE_storeLE _ _ hv]
  have hrestore : (c.readRegister e k cpu).bind (fun p => c.writeRegister k p.1 p.2)
      = (c.readRegister e k cpu).map Prod.snd ↔
      e.view (UInt64.ofNat (cpu.mem.loadLE o 8)) = UInt64.ofNat (cpu.mem.loadLE o 8) := by
    have hlt : (e.view (UInt64.ofNat (cpu.mem.loadLE o 8))).toNat < 256 ^ 8 := UInt64.toNat_lt _
    rw [hwf.read_pc hk ho, Option.bind_some, hwrite hlt, Option.map_some, Option.some_inj,
      ← hview (Mem.loadLE_lt _ _ _), eq_comm (b := cpu.mem.loadLE o 8),
      ← Mem.storeLE_eq_self_iff hlt]
    simp
  constructor
  · exact fun h => ⟨hround.mp h.roundtrip, hrestore.mp h.restore⟩
  · rintro ⟨hv', hw⟩
    refine ⟨hround.mpr hv', hrestore.mpr hw, ?_, hwf.name_of hk (nofun)⟩
    refine hwf.frame hlaid hk ho rfl (hwrite hv) fun a ha _ => ?_
    exact Mem.storeLE_outside ha

/-- 10 byte の register への書き込みは捨てられる。 -/
theorem faithful_st_iff (hwf : c.WellFormed) (hk : c.registers[k]? = some reg)
    (ho : c.file.offset reg = some o) (hpc : reg ≠ .pc) (hseg : isSegment reg = false)
    (hsize : byteSizeOf reg = 10) :
    c.Faithful e k cpu v ↔ cpu.mem.loadLE o (widthOf reg) = v := by
  have hsimd : c.file.simd reg = false := by
    rw [Bool.eq_false_iff, Ne, hwf.simd reg (List.mem_of_getElem? hk)]
    omega
  have hwrite : ∀ v cpu, c.writeRegister k v cpu = some cpu := by
    intro v cpu
    rw [hwf.writeRegister_wide hk (by omega), RegisterFile.setRegisterSIMD, hsimd]
    rfl
  have hread : c.readRegister e k cpu = some (cpu.mem.loadLE o (widthOf reg), cpu) :=
    hwf.read_field hk ho hpc (hwf.ne_flag (by omega))
  have hround : (c.writeRegister k v cpu).bind (c.value e k) = some v ↔
      cpu.mem.loadLE o (widthOf reg) = v := by
    rw [hwrite, Option.bind_some, value, hread, Option.map_some, Option.some_inj]
  constructor
  · exact fun h => hround.mp h.roundtrip
  · intro h
    refine ⟨hround.mpr h, ?_, fun j _ => ?_, hwf.name_of hk (by simp [hseg])⟩
    · rw [hread, Option.bind_some, hwrite]
      rfl
    · rw [hwrite, Option.bind_some]

/-- flag でない 4 byte の register は、零で伸ばした 8 byte を書く。 -/
theorem WellFormed.write_narrow (hwf : c.WellFormed) (hk : c.registers[k]? = some reg)
    (ho : c.file.offset reg = some o) (hsize : byteSizeOf reg = 4)
    (hflag : reg ≠ c.file.flagRegister) : c.writeRegister k v cpu
      = some { cpu with mem := cpu.mem.storeLE o 8 (v % 256 ^ 4) } := by
  rw [hwf.writeRegister_narrow hk (by omega), RegisterFile.setRegister_of_ne ho hflag, hsize]

/-- 読んだ 8 byte を 4 byte にして書き戻しても変わらないのは、上の 4 byte が零のときに限る。 -/
theorem WellFormed.restore_narrow_iff (hwf : c.WellFormed) (e : PcBase) (cpu : CPUState)
    (hk : c.registers[k]? = some reg)
    (ho : c.file.offset reg = some o) (hpc : reg ≠ .pc) (hsize : byteSizeOf reg = 4)
    (hflag : reg ≠ c.file.flagRegister) :
    (c.readRegister e k cpu).bind (fun p => c.writeRegister k p.1 p.2)
      = (c.readRegister e k cpu).map Prod.snd ↔ cpu.mem.loadLE o 8 < 256 ^ 4 := by
  have hwidth : widthOf reg = 8 := widthOf_of_le (by omega)
  have hstore : ({ cpu with mem := cpu.mem.storeLE o 8 (cpu.mem.loadLE o 8 % 256 ^ 4) } : CPUState)
      = cpu ↔ cpu.mem.storeLE o 8 (cpu.mem.loadLE o 8 % 256 ^ 4) = cpu.mem :=
    ⟨fun h => congrArg CPUState.mem h, fun h => by rw [h]⟩
  rw [hwf.read_field hk ho hpc hflag, hwidth, Option.bind_some, hwf.write_narrow hk ho hsize hflag,
    Option.map_some, Option.some_inj, hstore, Mem.storeLE_eq_self_iff (narrow_lt _), eq_comm,
    Nat.mod_eq_iff_lt (by decide)]

theorem WellFormed.roundtrip_narrow (hwf : c.WellFormed) (hk : c.registers[k]? = some reg)
    (ho : c.file.offset reg = some o) (hpc : reg ≠ .pc) (hsize : byteSizeOf reg = 4)
    (hflag : reg ≠ c.file.flagRegister) (hv : v < 256 ^ 4) :
    (c.writeRegister k v cpu).bind (c.value e k) = some v := by
  have hwidth : widthOf reg = 8 := widthOf_of_le (by omega)
  rw [hwf.write_narrow hk ho hsize hflag, Nat.mod_eq_of_lt hv, Option.bind_some, value,
    hwf.read_field hk ho hpc hflag, hwidth, Option.map_some,
    Mem.loadLE_storeLE _ _ (Nat.lt_trans hv (by decide))]

theorem faithful_narrow_iff (hwf : c.WellFormed) (hlaid : c.Laid) (hk : c.registers[k]? = some reg)
    (ho : c.file.offset reg = some o) (hpc : reg ≠ .pc) (hseg : isSegment reg = false)
    (hsize : byteSizeOf reg = 4) (hflag : reg ≠ c.file.flagRegister) (hv : v < 256 ^ 4) :
    c.Faithful e k cpu v ↔ cpu.mem.loadLE o 8 < 256 ^ 4 := by
  have hrestore := hwf.restore_narrow_iff e cpu hk ho hpc hsize hflag
  have hwidth : widthOf reg = 8 := widthOf_of_le (by omega)
  constructor
  · exact fun h => hrestore.mp h.restore
  · intro h
    refine ⟨hwf.roundtrip_narrow hk ho hpc hsize hflag hv, hrestore.mpr h, ?_,
      hwf.name_of hk (by simp [hseg])⟩
    refine hwf.frame hlaid hk ho hseg (hwf.write_narrow hk ho hsize hflag) fun a ha _ => ?_
    exact Mem.storeLE_outside (hwidth ▸ ha)

section Flag

variable (hwf : c.WellFormed) (hlaid : c.Laid) (hk : c.registers[k]? = some c.file.flagRegister)
  (ho : c.file.offset c.file.flagRegister = some o)

include hwf hk ho

/-- flag の register を書くと、語のほかに flag の byte も書かれる。 -/
theorem WellFormed.write_flag : c.writeRegister k v cpu = some { cpu with
    mem := spreadFlags c.file.flags (v % 256 ^ 4) (cpu.mem.storeLE o 8 (v % 256 ^ 4)) } := by
  have hsize := hwf.flag.1
  rw [hwf.writeRegister_narrow hk (by omega), hsize, RegisterFile.setRegister_flag ho (narrow_lt v)]

include hlaid

/-- flag の byte は語の外にある。 -/
theorem Laid.flags_outside : ∀ p ∈ c.file.flags, p.2 < o ∨ o + 8 ≤ p.2 := by
  intro p hp
  have hout := hlaid.flagsApart p hp _ (List.mem_of_getElem? hk) o ho
  rwa [widthOf, hwf.flag.1] at hout

/-- flag の byte を書いても、語は変わらない。 -/
theorem Laid.loadLE_spreadFlags (word : Nat) (m : Mem) :
    (spreadFlags c.file.flags word m).loadLE o 8 = m.loadLE o 8 := by
  rw [Mem.loadLE_eq_iff]
  intro i hi
  refine spreadFlags_of_notMem fun hmem => ?_
  obtain ⟨p, hp, hpeq⟩ := List.mem_map.mp hmem
  have hout := hlaid.flags_outside hwf hk ho p hp
  omega

theorem Laid.roundtrip_flag (hv : v < 256 ^ 4) :
    (c.writeRegister k v cpu).bind (c.value e k) = some v := by
  have hv8 : v < 256 ^ 8 := Nat.lt_trans hv (by decide)
  rw [hwf.write_flag hk ho, Nat.mod_eq_of_lt hv, Option.bind_some, value, hwf.read_flag hk ho,
    Option.map_some, Option.some_inj, hlaid.loadLE_spreadFlags hwf hk ho,
    Mem.loadLE_storeLE _ _ hv8]
  refine collectFlags_eq_self fun p hp => ?_
  show ((spreadFlags c.file.flags v (cpu.mem.storeLE o 8 v)) p.2).toNat.testBit 0 = v.testBit p.1
  rw [spreadFlags_of_mem hlaid.flagsNodup hp]
  cases v.testBit p.1 <;> rfl

theorem Laid.restore_flag_iff (e : PcBase) (cpu : CPUState) :
    (c.readRegister e k cpu).bind (fun p => c.writeRegister k p.1 p.2)
      = (c.readRegister e k cpu).map Prod.snd ↔
      cpu.mem.loadLE o 8 < 256 ^ 4 ∧ ∀ p ∈ c.file.flags, cpu.mem p.2 < 2 := by
  rw [hwf.read_flag hk ho, Option.bind_some, hwf.write_flag hk ho, Option.map_some,
    Option.some_inj, CPUState.mk.injEq, and_iff_left rfl, Mem.storeLE_storeLE]
  have hbits : collectFlags c.file.flags cpu.mem (cpu.mem.loadLE o 8) < 256 ^ 4 ↔
      cpu.mem.loadLE o 8 < 256 ^ 4 := collectFlags_lt_iff (k := 32) hwf.bits.2
  have hbit : ∀ p ∈ c.file.flags, (collectFlags c.file.flags cpu.mem
      (cpu.mem.loadLE o 8)).testBit p.1 = (cpu.mem p.2).toNat.testBit 0 :=
    fun p hp => testBit_collectFlags hwf.bits.1 hp
  have hw : collectFlags c.file.flags cpu.mem (cpu.mem.loadLE o 8) < 256 ^ 8 :=
    hwf.collectFlags_lt
  rw [← hbits]
  generalize collectFlags c.file.flags cpu.mem (cpu.mem.loadLE o 8) = w at hbit hw
  -- 語が 4 byte に収まれば、書き戻すのは同じ語で、あとは flag の byte だけである
  have hsame : w < 256 ^ 4 → (spreadFlags c.file.flags (w % 256 ^ 4)
      (cpu.mem.storeLE o 8 (w % 256 ^ 4)) = cpu.mem.storeLE o 8 w ↔
      ∀ p ∈ c.file.flags, cpu.mem p.2 < 2) := by
    intro hlt
    rw [Nat.mod_eq_of_lt hlt, spreadFlags_eq_self_iff hlaid.flagsNodup]
    refine forall₂_congr fun p hp => ?_
    rw [Mem.storeLE_outside (hlaid.flags_outside hwf hk ho p hp), hbit p hp,
      eq_testBit_iff_lt_two]
  constructor
  · intro h
    have hword := congrArg (fun m => Mem.loadLE m o 8) h
    simp only [hlaid.loadLE_spreadFlags hwf hk ho, Mem.loadLE_storeLE _ _ (narrow_lt w),
      Mem.loadLE_storeLE _ _ hw] at hword
    have hlt : w < 256 ^ 4 := (Nat.mod_eq_iff_lt (by decide)).mp hword
    exact ⟨hlt, (hsame hlt).mp h⟩
  · rintro ⟨hlt, hflags⟩
    exact (hsame hlt).mpr hflags

theorem faithful_flag_iff (hv : v < 256 ^ 4) : c.Faithful e k cpu v ↔
    cpu.mem.loadLE o 8 < 256 ^ 4 ∧ ∀ p ∈ c.file.flags, cpu.mem p.2 < 2 := by
  have hrestore := hlaid.restore_flag_iff hwf hk ho e cpu
  constructor
  · exact fun h => hrestore.mp h.restore
  · intro h
    have hseg := hwf.flag.2
    refine ⟨hlaid.roundtrip_flag hwf hk ho hv, hrestore.mpr h, ?_,
      hwf.name_of hk (by simp [hseg])⟩
    refine hwf.frame hlaid hk ho hseg (hwf.write_flag hk ho) fun a ha hflags => ?_
    rw [widthOf, hwf.flag.1] at ha
    exact (spreadFlags_of_notMem (hflags rfl)).trans (Mem.storeLE_outside ha)

end Flag

/-- `cs` の上の 4 byte は隣のもので、`cs` の 4 byte は `ds` を読むときの上の 4 byte である。 -/
theorem faithful_cs_iff (hwf : c.WellFormed) (hlaid : c.Laid) (hk : c.registers[k]? = some .cs)
    (ho : c.file.offset .cs = some o) (hv : v < 256 ^ 4) :
    c.Faithful e k cpu v ↔ cpu.mem.loadLE o 8 = v := by
  have hflag : ∀ {reg : CpuRegister}, isSegment reg = true → reg ≠ c.file.flagRegister := by
    rintro reg hreg rfl
    exact absurd hwf.flag.2 (by simp [hreg])
  have hrestore := hwf.restore_narrow_iff e cpu hk ho (by decide) rfl (hflag rfl)
  have hwrite : c.writeRegister k v cpu = some { cpu with mem := cpu.mem.storeLE o 8 v } := by
    rw [hwf.write_narrow hk ho rfl (hflag rfl), Nat.mod_eq_of_lt hv]
  have hv8 : v < 256 ^ 8 := Nat.lt_trans hv (by decide)
  constructor
  · intro h
    obtain ⟨hss, hds⟩ := hwf.pairs .cs (List.mem_of_getElem? hk) rfl
    obtain ⟨b, hb⟩ := Option.isSome_iff_exists.mp (hwf.offsets _ hss)
    obtain ⟨j, hj⟩ := List.mem_iff_getElem?.mp hds
    obtain ⟨-, -, -, hdso, hcso⟩ := hlaid.stride b hb
    have hob : o = b + 16 + 4 := by
      rw [hcso] at ho
      exact (Option.some_inj.mp ho).symm
    -- `ds` の読み値が変わらないので、`cs` の下の 4 byte は書く前と同じである
    have hframe := h.frame j (by rintro rfl; rw [hk] at hj; cases hj)
    rw [hwrite, Option.bind_some, value, value, hwf.read_field hj hdso (by decide) (hflag rfl),
      hwf.read_field hj hdso (by decide) (hflag rfl), Option.map_some, Option.map_some,
      Option.some_inj] at hframe
    have hbytes := Mem.loadLE_eq_iff.mp hframe
    have hlow : (cpu.mem.storeLE o 8 v).loadLE o 4 = cpu.mem.loadLE o 4 := by
      rw [Mem.loadLE_eq_iff]
      intro i hi
      have hbyte := hbytes (i + 4) (show i + 4 < 8 by omega)
      rwa [show b + 16 + (i + 4) = o + i by omega] at hbyte
    calc cpu.mem.loadLE o 8
        = cpu.mem.loadLE o 8 % 256 ^ 4 := (Nat.mod_eq_of_lt (hrestore.mp h.restore)).symm
      _ = (cpu.mem.storeLE o 8 v).loadLE o 8 % 256 ^ 4 := by
        rw [Mem.loadLE_mod _ _ (by decide), Mem.loadLE_mod _ _ (by decide), hlow]
      _ = v := by rw [Mem.loadLE_storeLE _ _ hv8, Nat.mod_eq_of_lt hv]
  · intro h
    have hsame : ({ cpu with mem := cpu.mem.storeLE o 8 v } : CPUState) = cpu := by
      rw [(Mem.storeLE_eq_self_iff hv8).mpr h]
    refine ⟨hwf.roundtrip_narrow hk ho (by decide) rfl (hflag rfl) hv, hrestore.mpr (h ▸ hv),
      fun j _ => ?_, hwf.name_of hk fun _ => rfl⟩
    rw [hwrite, hsame, Option.bind_some]

/-! ## 表の全体 -/

theorem byteSizeOf_cases (reg : CpuRegister) :
    byteSizeOf reg = 4 ∨ byteSizeOf reg = 8 ∨ byteSizeOf reg = 10 ∨ byteSizeOf reg = 16 := by
  cases reg <;> simp [byteSizeOf]

theorem byteSizeOf_of_isSegment (h : isSegment reg = true) : byteSizeOf reg = 4 := by
  cases reg <;> first | rfl | cases h

/-- 揃った表と並びの下で、忠実さと条件は同じである。 -/
theorem WellFormed.faithful_iff (hwf : c.WellFormed) (hlaid : c.Laid)
    (hk : c.registers[k]? = some reg) (hv : v < 256 ^ byteSizeOf reg) :
    c.Faithful e k cpu v ↔ c.Direct e reg cpu v := by
  obtain ⟨o, ho⟩ := Option.isSome_iff_exists.mp (hwf.offsets reg (List.mem_of_getElem? hk))
  have hword : c.word reg cpu = cpu.mem.loadLE o (widthOf reg) := by
    unfold word
    rw [ho]
  unfold Direct
  rw [hword]
  split
  · next hpc =>
    subst hpc
    exact faithful_pc_iff hwf hlaid hk ho hv
  next hpc =>
  split
  · next hseg =>
    have hsize := byteSizeOf_of_isSegment hseg
    by_cases hcs : reg = .cs
    · subst hcs
      exact (faithful_cs_iff hwf hlaid hk ho hv).trans (and_iff_right rfl).symm
    · -- 名前の違う segment は、どの状態でも忠実でない
      refine iff_of_false (fun h => hcs ?_) fun h => hcs h.1
      exact (hwf.name_iff hlaid hk).mp h.name hseg
  next hseg =>
  have hseg : isSegment reg = false := Bool.eq_false_iff.mpr hseg
  split
  · next hsize => exact faithful_st_iff hwf hk ho hpc hseg hsize
  next hten =>
  split
  · next hsize =>
    -- debugger に見せるより広く持つ register。書いた値を零で広げて置くことになる
    have hwidth : widthOf reg = 8 := widthOf_of_le (by omega)
    rw [hsize] at hv
    rw [hwidth]
    by_cases hflag : reg = c.file.flagRegister
    · subst hflag
      rw [faithful_flag_iff hwf hlaid hk ho hv, forall_prop_of_true rfl]
    · rw [faithful_narrow_iff hwf hlaid hk ho hpc hseg hsize hflag hv]
      exact (and_iff_left fun h => absurd h hflag).symm
  · next hfour =>
    refine iff_of_true (faithful_field hwf hlaid hk ho hpc hseg ?_ hv) trivial
    have hcases := byteSizeOf_cases reg
    omega

end RegisterContext

/-- 二つの register context。 -/
inductive StateLayout where
  | aarch64 (state : AArch64State)
  | x86 (state : X86State)

def StateLayout.context : StateLayout → RegisterContext
  | .aarch64 state => arm64Context state
  | .x86 state => x64Context state

theorem StateLayout.wellFormed : ∀ layout : StateLayout, layout.context.WellFormed
  | .aarch64 state => arm64Context_wellFormed state
  | .x86 state => x64Context_wellFormed state

/--
どちらの context でも、表のどの register、どの CPU の状態、`byte_size` に収まるどの値でも、読み書きが
忠実なのは、次の条件のときに限る。
-/
theorem StateLayout.faithful_iff_direct (layout : StateLayout) (hlaid : layout.context.Laid)
    (e : PcBase) (index : Nat) (reg : CpuRegister) (info : RegisterInfo) (cpu : CPUState) (v : Nat)
    (hreg : layout.context.registers[index]? = some reg)
    (hinfo : layout.context.registerInfos[index]? = some info) (hv : v < 256 ^ info.byteSize) :
    layout.context.Faithful e index cpu v ↔ layout.context.Direct e reg cpu v := by
  obtain ⟨info', hinfo', hsize⟩ := layout.wellFormed.info hreg
  obtain rfl : info = info' := Option.some_inj.mp (hinfo.symm.trans hinfo')
  exact layout.wellFormed.faithful_iff hlaid hreg (hsize ▸ hv)

/-! ## 例 -/

/-- Remill の `X86State` の並び。register の前には同じ大きさの隙間がある。 -/
def sampleState : X86State where
  vec := fun i => 16 + 64 * i
  cf := 2065
  pf := 2067
  af := 2069
  zf := 2071
  sf := 2073
  df := 2075
  of := 2077
  rflag := 2080
  ss := 2090
  es := 2094
  gs := 2098
  fs := 2102
  ds := 2106
  cs := 2110
  zero := 2208
  rax := 2216
  rbx := 2232
  rcx := 2248
  rdx := 2264
  rsi := 2280
  rdi := 2296
  rsp := 2312
  rbp := 2328
  r8 := 2344
  r9 := 2360
  r10 := 2376
  r11 := 2392
  r12 := 2408
  r13 := 2424
  r14 := 2440
  r15 := 2456
  rip := 2472
  st := fun i => 2480 + 16 * i
  mmx := fun i => 2608 + 16 * i

def sampleCpu : CPUState := ⟨fun _ => 0, 0⟩

/-- binary を付けていない engine。 -/
def sampleBase : PcBase := ⟨none, 0x10000, none⟩

theorem sampleState_laid : (x64Context sampleState).Laid where
  apart := by decide +kernel
  flagsApart := by decide +kernel
  flagsNodup := by decide +kernel
  stride := by decide +kernel

/-- binary を付けていなければ、`rip` は忠実に読み書きできる。 -/
theorem sampleState_rip_faithful :
    (x64Context sampleState).Faithful sampleBase 16 sampleCpu 0x401000 :=
  (StateLayout.faithful_iff_direct (.x86 sampleState) sampleState_laid sampleBase 16 .pc
    ⟨"rip", 8⟩ sampleCpu 0x401000 rfl rfl (by decide)).mpr ⟨rfl, rfl⟩

/-- `st0` に 1 を書いても、読むと 0 のままである。 -/
theorem sampleState_st0_not_faithful :
    ¬ (x64Context sampleState).Faithful sampleBase 24 sampleCpu 1 := by
  intro h
  have hread : ((x64Context sampleState).writeRegister 24 1 sampleCpu).bind
      ((x64Context sampleState).value sampleBase 24) = some 0 := by decide +kernel
  exact absurd (hread.symm.trans h.roundtrip) (by decide)

end AetherVM.Debugger
