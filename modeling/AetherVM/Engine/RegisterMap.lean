import AetherVM.Debugger.ContextSound

/-!
# register の列への読み書き（`getRegister` / `setRegister` の列）

`getRegister` / `setRegister` を並べて呼んだとき、register の列は register から値への写像として振る舞うか
を言う。外れるのは二つである。

* 書き込みは register の幅によらず 8 byte なので、4 byte おきに並ぶ segment は次の segment を壊す。
* `ZERO` にも書ける。
-/

namespace AetherVM

open Infra

/-! ## register の幅 -/

namespace CpuRegister

/-- `State` の中に並ぶ順の segment。 -/
def segments : List CpuRegister := [.ss, .es, .gs, .fs, .ds, .cs]

/-- architecture の上での byte 数。 -/
def width : CpuRegister → Nat
  | .ss | .es | .gs | .fs | .ds | .cs => 2
  | .st _ => 10
  | .q _ | .xmm _ => 16
  | _ => 8

/-- 読み書きが触れる byte の数。segment の後ろの 6 byte を含む。 -/
def extent (reg : CpuRegister) : Nat := max 8 reg.width

theorem width_of_mem_segments : ∀ {reg : CpuRegister}, reg ∈ segments → reg.width = 2 := by
  simp [segments, width]

theorem ne_of_follows {i : Nat} {reg next : CpuRegister} (hi : segments[i]? = some reg)
    (hnext : segments[i + 1]? = some next) : next ≠ reg := by
  rintro rfl
  have hnodup : segments.Nodup := by decide
  obtain ⟨hlt, -⟩ := List.getElem?_eq_some_iff.mp hi
  have := (List.getElem?_inj hlt hnodup).mp (hi.trans hnext.symm)
  omega

theorem eight_le_extent (reg : CpuRegister) : 8 ≤ reg.extent := Nat.le_max_left _ _

end CpuRegister

/-! ## 呼び出し -/

/-- `getRegister`（`cvtpc` は偽）と、二つの `setRegister` の呼び出し。 -/
inductive RegisterCall where
  | get (reg : CpuRegister)
  | set (reg : CpuRegister) (val : UInt64)
  | setSIMD (reg : CpuRegister) (low high : UInt64)
deriving DecidableEq, Repr

namespace RegisterFile

variable (f : RegisterFile)

/-- 呼び出しの後の CPU。 -/
def call (cpu : CPUState) : RegisterCall → CPUState
  | .get reg => ((f.getRegister cpu reg).map Prod.snd).getD cpu
  | .set reg val => (f.setRegister cpu reg val.toNat).2
  | .setSIMD reg low high =>
    (f.setRegisterSIMD cpu reg (low.toNat + 256 ^ 8 * high.toNat)).2

/-- `getRegister` の返す pointer の先の値。 -/
def read (cpu : CPUState) (reg : CpuRegister) : Option Nat :=
  (f.getRegister cpu reg).map fun p => p.2.mem.loadLE p.1 reg.width

end RegisterFile

/-! ## 写像としての register の列 -/

/-- register から値への写像。無い register は `none` である。 -/
abbrev RegisterBank := CpuRegister → Option Nat

/--
呼び出しの後の写像。8 byte の `set` は、広い register の上位を残す。読むことと `ZERO` への `set` は
何も変えない。
-/
def RegisterBank.apply (simd : CpuRegister → Bool) (bank : RegisterBank) :
    RegisterCall → RegisterBank
  | .get _ => bank
  | .set reg val =>
    if reg = .zero then bank
    else Function.update bank reg ((bank reg).map fun old =>
      val.toNat % 256 ^ reg.width + 256 ^ 8 * (old / 256 ^ 8))
  | .setSIMD reg low high =>
    if simd reg then
      Function.update bank reg ((bank reg).map fun _ => low.toNat + 256 ^ 8 * high.toNat)
    else bank

section RegisterBank

variable {simd : CpuRegister → Bool} {bank : RegisterBank} {reg : CpuRegister}

@[simp] theorem RegisterBank.apply_set_zero (val : UInt64) :
    bank.apply simd (.set .zero val) = bank := rfl

theorem RegisterBank.apply_set (hne : reg ≠ .zero) (val : UInt64) :
    bank.apply simd (.set reg val) = Function.update bank reg ((bank reg).map fun old =>
      val.toNat % 256 ^ reg.width + 256 ^ 8 * (old / 256 ^ 8)) := if_neg hne

theorem RegisterBank.apply_setSIMD (h : simd reg = true) (low high : UInt64) :
    bank.apply simd (.setSIMD reg low high) =
      Function.update bank reg ((bank reg).map fun _ => low.toNat + 256 ^ 8 * high.toNat) :=
  if_pos h

theorem RegisterBank.apply_setSIMD_of_not (h : ¬ simd reg = true) (low high : UInt64) :
    bank.apply simd (.setSIMD reg low high) = bank := if_neg h

end RegisterBank

namespace RegisterFile

variable (f : RegisterFile)

/-- flag の語と、命令の読む flag の byte が、bit ごとに揃っていること。 -/
def FlagsAgree (cpu : CPUState) : Prop :=
  ∀ w ∈ f.read cpu f.flagRegister, ∀ p ∈ f.flags, cpu.mem p.2 = if w.testBit p.1 then 1 else 0

/-- 呼び出しの列のどこでも、register の列が写像として振る舞うこと。 -/
def BehavesAsMap (cpu : CPUState) (calls : List RegisterCall) : Prop :=
  ∀ past, past <+: calls →
    f.read (past.foldl f.call cpu) = past.foldl (RegisterBank.apply f.simd) (f.read cpu) ∧
      f.read (past.foldl f.call cpu) .zero = some 0 ∧ f.FlagsAgree (past.foldl f.call cpu)

/-- `ZERO` の置き場所は零で、flag の byte は 0 か 1 である。 -/
structure Booted (cpu : CPUState) : Prop where
  zero : ∀ o ∈ f.offset .zero, cpu.mem.loadLE o 8 = 0
  flags : ∀ p ∈ f.flags, cpu.mem p.2 < 2

/-- 害のない呼び出し。`ZERO` には零を書き、segment に書く値の上位は、次の segment の今の値である。 -/
def Harmless (cpu : CPUState) : RegisterCall → Prop
  | .set reg val =>
    (reg = .zero → val = 0) ∧
      ∀ i < CpuRegister.segments.length, CpuRegister.segments[i]? = some reg →
        ∀ next ∈ CpuRegister.segments[i + 1]?, ∀ w ∈ f.read cpu next,
          w = val.toNat / 256 ^ 4 % 256 ^ 2
  | _ => True

instance (cpu : CPUState) : (c : RegisterCall) → Decidable (f.Harmless cpu c)
  | .get _ => .isTrue trivial
  | .set reg val => inferInstanceAs (Decidable ((reg = .zero → val = 0) ∧
      ∀ i < CpuRegister.segments.length, CpuRegister.segments[i]? = some reg →
        ∀ next ∈ CpuRegister.segments[i + 1]?, ∀ w ∈ f.read cpu next,
          w = val.toNat / 256 ^ 4 % 256 ^ 2))
  | .setSIMD _ _ _ => .isTrue trivial

/-- どの呼び出しも、その前の状態で害がない。 -/
def HarmlessRun : CPUState → List RegisterCall → Prop
  | _, [] => True
  | cpu, c :: rest => f.Harmless cpu c ∧ HarmlessRun (f.call cpu c) rest

/-- `switch` の表が揃っていること。 -/
structure WellFormed : Prop where
  zero : (f.offset .zero).isSome
  flag : (f.offset f.flagRegister).isSome
  flagWidth : f.flagRegister.width = 8
  flagNe : f.flagRegister ≠ .zero
  simd : ∀ reg, f.simd reg = true → reg.width = 16
  bits : (f.flags.map Prod.fst).Nodup ∧ ∀ p ∈ f.flags, p.1 < 64

/--
Remill の `State` の並び。register の置き場所と flag の byte は互いに重ならず、segment は 4 byte おきに
並ぶ。最後の segment の後ろは隙間である。
-/
structure Laid : Prop where
  apart : ∀ reg reg', reg ≠ reg' →
    ¬ (reg ∈ CpuRegister.segments ∧ reg' ∈ CpuRegister.segments) →
    ∀ o ∈ f.offset reg, ∀ o' ∈ f.offset reg', o + reg.extent ≤ o' ∨ o' + reg'.extent ≤ o
  flagsApart : ∀ p ∈ f.flags, ∀ reg, ∀ o ∈ f.offset reg, p.2 < o ∨ o + reg.extent ≤ p.2
  flagsNodup : (f.flags.map Prod.snd).Nodup
  stride : ∀ i reg, CpuRegister.segments[i]? = some reg →
    f.offset reg = (f.offset .ss).map (· + 4 * i)

end RegisterFile

theorem AArch64State.file_wellFormed (s : AArch64State) : s.file.WellFormed where
  zero := rfl
  flag := rfl
  flagWidth := rfl
  flagNe := by simp [file]
  simd := by
    intro reg h
    cases reg <;> first | rfl | cases h
  bits := by simp [file]

theorem X86State.file_wellFormed (s : X86State) : s.file.WellFormed where
  zero := rfl
  flag := rfl
  flagWidth := rfl
  flagNe := by simp [file]
  simd := by
    intro reg h
    cases reg <;> first | rfl | cases h
  bits := by simp [file]

/-! ## 読む値 -/

namespace RegisterFile

section Read

variable {f : RegisterFile} {cpu cpu' : CPUState} {reg reg' : CpuRegister} {o : Nat}

theorem read_none (ho : f.offset reg = none) : f.read cpu reg = none := by
  simp [read, getRegister, ho]

theorem read_of_ne (ho : f.offset reg = some o) (hne : reg ≠ f.flagRegister) :
    f.read cpu reg = some (cpu.mem.loadLE o reg.width) := by
  simp [read, getRegister_of_ne ho hne]

theorem WellFormed.collectFlags_lt (hwf : f.WellFormed) (cpu : CPUState) (o : Nat) :
    collectFlags f.flags cpu.mem (cpu.mem.loadLE o 8) < 256 ^ 8 :=
  (collectFlags_lt_iff (k := 64) hwf.bits.2).mpr (Mem.loadLE_lt _ _ _)

theorem WellFormed.read_flag (hwf : f.WellFormed) (ho : f.offset f.flagRegister = some o) :
    f.read cpu f.flagRegister = some (collectFlags f.flags cpu.mem (cpu.mem.loadLE o 8)) := by
  simp only [read, getRegister_flag ho, Option.map_some, hwf.flagWidth,
    Mem.loadLE_storeLE _ _ (hwf.collectFlags_lt cpu o)]

/-- 幅が 8 byte でない register は flag の register ではない。segment と SIMD がこれに当たる。 -/
theorem WellFormed.ne_flagRegister (hwf : f.WellFormed) (hwidth : reg.width ≠ 8) :
    reg ≠ f.flagRegister := by
  rintro rfl
  exact hwidth hwf.flagWidth

theorem WellFormed.ne_flagRegister_of_segment (hwf : f.WellFormed)
    (hseg : reg ∈ CpuRegister.segments) : reg ≠ f.flagRegister := by
  refine hwf.ne_flagRegister ?_
  rw [CpuRegister.width_of_mem_segments hseg]
  decide

/-- 読む値は、register の置き場所と flag の byte だけで決まる。 -/
theorem WellFormed.read_congr (hwf : f.WellFormed) (ho : f.offset reg = some o)
    (hfield : ∀ i < reg.width, cpu'.mem (o + i) = cpu.mem (o + i))
    (hflags : reg = f.flagRegister → ∀ p ∈ f.flags, cpu'.mem p.2 = cpu.mem p.2) :
    f.read cpu' reg = f.read cpu reg := by
  have hload : cpu'.mem.loadLE o reg.width = cpu.mem.loadLE o reg.width :=
    Mem.loadLE_eq_iff.mpr hfield
  by_cases hflag : reg = f.flagRegister
  · subst hflag
    rw [hwf.flagWidth] at hload
    rw [hwf.read_flag ho, hwf.read_flag ho, hload]
    exact congrArg some (List.foldl_ext _ _ _ fun w p hp => by rw [hflags rfl p hp])
  · rw [read_of_ne ho hflag, read_of_ne ho hflag, hload]

/-- flag の語が byte と揃うのは、byte が 0 か 1 のときである。 -/
theorem WellFormed.flagsAgree_iff (hwf : f.WellFormed) :
    f.FlagsAgree cpu ↔ ∀ p ∈ f.flags, cpu.mem p.2 < 2 := by
  obtain ⟨o, ho⟩ := Option.isSome_iff_exists.mp hwf.flag
  unfold FlagsAgree
  rw [hwf.read_flag ho]
  simp only [Option.mem_def, Option.some.injEq, forall_eq']
  refine forall₂_congr fun p hp => ?_
  rw [testBit_collectFlags hwf.bits.1 hp, eq_testBit_iff_lt_two]

theorem WellFormed.booted_iff (hwf : f.WellFormed) :
    f.Booted cpu ↔ f.read cpu .zero = some 0 ∧ f.FlagsAgree cpu := by
  obtain ⟨o, ho⟩ := Option.isSome_iff_exists.mp hwf.zero
  rw [hwf.flagsAgree_iff, read_of_ne ho hwf.flagNe.symm, Option.some.injEq]
  constructor
  · rintro ⟨hzero, hflags⟩
    exact ⟨hzero o ho, hflags⟩
  · rintro ⟨hzero, hflags⟩
    refine ⟨fun o' ho' => ?_, hflags⟩
    obtain rfl := Option.some.inj (ho.symm.trans ho')
    exact hzero

/-- 一つの register とその flag の byte だけを書けば、ほかの register の値は変わらない。 -/
theorem WellFormed.read_frame (hwf : f.WellFormed) (hlaid : f.Laid) (ho : f.offset reg = some o)
    (hne : reg' ≠ reg)
    (hseg : ¬ (reg ∈ CpuRegister.segments ∧ reg' ∈ CpuRegister.segments))
    (hout : ∀ a, (a < o ∨ o + reg.extent ≤ a) →
      (reg = f.flagRegister → a ∉ f.flags.map Prod.snd) → cpu'.mem a = cpu.mem a) :
    f.read cpu' reg' = f.read cpu reg' := by
  cases ho' : f.offset reg' with
  | none => rw [read_none ho', read_none ho']
  | some o' =>
    have hapart := hlaid.apart reg reg' (Ne.symm hne) hseg o ho o' ho'
    have hwidth : reg'.width ≤ reg'.extent := Nat.le_max_right _ _
    -- 相手の byte は、書いた範囲とも flag の byte とも重ならない
    refine hwf.read_congr ho' (fun i hi => hout _ (by omega) ?_) fun hflag p hp => ?_
    · rintro - hmem
      obtain ⟨p, hp, hpeq⟩ := List.mem_map.mp hmem
      have hpapart := hlaid.flagsApart p hp reg' o' ho'
      omega
    · refine hout _ (hlaid.flagsApart p hp reg o ho) fun heq => ?_
      exact absurd (hflag.trans heq.symm) hne

end Read

/-! ## 一つの呼び出し -/

section Call

variable {f : RegisterFile} {cpu : CPUState} {reg reg' : CpuRegister} {o i : Nat} {val : UInt64}

theorem val_lt (val : UInt64) : val.toNat < 256 ^ 8 := val.toNat_lt

theorem call_get_of_ne (hne : reg ≠ f.flagRegister) : f.call cpu (.get reg) = cpu := by
  cases ho : f.offset reg with
  | none => simp [call, getRegister, ho]
  | some o => simp [call, getRegister_of_ne ho hne]

/-- 書く先の無い register には何も起きない。 -/
theorem call_set_none (ho : f.offset reg = none) : f.call cpu (.set reg val) = cpu := by
  simp [call, setRegister, getRegister, ho]

/-- 読むことは、どの register の値も flag も変えない。 -/
theorem WellFormed.read_call_get (hwf : f.WellFormed) (hlaid : f.Laid) (cpu : CPUState)
    (reg : CpuRegister) : f.read (f.call cpu (.get reg)) = f.read cpu ∧
      ∀ p ∈ f.flags, (f.call cpu (.get reg)).mem p.2 = cpu.mem p.2 := by
  by_cases hflag : reg = f.flagRegister
  · subst hflag
    obtain ⟨o, ho⟩ := Option.isSome_iff_exists.mp hwf.flag
    have hmem : (f.call cpu (.get f.flagRegister)).mem =
        cpu.mem.storeLE o 8 (collectFlags f.flags cpu.mem (cpu.mem.loadLE o 8)) := by
      simp [call, getRegister_flag ho]
    have hextent : f.flagRegister.extent = 8 := by rw [CpuRegister.extent, hwf.flagWidth]; rfl
    have hflags : ∀ p ∈ f.flags, (f.call cpu (.get f.flagRegister)).mem p.2 = cpu.mem p.2 := by
      intro p hp
      have hapart := hlaid.flagsApart p hp f.flagRegister o ho
      rw [hmem, Mem.storeLE_outside (by omega)]
    refine ⟨funext fun reg' => ?_, hflags⟩
    by_cases hne : reg' = f.flagRegister
    · subst hne
      have hself : collectFlags f.flags (f.call cpu (.get f.flagRegister)).mem
          (collectFlags f.flags cpu.mem (cpu.mem.loadLE o 8))
          = collectFlags f.flags cpu.mem (cpu.mem.loadLE o 8) := by
        refine collectFlags_eq_self fun p hp => ?_
        rw [hflags p hp, testBit_collectFlags hwf.bits.1 hp]
      rw [hwf.read_flag ho, hwf.read_flag ho, hmem,
        Mem.loadLE_storeLE _ _ (hwf.collectFlags_lt cpu o), ← hmem, hself]
    · refine hwf.read_frame hlaid ho hne (fun h => ?_) fun a ha _ => ?_
      · exact hwf.ne_flagRegister_of_segment h.1 rfl
      · rw [hmem, Mem.storeLE_outside (by omega)]
  · rw [call_get_of_ne hflag]
    exact ⟨rfl, fun _ _ => rfl⟩

theorem call_set_of_ne (ho : f.offset reg = some o) (hne : reg ≠ f.flagRegister) :
    (f.call cpu (.set reg val)).mem = cpu.mem.storeLE o 8 val.toNat := by
  rw [call, setRegister_of_ne ho hne]

theorem call_set_flag (ho : f.offset f.flagRegister = some o) :
    (f.call cpu (.set f.flagRegister val)).mem
      = spreadFlags f.flags val.toNat (cpu.mem.storeLE o 8 val.toNat) := by
  rw [call, setRegister_flag ho (val_lt val)]

/-- `set` は、flag の register でなければ flag の byte に触れない。 -/
theorem Laid.call_set_flags (hlaid : f.Laid) (hne : reg ≠ f.flagRegister) :
    ∀ p ∈ f.flags, (f.call cpu (.set reg val)).mem p.2 = cpu.mem p.2 := by
  intro p hp
  cases ho : f.offset reg with
  | none => rw [call_set_none ho]
  | some o =>
    have hextent := reg.eight_le_extent
    have hapart := hlaid.flagsApart p hp reg o ho
    rw [call_set_of_ne ho hne, Mem.storeLE_outside (by omega)]

/-- `set` の後の、その register の値。 -/
theorem WellFormed.read_set_self (hwf : f.WellFormed) (hlaid : f.Laid) (cpu : CPUState)
    (reg : CpuRegister) (val : UInt64) : f.read (f.call cpu (.set reg val)) reg =
      (f.read cpu reg).map fun old =>
        val.toNat % 256 ^ reg.width + 256 ^ 8 * (old / 256 ^ 8) := by
  cases ho : f.offset reg with
  | none => rw [read_none ho, read_none ho]; rfl
  | some o =>
    by_cases hflag : reg = f.flagRegister
    · subst hflag
      have hout : ∀ i < 8, o + i ∉ f.flags.map Prod.snd := by
        intro i hi hmem
        obtain ⟨p, hp, hpeq⟩ := List.mem_map.mp hmem
        have hapart := hlaid.flagsApart p hp f.flagRegister o ho
        have hextent := f.flagRegister.eight_le_extent
        omega
      have hload : (f.call cpu (.set f.flagRegister val)).mem.loadLE o 8 = val.toNat := by
        rw [call_set_flag ho]
        refine Eq.trans (Mem.loadLE_eq_iff.mpr fun i hi => ?_)
          (Mem.loadLE_storeLE cpu.mem o (val_lt val))
        exact spreadFlags_of_notMem (hout i hi)
      have hself : collectFlags f.flags (f.call cpu (.set f.flagRegister val)).mem val.toNat
          = val.toNat := by
        refine collectFlags_eq_self fun p hp => ?_
        rw [call_set_flag ho, spreadFlags_of_mem hlaid.flagsNodup hp]
        split
        · next h => rw [h]; rfl
        · next h => rw [Bool.eq_false_iff.mpr h]; rfl
      rw [hwf.read_flag ho, hwf.read_flag ho, hload, hself, Option.map_some, hwf.flagWidth,
        Nat.div_eq_of_lt (hwf.collectFlags_lt cpu o), Nat.mod_eq_of_lt (val_lt val), Nat.mul_zero,
        Nat.add_zero]
    · rw [read_of_ne ho hflag, read_of_ne ho hflag, call_set_of_ne ho hflag, Option.map_some,
        Mem.loadLE_storeLE_low _ _ _ (val_lt val)]

theorem Laid.offset_segment (hlaid : f.Laid) (ho : f.offset reg = some o)
    (hi : CpuRegister.segments[i]? = some reg) {j : Nat}
    (hj : CpuRegister.segments[j]? = some reg') :
    ∃ o', f.offset reg' = some o' ∧ o' + 4 * i = o + 4 * j := by
  have hstride := hlaid.stride i reg hi
  rw [ho] at hstride
  obtain ⟨base, hbase, rfl⟩ := Option.map_eq_some_iff.mp hstride.symm
  refine ⟨base + 4 * j, ?_, by omega⟩
  rw [hlaid.stride j reg' hj, hbase]
  rfl

/-- segment に書くと、その値の 4 byte 目からが次の segment の値になる。 -/
theorem WellFormed.read_set_next (hwf : f.WellFormed) (hlaid : f.Laid) (ho : f.offset reg = some o)
    (hi : CpuRegister.segments[i]? = some reg) (hnext : CpuRegister.segments[i + 1]? = some reg') :
    f.read (f.call cpu (.set reg val)) reg' = some (val.toNat / 256 ^ 4 % 256 ^ 2) := by
  obtain ⟨o', ho', heq⟩ := hlaid.offset_segment ho hi hnext
  obtain rfl : o' = o + 4 := by omega
  have hmem := List.mem_of_getElem? hnext
  have hflag := hwf.ne_flagRegister_of_segment (List.mem_of_getElem? hi)
  have hflag' := hwf.ne_flagRegister_of_segment hmem
  rw [read_of_ne ho' hflag', call_set_of_ne ho hflag, CpuRegister.width_of_mem_segments hmem,
    Mem.loadLE_storeLE_mid _ _ _ (by decide)]

/-- 次の segment のほかは変わらない。 -/
theorem WellFormed.read_set_of_ne (hwf : f.WellFormed) (hlaid : f.Laid) (hne : reg' ≠ reg)
    (hnext : ∀ i, CpuRegister.segments[i]? = some reg →
      CpuRegister.segments[i + 1]? ≠ some reg') :
    f.read (f.call cpu (.set reg val)) reg' = f.read cpu reg' := by
  cases ho : f.offset reg with
  | none => rw [call_set_none ho]
  | some o =>
    have hextent := reg.eight_le_extent
    by_cases hseg : reg ∈ CpuRegister.segments ∧ reg' ∈ CpuRegister.segments
    · obtain ⟨i, hi⟩ := List.mem_iff_getElem?.mp hseg.1
      obtain ⟨j, hj⟩ := List.mem_iff_getElem?.mp hseg.2
      obtain ⟨o', ho', heq⟩ := hlaid.offset_segment ho hi hj
      have hij : j ≠ i := by
        rintro rfl
        exact hne (Option.some.inj (hj.symm.trans hi))
      have hij' : j ≠ i + 1 := by
        rintro rfl
        exact hnext i hi hj
      have hwidth' := CpuRegister.width_of_mem_segments hseg.2
      have hflag := hwf.ne_flagRegister_of_segment hseg.1
      refine hwf.read_congr ho' (fun k hk => ?_) fun _ => hlaid.call_set_flags hflag
      rw [call_set_of_ne ho hflag, Mem.storeLE_outside (by omega)]
    · by_cases hflag : reg = f.flagRegister
      · subst hflag
        refine hwf.read_frame hlaid ho hne hseg fun a ha hnot => ?_
        rw [call_set_flag ho, spreadFlags_of_notMem (hnot rfl), Mem.storeLE_outside (by omega)]
      · refine hwf.read_frame hlaid ho hne hseg fun a ha _ => ?_
        rw [call_set_of_ne ho hflag, Mem.storeLE_outside (by omega)]

/-- 16 byte の `set` は、その register を丸ごと書き、ほかには触れない。 -/
theorem WellFormed.read_setSIMD (hwf : f.WellFormed) (hlaid : f.Laid) (cpu : CPUState)
    (reg : CpuRegister) (low high : UInt64) :
    f.read (f.call cpu (.setSIMD reg low high)) =
        RegisterBank.apply f.simd (f.read cpu) (.setSIMD reg low high) ∧
      ∀ p ∈ f.flags, (f.call cpu (.setSIMD reg low high)).mem p.2 = cpu.mem p.2 := by
  by_cases hsimd : f.simd reg = true
  · rw [RegisterBank.apply_setSIMD hsimd]
    have hwidth := hwf.simd reg hsimd
    have hflag : reg ≠ f.flagRegister := hwf.ne_flagRegister (by rw [hwidth]; decide)
    cases ho : f.offset reg with
    | none =>
      have hcall : f.call cpu (.setSIMD reg low high) = cpu := by
        simp [call, setRegisterSIMD, getRegister, ho, hsimd]
      rw [hcall, read_none ho, Option.map_none, Function.update_eq_self_iff.mpr (read_none ho).symm]
      exact ⟨rfl, fun _ _ => rfl⟩
    | some o =>
      have hmem : (f.call cpu (.setSIMD reg low high)).mem =
          cpu.mem.storeLE o 16 (low.toNat + 256 ^ 8 * high.toNat) := by
        simp [call, setRegisterSIMD, getRegister_of_ne ho hflag, hsimd]
      have hextent : reg.extent = 16 := by rw [CpuRegister.extent, hwidth]; rfl
      refine ⟨funext fun reg' => ?_, fun p hp => ?_⟩
      · by_cases hne : reg' = reg
        · subst hne
          have hlow := val_lt low
          have hhigh := val_lt high
          rw [Function.update_self, read_of_ne ho hflag, read_of_ne ho hflag, hmem, hwidth,
            Mem.loadLE_storeLE _ _ (by omega), Option.map_some]
        · rw [Function.update_of_ne hne]
          refine hwf.read_frame hlaid ho hne (fun h => ?_) fun a ha _ => ?_
          · rw [CpuRegister.width_of_mem_segments h.1] at hwidth
            cases hwidth
          · rw [hmem, Mem.storeLE_outside (by omega)]
      · have hapart := hlaid.flagsApart p hp reg o ho
        rw [hmem, Mem.storeLE_outside (by omega)]
  · have hcall : f.call cpu (.setSIMD reg low high) = cpu := by simp [call, setRegisterSIMD, hsimd]
    rw [RegisterBank.apply_setSIMD_of_not hsimd, hcall]
    exact ⟨rfl, fun _ _ => rfl⟩

/-! ## 列 -/

/-- flag の byte は、どの呼び出しの後でも 0 か 1 である。 -/
theorem WellFormed.flags_call (hwf : f.WellFormed) (hlaid : f.Laid)
    (hflags : ∀ p ∈ f.flags, cpu.mem p.2 < 2) (c : RegisterCall) :
    ∀ p ∈ f.flags, (f.call cpu c).mem p.2 < 2 := by
  intro p hp
  cases c with
  | get reg => rw [(hwf.read_call_get hlaid cpu reg).2 p hp]; exact hflags p hp
  | setSIMD reg low high => rw [(hwf.read_setSIMD hlaid cpu reg low high).2 p hp]; exact hflags p hp
  | set reg val =>
    by_cases hflag : reg = f.flagRegister
    · subst hflag
      obtain ⟨o, ho⟩ := Option.isSome_iff_exists.mp hwf.flag
      rw [call_set_flag ho, spreadFlags_of_mem hlaid.flagsNodup hp]
      split <;> decide
    · rw [hlaid.call_set_flags hflag p hp]
      exact hflags p hp

/-- 次の segment が読めるなら、その前の segment にも置き場所がある。 -/
theorem Laid.exists_offset_of_follows (hlaid : f.Laid) (hi : CpuRegister.segments[i]? = some reg)
    (hnext : CpuRegister.segments[i + 1]? = some reg') {w : Nat} (hw : f.read cpu reg' = some w) :
    ∃ o, f.offset reg = some o := by
  have hoff := hlaid.stride (i + 1) reg' hnext
  rw [hlaid.stride i reg hi]
  cases hss : f.offset .ss with
  | some base => exact ⟨base + 4 * i, rfl⟩
  | none =>
    rw [hss] at hoff
    rw [read_none hoff] at hw
    cases hw

/-- `set` が写像の通りになったなら、`ZERO` へ書いたのは零であり、segment の次は元の値のままである。 -/
theorem WellFormed.harmless_of_read_set (hwf : f.WellFormed) (hlaid : f.Laid)
    (hzero : f.read cpu .zero = some 0)
    (h : f.read (f.call cpu (.set reg val)) =
      RegisterBank.apply f.simd (f.read cpu) (.set reg val)) :
    f.Harmless cpu (.set reg val) := by
  refine ⟨?_, fun i _ hi next hnext w hw => ?_⟩
  · rintro rfl
    have hval := congrFun h .zero
    rw [hwf.read_set_self hlaid, RegisterBank.apply_set_zero, hzero, Option.map_some,
      Option.some.injEq] at hval
    have hmod : val.toNat % 256 ^ 8 = val.toNat := Nat.mod_eq_of_lt (val_lt val)
    have hval : val.toNat % 256 ^ 8 + 256 ^ 8 * (0 / 256 ^ 8) = 0 := hval
    exact UInt64.toNat_inj.mp (by simpa [hmod] using hval)
  · obtain ⟨o, ho⟩ := hlaid.exists_offset_of_follows hi hnext hw
    have hseg : reg ≠ .zero := by
      rintro rfl
      exact absurd (List.mem_of_getElem? hi) (by decide)
    have hval := congrFun h next
    rw [hwf.read_set_next hlaid ho hi hnext, RegisterBank.apply_set hseg,
      Function.update_of_ne (CpuRegister.ne_of_follows hi hnext), Option.mem_def.mp hw] at hval
    exact (Option.some.inj hval).symm

/-- 害のない `set` の後の、ほかの register の値。 -/
theorem WellFormed.read_set_frame (hwf : f.WellFormed) (hlaid : f.Laid)
    (h : f.Harmless cpu (.set reg val)) (hne : reg' ≠ reg) :
    f.read (f.call cpu (.set reg val)) reg' = f.read cpu reg' := by
  by_cases hfollows : ∃ i, CpuRegister.segments[i]? = some reg ∧
      CpuRegister.segments[i + 1]? = some reg'
  · obtain ⟨i, hi, hi'⟩ := hfollows
    cases ho : f.offset reg with
    | none => rw [call_set_none ho]
    | some o =>
      obtain ⟨o', ho', -⟩ := hlaid.offset_segment ho hi hi'
      rw [hwf.read_set_next hlaid ho hi hi']
      cases hread : f.read cpu reg' with
      | none => simp [read, getRegister, ho'] at hread
      | some w =>
        have hlt := (List.getElem?_eq_some_iff.mp hi).1
        rw [h.2 i hlt hi reg' hi' w hread]
  · exact hwf.read_set_of_ne hlaid hne fun i hi hi' => hfollows ⟨i, hi, hi'⟩

theorem WellFormed.read_set_of_harmless (hwf : f.WellFormed) (hlaid : f.Laid)
    (hzero : f.read cpu .zero = some 0) (h : f.Harmless cpu (.set reg val)) :
    f.read (f.call cpu (.set reg val)) =
      RegisterBank.apply f.simd (f.read cpu) (.set reg val) := by
  have hself := hwf.read_set_self hlaid cpu reg val
  funext reg'
  by_cases hreg : reg = .zero
  · obtain rfl := h.1 hreg
    subst hreg
    rw [RegisterBank.apply_set_zero]
    by_cases hne : reg' = .zero
    · rw [hne, hself, hzero]
      rfl
    · exact hwf.read_set_frame hlaid h hne
  · rw [RegisterBank.apply_set hreg, ← hself]
    by_cases hne : reg' = reg
    · rw [hne, Function.update_self]
    · rw [Function.update_of_ne hne, hwf.read_set_frame hlaid h hne]

/-- 一つの呼び出しが写像の通りになるのは、害がないときに限る。 -/
theorem WellFormed.read_call_iff (hwf : f.WellFormed) (hlaid : f.Laid) (hbooted : f.Booted cpu)
    (c : RegisterCall) :
    f.read (f.call cpu c) = RegisterBank.apply f.simd (f.read cpu) c ↔ f.Harmless cpu c := by
  have hzero := (hwf.booted_iff.mp hbooted).1
  cases c with
  | get reg => exact iff_of_true (hwf.read_call_get hlaid cpu reg).1 trivial
  | setSIMD reg low high => exact iff_of_true (hwf.read_setSIMD hlaid cpu reg low high).1 trivial
  | set reg val =>
    exact ⟨hwf.harmless_of_read_set hlaid hzero, hwf.read_set_of_harmless hlaid hzero⟩

/-- 害のない呼び出しは、`ZERO` の置き場所を零のままにする。 -/
theorem WellFormed.booted_call (hwf : f.WellFormed) (hlaid : f.Laid) (hbooted : f.Booted cpu)
    {c : RegisterCall} (h : f.Harmless cpu c) : f.Booted (f.call cpu c) := by
  refine hwf.booted_iff.mpr ⟨?_, hwf.flagsAgree_iff.mpr (hwf.flags_call hlaid hbooted.flags c)⟩
  have hzero := (hwf.booted_iff.mp hbooted).1
  rw [(hwf.read_call_iff hlaid hbooted c).mpr h]
  cases c with
  | get reg => exact hzero
  | set reg val =>
    by_cases hreg : reg = .zero
    · subst hreg
      exact hzero
    · rw [RegisterBank.apply_set hreg, Function.update_of_ne (Ne.symm hreg), hzero]
  | setSIMD reg low high =>
    by_cases hsimd : f.simd reg = true
    · have hreg : CpuRegister.zero ≠ reg := by
        rintro rfl
        exact absurd (hwf.simd _ hsimd) (by decide)
      rw [RegisterBank.apply_setSIMD hsimd, Function.update_of_ne hreg, hzero]
    · rw [RegisterBank.apply_setSIMD_of_not hsimd, hzero]

/-- 呼び出しの列が写像の通りになるのは、どの呼び出しにも害がないときに限る。 -/
theorem WellFormed.behavesAsMap_iff (hwf : f.WellFormed) (hlaid : f.Laid)
    (calls : List RegisterCall) (cpu : CPUState) :
    f.BehavesAsMap cpu calls ↔ f.Booted cpu ∧ f.HarmlessRun cpu calls := by
  induction calls generalizing cpu with
  | nil =>
    unfold BehavesAsMap HarmlessRun
    simp only [List.prefix_nil, forall_eq, List.foldl_nil, true_and, and_true, hwf.booted_iff]
  | cons c rest ih =>
    constructor
    · intro h
      have hbooted : f.Booted cpu := hwf.booted_iff.mpr (h [] List.nil_prefix).2
      have hcall := (h [c] (List.prefix_cons_inj c |>.mpr List.nil_prefix)).1
      have hharmless := (hwf.read_call_iff hlaid hbooted c).mp hcall
      refine ⟨hbooted, hharmless, ((ih (f.call cpu c)).mp fun past hpast => ?_).2⟩
      have hmap := h (c :: past) (List.prefix_cons_inj c |>.mpr hpast)
      have hcall : f.read (f.call cpu c) = RegisterBank.apply f.simd (f.read cpu) c := hcall
      rw [List.foldl_cons, List.foldl_cons, ← hcall] at hmap
      exact hmap
    · rintro ⟨hbooted, hharmless, hrest⟩ past hpast
      cases past with
      | nil => exact ⟨rfl, hwf.booted_iff.mp hbooted⟩
      | cons c' past =>
        obtain ⟨rfl, htail⟩ := List.cons_prefix_cons.mp hpast
        have hcall := (hwf.read_call_iff hlaid hbooted c').mpr hharmless
        rw [List.foldl_cons, List.foldl_cons, ← hcall]
        exact (ih (f.call cpu c')).mpr ⟨hwf.booted_call hlaid hbooted hharmless, hrest⟩ past htail

end Call

end RegisterFile

/-- 二つの architecture の register の列。 -/
def Debugger.StateLayout.file : Debugger.StateLayout → RegisterFile
  | .aarch64 state => state.file
  | .x86 state => state.file

theorem Debugger.StateLayout.file_wellFormed : ∀ layout : StateLayout, layout.file.WellFormed
  | .aarch64 state => state.file_wellFormed
  | .x86 state => state.file_wellFormed

/--
どちらの architecture、どの CPU の状態、どの呼び出しの列でも、register の列が写像として振る舞うのは、
次の条件のときに限る。初めに `ZERO` の置き場所が零で flag の byte が 0 か 1 であり、どの呼び出しも
その前の状態で害がない。
-/
theorem Debugger.StateLayout.behavesAsMap_iff_harmless (layout : StateLayout)
    (hlaid : layout.file.Laid) (cpu : CPUState) (calls : List RegisterCall) :
    layout.file.BehavesAsMap cpu calls ↔
      layout.file.Booted cpu ∧ layout.file.HarmlessRun cpu calls :=
  layout.file_wellFormed.behavesAsMap_iff hlaid calls cpu

/-! ## 例 -/

namespace CpuRegister

def all : List CpuRegister :=
  [.zero, .pc, .nzcv, .fpsr, .fpcr, .rax, .rbx, .rcx, .rdi, .rdx, .rsi, .r8, .r9, .r10, .r11, .r12,
    .r13, .r14, .r15, .rflags] ++ segments ++ (List.finRange 32).map .x ++
    (List.finRange 32).map .q ++ (List.finRange 8).map .st ++ (List.finRange 8).map .mm ++
    (List.finRange 32).map .xmm

theorem mem_all (reg : CpuRegister) : reg ∈ all := by
  cases reg <;> simp [all, segments]

end CpuRegister

open Debugger (sampleState sampleCpu)

theorem sampleState_file_laid : sampleState.file.Laid where
  apart := by
    have hall : ∀ reg ∈ CpuRegister.all, ∀ o ∈ sampleState.file.offset reg,
        ∀ reg' ∈ CpuRegister.all, ∀ o' ∈ sampleState.file.offset reg',
          (o + reg.extent ≤ o' ∨ o' + reg'.extent ≤ o) ∨ reg = reg' ∨
            (reg ∈ CpuRegister.segments ∧ reg' ∈ CpuRegister.segments) := by decide +kernel
    intro reg reg' hne hseg o ho o' ho'
    exact (hall reg reg.mem_all o ho reg' reg'.mem_all o' ho').resolve_right
      (not_or.mpr ⟨hne, hseg⟩)
  flagsApart := by
    have hall : ∀ p ∈ sampleState.file.flags, ∀ reg ∈ CpuRegister.all,
        ∀ o ∈ sampleState.file.offset reg, p.2 < o ∨ o + reg.extent ≤ p.2 := by decide +kernel
    exact fun p hp reg => hall p hp reg reg.mem_all
  flagsNodup := by decide +kernel
  stride := by
    intro i reg hreg
    have hall : ∀ i < 6, ∀ reg ∈ CpuRegister.segments[i]?,
        sampleState.file.offset reg = (sampleState.file.offset .ss).map (· + 4 * i) := by
      decide +kernel
    have hi : i < CpuRegister.segments.length := (List.getElem?_eq_some_iff.mp hreg).1
    exact hall i hi reg hreg

/-- `es` を零のままにしておけば、`rax`、`rflags`、`ss` への書き込みは互いに独立である。 -/
theorem sampleState_behavesAsMap : sampleState.file.BehavesAsMap sampleCpu
    [.set .rax 5, .set .rflags 0x41, .set .ss 0x2b, .get .rflags, .setSIMD (.xmm 3) 1 2] :=
  (Debugger.StateLayout.behavesAsMap_iff_harmless (.x86 sampleState) sampleState_file_laid sampleCpu
    _).mpr ⟨⟨by decide +kernel, by decide +kernel⟩, by
      refine ⟨?_, ?_, ?_, ?_, ?_, trivial⟩ <;> decide +kernel⟩

/-- `es` に書いた値は、`ss` に書くと失われる。`ZERO` にも書ける。 -/
theorem sampleState_not_behavesAsMap :
    ¬ sampleState.file.BehavesAsMap sampleCpu [.set .es 0x2b, .set .ss 0x2b] ∧
      ¬ sampleState.file.BehavesAsMap sampleCpu [.set .zero 1] := by
  constructor
  · intro h
    have hes := congrFun (h [.set .es 0x2b, .set .ss 0x2b] List.prefix_rfl).1 .es
    revert hes
    decide +kernel
  · intro h
    have hzero := (h [.set .zero 1] List.prefix_rfl).2.1
    revert hzero
    decide +kernel

end AetherVM
