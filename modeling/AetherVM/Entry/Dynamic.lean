import AetherVM.Entry.Return

/-!
# 実行時に作った handler の実行（`src/OpcodeEngine.cpp` の `execDynamic`）

`OHT_Dynamic` の handler は、実装と `finish_emulation` の番地だけを並べた `Instruction` の列を stack に作り、
`aether_vm_entry` に渡す。番地をそのまま `Instruction` とみなすので、`event` も `oplen` も 0 である。

戻り先は `State` の外の `CPU.rvalue` に書くので、実装から見える `LR` は guest のもののままである。
-/

namespace AetherVM

namespace Entry.AArch64

open Infra Lifter Lifter.AArch64 Orchestrator

/-- `vm_retaddr`。`CPU.rvalue` の番地を返す。 -/
def vmRetaddr {G : Type} (rvalue : BitVec 64) : Host G → Host G := returnPointer rvalue

/-- `execDynamic` の作る `Instruction` の列。`insns` はその番地、`finish` は `finish_emulation` の番地である。 -/
def dynamicProgram {G : Type} (insns retCell : BitVec 64) (impl : UInt64) (finish : Nat)
    (f : Meaning G) : Program G where
  slot a :=
    if a = insns then some ⟨.entry impl, false, 0⟩
    else if a = insns + 8 then some ⟨.func .finishEmulation, false, 0⟩
    else none
  retCell := retCell
  address
    | .entry addr => addr.toNat
    | .func _ => finish
  meaning
    | .entry addr => if addr = impl then some f else none
    | .func .finishEmulation => some fun t => some { t with insn := retCell }
    | .func _ => none

section Dynamic

variable {G : Type} {insns retCell ptr link : BitVec 64} {impl : UInt64} {finish lo : Nat}
  {f : Meaning G} {i : Image G} {s : Host G} {t t' : Thread G}

/-- 二つの `Instruction` の番地。 -/
theorem dynamicProgram_slot {a : BitVec 64}
    (ha : ((dynamicProgram insns retCell impl finish f).slot a).isSome = true) :
    a = insns ∨ a = insns + 8 := by
  by_cases hfirst : a = insns
  · exact .inl hfirst
  · by_cases hsecond : a = insns + 8
    · exact .inr hsecond
    · simp only [dynamicProgram, if_neg hfirst, if_neg hsecond, Option.isSome_none] at ha
      cases ha

/-- 実装、`finish_emulation` の順に実行して終わる。 -/
theorem loop_dynamic (hinsns : insns ≠ retCell) (hsecond : insns + 8 ≠ retCell)
    (hinsn : t.insn = insns) (hrun : f t = some t') (hnext : t'.insn = insns + 8) :
    loop (dynamicProgram insns retCell impl finish f).step 3 t =
      .inr (some { t' with insn := retCell }) := by
  have hne : insns + 8 ≠ insns := by simp
  have hfirst : (dynamicProgram insns retCell impl finish f).step t = .inl t' := by
    simp [Program.step, dynamicProgram, hinsn, hinsns, hrun]
  have hfinish : (dynamicProgram insns retCell impl finish f).step t' =
      .inl { t' with insn := retCell } := by
    simp only [Program.step, dynamicProgram, hnext, if_neg hsecond, if_neg hne, if_true,
      Option.bind_some]
  have hend : (dynamicProgram insns retCell impl finish f).step { t' with insn := retCell } =
      .inr (some { t' with insn := retCell }) := if_pos rfl
  simp only [loop, hfirst, hfinish, hend]

/--
`execDynamic` は、guest の `State` から始めて実装を一度だけ実行し、その結果を `State` に残して戻る。呼び手の保つべき
register と stack pointer は元に戻る。
-/
theorem execDynamic_returns (hretaddr : i.vmRetaddr = vmRetaddr ptr)
    (h : Enters i.offsets (dynamicProgram insns retCell impl finish f) .rvalue ptr lo s)
    (hinsn : gpr s 2 = insns) (hinsns : insns ≠ retCell) (hsecond : insns + 8 ≠ retCell)
    (hret : i.ret.toNat < 2 ^ 59)
    (himpl : impl.toNat < 2 ^ 59 ∧ impl.toNat ≠ i.ret.toNat ∧ ∃ b, i.handler impl.toNat = some b ∧
      Implements i.offsets (fixed i (dynamicProgram insns retCell impl finish f) link s) b f)
    (hfinish : finish < 2 ^ 59 ∧ finish ≠ i.ret.toNat ∧
      ∃ r, i.handler finish = some (.event r (hostFinishEmulation retCell)))
    (hrun : f ⟨(stateView i.offsets).regs (lowered s), gpr s 1, s.guest, insns⟩ = some t)
    (hnext : t.insn = insns + 8) :
    ∃ s', i.aetherVmEntry link 3 s = .inr (some s') ∧
      Returned i.offsets s s' { t with insn := retCell } := by
  have hf : RetaddrObeys i.vmRetaddr lo ptr := by
    rw [hretaddr]
    exact returnPointer_obeys lo ptr
  have hentered : entered i .rvalue s =
      ⟨(stateView i.offsets).regs (lowered s), gpr s 1, s.guest, insns⟩ := by
    rw [entered, hinsn]
    rfl
  have hloop : loop (dynamicProgram insns retCell impl finish f).step 3 (entered i .rvalue s) =
      .inr (some { t with insn := retCell }) := by
    rw [hentered]
    exact loop_dynamic hinsns hsecond rfl hrun hnext
  refine finished_returns hf h hret (fun ref g hg => ?_) hloop
  cases ref with
  | entry addr =>
    obtain ⟨hlt, hne, b, hb, himplements⟩ := himpl
    simp only [dynamicProgram, Option.ite_none_right_eq_some, Option.some.injEq] at hg
    obtain ⟨rfl, rfl⟩ := hg
    exact ⟨hlt, hne, b, hb, himplements⟩
  | func ev =>
    obtain ⟨hlt, hne, r, hr⟩ := hfinish
    cases ev <;> try cases hg
    exact ⟨hlt, hne, _, hr, .event (hostFinishEmulation_obeys _ _ _)⟩

end Dynamic

/-! ## 例 -/

/-- 実装は `0x100` の `add x0, x0, x26`、`finish_emulation` は `0x200` にある。 -/
def sampleDynamic : Program Unit := dynamicProgram 0x5000 0x6000 0x100 0x200 (nativeMeaning addX26)

def sampleDynamicImage : Image Unit :=
  { sampleImage {.x 0, .x 26} addX26 with vmRetaddr := vmRetaddr 0x6100 }

/-- pc の置き場は 0x3000、pc は 5 で、0x5000 から番地が二つある。 -/
def sampleDynamicMem : Mem := fun a =>
  if a = 0xff1 then 0x30 else if a = 0x3000 then 5
  else if a = 0x5001 then 1 else if a = 0x5009 then 2 else 0

theorem sampleDynamic_enters : Enters sampleOffsets sampleDynamic .rvalue 0x6100 0x600
    (sampleHost sampleDynamicMem ()) := by
  have hslot : ∀ a, (sampleDynamic.slot a).isSome = true → a = 0x5000 ∨ a = 0x5008 :=
    fun a ha => dynamicProgram_slot ha
  refine sampleHost_enters () (by decide) (by decide) rfl hslot (fun a x hx => ?_) (by simp)
    fun _ => rfl
  have hword : sampleDynamicMem.loadLE 0x5000 8 = 0x100 ∧
      sampleDynamicMem.loadLE 0x5008 8 = 0x200 := by decide
  rcases hslot a (by rw [hx]; rfl) with rfl | rfl
  · cases hx
    exact hword.1
  · cases hx
    exact hword.2

/-- `x0` に guest の `x26` を足して戻る。 -/
theorem execDynamic_returns_sample : ∃ s' t,
    sampleDynamicImage.aetherVmEntry 0x9000 3 (sampleHost sampleDynamicMem ()) = .inr (some s') ∧
      nativeMeaning addX26 ⟨(stateView sampleOffsets).regs (lowered (sampleHost sampleDynamicMem ())),
        5, (), 0x5000⟩ = some t ∧
      Returned sampleOffsets (sampleHost sampleDynamicMem ()) s' { t with insn := 0x6000 } := by
  have hnative : Implements sampleDynamicImage.offsets
      (fixed sampleDynamicImage sampleDynamic 0x9000 (sampleHost sampleDynamicMem ()))
      (.native {.x 0, .x 26} addX26) (nativeMeaning addX26) :=
    .native (by decide) ⟨1, by decide, by decide⟩ addX26_confined fun _ _ h => h
  obtain ⟨s', hrun, hreturned⟩ := execDynamic_returns (i := sampleDynamicImage) rfl
    sampleDynamic_enters rfl (by decide) (by decide) (by decide)
    ⟨by decide, by decide, _, rfl, hnative⟩ ⟨by decide, by decide, _, rfl⟩ rfl rfl
  exact ⟨s', _, hrun, rfl, hreturned⟩

end Entry.AArch64

end AetherVM
