import Mathlib.Data.Finset.Insert
import AetherVM.Lifter.NativeX64

/-!
# x86-64 の vector 命令（`src/Lifter.cpp` の `x86::parse_regused`）

命令の operand から、handler の切り替える register を決める。`xmm`、`ymm`、`zmm` は、番号の同じ一つの register になる。
`State` は一つの vector register に 64 byte を持つが、handler の `movdqu` は、`xmm0` から `xmm15` までの 16 byte しか
運ばない。
-/

namespace AetherVM

namespace Lifter.X64

open Infra

/-- LLVM の register。汎用 register の一部分は全体で代表させ、`unsupported` は `canonicalize` の `abort` するものを表す。 -/
inductive McReg where
  | noRegister
  | gpr (g : Gpr)
  | xmm (i : Fin 32)
  | ymm (i : Fin 32)
  | zmm (i : Fin 32)
  | unsupported
deriving DecidableEq, Repr

namespace McReg

/-- operand の bit の幅。 -/
def width : McReg → Nat
  | gpr _ => 64
  | xmm _ => 128
  | ymm _ => 256
  | zmm _ => 512
  | noRegister | unsupported => 0

/-- vector register は番号だけを残す。ほかは `x86::canonicalize`。 -/
def canonicalize : McReg → Option HostReg
  | gpr g => some (.gpr g)
  | xmm i | ymm i | zmm i => some (.xmm i)
  | noRegister | unsupported => none

end McReg

/-- `llvm::MCOperand`。`other` は `isReg` でないもの。 -/
inductive McOperand where
  | reg (r : McReg)
  | other
deriving DecidableEq, Repr

/-- `parse_regused` の loop の一回。`abort` すれば `none`。 -/
def parseOperand (regused : Finset HostReg) : McOperand → Option (Finset HostReg)
  | .other => some regused
  | .reg .noRegister => some regused
  | .reg r => r.canonicalize.map fun k => insert k regused

def parseRegused (inst : List McOperand) : Option (Finset HostReg) := inst.foldlM parseOperand ∅

/-- 命令から作る handler。 -/
def handlerOf (abi : Abi) (o : StateOffsets) (inst : List McOperand) (oplen : Nat) :
    Option (List Asm) :=
  (parseRegused inst).bind fun used => nativeHandlerX64 abi o used oplen

/-- operand の幅に入る bit。 -/
def Covered (inst : List McOperand) (k : HostReg) (j : Nat) : Prop :=
  ∃ r, .reg r ∈ inst ∧ r.canonicalize = some k ∧ j < r.width

/-! ## 使う register -/

section Parse

variable {used : Finset HostReg} {k : HostReg}

theorem mem_parseOperand {regused : Finset HostReg} {opr : McOperand}
    (h : parseOperand regused opr = some used) :
    k ∈ used ↔ k ∈ regused ∨ ∃ r, opr = .reg r ∧ r.canonicalize = some k := by
  cases opr with
  | other =>
    obtain rfl := Option.some.inj h
    simp
  | reg r =>
    cases r with
    | noRegister =>
      obtain rfl := Option.some.inj h
      simp [McReg.canonicalize]
    | unsupported => exact nomatch h
    | gpr g =>
      obtain rfl := Option.some.inj h
      simp [McReg.canonicalize, or_comm, eq_comm]
    | xmm i =>
      obtain rfl := Option.some.inj h
      simp [McReg.canonicalize, or_comm, eq_comm]
    | ymm i =>
      obtain rfl := Option.some.inj h
      simp [McReg.canonicalize, or_comm, eq_comm]
    | zmm i =>
      obtain rfl := Option.some.inj h
      simp [McReg.canonicalize, or_comm, eq_comm]

theorem mem_foldlM_parseOperand {inst : List McOperand} {regused : Finset HostReg}
    (h : inst.foldlM parseOperand regused = some used) :
    k ∈ used ↔ k ∈ regused ∨ ∃ r, .reg r ∈ inst ∧ r.canonicalize = some k := by
  induction inst generalizing regused with
  | nil =>
    obtain rfl := Option.some.inj h
    simp
  | cons opr rest ih =>
    rw [List.foldlM_cons] at h
    obtain ⟨regused', hopr, hrest⟩ := Option.bind_eq_some_iff.mp h
    rw [ih hrest, mem_parseOperand hopr]
    simp only [List.mem_cons, or_and_right, exists_or, or_assoc, eq_comm]

/-- 使う register は、operand の register である。 -/
theorem mem_parseRegused {inst : List McOperand} (h : parseRegused inst = some used) :
    k ∈ used ↔ ∃ r, .reg r ∈ inst ∧ r.canonicalize = some k := by
  rw [mem_foldlM_parseOperand h]
  simp

theorem covered_used {inst : List McOperand} (h : parseRegused inst = some used) (k : HostReg)
    (j : Nat) (hk : Covered inst k j) : k ∈ used := by
  obtain ⟨r, hr, hcanon, -⟩ := hk
  exact (mem_parseRegused h).mpr ⟨r, hr, hcanon⟩

end Parse

/-! ## handler の前後 -/

section Handled

variable {G : Type} {abi : Abi} {o : StateOffsets} {inst : List McOperand} {oplen : Nat}
  {prog : List Asm} {f : Effect hostModel G} {s : Host G}

theorem handlerOf_eq (h : handlerOf abi o inst oplen = some prog) :
    ∃ used regcpu regrsp, parseRegused inst = some used ∧ Chosen abi used regcpu regrsp ∧
      prog = handlerBody abi o used regcpu regrsp oplen := by
  obtain ⟨used, hparse, hhandler⟩ := Option.bind_eq_some_iff.mp h
  obtain ⟨⟨regcpu, regrsp⟩, hstand, rfl⟩ := Option.map_eq_some_iff.mp hhandler
  exact ⟨used, regcpu, regrsp, hparse, chosen_of_standIns hstand, rfl⟩

variable (h : handlerOf abi o inst oplen = some prog) (hs : StatePlaced o s)
  (hf : f.BitConfined (Covered inst))

include h hs hf

/-- handler の運ばない bit は変わらない。 -/
theorem handler_bit_kept {k : HostReg} {j : Nat} (hj : j < 8 * k.size)
    (hk : k.switched = true → 8 * k.bytes ≤ j) :
    ((stateView o).regs (runAsm f prog s) k).getLsbD j = ((stateView o).regs s k).getLsbD j := by
  obtain ⟨used, regcpu, regrsp, hparse, hc, rfl⟩ := handlerOf_eq h
  exact handled_bit_kept hs.placed switchPlan_uses (switchPlan_valid hc)
    (hf.confined (covered_used hparse)) (handlerBody_pcAdvanced abi o used regcpu regrsp oplen f s)
    (fun hmem => hk (mem_loaded.mp hmem).2) hj k.width_eq

/-- operand の bit をどれも handler が運ぶなら、`State` の register は、命令の結果になる。 -/
theorem handler_regs_eq
    (hswitched : ∀ k j, Covered inst k j → k.switched = true ∧ j < 8 * k.bytes) :
    (stateView o).regs (runAsm f prog s) = (f ((stateView o).regs s) s.guest).1 := by
  obtain ⟨used, regcpu, regrsp, hparse, hc, rfl⟩ := handlerOf_eq h
  let c := switchPlan abi o used regcpu regrsp
  have hu : Uses c (stateView o) 0xe0 := switchPlan_uses
  have hv : c.Valid hostModel (· ∈ used) := switchPlan_valid hc
  have hfu := hf.confined (covered_used hparse)
  have hpc := handlerBody_pcAdvanced abi o used regcpu regrsp oplen f s
  have hp : Placed (stateView o) c.sp 0xe0 s := hs.placed
  have hloaded : ∀ k j, Covered inst k j → k ∈ c.loaded := fun k j hcov =>
    mem_loaded.mpr ⟨covered_used hparse k j hcov, (hswitched k j hcov).1⟩
  have henter : ∀ k j, k ∈ c.loaded → j < 8 * k.bytes →
      ((c.enter s).regs k).getLsbD j = ((stateView o).regs s k).getLsbD j :=
    fun k j hk hj => enter_bit hp hu hv hk hj k.width_eq
  have heffect := hf.reads (c.enter s).regs ((stateView o).regs s) s.guest fun k j hcov =>
    henter k j (hloaded k j hcov) (hswitched k j hcov).2
  funext k
  refine BitVec.eq_of_getLsbD_eq fun j hj => ?_
  by_cases hmem : k ∈ c.loaded ∧ j < 8 * k.bytes
  · rw [handled_bit hp hu hv hfu hpc hmem.1 hmem.2 k.width_eq]
    by_cases hcov : Covered inst k j
    · exact heffect.1 k j hcov
    · rw [hf.writes _ _ _ _ hcov, hf.writes _ _ _ _ hcov, henter k j hmem.1 hmem.2]
  · have hcov : ¬ Covered inst k j := fun hcov =>
      hmem ⟨hloaded k j hcov, (hswitched k j hcov).2⟩
    rw [hf.writes _ _ _ _ hcov]
    exact handled_bit_kept hp hu hv hfu hpc (fun hk => Nat.le_of_not_lt fun hlt => hmem ⟨hk, hlt⟩)
      (k.width_eq ▸ hj) k.width_eq

end Handled

/-! ## vector register の結果 -/

/-- handler の運ぶ vector operand だけを持つ命令。 -/
def SseOnly (inst : List McOperand) : Prop :=
  ∀ i : Fin 32, (.reg (.xmm i) ∈ inst → i.val ≤ 15) ∧ .reg (.ymm i) ∉ inst ∧ .reg (.zmm i) ∉ inst

theorem SseOnly.switched {inst : List McOperand} (h : SseOnly inst) {k : HostReg} {j : Nat}
    (hk : Covered inst k j) : k.switched = true ∧ j < 8 * k.bytes := by
  obtain ⟨r, hr, hcanon, hj⟩ := hk
  cases r with
  | noRegister => exact nomatch hcanon
  | unsupported => exact nomatch hcanon
  | gpr g =>
    obtain rfl := Option.some.inj hcanon
    exact ⟨rfl, hj⟩
  | xmm i =>
    obtain rfl := Option.some.inj hcanon
    exact ⟨decide_eq_true ((h i).1 hr), hj⟩
  | ymm i => exact absurd hr (h i).2.1
  | zmm i => exact absurd hr (h i).2.2

/-- 運ばない operand があれば、その bit の一つは命令に届かない。 -/
theorem exists_lost {inst : List McOperand} (h : ¬ SseOnly inst) :
    ∃ (i : Fin 32) (j : Nat), Covered inst (.xmm i) j ∧ j < 512 ∧
      ((HostReg.xmm i).switched = true → 128 ≤ j) := by
  obtain ⟨i, hi⟩ := not_forall.mp h
  rcases not_and_or.mp hi with hxmm | hwide
  · obtain ⟨hr, hlt⟩ := Classical.not_imp.mp hxmm
    exact ⟨i, 0, ⟨.xmm i, hr, rfl, Nat.zero_lt_succ 127⟩, by decide,
      fun hsw => absurd (of_decide_eq_true hsw) hlt⟩
  · refine ⟨i, 128, ?_, by decide, fun _ => Nat.le_refl 128⟩
    rcases not_and_or.mp hwide with hr | hr
    · exact ⟨.ymm i, not_not.mp hr, rfl, show 128 < 256 by decide⟩
    · exact ⟨.zmm i, not_not.mp hr, rfl, show 128 < 512 by decide⟩

/-- handler の運ばない bit を反転しても、`State` には届かない。 -/
theorem flip_lost {G : Type} {abi : Abi} {o : StateOffsets} {inst : List McOperand} {oplen : Nat}
    {prog : List Asm} (h : handlerOf abi o inst oplen = some prog) {s : Host G}
    (hs : StatePlaced o s) {i : Fin 32} {j : Nat} (hcov : Covered inst (.xmm i) j) (hj : j < 512)
    (hlost : (HostReg.xmm i).switched = true → 128 ≤ j) :
    (stateView o).regs (runAsm (Effect.flip (.xmm i) j) prog s) (.xmm i) ≠
      (Effect.flip (G := G) (.xmm i) j ((stateView o).regs s) s.guest).1 (.xmm i) := by
  intro heq
  have hflip := Effect.flip_bitConfined (M := hostModel) (G := G) (.xmm i) j hcov hj
  have hkept := handler_bit_kept h hs hflip hj hlost
  rw [heq] at hkept
  have hself := Effect.flip_self (M := hostModel) (.xmm i) j ((stateView o).regs s) s.guest hj
  exact Bool.not_ne_self _ (hself.symm.trans hkept)

/--
handler の作れる命令では、operand の幅の中で読み書きするどの効果についても vector register が命令の結果になることと、
vector operand が `xmm0` から `xmm15` だけであることとが同じである。
-/
theorem handlerOf_vectors_iff {G : Type} {abi : Abi} {o : StateOffsets} {inst : List McOperand}
    {oplen : Nat} {prog : List Asm} (h : handlerOf abi o inst oplen = some prog) {s : Host G}
    (hs : StatePlaced o s) :
    (∀ f : Effect hostModel G, f.BitConfined (Covered inst) → ∀ i,
      (stateView o).regs (runAsm f prog s) (.xmm i) =
        (f ((stateView o).regs s) s.guest).1 (.xmm i)) ↔ SseOnly inst := by
  constructor
  · intro hall
    by_contra hsse
    obtain ⟨i, j, hcov, hj, hlost⟩ := exists_lost hsse
    have hflip := Effect.flip_bitConfined (M := hostModel) (G := G) (.xmm i) j hcov hj
    exact flip_lost h hs hcov hj hlost (hall _ hflip i)
  · intro hsse f hf i
    have hregs := handler_regs_eq h hs hf fun _ _ => hsse.switched
    exact congrFun hregs (.xmm i)

/-- memory の operand `(%rax)`。 -/
def memRax : List McOperand :=
  [.reg (.gpr .rax), .other, .reg .noRegister, .other, .reg .noRegister]

/-- `xorps (%rax), %xmm0` の operand。 -/
def sampleXorps : List McOperand :=
  .reg (.xmm ⟨0, by decide⟩) :: .reg (.xmm ⟨0, by decide⟩) :: memRax

/-- `xmm0` の命令は、正しく実行できる。 -/
theorem sampleXorps_vectors : ∃ prog, handlerOf .sysv sampleOffsets sampleXorps 3 = some prog ∧
    ((∀ f : Effect hostModel Unit, f.BitConfined (Covered sampleXorps) → ∀ i,
      (stateView sampleOffsets).regs (runAsm f prog sampleHost) (.xmm i) =
        (f ((stateView sampleOffsets).regs sampleHost) ()).1 (.xmm i)) ↔
      SseOnly sampleXorps) := by
  have hsome : (handlerOf .sysv sampleOffsets sampleXorps 3).isSome := by decide
  obtain ⟨prog, hprog⟩ := Option.isSome_iff_exists.mp hsome
  exact ⟨prog, hprog, handlerOf_vectors_iff hprog sampleHost_placed⟩

/-- `vxorps (%rax), %ymm0, %ymm0` の operand。 -/
def sampleVxorps : List McOperand :=
  .reg (.ymm ⟨0, by decide⟩) :: .reg (.ymm ⟨0, by decide⟩) :: memRax

/-- memory に `2 ^ 128` があると、`ymm0` の反転した bit は失われる。 -/
theorem sampleVxorps_lost : ∃ prog, handlerOf .sysv sampleOffsets sampleVxorps 4 = some prog ∧
    StatePlaced sampleOffsets sampleHost ∧
    (Effect.flip (M := hostModel) (G := Unit) (.xmm 0) 128).BitConfined (Covered sampleVxorps) ∧
    (stateView sampleOffsets).regs (runAsm (Effect.flip (.xmm 0) 128) prog sampleHost) (.xmm 0) ≠
      (Effect.flip (.xmm 0) 128 ((stateView sampleOffsets).regs sampleHost) ()).1 (.xmm 0) := by
  have hcov : Covered sampleVxorps (.xmm 0) 128 := ⟨.ymm 0, by decide, rfl, by decide⟩
  have hsome : (handlerOf .sysv sampleOffsets sampleVxorps 4).isSome := by decide
  obtain ⟨prog, hprog⟩ := Option.isSome_iff_exists.mp hsome
  refine ⟨prog, hprog, sampleHost_placed, Effect.flip_bitConfined _ _ hcov (by decide), ?_⟩
  exact flip_lost hprog sampleHost_placed hcov (by decide) fun _ => Nat.le_refl 128

end Lifter.X64

end AetherVM
