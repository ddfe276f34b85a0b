import AetherVM.Infra.Exchange
import AetherVM.Opcode.Normalize

/-!
# register を付け直した命令の実行（`src/OpcodeEngine.cpp` の `execPrebuiltMapped`）

付け直した命令の chain は、付け直した register だけを読み書きする。実行の前に元の register の値をそこへ写し、実行の後に
元の register へ写し戻して、付け直した register を元の値に戻す。

元の register が付け直した register でもあると、写し戻した値を、あとから退避した値で上書きしてしまう。
-/

namespace AetherVM

namespace AArch64

open Infra

/-- 番号で引く register の値。 -/
structure GuestRegisters where
  x : Nat → BitVec 64
  q : Nat → BitVec 128

/-- `gpr` と `fpu` の一方。元の番号も付け直した番号も互いに異なり、退避する配列の大きさに収まる。 -/
structure RegisterMap where
  entries : List (Nat × Nat)
  originals_nodup : (entries.map Prod.fst).Nodup
  mapped_nodup : (entries.map Prod.snd).Nodup
  fits : entries.length ≤ 8

def RegisterMap.originals (m : RegisterMap) : List Nat := m.entries.map Prod.fst

def RegisterMap.mapped (m : RegisterMap) : List Nat := m.entries.map Prod.snd

/-- `normalize_opcode` の作る表。 -/
def Kind.registerMap (k : Kind) (α : Assignment) (used : UsedRegs) (bank : Bank) : RegisterMap where
  entries := regmaps used bank (k.inst α)
  originals_nodup := by
    rw [regmaps, assignFrom_fst]
    exact regused_nodup _
  mapped_nodup := injective_regmaps used bank _
  fits := by
    have hlen : (regmaps used bank (k.inst α)).length = (regused bank (k.inst α)).length := by
      rw [← List.length_map (f := Prod.fst), regmaps, assignFrom_fst]
    have hle := k.regused_length_le (α := α) bank
    omega

section Exec

variable (gpr fpu : RegisterMap)

/-- `execPrebuiltMapped`。`execPrebuilt` は chain の実行である。 -/
def execPrebuiltMapped (execPrebuilt : GuestRegisters → GuestRegisters) (cpu : GuestRegisters) :
    GuestRegisters :=
  let (x, gprmapper) := copyIn gpr.entries cpu.x
  let (q, fpumapper) := copyIn fpu.entries cpu.q
  let cpu' := execPrebuilt ⟨x, q⟩
  ⟨copyOut gpr.entries gprmapper cpu'.x, copyOut fpu.entries fpumapper cpu'.q⟩

/-- 付け直した register だけを読み書きすること。 -/
structure OnlyMapped (g : GuestRegisters → GuestRegisters) : Prop where
  writes_x : ∀ cpu, ∀ r ∉ gpr.mapped, (g cpu).x r = cpu.x r
  writes_q : ∀ cpu, ∀ r ∉ fpu.mapped, (g cpu).q r = cpu.q r
  reads : ∀ cpu cpu', (∀ r ∈ gpr.mapped, cpu.x r = cpu'.x r) →
    (∀ r ∈ fpu.mapped, cpu.q r = cpu'.q r) →
    (∀ r ∈ gpr.mapped, (g cpu).x r = (g cpu').x r) ∧
      ∀ r ∈ fpu.mapped, (g cpu).q r = (g cpu').q r

/-- 付け直した register のそれぞれが、元の register の値を持つ状態。 -/
def entryState (cpu : GuestRegisters) : GuestRegisters :=
  ⟨entry gpr.entries cpu.x, entry fpu.entries cpu.q⟩

/--
元の命令を実行したのと同じであること。元の register には `g` が付け直した register に計算した値が入り、ほかの register は
変わらない。
-/
structure Executes (g : GuestRegisters → GuestRegisters) (cpu : GuestRegisters) : Prop where
  originals_x : ∀ p ∈ gpr.entries,
    (execPrebuiltMapped gpr fpu g cpu).x p.1 = (g (entryState gpr fpu cpu)).x p.2
  originals_q : ∀ p ∈ fpu.entries,
    (execPrebuiltMapped gpr fpu g cpu).q p.1 = (g (entryState gpr fpu cpu)).q p.2
  others_x : ∀ r ∉ gpr.originals, (execPrebuiltMapped gpr fpu g cpu).x r = cpu.x r
  others_q : ∀ r ∉ fpu.originals, (execPrebuiltMapped gpr fpu g cpu).q r = cpu.q r

variable {gpr fpu}

theorem entryState_of_mem (gpr fpu : RegisterMap) (cpu : GuestRegisters) :
    (∀ p ∈ gpr.entries, (entryState gpr fpu cpu).x p.2 = cpu.x p.1) ∧
      ∀ p ∈ fpu.entries, (entryState gpr fpu cpu).q p.2 = cpu.q p.1 :=
  ⟨fun _ hp => entry_of_mem gpr.mapped_nodup hp, fun _ hp => entry_of_mem fpu.mapped_nodup hp⟩

theorem execPrebuiltMapped_of_apart {g : GuestRegisters → GuestRegisters}
    (hg : OnlyMapped gpr fpu g) (hx : Apart gpr.entries) (hq : Apart fpu.entries)
    (cpu : GuestRegisters) : Executes gpr fpu g cpu := by
  have hstate : (⟨(copyIn gpr.entries cpu.x).1, (copyIn fpu.entries cpu.q).1⟩ : GuestRegisters) =
      entryState gpr fpu cpu := by
    rw [copyIn_of_apart gpr.mapped_nodup hx, copyIn_of_apart fpu.mapped_nodup hq]
    rfl
  have houtx := copyOut_copyIn (R := cpu.x) gpr.originals_nodup gpr.mapped_nodup hx
    (hg.writes_x (entryState gpr fpu cpu))
  have houtq := copyOut_copyIn (R := cpu.q) fpu.originals_nodup fpu.mapped_nodup hq
    (hg.writes_q (entryState gpr fpu cpu))
  constructor <;> simp only [execPrebuiltMapped, hstate]
  · exact houtx.1
  · exact houtq.1
  · exact houtx.2
  · exact houtq.2

/-! ## 重なる register があるとき -/

/-- 付け直した汎用 register のすべてに、決まった値を書く効果。 -/
def fillX (gpr : RegisterMap) (c : BitVec 64) (cpu : GuestRegisters) : GuestRegisters :=
  { cpu with x := fun r => if r ∈ gpr.mapped then c else cpu.x r }

/-- 付け直した vector register のすべてに、決まった値を書く効果。 -/
def fillQ (fpu : RegisterMap) (c : BitVec 128) (cpu : GuestRegisters) : GuestRegisters :=
  { cpu with q := fun r => if r ∈ fpu.mapped then c else cpu.q r }

theorem onlyMapped_id : OnlyMapped gpr fpu id :=
  ⟨fun _ _ _ => rfl, fun _ _ _ => rfl, fun _ _ hx hq => ⟨hx, hq⟩⟩

theorem onlyMapped_fillX (c : BitVec 64) : OnlyMapped gpr fpu (fillX gpr c) where
  writes_x := fun cpu r hr => if_neg hr
  writes_q := fun _ _ _ => rfl
  reads := fun cpu cpu' hx hq => by
    refine ⟨fun r hr => ?_, hq⟩
    simp only [fillX, hr, if_true]

theorem onlyMapped_fillQ (c : BitVec 128) : OnlyMapped gpr fpu (fillQ fpu c) where
  writes_x := fun _ _ _ => rfl
  writes_q := fun cpu r hr => if_neg hr
  reads := fun cpu cpu' hx hq => by
    refine ⟨hx, fun r hr => ?_⟩
    simp only [fillQ, hr, if_true]

theorem apart_gpr_of_executes
    (h : ∀ g, OnlyMapped gpr fpu g → ∀ cpu, Executes gpr fpu g cpu) : Apart gpr.entries := by
  by_contra hapart
  obtain ⟨p, hp, hlost⟩ :=
    exists_lost gpr.originals_nodup gpr.mapped_nodup hapart (1 : BitVec 64) 0
  have hmem : p.2 ∈ gpr.mapped := List.mem_map_of_mem hp
  rcases hlost with hlost | ⟨R, hR, hlost⟩
  · have hexec := (h _ (onlyMapped_fillX 1) ⟨fun _ => 0, fun _ => 0⟩).originals_x p hp
    simp only [execPrebuiltMapped, hlost, fillX, hmem, if_true] at hexec
    exact absurd hexec (by decide)
  · have hexec := (h _ onlyMapped_id ⟨R, fun _ => 0⟩).originals_x p hp
    have hentry := (entryState_of_mem gpr fpu ⟨R, fun _ => 0⟩).1 p hp
    simp only [execPrebuiltMapped, id_eq, hlost, hentry, hR] at hexec
    exact absurd hexec (by decide)

theorem apart_fpu_of_executes
    (h : ∀ g, OnlyMapped gpr fpu g → ∀ cpu, Executes gpr fpu g cpu) : Apart fpu.entries := by
  by_contra hapart
  obtain ⟨p, hp, hlost⟩ :=
    exists_lost fpu.originals_nodup fpu.mapped_nodup hapart (1 : BitVec 128) 0
  have hmem : p.2 ∈ fpu.mapped := List.mem_map_of_mem hp
  rcases hlost with hlost | ⟨R, hR, hlost⟩
  · have hexec := (h _ (onlyMapped_fillQ 1) ⟨fun _ => 0, fun _ => 0⟩).originals_q p hp
    simp only [execPrebuiltMapped, hlost, fillQ, hmem, if_true] at hexec
    exact absurd hexec (by decide)
  · have hexec := (h _ onlyMapped_id ⟨fun _ => 0, R⟩).originals_q p hp
    have hentry := (entryState_of_mem gpr fpu ⟨fun _ => 0, R⟩).2 p hp
    simp only [execPrebuiltMapped, id_eq, hlost, hentry, hR] at hexec
    exact absurd hexec (by decide)

/--
付け直した命令の実行が元の命令の実行と同じになるのは、元の register がどれも付け直した register でないとき、かつそのときに
限る。
-/
theorem execPrebuiltMapped_iff (gpr fpu : RegisterMap) :
    (∀ g, OnlyMapped gpr fpu g → ∀ cpu, Executes gpr fpu g cpu) ↔
      Apart gpr.entries ∧ Apart fpu.entries :=
  ⟨fun h => ⟨apart_gpr_of_executes h, apart_fpu_of_executes h⟩,
    fun h _ hg cpu => execPrebuiltMapped_of_apart hg h.1 h.2 cpu⟩

/-- 実行するときの表では、どの register の番号も register の数より小さくないことになる。 -/
theorem apart_registerMap_iff (k : Kind) (α : Assignment) (bank : Bank) :
    Apart (k.registerMap α [] bank).entries ↔
      ∀ r ∈ regused bank (k.inst α), (regused bank (k.inst α)).length ≤ r := by
  have hmapped : ∀ r, r ∈ (regmaps [] bank (k.inst α)).map Prod.snd ↔
      r < (regused bank (k.inst α)).length := by
    intro r
    rw [← mem_regmaps_nil, List.mem_map]
  constructor
  · intro h r hr
    have hnot := h _ (mapped_mem hr)
    exact Nat.not_lt.mp fun hlt => hnot ((hmapped r).mpr hlt)
  · intro h p hp hmem
    have hr : p.1 ∈ regused bank (k.inst α) := by
      have hfst : (assignFrom [] bank 0 (regused bank (k.inst α))).map Prod.fst =
          regused bank (k.inst α) := assignFrom_fst 0 _
      rw [← hfst]
      exact List.mem_map_of_mem hp
    exact Nat.not_lt.mpr (h _ hr) ((hmapped p.1).mp hmem)

/-- `X0` と `X26` を使う命令の表。`X0` は自分自身に付け直される。 -/
def sampleMap : RegisterMap where
  entries := [(0, 0), (26, 1)]
  originals_nodup := by decide
  mapped_nodup := by decide
  fits := by decide

def emptyMap : RegisterMap := ⟨[], by decide, by decide, by decide⟩

/-- `X1` の値を `X0` に書く chain。元の命令は `X26` の値を `X0` に書く。 -/
def sampleMove (cpu : GuestRegisters) : GuestRegisters :=
  { cpu with x := Function.update cpu.x 0 (cpu.x 1) }

/-- `X0` への結果は、退避した値で上書きされて失われる。 -/
theorem sampleMove_not_executes :
    OnlyMapped sampleMap emptyMap sampleMove ∧
      ¬ Executes sampleMap emptyMap sampleMove ⟨fun r => if r = 26 then 7 else 0, fun _ => 0⟩ := by
  refine ⟨⟨fun cpu r hr => ?_, fun _ _ _ => rfl, fun cpu cpu' hx hq => ⟨fun r hr => ?_, hq⟩⟩, ?_⟩
  · have hne : r ≠ 0 := fun heq => hr (by rw [heq]; decide)
    exact Function.update_of_ne hne _ _
  · have hone := hx 1 (by decide)
    by_cases h : r = 0
    · subst h
      simpa [sampleMove] using hone
    · simp only [sampleMove, Function.update_of_ne h]
      exact hx r hr
  · intro h
    have hzero := h.originals_x (0, 0) (by decide)
    exact absurd hzero (by decide)

end Exec

end AArch64

end AetherVM
