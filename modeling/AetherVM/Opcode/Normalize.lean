import Mathlib.Data.Fin.VecNotation
import Mathlib.Data.List.Nodup
import Mathlib.Data.List.Perm.Subperm
import Mathlib.Data.List.Range
import Mathlib.Data.List.Sort

/-!
# AArch64 の register の正規化（`src/UtilsAArch64.cpp` の `normalize_opcode` と `opcode_generator`）

`normalize_opcode` は、命令の使う scalar と vector の register を番号の順に並べ、小さい番号から付け直す。`usedregs` に
ある番号は飛ばす。組の register（`Q0_Q1` など）は付け直さない。

* 表を作るとき（`opcode_generator`）は、命令の使う register（`parse_regused`）をすべて飛ばす。
* 実行するとき（`initPrebuilt`）は何も飛ばさない。

組の register が付け直した番号と重なる命令では、二つの結果が食い違う。

組の register の列挙は LLVM の生成したものなので、parameter として受け取る。
-/

namespace AetherVM

namespace AArch64

/-- 汎用 register と vector register。 -/
inductive Bank where
  | x
  | q
deriving DecidableEq, Repr

/-- register の幅ごとの名前。 -/
inductive RegView where
  | w | x | b | h | s | d | q | z
deriving DecidableEq, Repr

def RegView.bank : RegView → Bank
  | w | x => .x
  | _ => .q

/-- 組の register の class。`Q0_Q1_Q2` は `q` の三つ組である。 -/
structure TupleClass where
  view : RegView
  count : Nat
deriving DecidableEq, Repr

def TupleClass.bank (cls : TupleClass) : Bank := cls.view.bank

/-- `MCInst` の operand。`zero` は `WZR` と `XZR`、`stack` は `WSP` と `SP` である。 -/
inductive RegOperand where
  | scalar (view : RegView) (n : Nat)
  | zero (view : RegView)
  | stack (view : RegView)
  | tuple (cls : TupleClass) (n : Nat)
  | other (id : Nat)
deriving DecidableEq, Repr

/--
LLVM の組の register。`offset` は、`parse_regused` の調べる範囲の先頭の列挙子からの差で、範囲の外では `none`、
`registers` は実際の register である。
-/
structure TupleTable where
  offset : TupleClass → Nat → Option Nat
  registers : TupleClass → Nat → List Nat

/-- 使う register の集合。 -/
abbrev UsedRegs := List (Bank × Nat)

section ParseRegused

variable (t : TupleTable)

/-- `parse_regused` が組の register について記録する番号。 -/
def TupleTable.recorded (cls : TupleClass) (n : Nat) : List Nat :=
  match t.offset cls n with
  | some o => (List.range cls.count).map (o + ·)
  | none => []

def operandRegused : RegOperand → UsedRegs
  | .scalar view n => [(view.bank, n)]
  | .zero _ => []
  | .stack _ => [(.x, 31)]
  | .tuple cls n => (t.recorded cls n).map (cls.bank, ·)
  | .other _ => []

/-- `parse_regused`。 -/
def parseRegused (inst : List RegOperand) : UsedRegs := inst.flatMap (operandRegused t)

/-- 付け直さない operand の使う register。 -/
def unrenamed (inst : List RegOperand) : UsedRegs :=
  inst.flatMap fun
    | .stack _ => [(.x, 31)]
    | .tuple cls n => (t.registers cls n).map (cls.bank, ·)
    | _ => []

end ParseRegused

/-! ## normalize_opcode -/

/-- operand の番号。 -/
def numberIn (bank : Bank) : RegOperand → Option Nat
  | .scalar view n => if view.bank = bank then some n else none
  | _ => none

/-- `regused` と `fpuused`。番号の昇順に並ぶ。 -/
def regused (bank : Bank) (inst : List RegOperand) : List Nat :=
  (List.range 32).filter fun n => n ∈ inst.filterMap (numberIn bank)

/-- `usedregs` に無い次の番号。`fuel` は `usedregs` の大きさで足りる。 -/
def nextFree (used : UsedRegs) (bank : Bank) : Nat → Nat → Nat
  | 0, ireg => ireg
  | fuel + 1, ireg => if (bank, ireg) ∈ used then nextFree used bank fuel (ireg + 1) else ireg

/-- `regmaps` と `fpumaps` を作る loop。`ireg` は次の番号である。 -/
def assignFrom (used : UsedRegs) (bank : Bank) : Nat → List Nat → List (Nat × Nat)
  | _, [] => []
  | ireg, r :: rest =>
    let free := nextFree used bank used.length ireg
    (r, free) :: assignFrom used bank (free + 1) rest

def regmaps (used : UsedRegs) (bank : Bank) (inst : List RegOperand) : List (Nat × Nat) :=
  assignFrom used bank 0 (regused bank inst)

/-- 付け直した番号。operand の番号は必ず表にある。 -/
def mapped (maps : List (Nat × Nat)) (n : Nat) : Nat := (maps.lookup n).getD n

def renameOperand (used : UsedRegs) (inst : List RegOperand) : RegOperand → RegOperand
  | .scalar view n => .scalar view (mapped (regmaps used view.bank inst) n)
  | opr => opr

/-- `normalize_opcode`。assemble は必ず成功するので、結果を operand の列で表す。 -/
def normalizeOpcode (used : UsedRegs) (inst : List RegOperand) : List RegOperand :=
  inst.map (renameOperand used inst)

/-! ## 付け直した番号 -/

section Assign

variable {used : UsedRegs} {bank : Bank}

theorem le_nextFree (fuel ireg : Nat) : ireg ≤ nextFree used bank fuel ireg := by
  induction fuel generalizing ireg with
  | zero => exact Nat.le_refl ireg
  | succ fuel ih =>
    unfold nextFree
    split
    · exact Nat.le_of_succ_le (ih (ireg + 1))
    · exact Nat.le_refl ireg

theorem nextFree_eq_self {ireg : Nat} (h : (bank, ireg) ∉ used) (fuel : Nat) :
    nextFree used bank fuel ireg = ireg := by
  cases fuel with
  | zero => rfl
  | succ fuel => simp only [nextFree, h, if_false]

@[simp] theorem assignFrom_fst (ireg : Nat) (l : List Nat) :
    (assignFrom used bank ireg l).map Prod.fst = l := by
  induction l generalizing ireg with
  | nil => rfl
  | cons r rest ih => simp [assignFrom, ih]

theorem le_of_mem_assignFrom {ireg : Nat} {l : List Nat} {p : Nat × Nat}
    (hp : p ∈ assignFrom used bank ireg l) : ireg ≤ p.2 := by
  induction l generalizing ireg with
  | nil => simp [assignFrom] at hp
  | cons r rest ih =>
    simp only [assignFrom, List.mem_cons] at hp
    have hle : ireg ≤ nextFree used bank used.length ireg := le_nextFree used.length ireg
    rcases hp with rfl | hp
    · exact hle
    · exact Nat.le_trans (Nat.le_succ_of_le hle) (ih hp)

/-- 付け直した番号は互いに異なる。 -/
theorem assignFrom_snd_nodup (ireg : Nat) (l : List Nat) :
    ((assignFrom used bank ireg l).map Prod.snd).Nodup := by
  induction l generalizing ireg with
  | nil => simp [assignFrom]
  | cons r rest ih =>
    simp only [assignFrom, List.map_cons, List.nodup_cons]
    refine ⟨fun hmem => ?_, ih _⟩
    obtain ⟨p, hp, heq⟩ := List.mem_map.mp hmem
    have hle := le_of_mem_assignFrom hp
    omega

/-- 小さい番号が空いていれば、先頭から順に付く。 -/
theorem assignFrom_eq_zipIdx {ireg : Nat} {l : List Nat}
    (hfree : ∀ n, ireg ≤ n → n < ireg + l.length → (bank, n) ∉ used) :
    assignFrom used bank ireg l = l.zipIdx ireg := by
  induction l generalizing ireg with
  | nil => rfl
  | cons r rest ih =>
    have hself := nextFree_eq_self (hfree ireg (Nat.le_refl _) (by simp)) used.length
    have hrest : ∀ n, ireg + 1 ≤ n → n < ireg + 1 + rest.length → (bank, n) ∉ used := by
      intro n h1 h2
      exact hfree n (by omega) (by simp only [List.length_cons]; omega)
    simp only [assignFrom, hself, ih hrest, List.zipIdx_cons]

/-- `regused` は、operand に現れる番号である。 -/
theorem mem_regused {inst : List RegOperand} {n : Nat} :
    n ∈ regused bank inst ↔ n < 32 ∧ ∃ view, view.bank = bank ∧ .scalar view n ∈ inst := by
  simp only [regused, List.mem_filter, List.mem_range, decide_eq_true_eq, List.mem_filterMap]
  refine and_congr_right fun _ => ⟨?_, ?_⟩
  · rintro ⟨opr, hopr, hn⟩
    cases opr with
    | scalar view m =>
      simp only [numberIn, Option.ite_none_right_eq_some, Option.some.injEq] at hn
      obtain ⟨hbank, rfl⟩ := hn
      exact ⟨view, hbank, hopr⟩
    | zero view => simp [numberIn] at hn
    | stack view => simp [numberIn] at hn
    | tuple cls m => simp [numberIn] at hn
    | other id => simp [numberIn] at hn
  · rintro ⟨view, hbank, hmem⟩
    exact ⟨_, hmem, by simp [numberIn, hbank]⟩

theorem regused_nodup (inst : List RegOperand) : (regused bank inst).Nodup :=
  List.nodup_range.filter _

/-- 表にある番号を付け直すと、表のどれかの番号になる。 -/
theorem mapped_mem {ireg : Nat} {l : List Nat} {r : Nat} (hr : r ∈ l) :
    (r, mapped (assignFrom used bank ireg l) r) ∈ assignFrom used bank ireg l := by
  induction l generalizing ireg with
  | nil => simp at hr
  | cons a rest ih =>
    simp only [assignFrom, mapped, List.lookup_cons]
    by_cases h : r = a
    · subst h
      simp
    · have hr' : r ∈ rest := (List.mem_cons.mp hr).resolve_left h
      simp only [beq_eq_false_iff_ne.mpr h]
      exact List.mem_cons_of_mem _ (ih hr')

end Assign

/-! ## opcode_generator と initPrebuilt -/

/-- x18、x26、x27、x30 と sp。 -/
def reserved : List Nat := [18, 26, 27, 30, 31]

/-- `opcode_generator` が飛ばさない命令。 -/
def Accepted (t : TupleTable) (inst : List RegOperand) : Prop :=
  ∀ n ∈ reserved, (Bank.x, n) ∉ parseRegused t inst

/-- 命令の field の数えるもの。 -/
inductive FieldSort where
  | scalar (bank : Bank)
  | tuple (cls : TupleClass)
deriving DecidableEq

/-- 命令の種類の operand。`sp` は、31 が zero でなく sp を表すことである。 -/
inductive Slot where
  | scalar (view : RegView) (sp : Bool) (field : Fin 6)
  | tuple (cls : TupleClass) (field : Fin 6)
  | other (id : Nat)
deriving DecidableEq

def Slot.Fits (sort : Fin 6 → FieldSort) : Slot → Prop
  | scalar view _ field => sort field = .scalar view.bank
  | tuple cls field => sort field = .tuple cls
  | other _ => True

instance (sort : Fin 6 → FieldSort) : (s : Slot) → Decidable (s.Fits sort)
  | .scalar _ _ _ => inferInstanceAs (Decidable (_ = _))
  | .tuple _ _ => inferInstanceAs (Decidable (_ = _))
  | .other _ => inferInstanceAs (Decidable True)

/--
命令の種類。32 bit の opcode に、5 bit の register の field は六つまでしか入らない。二つの operand が同じ field を
使うことはあるが、field の数えるものは一つである。
-/
structure Kind where
  slots : List Slot
  sort : Fin 6 → FieldSort
  fits : ∀ s ∈ slots, s.Fits sort

/-- field の値。 -/
abbrev Assignment := Fin 6 → Fin 32

def Slot.operand (α : Assignment) : Slot → RegOperand
  | scalar view sp field =>
    if view.bank = .x ∧ α field = Fin.last 31 then (if sp then .stack view else .zero view)
    else .scalar view (α field)
  | tuple cls field => .tuple cls (α field)
  | other id => .other id

def Kind.inst (k : Kind) (α : Assignment) : List RegOperand := k.slots.map (Slot.operand α)

/-- `initMCInstARM64` が別の interpreter に回す命令。 -/
def isMCInst (inst : List RegOperand) : Bool := .stack .x ∈ inst

/--
実行するときの正規化が、表を作るときの正規化に合うこと。付け直しは単射で、付け直さない register と重ならず、結果は
`opcode_generator` が同じ種類の命令から作る。
-/
structure Agrees (t : TupleTable) (k : Kind) (α : Assignment) : Prop where
  injective : ∀ bank, ((regmaps [] bank (k.inst α)).map Prod.snd).Nodup
  fresh : ∀ bank, ∀ p ∈ regmaps [] bank (k.inst α), (bank, p.2) ∉ unrenamed t (k.inst α)
  generated : ∃ β, Accepted t (k.inst β) ∧
    normalizeOpcode (parseRegused t (k.inst β)) (k.inst β) = normalizeOpcode [] (k.inst α)

/--
組の register が、付け直した番号とも、飛ばされる register とも重ならず、`WSP` を使わないこと。組の register は、実際の
ものと `parse_regused` の記録するものの両方を見る。
-/
structure Renamable (t : TupleTable) (inst : List RegOperand) : Prop where
  registers : ∀ cls n, .tuple cls n ∈ inst →
    ∀ m ∈ t.registers cls n, (regused cls.bank inst).length ≤ m
  recorded : ∀ cls n, .tuple cls n ∈ inst →
    ∀ m ∈ t.recorded cls n, (regused cls.bank inst).length ≤ m
  free : ∀ cls n, .tuple cls n ∈ inst → cls.bank = .x → ∀ m ∈ t.recorded cls n, m ∉ reserved
  stack : .stack .w ∉ inst

/-! ## 命令の種類の operand -/

section Kind

variable {t : TupleTable} {k : Kind} {α : Assignment}

/-- scalar の operand の番号は、どれかの field の値である。 -/
theorem Kind.exists_field {view : RegView} {n : Nat} (h : .scalar view n ∈ k.inst α) :
    ∃ field, (α field : Nat) = n := by
  obtain ⟨s, -, hs⟩ := List.mem_map.mp h
  cases s with
  | scalar v sp field =>
    simp only [Slot.operand] at hs
    split at hs
    · split at hs <;> simp at hs
    · exact ⟨field, (RegOperand.scalar.inj hs).2⟩
  | tuple cls field => simp [Slot.operand] at hs
  | other id => simp [Slot.operand] at hs

/-- operand の番号は 5 bit である。 -/
theorem Kind.scalar_lt {view : RegView} {n : Nat} (h : .scalar view n ∈ k.inst α) : n < 32 := by
  obtain ⟨field, rfl⟩ := k.exists_field h
  exact (α field).isLt

theorem Kind.mem_regused {bank : Bank} {n : Nat} :
    n ∈ regused bank (k.inst α) ↔ ∃ view, view.bank = bank ∧ .scalar view n ∈ k.inst α := by
  rw [AArch64.mem_regused]
  constructor
  · exact fun h => h.2
  · exact fun ⟨view, hbank, hmem⟩ => ⟨k.scalar_lt hmem, view, hbank, hmem⟩

/-- field が六つなので、使う register も六つまでである。 -/
theorem Kind.regused_length_le (bank : Bank) : (regused bank (k.inst α)).length ≤ 6 := by
  have hsub : regused bank (k.inst α) ⊆ (List.finRange 6).map fun field => (α field : Nat) := by
    intro n hn
    obtain ⟨view, -, hmem⟩ := k.mem_regused.mp hn
    obtain ⟨field, rfl⟩ := k.exists_field hmem
    exact List.mem_map_of_mem (List.mem_finRange field)
  have hle := ((regused_nodup _).subperm hsub).length_le
  simpa using hle

theorem mem_parseRegused {inst : List RegOperand} {p : Bank × Nat} :
    p ∈ parseRegused t inst ↔ ∃ opr ∈ inst, p ∈ operandRegused t opr :=
  List.mem_flatMap

/-- `used` が空なら、付け直した番号は順位そのものである。 -/
theorem regmaps_nil (bank : Bank) (inst : List RegOperand) :
    regmaps [] bank inst = (regused bank inst).zipIdx :=
  assignFrom_eq_zipIdx fun _ _ _ => List.not_mem_nil

/-- 実行するときの番号は、register の数より小さい番号のすべてである。 -/
theorem mem_regmaps_nil {bank : Bank} {inst : List RegOperand} {m : Nat} :
    (∃ p ∈ regmaps [] bank inst, p.2 = m) ↔ m < (regused bank inst).length := by
  rw [regmaps_nil]
  constructor
  · rintro ⟨p, hp, rfl⟩
    exact List.snd_lt_of_mem_zipIdx hp
  · intro hm
    exact ⟨((regused bank inst)[m], m), List.mem_zipIdx_iff_getElem?.mpr (by simp [hm]), rfl⟩

end Kind

/-! ## 同じ種類の別の割り当て -/

section Renumber

variable {t : TupleTable} {k : Kind} {α : Assignment}

/-- `SP` を使う命令は別の interpreter に回るので、残るのは `WSP` だけである。 -/
theorem Renamable.stack_not_mem (h : Renamable t (k.inst α)) (hsp : isMCInst (k.inst α) = false)
    (view : RegView) : .stack view ∉ k.inst α := by
  intro hmem
  have hx : .stack .x ∉ k.inst α := by simpa [isMCInst] using hsp
  obtain ⟨s, -, hs⟩ := List.mem_map.mp hmem
  cases s with
  | scalar v sp field =>
    simp only [Slot.operand] at hs
    split at hs
    · rename_i hbank
      split at hs
      · obtain rfl := RegOperand.stack.inj hs
        cases v with
        | w => exact h.stack hmem
        | x => exact hx hmem
        | b | h | s | d | q | z => simp [RegView.bank] at hbank
      · simp at hs
    · simp at hs
  | tuple cls field => simp [Slot.operand] at hs
  | other id => simp [Slot.operand] at hs

end Renumber

/-! ## 二つの正規化が合う条件 -/

section Agrees

variable {t : TupleTable} {k : Kind} {α : Assignment}

theorem injective_regmaps (used : UsedRegs) (bank : Bank) (inst : List RegOperand) :
    ((regmaps used bank inst).map Prod.snd).Nodup :=
  assignFrom_snd_nodup 0 _

theorem mem_unrenamed {inst : List RegOperand} {p : Bank × Nat} :
    p ∈ unrenamed t inst ↔
      (∃ view, .stack view ∈ inst ∧ p = (.x, 31)) ∨
        ∃ cls n, .tuple cls n ∈ inst ∧ ∃ m ∈ t.registers cls n, p = (cls.bank, m) := by
  simp only [unrenamed, List.mem_flatMap]
  constructor
  · rintro ⟨opr, hopr, hp⟩
    cases opr with
    | scalar view n => simp at hp
    | zero view => simp at hp
    | stack view => exact Or.inl ⟨view, hopr, List.mem_singleton.mp hp⟩
    | tuple cls n =>
      obtain ⟨m, hm, rfl⟩ := List.mem_map.mp hp
      exact Or.inr ⟨cls, n, hopr, m, hm, rfl⟩
    | other id => simp at hp
  · rintro (⟨view, hopr, rfl⟩ | ⟨cls, n, hopr, m, hm, rfl⟩)
    · exact ⟨_, hopr, List.mem_singleton.mpr rfl⟩
    · exact ⟨_, hopr, List.mem_map.mpr ⟨m, hm, rfl⟩⟩

theorem Renamable.fresh (h : Renamable t (k.inst α)) (hsp : isMCInst (k.inst α) = false)
    (bank : Bank) :
    ∀ p ∈ regmaps [] bank (k.inst α), (bank, p.2) ∉ unrenamed t (k.inst α) := by
  intro p hp hmem
  have hlt : p.2 < (regused bank (k.inst α)).length := mem_regmaps_nil.mp ⟨p, hp, rfl⟩
  rcases mem_unrenamed.mp hmem with ⟨view, hstack, -⟩ | ⟨cls, n, htuple, m, hm, heq⟩
  · exact h.stack_not_mem hsp view hstack
  · obtain ⟨rfl, rfl⟩ := Prod.mk.inj heq
    exact Nat.not_lt.mpr (h.registers cls n htuple _ hm) hlt

end Agrees

end AArch64

end AetherVM
