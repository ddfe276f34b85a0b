import Mathlib.Data.Finset.Card
import AetherVM.Infra.WordBank
import AetherVM.Lifter.Native

/-!
# x86-64 の native handler（`src/Lifter.cpp` の `nativeHandlerX64`）

AArch64 のものと同じく、host の register を退避して guest の register を読み込み、命令を実行して書き戻す。

* `r12` は `State` の番地、`r13` は次に実行する `Instruction` の番地である。
* 命令が `r12` や `rsp` を使うときは、使っていない register を候補の表から探して、その代わりにする。二つは一つの
  添字で表を進む。
* 汎用 register は 8 byte、vector register は `movdqu` で 16 byte を読み書きする。`xmm16` からは読み書きしない。

ABI によって、退避する register、候補の表、引数の register が違う。
-/

namespace AetherVM

namespace Lifter.X64

open Infra

/-- 汎用 register。`Register` の列挙の順に並べる。 -/
inductive Gpr where
  | rbp | rsp | rax | rbx | rcx | rdi | rdx | rsi | r8 | r9 | r10 | r11 | r12 | r13 | r14 | r15
deriving DecidableEq, Repr

namespace Gpr

def all : List Gpr :=
  [rbp, rsp, rax, rbx, rcx, rdi, rdx, rsi, r8, r9, r10, r11, r12, r13, r14, r15]

theorem mem_all (g : Gpr) : g ∈ all := by cases g <;> decide

end Gpr

/-- host の register。`xmm` は `zmm` の全体を指す。 -/
inductive HostReg where
  | gpr (g : Gpr)
  | xmm (i : Fin 32)
deriving DecidableEq, Repr

namespace HostReg

def width : HostReg → Nat
  | gpr _ => 64
  | xmm _ => 512

/-- `mov` と `movdqu` の読み書きする byte の数。 -/
def bytes : HostReg → Nat
  | gpr _ => 8
  | xmm _ => 16

/-- `State` の中の大きさ。 -/
def size : HostReg → Nat
  | gpr _ => 8
  | xmm _ => 64

theorem width_eq (k : HostReg) : k.width = 8 * k.size := by cases k <;> rfl

theorem bytes_le (k : HostReg) : k.bytes ≤ k.size := by cases k <;> simp [bytes, size]

/-- `std::set<Register>` の順。 -/
def all : List HostReg := Gpr.all.map gpr ++ (List.finRange 32).map xmm

theorem mem_all (k : HostReg) : k ∈ all := by
  cases k with
  | gpr g => exact List.mem_append_left _ (List.mem_map_of_mem g.mem_all)
  | xmm i => exact List.mem_append_right _ (List.mem_map_of_mem (List.mem_finRange i))

theorem all_nodup : all.Nodup := by decide

/-- `is_gpr64`。 -/
def isGpr : HostReg → Bool
  | gpr _ => true
  | xmm _ => false

/-- `State` から読み込む register。 -/
def switched : HostReg → Bool
  | gpr _ => true
  | xmm i => i.val ≤ 15

end HostReg

/-- `movdqu` は上位の bit を変えない。 -/
def hostModel : RegisterModel HostReg where
  width := HostReg.width
  fill := fun _ old n v => BitVec.ofNat _ (old.toNat / 256 ^ n * 256 ^ n + v)
  fill_low := by
    intro k old n v hn hv
    have hpow : 256 ^ n = 2 ^ (8 * n) := by rw [Nat.pow_mul]
    have hdvd : 256 ^ n ∣ 2 ^ k.width := hpow ▸ Nat.pow_dvd_pow 2 hn
    rw [BitVec.toNat_ofNat, Nat.mod_mod_of_dvd _ hdvd, Nat.mul_comm, Nat.mul_add_mod,
      Nat.mod_eq_of_lt hv]

abbrev Host (G : Type) : Type := Machine hostModel G

/-! ## ABI -/

inductive Abi where
  | sysv
  | windows
deriving DecidableEq, Repr

namespace Abi

open Gpr

/-- `is_callee_saved_gpr`。 -/
def calleeSavedGprs : Abi → List Gpr
  | sysv => [rbx, rbp, r12, r13, r14, r15]
  | windows => [rbx, rbp, rdi, rsi, r12, r13, r14, r15]

/-- `kCpuCandidates`。 -/
def candidates : Abi → List Gpr
  | sysv => [rax, rcx, rdx, rsi, rdi, r8, r9, r10, r11]
  | windows => [rax, rcx, rdx, r8, r9, r10, r11]

/-- `ARGREG_0`。 -/
def argState : Abi → Gpr
  | sysv => rdi
  | windows => rcx

/-- `ARGREG_1`。 -/
def argVmAddr : Abi → Gpr
  | sysv => rsi
  | windows => rdx

/-- `ARGREG_2`。 -/
def argInsn : Abi → Gpr
  | sysv => rdx
  | windows => r8

def calleeSavedGpr (abi : Abi) : HostReg → Bool
  | .gpr g => g ∈ abi.calleeSavedGprs
  | .xmm _ => false

/-- `is_callee_saved_xmm`。 -/
def calleeSavedXmm : Abi → HostReg → Bool
  | windows, .xmm i => 6 ≤ i.val && i.val ≤ 15
  | _, _ => false

end Abi

/-! ## 命令の列 -/

/-- handler の命令。`load` と `store` は汎用 register なら `mov`、vector register なら `movdqu` である。 -/
inductive Asm where
  | push (g : Gpr)
  | pop (g : Gpr)
  | sub (g : Gpr) (imm : Nat)
  | add (g : Gpr) (imm : Nat)
  | mov (src dst : Gpr)
  | load (base : Gpr) (off : Int) (k : HostReg)
  | store (k : HostReg) (base : Gpr) (off : Int)
  | shl (g : Gpr) (n : Nat)
  | shr (g : Gpr) (n : Nat)
  | opcode
  | jmp (g : Gpr)

/-- 一つの命令の効果。`jmp` は飛ぶだけである。 -/
def Asm.exec {G : Type} (f : Effect hostModel G) (s : Host G) : Asm → Host G
  | push g => s.push (.gpr .rsp) (.gpr g) 8 8
  | pop g => s.pop (.gpr .rsp) (.gpr g) 8 8
  | sub g imm => s.addImm (.gpr g) (.gpr g) (-imm)
  | add g imm => s.addImm (.gpr g) (.gpr g) imm
  | mov src dst => s.move (.gpr dst) (.gpr src)
  | load base off k => s.load k (.gpr base) off k.bytes
  | store k base off => s.store k (.gpr base) off k.bytes
  | shl g n => s.set (.gpr g) (s.regs (.gpr g) <<< n)
  | shr g n => s.set (.gpr g) (s.regs (.gpr g) >>> n)
  | opcode => s.effect f
  | jmp _ => s

def runAsm {G : Type} (f : Effect hostModel G) (prog : List Asm) (s : Host G) : Host G :=
  prog.foldl (Asm.exec f) s

/-- `State` の汎用 register と `vec[0]` の番地。 -/
structure StateOffsets where
  gpr : Gpr → Nat
  vec : Nat

/-- `offset_reg`。 -/
def StateOffsets.offsetReg (o : StateOffsets) : HostReg → Nat
  | .gpr g => o.gpr g
  | .xmm i => o.vec + 0x40 * i

/-! ## 代わりの register -/

/-- 表の次の使っていない候補と、残りの表。表の外に出れば `none`。 -/
def nextCandidate (used : Finset HostReg) : List Gpr → Option (Gpr × List Gpr)
  | [] => none
  | cand :: rest => if .gpr cand ∈ used then nextCandidate used rest else some (cand, rest)

/-- `regcpu` と `regrsp`。 -/
def standIns (abi : Abi) (used : Finset HostReg) : Option (Gpr × Gpr) := do
  let (regcpu, rest) ←
    if .gpr .r12 ∈ used then nextCandidate used abi.candidates else some (.r12, abi.candidates)
  let (regrsp, _) ← if .gpr .rsp ∈ used then nextCandidate used rest else some (.rsp, rest)
  some (regcpu, regrsp)

section Handler

variable (abi : Abi) (o : StateOffsets) (used : Finset HostReg)

/-- 使う汎用 register の数。 -/
def gprCount : Nat := (used.filter fun k => k.isGpr = true).card

/-- `parse_regused` の結果を、集合の順に並べたもの。 -/
def regused : List HostReg := HostReg.all.filter (· ∈ used)

/-- pc を進めて、次の命令の handler に飛ぶ。 -/
def advance (oplen : Nat) : List Asm := [
  .mov .r12 .rax,
  .load .rax (-0x10) (.gpr .rcx),
  .load .rcx 0 (.gpr .rdx),
  .add .rdx oplen,
  .store (.gpr .rdx) .rcx 0,
  .mov .rax abi.argState,
  .mov .rdx abi.argVmAddr,
  .add .r13 8,
  .mov .r13 abi.argInsn,
  .load .r13 0 (.gpr .r10),
  .shl .r10 5,
  .shr .r10 5,
  .jmp .r10]

/-- 汎用 register を積む。 -/
def pushGpr : HostReg → List Asm
  | .gpr g => [.push g]
  | .xmm _ => []

def popGpr : HostReg → List Asm
  | .gpr g => [.pop g]
  | .xmm _ => []

/-- vector register を積む。 -/
def pushXmm (k : HostReg) : List Asm := [.sub .rsp 0x10, .store k .rsp 0]

def popXmm (k : HostReg) : List Asm := [.load .rsp 0 k, .add .rsp 0x10]

/-- 代わりの register を決めたあとの handler。 -/
def handlerBody (regcpu regrsp : Gpr) (oplen : Nat) : List Asm :=
  ((regused used).filter abi.calleeSavedGpr).flatMap pushGpr ++
  ((regused used).filter abi.calleeSavedXmm).flatMap pushXmm ++
  (if regcpu = .r12 then [] else [.mov .r12 regcpu]) ++
  (if regrsp = .rsp then [] else [.mov .rsp regrsp]) ++
  ((regused used).filter HostReg.switched).map (fun k => .load regcpu (o.offsetReg k) k) ++
  [.opcode] ++
  ((regused used).filter HostReg.switched).map (fun k => .store k regcpu (o.offsetReg k)) ++
  (if .r12 = regcpu then [] else [.mov regcpu .r12]) ++
  (if .rsp = regrsp then [] else [.mov regrsp .rsp]) ++
  ((regused used).reverse.filter abi.calleeSavedXmm).flatMap popXmm ++
  ((regused used).reverse.filter abi.calleeSavedGpr).flatMap popGpr ++
  advance abi oplen

/-- `nativeHandlerX64`。候補が足りなければ `none`。 -/
def nativeHandlerX64 (oplen : Nat) : Option (List Asm) :=
  (standIns abi used).map fun r => handlerBody abi o used r.1 r.2 oplen

/-- handler の前半を、register の切り替えとして見たもの。 -/
def switchPlan (regcpu regrsp : Gpr) : ContextSwitch HostReg where
  cpu := .gpr .r12
  sp := .gpr .rsp
  regcpu := .gpr regcpu
  regsp := .gpr regrsp
  saved := (regused used).filter abi.calleeSavedGpr ++ (regused used).filter abi.calleeSavedXmm
  loaded := (regused used).filter HostReg.switched
  stride := HostReg.bytes
  savedBytes := HostReg.bytes
  off := fun k => o.offsetReg k
  bytes := HostReg.bytes

end Handler

/-! ## 代わりの register の選び方 -/

section StandIns

variable {abi : Abi} {used : Finset HostReg} {regcpu regrsp : Gpr}

/-- 使っていない候補があれば、その最初のものが見つかり、残りは表の後ろに残る。 -/
theorem nextCandidate_of_filter {l fs : List Gpr} {c : Gpr}
    (h : l.filter (fun g => .gpr g ∉ used) = c :: fs) :
    ∃ rest, nextCandidate used l = some (c, rest) ∧
      rest.filter (fun g => .gpr g ∉ used) = fs := by
  induction l with
  | nil => simp at h
  | cons g rest ih =>
    unfold nextCandidate
    by_cases hg : .gpr g ∈ used
    · rw [List.filter_cons_of_neg (by simpa using hg)] at h
      rw [if_pos hg]
      exact ih h
    · rw [List.filter_cons_of_pos (by simpa using hg)] at h
      obtain ⟨rfl, rfl⟩ := List.cons.inj h
      exact ⟨rest, if_neg hg, rfl⟩

/-- 汎用 register を五つまでしか使わず、その一つが候補の外にあれば、候補は二つ以上余る。 -/
theorem two_le_candidates (hused : gprCount used ≤ 5) {g : Gpr}
    (hg : .gpr g ∈ used) (hcand : g ∉ abi.candidates) :
    2 ≤ (abi.candidates.filter fun g => .gpr g ∉ used).length := by
  have hnodup : abi.candidates.Nodup := by cases abi <;> decide
  have hlen : 7 ≤ abi.candidates.length := by cases abi <;> decide
  have hsplit := List.length_eq_length_filter_add (l := abi.candidates)
    fun g => decide (.gpr g ∈ used)
  have hfew : (abi.candidates.filter fun g => .gpr g ∈ used).length + 1 ≤ 5 := by
    have hsub : (g :: abi.candidates.filter fun g => .gpr g ∈ used).map HostReg.gpr ⊆
        (used.filter fun k => k.isGpr = true).toList := by
      intro k hk
      obtain ⟨g', hg', rfl⟩ := List.mem_map.mp hk
      have hmem : .gpr g' ∈ used := by
        rcases List.mem_cons.mp hg' with rfl | hg'
        · exact hg
        · simpa using (List.mem_filter.mp hg').2
      exact Finset.mem_toList.mpr (Finset.mem_filter.mpr ⟨hmem, rfl⟩)
    have hnodup' : ((g :: abi.candidates.filter fun g => .gpr g ∈ used).map HostReg.gpr).Nodup := by
      refine List.Nodup.map (fun _ _ h => HostReg.gpr.inj h) (List.nodup_cons.mpr ⟨?_, ?_⟩)
      · exact fun hmem => hcand (List.mem_filter.mp hmem).1
      · exact hnodup.filter _
    have hle := (hnodup'.subperm hsub).length_le
    rw [List.length_map, List.length_cons, Finset.length_toList] at hle
    exact Nat.le_trans hle hused
  have hneg : (abi.candidates.filter fun g => !decide (.gpr g ∈ used)) =
      abi.candidates.filter fun g => .gpr g ∉ used :=
    List.filter_congr fun g _ => by simp
  rw [hneg] at hsplit
  omega

/-- 選ばれた register は、使っていない互いに異なる揮発性の register で、候補の表の中にある。 -/
structure Chosen (abi : Abi) (used : Finset HostReg) (regcpu regrsp : Gpr) : Prop where
  unused_cpu : .gpr regcpu ∉ used
  unused_rsp : .gpr regrsp ∉ used
  distinct : regcpu ≠ regrsp
  cpu : (regcpu = .r12 ∧ .gpr .r12 ∉ used) ∨ (.gpr .r12 ∈ used ∧ regcpu ∈ abi.candidates)
  rsp : (regrsp = .rsp ∧ .gpr .rsp ∉ used) ∨ (.gpr .rsp ∈ used ∧ regrsp ∈ abi.candidates)
  volatile : ∀ g ∈ abi.candidates, g ∉ abi.calleeSavedGprs ∧ g ≠ .rsp

theorem candidates_volatile (abi : Abi) :
    ∀ g ∈ abi.candidates, g ∉ abi.calleeSavedGprs ∧ g ≠ .rsp := by
  cases abi <;> decide

theorem candidate_ne_r12 (abi : Abi) : .r12 ∉ abi.candidates := by cases abi <;> decide

theorem candidate_ne_rsp (abi : Abi) : .rsp ∉ abi.candidates := by cases abi <;> decide

/-- 見つかる候補は使われておらず、残りの表は、その後ろにある。 -/
theorem nextCandidate_some {l rest : List Gpr} {c : Gpr}
    (h : nextCandidate used l = some (c, rest)) :
    .gpr c ∉ used ∧ ∃ pre, l = pre ++ c :: rest := by
  induction l with
  | nil => exact nomatch h
  | cons g l ih =>
    unfold nextCandidate at h
    split at h
    · obtain ⟨hc, pre, rfl⟩ := ih h
      exact ⟨hc, g :: pre, rfl⟩
    · next hg =>
      obtain ⟨rfl, rfl⟩ := Prod.mk.inj (Option.some.inj h)
      exact ⟨hg, [], rfl⟩

/-- 使っていない register はそのまま残り、使う register には、表の中の候補が代わる。 -/
theorem standIn_some {l rest : List Gpr} {g c : Gpr}
    (h : (if .gpr g ∈ used then nextCandidate used l else some (g, l)) = some (c, rest)) :
    .gpr c ∉ used ∧ ((c = g ∧ .gpr g ∉ used ∧ rest = l) ∨
      (.gpr g ∈ used ∧ ∃ pre, l = pre ++ c :: rest)) := by
  split at h
  · next hg =>
    obtain ⟨hc, hsplit⟩ := nextCandidate_some h
    exact ⟨hc, Or.inr ⟨hg, hsplit⟩⟩
  · next hg =>
    obtain ⟨rfl, rfl⟩ := Prod.mk.inj (Option.some.inj h)
    exact ⟨hg, Or.inl ⟨rfl, hg, rfl⟩⟩

theorem standIns_eq : standIns abi used =
    (if .gpr .r12 ∈ used then nextCandidate used abi.candidates
      else some (.r12, abi.candidates)).bind fun r =>
    (if .gpr .rsp ∈ used then nextCandidate used r.2 else some (.rsp, r.2)).bind fun r' =>
    some (r.1, r'.1) := by
  unfold standIns
  by_cases h12 : .gpr .r12 ∈ used <;> by_cases hsp : .gpr .rsp ∈ used <;> simp [h12, hsp]

/-- `standIns` が register を選べたなら、それは正しい代わりである。 -/
theorem chosen_of_standIns (h : standIns abi used = some (regcpu, regrsp)) :
    Chosen abi used regcpu regrsp := by
  rw [standIns_eq] at h
  obtain ⟨⟨c, rest⟩, hcpu, h⟩ := Option.bind_eq_some_iff.mp h
  obtain ⟨⟨c', rest'⟩, hrsp, h⟩ := Option.bind_eq_some_iff.mp h
  obtain ⟨rfl, rfl⟩ := Prod.mk.inj (Option.some.inj h)
  obtain ⟨hc, hcpu⟩ := standIn_some hcpu
  obtain ⟨hc', hrsp⟩ := standIn_some hrsp
  have hsub : ∀ g ∈ rest, g ∈ abi.candidates := by
    rcases hcpu with ⟨-, -, rfl⟩ | ⟨-, pre, hsplit⟩
    · exact fun _ hg => hg
    · exact fun g hg => hsplit ▸ List.mem_append_right _ (List.mem_cons_of_mem _ hg)
  have hmem' : .gpr .rsp ∈ used → c' ∈ rest := by
    rcases hrsp with ⟨-, hsp, -⟩ | ⟨-, pre, rfl⟩
    · exact fun hused => absurd hused hsp
    · exact fun _ => List.mem_append_right _ List.mem_cons_self
  constructor
  case unused_cpu => exact hc
  case unused_rsp => exact hc'
  case distinct =>
    -- 二つ目は、一つ目より後ろの候補である。
    rintro rfl
    rcases hrsp with ⟨rfl, -, -⟩ | ⟨hsp, -⟩
    · rcases hcpu with ⟨heq, -, -⟩ | ⟨-, pre, hsplit⟩
      · exact nomatch heq
      · exact candidate_ne_rsp abi (by rw [hsplit]; simp)
    · rcases hcpu with ⟨rfl, -, -⟩ | ⟨-, pre, hsplit⟩
      · exact candidate_ne_r12 abi (hsub _ (hmem' hsp))
      · have hnodup : abi.candidates.Nodup := by cases abi <;> decide
        rw [hsplit] at hnodup
        exact (List.nodup_cons.mp (List.nodup_append.mp hnodup).2.1).1 (hmem' hsp)
  case cpu =>
    rcases hcpu with ⟨rfl, hused, -⟩ | ⟨hused, pre, hsplit⟩
    · exact Or.inl ⟨rfl, hused⟩
    · exact Or.inr ⟨hused, by rw [hsplit]; simp⟩
  case rsp =>
    rcases hrsp with ⟨rfl, hused, -⟩ | ⟨hused, -⟩
    · exact Or.inl ⟨rfl, hused⟩
    · exact Or.inr ⟨hused, hsub _ (hmem' hused)⟩
  case volatile => exact candidates_volatile abi

/-- 汎用 register を五つまでしか使わなければ、代わりの register は必ず選べる。 -/
theorem standIns_chosen (abi : Abi) (hused : gprCount used ≤ 5) :
    ∃ regcpu regrsp, standIns abi used = some (regcpu, regrsp) ∧
      Chosen abi used regcpu regrsp := by
  obtain ⟨regcpu, regrsp, hstand⟩ :
      ∃ regcpu regrsp, standIns abi used = some (regcpu, regrsp) := by
    by_cases h12 : .gpr .r12 ∈ used
    · have htwo := two_le_candidates hused h12 (candidate_ne_r12 abi)
      cases hfilter : abi.candidates.filter fun g => .gpr g ∉ used with
      | nil => exact absurd htwo (by rw [hfilter]; simp)
      | cons c fs =>
        obtain ⟨rest, hnext, hrest⟩ := nextCandidate_of_filter hfilter
        by_cases hsp : .gpr .rsp ∈ used
        · cases fs with
          | nil => exact absurd htwo (by rw [hfilter]; simp)
          | cons c' fs =>
            obtain ⟨rest', hnext', -⟩ := nextCandidate_of_filter hrest
            exact ⟨c, c', by simp [standIns, h12, hsp, hnext, hnext']⟩
        · exact ⟨c, .rsp, by simp [standIns, h12, hsp, hnext]⟩
    · by_cases hsp : .gpr .rsp ∈ used
      · have htwo := two_le_candidates hused hsp (candidate_ne_rsp abi)
        cases hfilter : abi.candidates.filter fun g => .gpr g ∉ used with
        | nil => exact absurd htwo (by rw [hfilter]; simp)
        | cons c fs =>
          obtain ⟨rest, hnext, -⟩ := nextCandidate_of_filter hfilter
          exact ⟨.r12, c, by simp [standIns, h12, hsp, hnext]⟩
      · exact ⟨.r12, .rsp, by simp [standIns, h12, hsp]⟩
  exact ⟨regcpu, regrsp, hstand, chosen_of_standIns hstand⟩

end StandIns

/-! ## handler の実行 -/

section Run

variable {G : Type} {abi : Abi} {o : StateOffsets} {used : Finset HostReg} {regcpu regrsp : Gpr}
  {f : Effect hostModel G} {s : Host G}

theorem runAsm_append (p q : List Asm) (s : Host G) :
    runAsm f (p ++ q) s = runAsm f q (runAsm f p s) :=
  List.foldl_append

theorem runAsm_copy (dst src : Gpr) : runAsm f (if dst = src then [] else [.mov src dst]) s =
    Machine.copyTo (.gpr dst) (.gpr src) s := by
  by_cases h : dst = src
  · rw [if_pos h, Machine.copyTo, if_pos (congrArg HostReg.gpr h)]
    rfl
  · rw [if_neg h, Machine.copyTo, if_neg fun heq => h (HostReg.gpr.inj heq)]
    rfl

theorem runAsm_pushXmm (i : Fin 32) :
    runAsm f (pushXmm (.xmm i)) s = s.push (.gpr .rsp) (.xmm i) 0x10 0x10 := by
  have hsub : ((s.regs (.gpr .rsp) + BitVec.ofInt _ (-0x10)).setWidth _ :
      BitVec (hostModel.width (.gpr .rsp))) = s.regs (.gpr .rsp) - BitVec.ofNat _ 0x10 := by
    rw [BitVec.setWidth_eq, BitVec.sub_eq_add_neg]
    rfl
  exact congrArg (fun v => Machine.store (s.set (.gpr .rsp) v) (.xmm i) (.gpr .rsp) 0 0x10) hsub

theorem runAsm_popXmm (i : Fin 32) :
    runAsm f (popXmm (.xmm i)) s = s.pop (.gpr .rsp) (.xmm i) 0x10 0x10 := by
  let t := s.load (.xmm i) (.gpr .rsp) 0 0x10
  have hadd : ((t.regs (.gpr .rsp) + BitVec.ofInt _ 0x10).setWidth _ :
      BitVec (hostModel.width (.gpr .rsp))) = t.regs (.gpr .rsp) + BitVec.ofNat _ 0x10 := by
    rw [BitVec.setWidth_eq]
    rfl
  exact congrArg (t.set (.gpr .rsp)) hadd

theorem runAsm_flatMap {code : HostReg → List Asm} {step : Host G → HostReg → Host G}
    {l : List HostReg} (h : ∀ k ∈ l, ∀ s, runAsm f (code k) s = step s k) :
    runAsm f (l.flatMap code) s = l.foldl step s := by
  induction l generalizing s with
  | nil => rfl
  | cons k rest ih =>
    rw [List.forall_mem_cons] at h
    rw [List.flatMap_cons, runAsm_append, h.1, ih h.2]
    rfl

theorem calleeSavedGpr_eq {k : HostReg} (h : abi.calleeSavedGpr k = true) :
    ∃ g, k = .gpr g ∧ g ∈ abi.calleeSavedGprs := by
  cases k with
  | gpr g => exact ⟨g, rfl, by simpa [Abi.calleeSavedGpr] using h⟩
  | xmm i => simp [Abi.calleeSavedGpr] at h

theorem calleeSavedXmm_eq {k : HostReg} (h : abi.calleeSavedXmm k = true) :
    ∃ i : Fin 32, k = .xmm i := by
  cases k with
  | gpr g => cases abi <;> simp [Abi.calleeSavedXmm] at h
  | xmm i => exact ⟨i, rfl⟩

/-- handler は、register を切り替えて命令を実行し、次に進む。 -/
theorem runAsm_handlerBody (oplen : Nat) :
    runAsm f (handlerBody abi o used regcpu regrsp oplen) s =
      runAsm f (advance abi oplen) ((switchPlan abi o used regcpu regrsp).run f s) := by
  have hpushGpr : ∀ s : Host G,
      runAsm f (((regused used).filter abi.calleeSavedGpr).flatMap pushGpr) s =
        Machine.pushAll (.gpr .rsp) HostReg.bytes HostReg.bytes
          ((regused used).filter abi.calleeSavedGpr) s := fun s =>
    runAsm_flatMap fun k hk s => by
      obtain ⟨g, rfl, -⟩ := calleeSavedGpr_eq (List.mem_filter.mp hk).2
      rfl
  have hpushXmm : ∀ s : Host G,
      runAsm f (((regused used).filter abi.calleeSavedXmm).flatMap pushXmm) s =
        Machine.pushAll (.gpr .rsp) HostReg.bytes HostReg.bytes
          ((regused used).filter abi.calleeSavedXmm) s := fun s =>
    runAsm_flatMap fun k hk s => by
      obtain ⟨i, rfl⟩ := calleeSavedXmm_eq (List.mem_filter.mp hk).2
      exact runAsm_pushXmm i
  have hpopXmm : ∀ s : Host G,
      runAsm f (((regused used).reverse.filter abi.calleeSavedXmm).flatMap popXmm) s =
        Machine.popAll (.gpr .rsp) HostReg.bytes HostReg.bytes
          ((regused used).filter abi.calleeSavedXmm).reverse s := fun s => by
    rw [List.filter_reverse]
    refine runAsm_flatMap fun k hk s => ?_
    obtain ⟨i, rfl⟩ := calleeSavedXmm_eq (List.mem_filter.mp (List.mem_reverse.mp hk)).2
    exact runAsm_popXmm i
  have hpopGpr : ∀ s : Host G,
      runAsm f (((regused used).reverse.filter abi.calleeSavedGpr).flatMap popGpr) s =
        Machine.popAll (.gpr .rsp) HostReg.bytes HostReg.bytes
          ((regused used).filter abi.calleeSavedGpr).reverse s := fun s => by
    rw [List.filter_reverse]
    refine runAsm_flatMap fun k hk s => ?_
    obtain ⟨g, rfl, -⟩ := calleeSavedGpr_eq (List.mem_filter.mp (List.mem_reverse.mp hk)).2
    rfl
  simp only [handlerBody, runAsm_append, hpushGpr, hpushXmm, hpopXmm, hpopGpr, runAsm_copy]
  simp only [ContextSwitch.run, ContextSwitch.enter, ContextSwitch.leave, ContextSwitch.prologue,
    switchPlan, List.reverse_append, Machine.popAll_append, Machine.pushAll, List.foldl_append,
    Machine.loadAll, Machine.storeAll, runAsm, List.foldl_map]
  rfl

theorem mem_regused {k : HostReg} : k ∈ regused used ↔ k ∈ used := by
  simp [regused, HostReg.mem_all]

theorem mem_loaded {k : HostReg} :
    k ∈ (switchPlan abi o used regcpu regrsp).loaded ↔ k ∈ used ∧ k.switched = true := by
  simp only [switchPlan, List.mem_filter, mem_regused]

theorem mem_saved {k : HostReg} : k ∈ (switchPlan abi o used regcpu regrsp).saved ↔
    k ∈ used ∧ (abi.calleeSavedGpr k = true ∨ abi.calleeSavedXmm k = true) := by
  simp only [switchPlan, List.mem_append, List.mem_filter, mem_regused]
  rw [← and_or_left]

theorem switchPlan_valid (hc : Chosen abi used regcpu regrsp) :
    (switchPlan abi o used regcpu regrsp).Valid hostModel (· ∈ used) := by
  have hsp : ∀ g ∈ abi.calleeSavedGprs, g ≠ .rsp := by cases abi <;> decide
  have h12 : .r12 ∈ abi.calleeSavedGprs := by cases abi <;> decide
  have hregrsp : regrsp ≠ .r12 := by
    rcases hc.rsp with ⟨rfl, -⟩ | ⟨-, hmem⟩
    · decide
    · exact fun heq => candidate_ne_r12 abi (heq ▸ hmem)
  have hregcpu : regcpu ≠ .rsp := by
    rcases hc.cpu with ⟨rfl, -⟩ | ⟨-, hmem⟩
    · decide
    · exact fun heq => candidate_ne_rsp abi (heq ▸ hmem)
  have hgpr : ∀ {g g' : Gpr}, g ≠ g' → HostReg.gpr g ≠ .gpr g' :=
    fun hne heq => hne (HostReg.gpr.inj heq)
  constructor
  case loaded_nodup => exact (HostReg.all_nodup.filter _).filter _
  case loaded_used => exact fun k hk => (mem_loaded.mp hk).1
  case loaded_width =>
    intro k _
    cases k <;> simp [switchPlan, hostModel, HostReg.width, HostReg.bytes]
  case saved_nodup =>
    have hnodup := HostReg.all_nodup.filter (· ∈ used)
    refine List.nodup_append.mpr ⟨hnodup.filter _, hnodup.filter _, fun k hk j hj heq => ?_⟩
    obtain ⟨g, rfl, -⟩ := calleeSavedGpr_eq (List.mem_filter.mp hk).2
    obtain ⟨i, rfl⟩ := calleeSavedXmm_eq (List.mem_filter.mp hj).2
    exact nomatch heq
  case saved_used => exact fun k hk => (mem_saved.mp hk).1
  case saved_stride => exact fun k _ => Nat.le_refl k.bytes
  case saved_width =>
    intro k _
    cases k <;> simp [switchPlan, hostModel, HostReg.width, HostReg.bytes]
  case sp_notMem =>
    intro hmem
    rcases (mem_saved.mp hmem).2 with h | h
    · obtain ⟨g, heq, hg⟩ := calleeSavedGpr_eq h
      exact hsp g hg (HostReg.gpr.inj heq).symm
    · obtain ⟨i, heq⟩ := calleeSavedXmm_eq h
      exact nomatch heq
  case sp_ne_cpu => exact hgpr (by decide)
  case regcpu_unused => exact hc.unused_cpu
  case regcpu_ne_sp => exact hgpr hregcpu
  case regcpu_ne_regsp => exact hgpr hc.distinct
  case regcpu_width => rfl
  case regsp_unused => exact hc.unused_rsp
  case regsp_ne_cpu => exact hgpr hregrsp
  case regsp_width => rfl
  case cpu_saved =>
    intro hne
    rcases hc.cpu with ⟨rfl, -⟩ | ⟨hmem, -⟩
    · exact absurd rfl hne
    · exact mem_saved.mpr ⟨hmem, Or.inl (decide_eq_true h12)⟩
  case cpu_width => rfl

theorem depth_le : (switchPlan abi o used regcpu regrsp).depth ≤ 0xe0 := by
  have hcount : ∀ p : HostReg → Bool, ((regused used).filter p).length ≤
      (HostReg.all.filter p).length := fun p =>
    ((HostReg.all_nodup.filter _).filter _ |>.subperm fun k hk =>
      List.mem_filter.mpr ⟨k.mem_all, (List.mem_filter.mp hk).2⟩).length_le
  have hgpr : (HostReg.all.filter abi.calleeSavedGpr).length ≤ 8 := by cases abi <;> decide
  have hxmm : (HostReg.all.filter abi.calleeSavedXmm).length ≤ 10 := by cases abi <;> decide
  have hgprFrame : Machine.frame HostReg.bytes ((regused used).filter abi.calleeSavedGpr) ≤
      ((regused used).filter abi.calleeSavedGpr).length * 8 :=
    Machine.frame_le fun k hk => by
      obtain ⟨g, rfl, -⟩ := calleeSavedGpr_eq (List.mem_filter.mp hk).2
      exact Nat.le_refl 8
  have hxmmFrame : Machine.frame HostReg.bytes ((regused used).filter abi.calleeSavedXmm) ≤
      ((regused used).filter abi.calleeSavedXmm).length * 16 :=
    Machine.frame_le fun k hk => by
      obtain ⟨i, rfl⟩ := calleeSavedXmm_eq (List.mem_filter.mp hk).2
      exact Nat.le_refl 16
  have hsum : (switchPlan abi o used regcpu regrsp).depth =
      Machine.frame HostReg.bytes ((regused used).filter abi.calleeSavedGpr) +
        Machine.frame HostReg.bytes ((regused used).filter abi.calleeSavedXmm) :=
    Machine.frame_append _ _ _
  have hg := hcount abi.calleeSavedGpr
  have hx := hcount abi.calleeSavedXmm
  omega

end Run

/-! ## 次の命令へ進む -/

section Advance

variable {G : Type} {f : Effect hostModel G}

/-- 汎用 register。 -/
def gprBank : WordBank hostModel Gpr where
  reg := .gpr
  inj := fun _ _ h => HostReg.gpr.inj h
  width := fun _ => rfl

def gpr (s : Host G) (g : Gpr) : BitVec 64 := gprBank.get s g

/-- `r12` から見た `State`。 -/
def stateView (o : StateOffsets) : StateView HostReg where
  cpu := .gpr .r12
  off := o.offsetReg
  size := HostReg.size

section Step

variable (s : Host G) (g j : Gpr)

theorem exec_mov : Asm.exec f s (.mov j g) = gprBank.set s g (gprBank.get s j) :=
  gprBank.move_reg s g j

theorem exec_add (imm : Nat) : Asm.exec f s (.add g imm) =
    gprBank.set s g (gprBank.get s g + BitVec.ofNat 64 imm) := by
  have h := gprBank.addImm_reg s g g imm
  rw [BitVec.ofInt_natCast] at h
  exact h

theorem exec_load (off : Int) : Asm.exec f s (.load j off (.gpr g)) =
    gprBank.set s g
      (BitVec.ofNat 64 (s.mem.loadLE (gprBank.get s j + BitVec.ofInt 64 off).toNat 8)) :=
  gprBank.load_reg s g j off

theorem exec_store (off : Int) : Asm.exec f s (.store (.gpr g) j off) =
    WordBank.setWord s (gprBank.get s j + BitVec.ofInt 64 off).toNat (gprBank.get s g) :=
  gprBank.store_reg s g j off

theorem exec_shl (n : Nat) :
    Asm.exec f s (.shl g n) = gprBank.set s g (gprBank.get s g <<< n) := rfl

theorem exec_shr (n : Nat) :
    Asm.exec f s (.shr g n) = gprBank.set s g (gprBank.get s g >>> n) := rfl

end Step

variable (abi : Abi) (o : StateOffsets) (oplen : Nat)

/-- pc を進めた状態。 -/
def pcAdvanced (s : Host G) : Host G :=
  let v := stateView o
  let next := v.pc s + BitVec.ofNat 64 oplen
  let s₁ := gprBank.set (gprBank.set s .rax (gpr s .r12)) .rcx (BitVec.ofNat 64 (v.pcAddr s))
  let s₂ := gprBank.set (gprBank.set s₁ .rdx (v.pc s)) .rdx next
  let s₃ := WordBank.setWord s₂ (v.pcAddr s) next
  gprBank.set (gprBank.set s₃ abi.argState (gpr s .r12)) abi.argVmAddr next

/-- 次の命令を取り出した状態。 -/
def insnAdvanced (s : Host G) : Host G :=
  let next := gpr s .r13 + 8
  let word := BitVec.ofNat 64 (s.mem.loadLE next.toNat 8)
  let s₁ := gprBank.set (gprBank.set s .r13 next) abi.argInsn next
  gprBank.set (gprBank.set (gprBank.set s₁ .r10 word) .r10 (word <<< 5)) .r10 (word <<< 5 >>> 5)

theorem runAsm_advance_eq (s : Host G) :
    runAsm f (advance abi oplen) s = insnAdvanced abi (pcAdvanced abi o oplen s) := by
  have hcpu : s.mem.loadLE (gprBank.get s .r12 + BitVec.ofInt 64 (-0x10)).toNat 8 =
      (stateView o).pcAddr s := by
    rw [← gprBank.address_reg]
    rfl
  have hpc : BitVec.ofNat 64 (s.mem.loadLE ((stateView o).pcAddr s) 8) = (stateView o).pc s := rfl
  have haddr : (BitVec.ofNat 64 ((stateView o).pcAddr s)).toNat = (stateView o).pcAddr s :=
    WordBank.toNat_loadLE _ _
  have hzero : ∀ x : BitVec 64, x + BitVec.ofInt 64 0 = x := fun x => BitVec.add_zero x
  have height : BitVec.ofNat 64 8 = 8 := rfl
  cases abi <;>
    simp only [runAsm, advance, insnAdvanced, pcAdvanced, gpr, Abi.argState, Abi.argVmAddr,
      Abi.argInsn, List.foldl_cons, List.foldl_nil, exec_mov, exec_add, exec_load, exec_store,
      exec_shl, exec_shr, WordBank.get_set, WordBank.get_setWord, WordBank.set_mem,
      WordBank.setWord_mem, if_true, hcpu, hpc, haddr, hzero, height, reduceCtorEq, if_false] <;>
    rfl

/-- `advance` の書く register。 -/
def written : List Gpr :=
  [.rax, .rcx, .rdx, .r10, .r13, abi.argState, abi.argVmAddr, abi.argInsn]

/-- `advance` の後の状態。 -/
structure Advanced (s s' : Host G) : Prop where
  mem : s'.mem = s.mem.storeLE ((stateView o).pcAddr s) 8
    ((stateView o).pc s + BitVec.ofNat 64 oplen).toNat
  guest : s'.guest = s.guest
  state : gpr s' abi.argState = gpr s .r12
  vmaddr : gpr s' abi.argVmAddr = (stateView o).pc s + BitVec.ofNat 64 oplen
  insn : gpr s' abi.argInsn = gpr s .r13 + 8
  chain : gpr s' .r13 = gpr s .r13 + 8
  handler : (gpr s' .r10).toNat = s'.mem.loadLE (gpr s .r13 + 8).toNat 8 % 2 ^ 59
  others : ∀ g ∉ written abi, gpr s' g = gpr s g
  xmm : ∀ i, s'.regs (.xmm i) = s.regs (.xmm i)

/-- 左右に 5 bit ずらすと、下位の 59 bit が残る。 -/
theorem toNat_shl_shr (x : BitVec 64) : (x <<< 5 >>> 5).toNat = x.toNat % 2 ^ 59 := by
  rw [BitVec.toNat_ushiftRight, BitVec.toNat_shiftLeft, Nat.shiftLeft_eq, Nat.shiftRight_eq_div_pow]
  omega

theorem runAsm_advance (s : Host G) : Advanced abi o oplen s (runAsm f (advance abi oplen) s) := by
  rw [runAsm_advance_eq abi o]
  have h13 : gpr (pcAdvanced abi o oplen s) .r13 = gpr s .r13 := by
    cases abi <;> simp [pcAdvanced, gpr, Abi.argState, Abi.argVmAddr]
  constructor
  case mem => simp only [insnAdvanced, pcAdvanced, WordBank.set_mem, WordBank.setWord_mem]
  case guest => simp only [insnAdvanced, pcAdvanced, WordBank.set_guest, WordBank.setWord_guest]
  case state =>
    cases abi <;> simp [insnAdvanced, pcAdvanced, gpr, Abi.argState, Abi.argVmAddr, Abi.argInsn]
  case vmaddr =>
    cases abi <;> simp [insnAdvanced, pcAdvanced, gpr, Abi.argState, Abi.argVmAddr, Abi.argInsn]
  case insn =>
    rw [← h13]
    cases abi <;> simp [insnAdvanced, gpr, Abi.argInsn]
  case chain =>
    rw [← h13]
    cases abi <;> simp [insnAdvanced, gpr, Abi.argInsn]
  case handler =>
    simp only [insnAdvanced, h13]
    simp only [gpr, WordBank.get_set, WordBank.set_mem, if_true]
    rw [toNat_shl_shr, WordBank.toNat_loadLE]
  case others =>
    intro g hg
    simp only [written, List.mem_cons, List.not_mem_nil, or_false, not_or] at hg
    obtain ⟨hax, hcx, hdx, h10, h13', hst, hvm, hin⟩ := hg
    simp only [insnAdvanced, pcAdvanced, gpr, WordBank.get_set, WordBank.get_setWord, hax, hcx, hdx,
      h10, h13', hst, hvm, hin, if_false]
  case xmm =>
    intro i
    have hne : ∀ g, HostReg.xmm i ≠ gprBank.reg g := fun _ heq => nomatch heq
    simp only [insnAdvanced, pcAdvanced, gprBank.set_regs _ _ _ (hne _), WordBank.setWord_regs]

end Advance

/-! ## handler の前後 -/

section Switched

variable {G : Type} (abi : Abi) (o : StateOffsets)

/--
`State` と `CPUState` と host の stack の配置。`State` の field は互いに重ならず、番地は折り返さない。pc は register と
重ならず、どれも stack の空きと重ならない。
-/
structure StatePlaced (s : Host G) : Prop where
  gprs : ∀ g g', g ≠ g' → o.gpr g + 8 ≤ o.gpr g' ∨ o.gpr g' + 8 ≤ o.gpr g
  vec : ∀ g, o.gpr g + 8 ≤ o.vec ∨ o.vec + 0x800 ≤ o.gpr g
  low : 0x10 ≤ (gpr s .r12).toNat
  high : ∀ k, (gpr s .r12).toNat + o.offsetReg k < 2 ^ 64
  room : 0xe0 ≤ (gpr s .rsp).toNat
  regs_stack : ∀ k, (stateView o).addr s k + k.size ≤ (gpr s .rsp).toNat - 0xe0 ∨
    (gpr s .rsp).toNat ≤ (stateView o).addr s k
  pcptr_stack : (stateView o).pcptr s + 8 ≤ (gpr s .rsp).toNat - 0xe0 ∨
    (gpr s .rsp).toNat ≤ (stateView o).pcptr s
  pc_regs : ∀ k, (stateView o).pcAddr s + 8 ≤ (stateView o).addr s k ∨
    (stateView o).addr s k + k.size ≤ (stateView o).pcAddr s
  pc_stack : (stateView o).pcAddr s + 8 ≤ (gpr s .rsp).toNat - 0xe0 ∨
    (gpr s .rsp).toNat ≤ (stateView o).pcAddr s
  pc_pcptr : (stateView o).pcAddr s + 8 ≤ (stateView o).pcptr s ∨
    (stateView o).pcptr s + 8 ≤ (stateView o).pcAddr s

/--
汎用 register の正しい切り替え。命令の使う guest の register には `f` の結果が入り、ほかの guest の register は変わらず、
`rip` は命令の長さだけ進む。host の保つべき register は元のままで、`r13` は次の `Instruction` を指し、次の handler の
引数が揃う。
-/
structure Switched (used : Finset HostReg) (oplen : Nat) (f : Effect hostModel G) (s s' : Host G) :
    Prop where
  used_regs : ∀ g, .gpr g ∈ used →
    (stateView o).regs s' (.gpr g) = (f ((stateView o).regs s) s.guest).1 (.gpr g)
  other_regs : ∀ g, .gpr g ∉ used → (stateView o).regs s' (.gpr g) = (stateView o).regs s (.gpr g)
  memory : s'.guest = (f ((stateView o).regs s) s.guest).2
  rip : (stateView o).pc s' = (stateView o).pc s + BitVec.ofNat 64 oplen
  calleeSaved : ∀ g ∈ abi.calleeSavedGprs, g ≠ .r13 → gpr s' g = gpr s g
  calleeSaved_xmm : ∀ i, abi.calleeSavedXmm (.xmm i) = true →
    (s'.regs (.xmm i)).toNat % 2 ^ 128 = (s.regs (.xmm i)).toNat % 2 ^ 128
  rsp : gpr s' .rsp = gpr s .rsp
  cpu : gpr s' .r12 = gpr s .r12
  chain : gpr s' .r13 = gpr s .r13 + 8
  state : gpr s' abi.argState = gpr s .r12
  vmaddr : gpr s' abi.argVmAddr = (stateView o).pc s + BitVec.ofNat 64 oplen
  insn : gpr s' abi.argInsn = gpr s .r13 + 8
  handler : (gpr s' .r10).toNat = s'.mem.loadLE (gpr s .r13 + 8).toNat 8 % 2 ^ 59

variable {abi o} {used : Finset HostReg} {regcpu regrsp : Gpr} {f : Effect hostModel G} {s : Host G}

namespace StatePlaced

theorem addr_eq (h : StatePlaced o s) (k : HostReg) :
    (stateView o).addr s k = (gpr s .r12).toNat + o.offsetReg k :=
  (stateView o).addr_eq s (h.high k)

theorem pcptr_eq (h : StatePlaced o s) : (stateView o).pcptr s = (gpr s .r12).toNat - 0x10 :=
  (stateView o).pcptr_eq s h.low

/-- 別の register の置き場は重ならない。 -/
theorem offsetReg_apart (h : StatePlaced o s) {k j : HostReg} (hne : k ≠ j) :
    o.offsetReg k + k.size ≤ o.offsetReg j ∨ o.offsetReg j + j.size ≤ o.offsetReg k := by
  have hxmm : ∀ i : Fin 32, o.offsetReg (.xmm i) = o.vec + 0x40 * i := fun _ => rfl
  cases k with
  | gpr g =>
    cases j with
    | gpr g' => exact h.gprs g g' fun heq => hne (congrArg HostReg.gpr heq)
    | xmm i =>
      have hvec := h.vec g
      simp only [HostReg.size, StateOffsets.offsetReg]
      omega
  | xmm i =>
    cases j with
    | gpr g =>
      have hvec := h.vec g
      simp only [HostReg.size, StateOffsets.offsetReg]
      omega
    | xmm i' =>
      have hval : i.val ≠ i'.val := fun heq => hne (congrArg HostReg.xmm (Fin.ext heq))
      simp only [hxmm, HostReg.size]
      omega

theorem placed (h : StatePlaced o s) : Placed (stateView o) (.gpr .rsp) 0xe0 s where
  room := h.room
  regs_apart := fun k j hne => by
    have hapart := h.offsetReg_apart hne
    rw [h.addr_eq, h.addr_eq]
    simp only [stateView]
    omega
  regs_stack := h.regs_stack
  pcptr_regs := fun k => by
    have hlow := h.low
    rw [h.pcptr_eq, h.addr_eq]
    omega
  pcptr_stack := h.pcptr_stack
  pc_regs := h.pc_regs
  pc_stack := h.pc_stack
  pc_pcptr := h.pc_pcptr

end StatePlaced

theorem switchPlan_uses : Uses (switchPlan abi o used regcpu regrsp) (stateView o) 0xe0 where
  cpu := rfl
  off := fun _ => rfl
  bytes_le := fun k _ => k.bytes_le
  depth_le := depth_le

/-- 退避した register は元に戻り、命令の使わない register は変わらない。 -/
theorem plan_calleeSaved (hr : (switchPlan abi o used regcpu regrsp).Ready s)
    (hc : Chosen abi used regcpu regrsp) (hf : f.Confined (· ∈ used)) {g : Gpr}
    (hg : g ∈ abi.calleeSavedGprs) :
    gpr ((switchPlan abi o used regcpu regrsp).run f s) g = gpr s g := by
  have hv := switchPlan_valid (o := o) hc
  have hgpr : ∀ {g' : Gpr}, g ≠ g' → HostReg.gpr g ≠ .gpr g' :=
    fun hne heq => hne (HostReg.gpr.inj heq)
  have hsp : g ≠ .rsp := (show ∀ g ∈ abi.calleeSavedGprs, g ≠ .rsp by cases abi <;> decide) g hg
  have hregcpu : HostReg.gpr g ≠ .gpr .r12 → HostReg.gpr g ≠ .gpr regcpu := by
    intro h12
    rcases hc.cpu with ⟨rfl, -⟩ | ⟨-, hmem⟩
    · exact h12
    · exact hgpr fun heq => (hc.volatile _ hmem).1 (heq ▸ hg)
  have hregrsp : HostReg.gpr g ≠ .gpr regrsp := by
    rcases hc.rsp with ⟨rfl, -⟩ | ⟨-, hmem⟩
    · exact hgpr hsp
    · exact hgpr fun heq => (hc.volatile _ hmem).1 (heq ▸ hg)
  have hlow := hv.run_kept hf hr (.gpr g)
    (fun hused => mem_saved.mpr ⟨hused, Or.inl (decide_eq_true hg)⟩) (hgpr hsp) hregcpu hregrsp
  apply BitVec.eq_of_toNat_eq
  exact (low_full (n := 8) rfl _).symm.trans (hlow.trans (low_full (n := 8) rfl _))

theorem plan_calleeSavedXmm (hr : (switchPlan abi o used regcpu regrsp).Ready s)
    (hc : Chosen abi used regcpu regrsp) (hf : f.Confined (· ∈ used)) {i : Fin 32}
    (hi : abi.calleeSavedXmm (.xmm i) = true) :
    (((switchPlan abi o used regcpu regrsp).run f s).regs (.xmm i)).toNat % 2 ^ 128 =
      (s.regs (.xmm i)).toNat % 2 ^ 128 := by
  have hv := switchPlan_valid (o := o) hc
  exact hv.run_kept hf hr (.xmm i) (fun hused => mem_saved.mpr ⟨hused, Or.inr hi⟩)
    (fun heq => nomatch heq) (fun _ heq => nomatch heq) (fun heq => nomatch heq)

/-- 汎用 register だけを読み書きする命令は、使う register だけを読み書きする。 -/
theorem confined_used (hf : f.Confined fun k => k ∈ used ∧ k.isGpr = true) :
    f.Confined (· ∈ used) where
  writes := fun R g k hk => hf.writes R g k fun h => hk h.1
  reads := fun R R' g hR => by
    have hreads := hf.reads R R' g fun k hk => hR k hk.1
    refine ⟨fun k hk => ?_, hreads.2⟩
    by_cases hgpr : k.isGpr = true
    · exact hreads.1 k ⟨hk, hgpr⟩
    · rw [hf.writes R g k fun h => hgpr h.2, hf.writes R' g k fun h => hgpr h.2, hR k hk]

/-- handler は、切り替えのあとに pc を進める。 -/
theorem handlerBody_pcAdvanced (abi : Abi) (o : StateOffsets) (used : Finset HostReg)
    (regcpu regrsp : Gpr) (oplen : Nat) (f : Effect hostModel G) (s : Host G) :
    PcAdvanced (stateView o) (BitVec.ofNat 64 oplen) ((switchPlan abi o used regcpu regrsp).run f s)
      (runAsm f (handlerBody abi o used regcpu regrsp oplen) s) := by
  rw [runAsm_handlerBody]
  have hadv := runAsm_advance (f := f) abi o oplen ((switchPlan abi o used regcpu regrsp).run f s)
  exact ⟨hadv.others .r12 (by cases abi <;> decide), hadv.mem⟩

/--
汎用 register を五つまでしか使わない命令では、`nativeHandlerX64` は代わりの register を候補の表の中から選び、作る handler は
汎用 register を正しく切り替える。
-/
theorem nativeHandlerX64_switched (abi : Abi) (o : StateOffsets) (used : Finset HostReg)
    (hused : gprCount used ≤ 5) (oplen : Nat) (f : Effect hostModel G)
    (hf : f.Confined fun k => k ∈ used ∧ k.isGpr = true) (s : Host G) (h : StatePlaced o s) :
    ∃ regcpu regrsp prog, standIns abi used = some (regcpu, regrsp) ∧
      Chosen abi used regcpu regrsp ∧ nativeHandlerX64 abi o used oplen = some prog ∧
      Switched abi o used oplen f s (runAsm f prog s) := by
  obtain ⟨regcpu, regrsp, hstand, hc⟩ := standIns_chosen abi hused
  refine ⟨regcpu, regrsp, handlerBody abi o used regcpu regrsp oplen, hstand, hc,
    by rw [nativeHandlerX64, hstand]; rfl, ?_⟩
  have hv := switchPlan_valid (o := o) hc
  have hu : Uses (switchPlan abi o used regcpu regrsp) (stateView o) 0xe0 := switchPlan_uses
  have hp : Placed (stateView o) (switchPlan abi o used regcpu regrsp).sp 0xe0 s := h.placed
  have hr := hp.ready hu hv.loaded_nodup
  have hfu := confined_used hf
  have hadv := runAsm_advance (f := f) abi o oplen ((switchPlan abi o used regcpu regrsp).run f s)
  have hpc := handlerBody_pcAdvanced abi o used regcpu regrsp oplen f s
  rw [runAsm_handlerBody] at hpc ⊢
  generalize runAsm f (advance abi oplen) ((switchPlan abi o used regcpu regrsp).run f s) = s'
    at hadv hpc ⊢
  have h12 : gpr ((switchPlan abi o used regcpu regrsp).run f s) .r12 = gpr s .r12 :=
    plan_calleeSaved hr hc hfu (by cases abi <;> decide)
  have h13 : gpr ((switchPlan abi o used regcpu regrsp).run f s) .r13 = gpr s .r13 :=
    plan_calleeSaved hr hc hfu (by cases abi <;> decide)
  have hkeep : ∀ g ∈ abi.calleeSavedGprs, g ≠ .r13 → g ∉ written abi := by cases abi <;> decide
  have hcpu : gpr s' .r12 = gpr ((switchPlan abi o used regcpu regrsp).run f s) .r12 := hpc.cpu
  have hloaded : ∀ g, .gpr g ∈ (switchPlan abi o used regcpu regrsp).loaded ↔ .gpr g ∈ used := by
    intro g
    rw [mem_loaded]
    exact and_iff_left rfl
  have heffect := hf.reads ((switchPlan abi o used regcpu regrsp).enter s).regs
    ((stateView o).regs s) s.guest fun k hk => by
      cases k with
      | gpr g => exact enter_regs_eq hp hu hv ((hloaded g).mpr hk.1) rfl rfl
      | xmm i => exact absurd hk.2 (by simp [HostReg.isGpr])
  constructor
  case used_regs =>
    intro g hg
    rw [handled_regs_loaded hp hu hv hfu hpc ((hloaded g).mpr hg) rfl rfl]
    exact heffect.1 _ ⟨hg, rfl⟩
  case other_regs =>
    exact fun g hg => handled_regs_other hp hu hv hfu hpc fun hmem => hg ((hloaded g).mp hmem)
  case memory => rw [hadv.guest, hv.run_guest, heffect.2]
  case rip => exact handled_pc hp hu hv hfu hpc
  case calleeSaved =>
    exact fun g hg hne => (hadv.others g (hkeep g hg hne)).trans (plan_calleeSaved hr hc hfu hg)
  case calleeSaved_xmm =>
    intro i hi
    rw [hadv.xmm]
    exact plan_calleeSavedXmm hr hc hfu hi
  case rsp =>
    exact (hadv.others .rsp (by cases abi <;> decide)).trans
      (gprBank.get_congr (hv.run_saved hfu hr).1)
  case cpu => rw [hcpu, h12]
  case chain => rw [hadv.chain, h13]
  case state => rw [hadv.state, h12]
  case vmaddr => rw [hadv.vmaddr, run_pc hp hu hv hfu]
  case insn => rw [hadv.insn, h13]
  case handler => rw [hadv.handler, h13]

/-- `State` が 0x1000、pc の置き場が 0x3000、stack が 0x800 から下にある状態。 -/
def sampleHost : Host Unit where
  regs
    | .gpr .r12 => (0x1000 : BitVec 64)
    | .gpr .rsp => (0x800 : BitVec 64)
    | .gpr _ => (5 : BitVec 64)
    | .xmm _ => (0 : BitVec 512)
  mem := fun a => if a = 0xff1 then 0x30 else 0
  guest := ()

def sampleOffsets : StateOffsets := ⟨fun g => 0x10 * Gpr.all.idxOf g, 0x200⟩

theorem sampleHost_placed : StatePlaced sampleOffsets sampleHost := by
  have hpcptr : (stateView sampleOffsets).pcptr sampleHost = 0xff0 := by decide
  have hpc : (stateView sampleOffsets).pcAddr sampleHost = 0x3000 := by decide
  have hsp : (gpr sampleHost .rsp).toNat = 0x800 := by decide
  have hcpu : (gpr sampleHost .r12).toNat = 0x1000 := by decide
  have hidx : ∀ g : Gpr, Gpr.all.idxOf g < 16 := fun g => List.idxOf_lt_length_of_mem g.mem_all
  have hoff : ∀ k, sampleOffsets.offsetReg k ≤ 0x9c0 := by
    intro k
    cases k with
    | gpr g =>
      have hg := hidx g
      simp only [StateOffsets.offsetReg, sampleOffsets]
      omega
    | xmm i =>
      simp only [StateOffsets.offsetReg, sampleOffsets]
      omega
  have hsize : ∀ k : HostReg, k.size ≤ 64 := by
    intro k
    cases k <;> simp [HostReg.size]
  have hreg : ∀ k, (stateView sampleOffsets).addr sampleHost k =
      0x1000 + sampleOffsets.offsetReg k := by
    intro k
    have hk := hoff k
    have hadd := toNat_add_ofInt (gpr sampleHost .r12) (sampleOffsets.offsetReg k)
      (by omega) (by omega)
    rw [hcpu] at hadd
    exact_mod_cast hadd
  constructor
  case gprs =>
    intro g g' hne
    have hidx' : Gpr.all.idxOf g ≠ Gpr.all.idxOf g' :=
      fun heq => hne ((List.idxOf_inj g.mem_all).mp heq)
    simp only [sampleOffsets]
    omega
  case vec =>
    intro g
    have hg := hidx g
    simp only [sampleOffsets]
    omega
  case low => omega
  case high =>
    intro k
    have hk := hoff k
    omega
  case room => omega
  case regs_stack =>
    intro k
    rw [hreg, hsp]
    omega
  case pcptr_stack => omega
  case pc_regs =>
    intro k
    have hk := hoff k
    have hs := hsize k
    rw [hreg, hpc]
    omega
  case pc_stack => omega
  case pc_pcptr => omega

/-- `rsp`、`r12`、`r13`、`rax`、`rcx` を使う命令の register。 -/
def sampleUsed : Finset HostReg := {.gpr .rsp, .gpr .r12, .gpr .r13, .gpr .rax, .gpr .rcx}

/-- `rax` に `r12` の値を書く効果。 -/
def copyR12 : Effect hostModel Unit := Effect.write (.gpr .rax) fun R => R (.gpr .r12)

theorem copyR12_confined : copyR12.Confined fun k => k ∈ sampleUsed ∧ k.isGpr = true :=
  Effect.write_confined (by decide) fun _ _ hR => hR (.gpr .r12) (by decide)

/-- `rsp` と `r12` と `r13` をどれも使う命令でも、正しく切り替わる。 -/
theorem copyR12_switched : ∃ regcpu regrsp prog,
    standIns .windows sampleUsed = some (regcpu, regrsp) ∧
      Chosen .windows sampleUsed regcpu regrsp ∧
      nativeHandlerX64 .windows sampleOffsets sampleUsed 3 = some prog ∧
      Switched .windows sampleOffsets sampleUsed 3 copyR12 sampleHost
        (runAsm copyR12 prog sampleHost) :=
  nativeHandlerX64_switched .windows sampleOffsets sampleUsed (by decide) 3 copyR12
    copyR12_confined sampleHost sampleHost_placed

end Switched

end Lifter.X64

end AetherVM
