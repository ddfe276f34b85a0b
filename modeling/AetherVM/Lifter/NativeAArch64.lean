import Mathlib.Data.Finset.Basic
import AetherVM.Infra.WordBank
import AetherVM.Lifter.Native

/-!
# AArch64 の native handler（`src/Lifter.cpp` の `nativeHandlerAArch64`）

Remill で持ち上げられない命令を、そのままの形で実行する handler。host の register を退避して、命令の使う guest の
register を `State` から読み込み、命令を実行して書き戻す。そのあと pc を進めて、次の命令の handler に飛ぶ。

* `x26` は `State` の番地、`x27` は次に実行する `Instruction` の番地である。
* 命令が `x26` を使うときは、使っていない register を `x0` から探して、その代わりにする。
* `SP` を使う命令は `initMCInstARM64` が別の interpreter に回すので、ここには来ない。

命令の効果は parameter である。guest の memory は、host の stack と `State` から分けて置く。
-/

namespace AetherVM

namespace Lifter.AArch64

open Infra

/-- host の register。 -/
inductive HostReg where
  | x (i : Fin 31)
  | sp
  | q (i : Fin 32)
deriving DecidableEq, Repr

namespace HostReg

def width : HostReg → Nat
  | x _ => 64
  | sp => 64
  | q _ => 128

/-- `ldr` と `str` の読み書きする byte の数。 -/
def bytes : HostReg → Nat
  | x _ => 8
  | sp => 8
  | q _ => 16

theorem width_eq (k : HostReg) : k.width = 8 * k.bytes := by cases k <;> rfl

/-- `std::set<Register>` の順。 -/
def all : List HostReg := (List.finRange 31).map x ++ sp :: (List.finRange 32).map q

theorem mem_all (k : HostReg) : k ∈ all := by
  cases k with
  | x i => exact List.mem_append_left _ (List.mem_map_of_mem (List.mem_finRange i))
  | sp => exact List.mem_append_right _ List.mem_cons_self
  | q i =>
    have hq : q i ∈ (List.finRange 32).map q := List.mem_map_of_mem (List.mem_finRange i)
    exact List.mem_append_right _ (List.mem_cons_of_mem _ hq)

def rank : HostReg → Nat
  | x i => i
  | sp => 31
  | q i => 32 + i

theorem all_pairwise : all.Pairwise fun k j => k.rank < j.rank := by decide

theorem all_nodup : all.Nodup := by decide

/-- `x19` から `x30` と、`d8` から `d15`。 -/
def calleeSaved : HostReg → Bool
  | x i => 19 ≤ i.val
  | sp => false
  | q i => 8 ≤ i.val && i.val ≤ 15

/-- `State` から読み込む register。 -/
def switched : HostReg → Bool
  | sp => false
  | _ => true

end HostReg

/-- 短く読み込むと、上位の bit は 0 になる。 -/
def hostModel : RegisterModel HostReg where
  width := HostReg.width
  fill := fun _ _ _ v => BitVec.ofNat _ v
  fill_low := by
    intro k old n v hn hv
    have hpow : 256 ^ n = 2 ^ (8 * n) := by rw [Nat.pow_mul]
    have hle : 2 ^ (8 * n) ≤ 2 ^ k.width := Nat.pow_le_pow_right (by decide) hn
    have hlt : v < 2 ^ k.width := by omega
    rw [BitVec.toNat_ofNat, Nat.mod_eq_of_lt hlt, Nat.mod_eq_of_lt hv]

abbrev Host (G : Type) : Type := Machine hostModel G

/-! ## 命令の列 -/

/--
handler の命令。`strPre` は `str x, [sp, #-0x10]!`、`ldrPost` は `ldr x, [sp], #0x10` で、vector register は
`d` として積む。`opcode` は埋め込んだ元の命令である。
-/
inductive Asm where
  | strPre (k : HostReg)
  | ldrPost (k : HostReg)
  | mov (dst src : HostReg)
  | ldr (k base : HostReg) (off : Int)
  | str (k base : HostReg) (off : Int)
  | add (dst src : HostReg) (imm : Int)
  | ubfx (dst src : HostReg) (lsb width : Nat)
  | opcode
  | br (k : HostReg)

/-- 一つの命令の効果。`br` は飛ぶだけである。 -/
def Asm.exec {G : Type} (f : Effect hostModel G) (s : Host G) : Asm → Host G
  | strPre k => s.push .sp k 0x10 8
  | ldrPost k => s.pop .sp k 0x10 8
  | mov dst src => s.move dst src
  | ldr k base off => s.load k base off k.bytes
  | str k base off => s.store k base off k.bytes
  | add dst src imm => s.addImm dst src imm
  | ubfx dst src lsb width => s.set dst (BitVec.ofNat _ ((s.regs src).toNat / 2 ^ lsb % 2 ^ width))
  | opcode => s.effect f
  | br _ => s

def runAsm {G : Type} (f : Effect hostModel G) (prog : List Asm) (s : Host G) : Host G :=
  prog.foldl (Asm.exec f) s

/-- `State` の `gpr.x0` と `simd.v[0]` の番地。 -/
structure StateOffsets where
  x0 : Nat
  v0 : Nat

/-- `offset_reg`。 -/
def StateOffsets.offsetReg (o : StateOffsets) : HostReg → Nat
  | .x i => o.x0 + 0x10 * i
  | .sp => o.x0 + 0x10 * 31
  | .q i => o.v0 + 0x10 * i

section Handler

variable (o : StateOffsets) (used : Finset HostReg)

/-- `parse_regused` の結果を、集合の順に並べたもの。 -/
def regused : List HostReg := HostReg.all.filter (· ∈ used)

/-- `State` の番地を持つ register。`X26` が使えなければ、使っていない register を `X0` から探す。 -/
def regcpu : HostReg :=
  if .x 26 ∈ used then (HostReg.all.find? (· ∉ used)).getD .sp else .x 26

/-- pc を進めて、次の命令の handler に飛ぶ。 -/
def advance : List Asm := [
  .mov (.x 0) (.x 26),
  .ldr (.x 1) (.x 0) (-0x10),
  .ldr (.x 2) (.x 1) 0,
  .add (.x 2) (.x 2) 4,
  .str (.x 2) (.x 1) 0,
  .mov (.x 1) (.x 2),
  .add (.x 27) (.x 27) 8,
  .mov (.x 2) (.x 27),
  .ldr (.x 16) (.x 27) 0,
  .ubfx (.x 16) (.x 16) 0 59,
  .br (.x 16)]

/-- `nativeHandlerAArch64`。 -/
def nativeHandlerAArch64 : List Asm :=
  ((regused used).filter HostReg.calleeSaved).map .strPre ++
  (if regcpu used = .x 26 then [] else [.mov (regcpu used) (.x 26)]) ++
  ((regused used).filter HostReg.switched).map (fun k => .ldr k (regcpu used) (o.offsetReg k)) ++
  [.opcode] ++
  ((regused used).filter HostReg.switched).map (fun k => .str k (regcpu used) (o.offsetReg k)) ++
  (if .x 26 = regcpu used then [] else [.mov (.x 26) (regcpu used)]) ++
  ((regused used).reverse.filter HostReg.calleeSaved).map .ldrPost ++
  advance

/-- handler の前半を、register の切り替えとして見たもの。 -/
def switchPlan : ContextSwitch HostReg where
  cpu := .x 26
  sp := .sp
  regcpu := regcpu used
  regsp := .sp
  saved := (regused used).filter HostReg.calleeSaved
  loaded := (regused used).filter HostReg.switched
  stride := fun _ => 0x10
  savedBytes := fun _ => 8
  off := fun k => o.offsetReg k
  bytes := HostReg.bytes

end Handler

/-! ## handler の実行 -/

section Run

variable {G : Type} {o : StateOffsets} {used : Finset HostReg} {f : Effect hostModel G} {s : Host G}

theorem mem_regused {k : HostReg} : k ∈ regused used ↔ k ∈ used := by
  simp [regused, HostReg.mem_all]

theorem mem_loaded (hsp : .sp ∉ used) {k : HostReg} :
    k ∈ (switchPlan o used).loaded ↔ k ∈ used := by
  simp only [switchPlan, List.mem_filter, mem_regused, and_iff_left_iff_imp]
  intro hk
  cases k with
  | x i => rfl
  | sp => exact absurd hk hsp
  | q i => rfl

theorem mem_saved {k : HostReg} :
    k ∈ (switchPlan o used).saved ↔ k ∈ used ∧ k.calleeSaved = true := by
  simp only [switchPlan, List.mem_filter, mem_regused]

theorem runAsm_copy (dst src : HostReg) :
    runAsm f (if dst = src then [] else [.mov dst src]) s = Machine.copyTo dst src s := by
  unfold Machine.copyTo
  split <;> rfl

/-- handler は、register を切り替えて命令を実行し、次に進む。 -/
theorem runAsm_handler : runAsm f (nativeHandlerAArch64 o used) s =
    runAsm f advance ((switchPlan o used).run f s) := by
  have happend : ∀ (p q : List Asm) (m : Host G), runAsm f (p ++ q) m = runAsm f q (runAsm f p m) :=
    fun p q m => List.foldl_append
  simp only [nativeHandlerAArch64, happend, runAsm_copy]
  simp only [runAsm, List.foldl_map, List.filter_reverse]
  rfl

/-- 一つでも使っていない register があれば、`regcpu` は使っていない register である。 -/
theorem regcpu_notMem {i : Fin 31} (hi : .x i ∉ used) : regcpu used ∉ used := by
  unfold regcpu
  split
  · cases hfind : HostReg.all.find? (· ∉ used) with
    | none =>
      have hnone := List.find?_eq_none.mp hfind _ (HostReg.mem_all (.x i))
      exact absurd hi (by simpa using hnone)
    | some k => simpa using List.find?_some hfind
  · assumption

/-- 使える register は、`x26` か、`x18` までのどれかである。 -/
theorem regcpu_cases {i : Fin 31} (hi : i.val ≤ 18) (hfree : .x i ∉ used) :
    (.x 26 ∉ used ∧ regcpu used = .x 26) ∨
      (.x 26 ∈ used ∧ ∃ j : Fin 31, j.val ≤ 18 ∧ regcpu used = .x j) := by
  unfold regcpu
  split
  · rename_i h26
    refine Or.inr ⟨h26, ?_⟩
    cases hfind : HostReg.all.find? (· ∉ used) with
    | none =>
      have hnone := List.find?_eq_none.mp hfind _ (HostReg.mem_all (.x i))
      exact absurd hfree (by simpa using hnone)
    | some k =>
      obtain ⟨-, before, after, hall, hbefore⟩ := List.find?_eq_some_iff_append.mp hfind
      -- `x i` は使っていないので、見つかったものより前には無い
      have hle : k.rank ≤ 18 := by
        have hmem := HostReg.mem_all (.x i)
        have hsorted := HostReg.all_pairwise
        rw [hall] at hmem hsorted
        rcases List.mem_append.mp hmem with hmem | hmem
        · have := hbefore _ hmem
          simp [hfree] at this
        · rcases List.mem_cons.mp hmem with rfl | hmem
          · exact hi
          · have hlt : k.rank < (HostReg.x i).rank :=
              List.rel_of_pairwise_cons (List.pairwise_append.mp hsorted).2.1 hmem
            exact Nat.le_trans (Nat.le_of_lt hlt) hi
      cases k with
      | x j => exact ⟨j, hle, rfl⟩
      | sp => exact absurd hle (by decide)
      | q j =>
        simp only [HostReg.rank] at hle
        omega
  · rename_i h26
    exact Or.inl ⟨h26, rfl⟩

theorem switchPlan_valid (hsp : .sp ∉ used) {i : Fin 31} (hi : i.val ≤ 18)
    (hfree : .x i ∉ used) : (switchPlan o used).Valid hostModel (· ∈ used) := by
  have hregcpu : ∃ j : Fin 31, regcpu used = .x j := by
    rcases regcpu_cases hi hfree with ⟨-, h⟩ | ⟨-, j, -, h⟩
    · exact ⟨26, h⟩
    · exact ⟨j, h⟩
  obtain ⟨j, hj⟩ := hregcpu
  have hloaded : ∀ k ∈ (switchPlan o used).loaded, k ∈ used := fun k hk => (mem_loaded hsp).mp hk
  have hsaved : ∀ k ∈ (switchPlan o used).saved, k ∈ used ∧ k.calleeSaved = true :=
    fun k hk => mem_saved.mp hk
  constructor
  case loaded_nodup => exact (HostReg.all_nodup.filter _).filter _
  case loaded_used => exact hloaded
  case loaded_width => exact fun k _ => Nat.le_of_eq k.width_eq.symm
  case saved_nodup => exact (HostReg.all_nodup.filter _).filter _
  case saved_used => exact fun k hk => (hsaved k hk).1
  case saved_stride => exact fun _ _ => show 8 ≤ 0x10 by decide
  case saved_width =>
    intro k _
    cases k <;> simp [switchPlan, hostModel, HostReg.width]
  case sp_notMem => exact fun h => hsp (hsaved _ h).1
  case sp_ne_cpu => exact fun h => nomatch h
  case regcpu_unused => exact regcpu_notMem hfree
  case regcpu_ne_sp =>
    simp only [switchPlan, hj, ne_eq, reduceCtorEq, not_false_iff]
  case regcpu_ne_regsp =>
    simp only [switchPlan, hj, ne_eq, reduceCtorEq, not_false_iff]
  case regcpu_width =>
    simp only [switchPlan, hj]
    rfl
  case regsp_unused => exact hsp
  case regsp_ne_cpu => exact fun h => nomatch h
  case regsp_width => rfl
  case cpu_saved =>
    intro hne
    rcases regcpu_cases hi hfree with ⟨-, h⟩ | ⟨h26, -⟩
    · exact absurd h hne
    · exact mem_saved.mpr ⟨h26, rfl⟩
  case cpu_width => rfl

theorem depth_le : (switchPlan o used).depth ≤ 0x140 := by
  have hlen : (switchPlan o used).saved.length ≤
      (HostReg.all.filter HostReg.calleeSaved).length := by
    refine ((HostReg.all_nodup.filter _).filter _ |>.subperm fun k hk => ?_).length_le
    exact List.mem_filter.mpr ⟨HostReg.mem_all k, (List.mem_filter.mp hk).2⟩
  have h20 : (HostReg.all.filter HostReg.calleeSaved).length = 20 := by decide
  have hsum : (switchPlan o used).depth ≤ (switchPlan o used).saved.length * 0x10 :=
    Machine.frame_le fun _ _ => Nat.le_refl _
  omega

end Run

/-! ## 次の命令へ進む -/

section Advance

variable {G : Type} {f : Effect hostModel G}

/-- 汎用 register。 -/
def xBank : WordBank hostModel (Fin 31) where
  reg := .x
  inj := fun _ _ h => HostReg.x.inj h
  width := fun _ => rfl

def gpr (s : Host G) (i : Fin 31) : BitVec 64 := xBank.get s i

/-- `x26` から見た `State`。 -/
def stateView (o : StateOffsets) : StateView HostReg where
  cpu := .x 26
  off := o.offsetReg
  size := HostReg.bytes

section Step

variable (s : Host G) (i j : Fin 31)

theorem exec_mov : Asm.exec f s (.mov (.x i) (.x j)) = xBank.set s i (xBank.get s j) :=
  xBank.move_reg s i j

theorem exec_add (imm : Int) : Asm.exec f s (.add (.x i) (.x j) imm) =
    xBank.set s i (xBank.get s j + BitVec.ofInt 64 imm) :=
  xBank.addImm_reg s i j imm

theorem exec_ldr (off : Int) : Asm.exec f s (.ldr (.x i) (.x j) off) =
    xBank.set s i (BitVec.ofNat 64 (s.mem.loadLE (xBank.get s j + BitVec.ofInt 64 off).toNat 8)) :=
  xBank.load_reg s i j off

theorem exec_str (off : Int) : Asm.exec f s (.str (.x i) (.x j) off) =
    WordBank.setWord s (xBank.get s j + BitVec.ofInt 64 off).toNat (xBank.get s i) :=
  xBank.store_reg s i j off

theorem exec_ubfx (lsb w : Nat) : Asm.exec f s (.ubfx (.x i) (.x j) lsb w) =
    xBank.set s i (BitVec.ofNat 64 ((xBank.get s j).toNat / 2 ^ lsb % 2 ^ w)) := rfl

end Step

variable (o : StateOffsets)

/-- pc を進めた状態。 -/
def pcAdvanced (s : Host G) : Host G :=
  let v := stateView o
  let next := v.pc s + 4
  let s₁ := xBank.set (xBank.set s 0 (gpr s 26)) 1 (BitVec.ofNat 64 (v.pcAddr s))
  let s₂ := xBank.set (xBank.set s₁ 2 (v.pc s)) 2 next
  xBank.set (WordBank.setWord s₂ (v.pcAddr s) next) 1 next

/-- 次の命令を取り出した状態。 -/
def insnAdvanced (s : Host G) : Host G :=
  let next := gpr s 27 + 8
  let word := s.mem.loadLE next.toNat 8
  let s₁ := xBank.set (xBank.set s 27 next) 2 next
  xBank.set (xBank.set s₁ 16 (BitVec.ofNat 64 word)) 16 (BitVec.ofNat 64 (word % 2 ^ 59))

theorem runAsm_advance_eq (s : Host G) : runAsm f advance s = insnAdvanced (pcAdvanced o s) := by
  have hcpu : s.mem.loadLE (xBank.get s 26 + BitVec.ofInt 64 (-0x10)).toNat 8 =
      (stateView o).pcAddr s := by
    rw [← xBank.address_reg]
    rfl
  have hpc : BitVec.ofNat 64 (s.mem.loadLE ((stateView o).pcAddr s) 8) = (stateView o).pc s := rfl
  have haddr : (BitVec.ofNat 64 ((stateView o).pcAddr s)).toNat = (stateView o).pcAddr s :=
    WordBank.toNat_loadLE _ _
  have hzero : ∀ x : BitVec 64, x + BitVec.ofInt 64 0 = x := fun x => BitVec.add_zero x
  have hfour : BitVec.ofInt 64 4 = 4 := rfl
  have height : BitVec.ofInt 64 8 = 8 := rfl
  simp only [runAsm, advance, insnAdvanced, pcAdvanced, gpr, List.foldl_cons, List.foldl_nil,
    exec_mov, exec_add, exec_ldr, exec_str, exec_ubfx, WordBank.get_set, WordBank.get_setWord,
    WordBank.set_mem, if_true, hcpu, hpc, haddr, hzero, hfour, height, WordBank.toNat_loadLE,
    Nat.pow_zero, Nat.div_one, Fin.reduceEq, if_false, Fin.isValue]
  rfl

/-- `advance` の後の状態。 -/
structure Advanced (s s' : Host G) : Prop where
  mem : s'.mem = s.mem.storeLE ((stateView o).pcAddr s) 8 ((stateView o).pc s + 4).toNat
  guest : s'.guest = s.guest
  state : gpr s' 0 = gpr s 26
  vmaddr : gpr s' 1 = (stateView o).pc s + 4
  insn : gpr s' 2 = gpr s 27 + 8
  chain : gpr s' 27 = gpr s 27 + 8
  handler : (gpr s' 16).toNat = s'.mem.loadLE (gpr s 27 + 8).toNat 8 % 2 ^ 59
  others : ∀ k, k ∉ [.x 0, .x 1, .x 2, .x 16, .x 27] → s'.regs k = s.regs k

theorem runAsm_advance (s : Host G) : Advanced o s (runAsm f advance s) := by
  rw [runAsm_advance_eq o]
  have h27 : gpr (pcAdvanced o s) 27 = gpr s 27 := by simp [pcAdvanced, gpr]
  constructor
  case mem =>
    simp only [insnAdvanced, pcAdvanced, WordBank.set_mem, WordBank.setWord_mem]
  case guest =>
    simp only [insnAdvanced, pcAdvanced, WordBank.set_guest, WordBank.setWord_guest]
  case state => simp [insnAdvanced, pcAdvanced, gpr]
  case vmaddr => simp [insnAdvanced, pcAdvanced, gpr]
  case insn =>
    rw [← h27]
    simp [insnAdvanced, gpr]
  case chain =>
    rw [← h27]
    simp [insnAdvanced, gpr]
  case handler =>
    have hlt : (pcAdvanced o s).mem.loadLE (gpr s 27 + 8).toNat 8 % 2 ^ 59 < 2 ^ 64 := by omega
    simp only [insnAdvanced, h27]
    simp only [gpr, WordBank.get_set, WordBank.set_mem, if_true] at hlt ⊢
    rw [BitVec.toNat_ofNat, Nat.mod_eq_of_lt hlt]
  case others =>
    intro k hk
    simp only [List.mem_cons, List.not_mem_nil, or_false, not_or] at hk
    obtain ⟨h0, h1, h2, h16, hx27⟩ := hk
    simp only [insnAdvanced, pcAdvanced, xBank.set_regs _ _ _ h16, xBank.set_regs _ _ _ h2,
      xBank.set_regs _ _ _ hx27, xBank.set_regs _ _ _ h1, WordBank.setWord_regs,
      xBank.set_regs _ _ _ h0]

end Advance

/-! ## handler の前後 -/

section Switched

variable {G : Type} (o : StateOffsets)

/--
`State` と `CPUState` と host の stack の配置。`State` の register は `offset_reg` の示す所に並び、番地は折り返さない。
pc は register と重ならず、どれも stack の空きと重ならない。
-/
structure StatePlaced (s : Host G) : Prop where
  banks : o.x0 + 0x200 ≤ o.v0 ∨ o.v0 + 0x200 ≤ o.x0
  low : 0x10 ≤ (gpr s 26).toNat
  high : ∀ k, (gpr s 26).toNat + o.offsetReg k < 2 ^ 64
  room : 0x140 ≤ (s.regs .sp).toNat
  regs_stack : ∀ k, (stateView o).addr s k + k.bytes ≤ (s.regs .sp).toNat - 0x140 ∨
    (s.regs .sp).toNat ≤ (stateView o).addr s k
  pcptr_stack : (stateView o).pcptr s + 8 ≤ (s.regs .sp).toNat - 0x140 ∨
    (s.regs .sp).toNat ≤ (stateView o).pcptr s
  pc_regs : ∀ k, (stateView o).pcAddr s + 8 ≤ (stateView o).addr s k ∨
    (stateView o).addr s k + k.bytes ≤ (stateView o).pcAddr s
  pc_stack : (stateView o).pcAddr s + 8 ≤ (s.regs .sp).toNat - 0x140 ∨
    (s.regs .sp).toNat ≤ (stateView o).pcAddr s
  pc_pcptr : (stateView o).pcAddr s + 8 ≤ (stateView o).pcptr s ∨
    (stateView o).pcptr s + 8 ≤ (stateView o).pcAddr s

/--
正しい切り替え。命令の使う guest の register には `f` の結果が入り、ほかの guest の register は変わらず、pc は 4 進む。
host の保つべき register は元のままで、`x27` は次の `Instruction` を指し、次の handler の引数が揃う。
-/
structure Switched (used : Finset HostReg) (f : Effect hostModel G) (s s' : Host G) : Prop where
  used_regs : ∀ k ∈ used, (stateView o).regs s' k = (f ((stateView o).regs s) s.guest).1 k
  other_regs : ∀ k ∉ used, (stateView o).regs s' k = (stateView o).regs s k
  memory : s'.guest = (f ((stateView o).regs s) s.guest).2
  pc : (stateView o).pc s' = (stateView o).pc s + 4
  calleeSaved_x : ∀ i : Fin 31, 19 ≤ i.val → i ≠ 27 → gpr s' i = gpr s i
  calleeSaved_d : ∀ i : Fin 32, 8 ≤ i.val → i.val ≤ 15 →
    (s'.regs (.q i)).toNat % 2 ^ 64 = (s.regs (.q i)).toNat % 2 ^ 64
  sp : s'.regs .sp = s.regs .sp
  chain : gpr s' 27 = gpr s 27 + 8
  state : gpr s' 0 = gpr s 26
  vmaddr : gpr s' 1 = (stateView o).pc s + 4
  insn : gpr s' 2 = gpr s 27 + 8
  handler : (gpr s' 16).toNat = s'.mem.loadLE (gpr s 27 + 8).toNat 8 % 2 ^ 59

variable {o} {used : Finset HostReg} {f : Effect hostModel G} {s : Host G}

namespace StatePlaced

theorem addr_eq (h : StatePlaced o s) (k : HostReg) :
    (stateView o).addr s k = (gpr s 26).toNat + o.offsetReg k :=
  (stateView o).addr_eq s (h.high k)

theorem pcptr_eq (h : StatePlaced o s) : (stateView o).pcptr s = (gpr s 26).toNat - 0x10 :=
  (stateView o).pcptr_eq s h.low

/-- 別の register の置き場は重ならない。 -/
theorem offsetReg_apart (h : StatePlaced o s) {k j : HostReg} (hne : k ≠ j) :
    o.offsetReg k + k.bytes ≤ o.offsetReg j ∨ o.offsetReg j + j.bytes ≤ o.offsetReg k := by
  have hbanks := h.banks
  have hx : ∀ i : Fin 31, o.offsetReg (.x i) = o.x0 + 0x10 * i := fun _ => rfl
  have hsp : o.offsetReg .sp = o.x0 + 0x1f0 := rfl
  have hq : ∀ i : Fin 32, o.offsetReg (.q i) = o.v0 + 0x10 * i := fun _ => rfl
  cases k with
  | x i =>
    cases j with
    | x i' =>
      have hval : i.val ≠ i'.val := fun heq => hne (congrArg HostReg.x (Fin.ext heq))
      simp only [hx, HostReg.bytes]
      omega
    | sp =>
      simp only [hx, HostReg.bytes]
      omega
    | q i' =>
      simp only [hx, hq, HostReg.bytes]
      omega
  | sp =>
    cases j with
    | x i' =>
      simp only [hx, HostReg.bytes]
      omega
    | sp => exact absurd rfl hne
    | q i' =>
      simp only [hq, HostReg.bytes]
      omega
  | q i =>
    cases j with
    | x i' =>
      simp only [hx, hq, HostReg.bytes]
      omega
    | sp =>
      simp only [hq, HostReg.bytes]
      omega
    | q i' =>
      have hval : i.val ≠ i'.val := fun heq => hne (congrArg HostReg.q (Fin.ext heq))
      simp only [hq, HostReg.bytes]
      omega

theorem placed (h : StatePlaced o s) : Placed (stateView o) .sp 0x140 s where
  room := h.room
  regs_apart := fun k j hne => by
    have hapart := h.offsetReg_apart hne
    rw [h.addr_eq, h.addr_eq]
    simp only [stateView]
    omega
  regs_stack := h.regs_stack
  pcptr_regs := fun k => by
    have hlow := h.low
    rw [h.pcptr_eq, h.addr_eq]
    omega
  pcptr_stack := h.pcptr_stack
  pc_regs := h.pc_regs
  pc_stack := h.pc_stack
  pc_pcptr := h.pc_pcptr

end StatePlaced

theorem switchPlan_uses : Uses (switchPlan o used) (stateView o) 0x140 where
  cpu := rfl
  off := fun _ => rfl
  bytes_le := fun _ _ => Nat.le_refl _
  depth_le := depth_le

section Plan

variable (h : (switchPlan o used).Ready s)
  (hv : (switchPlan o used).Valid hostModel (· ∈ used)) (hf : f.Confined (· ∈ used))

include h hv hf

/-- 退避した register は元に戻り、命令の使わない register は変わらない。 -/
theorem plan_gpr {i j : Fin 31} (hi : i.val ≤ 18) (hfree : .x i ∉ used) (hj : 19 ≤ j.val) :
    gpr ((switchPlan o used).run f s) j = gpr s j := by
  have hne : ∀ m : Fin 31, m ≠ j → HostReg.x j ≠ .x m :=
    fun m hm heq => hm (HostReg.x.inj heq).symm
  have hregcpu : HostReg.x j ≠ .x 26 → HostReg.x j ≠ regcpu used := by
    intro h26
    rcases regcpu_cases hi hfree with ⟨-, heq⟩ | ⟨-, m, hm, heq⟩
    · rwa [heq]
    · rw [heq]
      exact hne m fun hmj => by
        rw [hmj] at hm
        omega
  have hlow := hv.run_kept hf h (.x j)
    (fun hused => mem_saved.mpr ⟨hused, decide_eq_true hj⟩) (fun heq => nomatch heq) hregcpu
    (fun heq => nomatch heq)
  apply BitVec.eq_of_toNat_eq
  exact (low_full (n := 8) rfl _).symm.trans (hlow.trans (low_full (n := 8) rfl _))

theorem plan_d {i : Fin 31} (hi : i.val ≤ 18) (hfree : .x i ∉ used) {j : Fin 32}
    (h8 : 8 ≤ j.val) (h15 : j.val ≤ 15) :
    (((switchPlan o used).run f s).regs (.q j)).toNat % 2 ^ 64 =
      (s.regs (.q j)).toNat % 2 ^ 64 := by
  have hcallee : HostReg.calleeSaved (.q j) = true := by simp [HostReg.calleeSaved, h8, h15]
  have hregcpu : HostReg.q j ≠ regcpu used := by
    rcases regcpu_cases hi hfree with ⟨-, heq⟩ | ⟨-, m, -, heq⟩ <;>
      exact fun hq => nomatch hq.trans heq
  exact hv.run_kept hf h (.q j) (fun hused => mem_saved.mpr ⟨hused, hcallee⟩)
    (fun heq => nomatch heq) (fun _ => hregcpu) (fun heq => nomatch heq)

end Plan

/--
`X18` までに使っていない register があり、`SP` を使わなければ、`nativeHandlerAArch64` の作る handler は正しく切り替える。
-/
theorem nativeHandlerAArch64_switched (o : StateOffsets) (used : Finset HostReg)
    (hsp : .sp ∉ used) (hfree : ∃ i : Fin 31, i.val ≤ 18 ∧ .x i ∉ used) (f : Effect hostModel G)
    (hf : f.Confined (· ∈ used)) (s : Host G) (h : StatePlaced o s) :
    Switched o used f s (runAsm f (nativeHandlerAArch64 o used) s) := by
  obtain ⟨i, hi, hfree⟩ := hfree
  have hv := switchPlan_valid (o := o) hsp hi hfree
  have hu : Uses (switchPlan o used) (stateView o) 0x140 := switchPlan_uses
  have hp : Placed (stateView o) (switchPlan o used).sp 0x140 s := h.placed
  have hr := hp.ready hu hv.loaded_nodup
  have hadv := runAsm_advance (f := f) o ((switchPlan o used).run f s)
  rw [runAsm_handler]
  generalize runAsm f advance ((switchPlan o used).run f s) = s' at hadv ⊢
  have hpc : PcAdvanced (stateView o) 4 ((switchPlan o used).run f s) s' :=
    ⟨hadv.others (.x 26) (by decide), hadv.mem⟩
  have hloaded : ∀ k, k ∈ (switchPlan o used).loaded ↔ k ∈ used := fun k => mem_loaded hsp
  have heffect := hf.reads ((switchPlan o used).enter s).regs ((stateView o).regs s) s.guest
    fun k hk => enter_regs_eq hp hu hv ((hloaded k).mpr hk) rfl k.width_eq
  have h27 : gpr ((switchPlan o used).run f s) 27 = gpr s 27 :=
    plan_gpr hr hv hf hi hfree (by decide)
  have h26 : gpr ((switchPlan o used).run f s) 26 = gpr s 26 := hv.run_cpu hf hr
  constructor
  case used_regs =>
    intro k hk
    rw [handled_regs_loaded hp hu hv hf hpc ((hloaded k).mpr hk) rfl k.width_eq, heffect.1 k hk]
  case other_regs =>
    exact fun k hk => handled_regs_other hp hu hv hf hpc fun hmem => hk ((hloaded k).mp hmem)
  case memory => rw [hadv.guest, hv.run_guest, heffect.2]
  case pc => exact handled_pc hp hu hv hf hpc
  case calleeSaved_x =>
    intro j hj hne
    have hother : .x j ∉ [HostReg.x 0, .x 1, .x 2, .x 16, .x 27] := by
      simp only [List.mem_cons, HostReg.x.injEq, List.not_mem_nil, or_false, not_or]
      refine ⟨?_, ?_, ?_, ?_, hne⟩ <;> (rintro rfl; exact absurd hj (by decide))
    exact (xBank.get_congr (hadv.others _ hother)).trans (plan_gpr hr hv hf hi hfree hj)
  case calleeSaved_d =>
    intro j h8 h15
    rw [hadv.others _ (by simp)]
    exact plan_d hr hv hf hi hfree h8 h15
  case sp => exact (hadv.others _ (by decide)).trans (hv.run_saved hf hr).1
  case chain => rw [hadv.chain, h27]
  case state => rw [hadv.state, h26]
  case vmaddr => rw [hadv.vmaddr, run_pc hp hu hv hf]
  case insn => rw [hadv.insn, h27]
  case handler => rw [hadv.handler, h27]

/-- `add x0, x0, x26` の効果。 -/
def addX26 : Effect hostModel Unit :=
  Effect.write (.x 0) fun R => (show BitVec 64 from R (.x 0)) + (show BitVec 64 from R (.x 26))

theorem addX26_confined : addX26.Confined (· ∈ ({.x 0, .x 26} : Finset HostReg)) := by
  refine Effect.write_confined (by simp) fun R R' hR => ?_
  rw [hR (.x 0) (by simp), hR (.x 26) (by simp)]

/-- `State` が 0x1000、pc の置き場が 0x3000、stack が 0x800 から下にある状態。 -/
def sampleHost : Host Unit where
  regs
    | .x i => if i = 26 then (0x1000 : BitVec 64) else (5 : BitVec 64)
    | .sp => (0x800 : BitVec 64)
    | .q _ => (0 : BitVec 128)
  mem := fun a => if a = 0xff1 then 0x30 else 0
  guest := ()

def sampleOffsets : StateOffsets := ⟨0x10, 0x400⟩

theorem sampleHost_placed : StatePlaced sampleOffsets sampleHost := by
  have hpcptr : (stateView sampleOffsets).pcptr sampleHost = 0xff0 := by decide
  have hpc : (stateView sampleOffsets).pcAddr sampleHost = 0x3000 := by decide
  have hsp : (sampleHost.regs .sp).toNat = 0x800 := by decide
  have hcpu : (gpr sampleHost 26).toNat = 0x1000 := by decide
  have hoff : ∀ k, sampleOffsets.offsetReg k ≤ 0x5f0 := by
    intro k
    cases k <;> simp only [StateOffsets.offsetReg, sampleOffsets] <;> omega
  have hbytes : ∀ k : HostReg, k.bytes ≤ 16 := by
    intro k
    cases k <;> simp [HostReg.bytes]
  have hreg : ∀ k, (stateView sampleOffsets).addr sampleHost k =
      0x1000 + sampleOffsets.offsetReg k := by
    intro k
    have hk := hoff k
    have hadd := toNat_add_ofInt (gpr sampleHost 26) (sampleOffsets.offsetReg k)
      (by omega) (by omega)
    rw [hcpu] at hadd
    exact_mod_cast hadd
  constructor
  case banks => decide
  case low => omega
  case high =>
    intro k
    have hk := hoff k
    omega
  case room => omega
  case regs_stack =>
    intro k
    rw [hreg, hsp]
    omega
  case pcptr_stack => omega
  case pc_regs =>
    intro k
    have hk := hoff k
    have hb := hbytes k
    rw [hreg, hpc]
    omega
  case pc_stack => omega
  case pc_pcptr => omega

/-- `X0` と `X26` を使う命令でも、正しく切り替わる。 -/
theorem sampleHost_switched : Switched sampleOffsets {.x 0, .x 26} addX26 sampleHost
    (runAsm addX26 (nativeHandlerAArch64 sampleOffsets {.x 0, .x 26}) sampleHost) :=
  nativeHandlerAArch64_switched sampleOffsets {.x 0, .x 26} (by decide)
    ⟨1, by decide, by decide⟩ addX26 addX26_confined sampleHost sampleHost_placed

end Switched

end Lifter.AArch64

end AetherVM
