import Mathlib.Data.List.Nodup
import AetherVM.Infra.ContextSwitch

/-!
# native handler と `CPUState`（`src/Lifter.cpp`、`src/CPUState.h`）

`nativeHandlerAArch64` と `nativeHandlerX64` の作る handler は、register を切り替えて命令を実行したあと、guest の pc を
進める。どちらの host でも、一つの register が `State` の番地を持ち、その 0x10 手前に pc の番地がある。

ここでは、切り替えのあとに pc を書いた状態を、`State` の中の guest の register と pc として読む。
-/

namespace AetherVM

namespace Lifter

open Infra

variable {κ G : Type} [DecidableEq κ] {M : RegisterModel κ}

/-- `State` の番地を持つ host の register と、guest の register の置き場。 -/
structure StateView (κ : Type) where
  cpu : κ
  off : κ → Nat
  size : κ → Nat

namespace StateView

variable (v : StateView κ) (s : Machine M G)

/-- guest の register の番地。 -/
def addr (k : κ) : Nat := s.address v.cpu (v.off k)

/-- guest の register の値。 -/
def regs : M.Values := fun k => BitVec.ofNat _ (s.mem.loadLE (v.addr s k) (v.size k))

/-- `pcptr` の番地。 -/
def pcptr : Nat := s.address v.cpu (-0x10)

/-- pc の番地。 -/
def pcAddr : Nat := s.mem.loadLE (v.pcptr s) 8

/-- guest の pc。 -/
def pc : BitVec 64 := BitVec.ofNat 64 (s.mem.loadLE (v.pcAddr s) 8)

omit [DecidableEq κ]

theorem addr_eq {k : κ} (h : (s.regs v.cpu).toNat + v.off k < 2 ^ M.width v.cpu) :
    v.addr s k = (s.regs v.cpu).toNat + v.off k := by
  have hadd := toNat_add_ofInt (s.regs v.cpu) (v.off k) (by omega) (by exact_mod_cast h)
  exact_mod_cast hadd

theorem pcptr_eq (h : 0x10 ≤ (s.regs v.cpu).toNat) :
    v.pcptr s = (s.regs v.cpu).toNat - 0x10 := by
  have hlt : (((s.regs v.cpu).toNat : Nat) : Int) + -0x10 < 2 ^ M.width v.cpu := by
    have hlt := (s.regs v.cpu).isLt
    have hcast : (((s.regs v.cpu).toNat : Nat) : Int) < 2 ^ M.width v.cpu := by exact_mod_cast hlt
    omega
  have hadd := toNat_add_ofInt (s.regs v.cpu) (-0x10) (by omega) hlt
  have haddr : (v.pcptr s : Int) = (s.regs v.cpu).toNat + -0x10 := hadd
  omega

end StateView

/--
`CPUState` と host の stack の配置。guest の register と pc と `pcptr` は互いに重ならず、stack の空きとも重ならない。
stack には、退避する register の分の余地がある。
-/
structure Placed (v : StateView κ) (sp : κ) (depth : Nat) (s : Machine M G) : Prop where
  room : depth ≤ (s.regs sp).toNat
  regs_apart : ∀ k j, k ≠ j →
    v.addr s k + v.size k ≤ v.addr s j ∨ v.addr s j + v.size j ≤ v.addr s k
  regs_stack : ∀ k, v.addr s k + v.size k ≤ (s.regs sp).toNat - depth ∨
    (s.regs sp).toNat ≤ v.addr s k
  pcptr_regs : ∀ k, v.pcptr s + 8 ≤ v.addr s k ∨ v.addr s k + v.size k ≤ v.pcptr s
  pcptr_stack : v.pcptr s + 8 ≤ (s.regs sp).toNat - depth ∨ (s.regs sp).toNat ≤ v.pcptr s
  pc_regs : ∀ k, v.pcAddr s + 8 ≤ v.addr s k ∨ v.addr s k + v.size k ≤ v.pcAddr s
  pc_stack : v.pcAddr s + 8 ≤ (s.regs sp).toNat - depth ∨ (s.regs sp).toNat ≤ v.pcAddr s
  pc_pcptr : v.pcAddr s + 8 ≤ v.pcptr s ∨ v.pcptr s + 8 ≤ v.pcAddr s

/-- 切り替えの計画が、この置き場を使うこと。 -/
structure Uses (c : ContextSwitch κ) (v : StateView κ) (depth : Nat) : Prop where
  cpu : c.cpu = v.cpu
  off : ∀ k, c.off k = v.off k
  bytes_le : ∀ k ∈ c.loaded, c.bytes k ≤ v.size k
  depth_le : c.depth ≤ depth

/-- 切り替えのあとに pc を進めた状態。 -/
structure PcAdvanced (v : StateView κ) (n : BitVec 64) (t s' : Machine M G) : Prop where
  cpu : s'.regs v.cpu = t.regs v.cpu
  mem : s'.mem = t.mem.storeLE (v.pcAddr t) 8 (v.pc t + n).toNat

section Handler

variable {c : ContextSwitch κ} {v : StateView κ} {depth : Nat} {used : κ → Prop}
  {f : Effect M G} {s s' : Machine M G} {n : BitVec 64}

omit [DecidableEq κ] in
theorem Uses.slot_eq (hu : Uses c v depth) (s : Machine M G) (k : κ) : c.slot s k = v.addr s k := by
  rw [ContextSwitch.slot, StateView.addr, hu.cpu, hu.off]

omit [DecidableEq κ] in
theorem Placed.ready (h : Placed v c.sp depth s) (hu : Uses c v depth) (hnodup : c.loaded.Nodup) :
    c.Ready s where
  room := Nat.le_trans hu.depth_le h.room
  slots := by
    refine (List.Nodup.pairwise_of_forall_ne hnodup) fun k hk j hj hne => ?_
    have hapart := h.regs_apart k j hne
    have hk := hu.bytes_le k hk
    have hj := hu.bytes_le j hj
    rw [hu.slot_eq, hu.slot_eq]
    omega
  stack := fun k hk => by
    have hstack := h.regs_stack k
    have hk := hu.bytes_le k hk
    have hdepth := hu.depth_le
    have hroom := h.room
    rw [hu.slot_eq]
    omega

variable (h : Placed v c.sp depth s) (hu : Uses c v depth) (hv : c.Valid M used)
  (hf : f.Confined used) (hs' : PcAdvanced v n (c.run f s) s')

include h hu hv hf

/-! ## 切り替えのあと -/

theorem run_address (off : Int) :
    (c.run f s).address v.cpu off = s.address v.cpu off := by
  have hcpu := hv.run_cpu hf (h.ready hu hv.loaded_nodup)
  rw [hu.cpu] at hcpu
  exact congrArg (fun x => (x + BitVec.ofInt _ off).toNat) hcpu

/-- 読み込む register の置き場と stack の外では、読む値は変わらない。 -/
theorem run_loadLE {a m : Nat}
    (hslots : ∀ k ∈ c.loaded, a + m ≤ v.addr s k ∨ v.addr s k + c.bytes k ≤ a)
    (hstack : a + m ≤ (s.regs c.sp).toNat - depth ∨ (s.regs c.sp).toNat ≤ a) :
    (c.run f s).mem.loadLE a m = s.mem.loadLE a m := by
  refine Mem.loadLE_eq_iff.mpr fun i hi =>
    hv.run_mem_outside hf (h.ready hu hv.loaded_nodup) (fun k hk => ?_) ?_
  · have hslot := hslots k hk
    rw [hu.slot_eq]
    omega
  · have hdepth := hu.depth_le
    have hroom := h.room
    omega

theorem run_pcAddr : v.pcAddr (c.run f s) = v.pcAddr s := by
  rw [StateView.pcAddr, StateView.pcptr, run_address h hu hv hf, StateView.pcAddr]
  refine run_loadLE h hu hv hf (fun k hk => ?_) h.pcptr_stack
  have hregs := h.pcptr_regs k
  have hk := hu.bytes_le k hk
  unfold StateView.pcptr at hregs
  omega

theorem run_pc : v.pc (c.run f s) = v.pc s := by
  rw [StateView.pc, run_pcAddr h hu hv hf, StateView.pc]
  refine congrArg (BitVec.ofNat 64) (run_loadLE h hu hv hf (fun k hk => ?_) h.pc_stack)
  have hregs := h.pc_regs k
  have hk := hu.bytes_le k hk
  omega

/-! ## pc を進めたあと -/

include hs'

theorem handled_address (off : Int) : s'.address v.cpu off = s.address v.cpu off := by
  rw [← run_address h hu hv hf off]
  exact congrArg (fun x => (x + BitVec.ofInt _ off).toNat) hs'.cpu

theorem handled_mem : s'.mem = (c.run f s).mem.storeLE (v.pcAddr s) 8 (v.pc s + n).toNat := by
  rw [hs'.mem, run_pcAddr h hu hv hf, run_pc h hu hv hf]

theorem handled_pc : v.pc s' = v.pc s + n := by
  have haddr : v.pcAddr s' = v.pcAddr s := by
    have hapart := h.pc_pcptr
    have hrun := run_pcAddr h hu hv hf
    rw [StateView.pcAddr, StateView.pcptr, run_address h hu hv hf] at hrun
    rw [StateView.pcAddr, StateView.pcptr, handled_address h hu hv hf hs',
      handled_mem h hu hv hf hs', Mem.loadLE_storeLE_apart, hrun]
    unfold StateView.pcptr at hapart
    omega
  rw [StateView.pc, haddr, handled_mem h hu hv hf hs', Mem.loadLE_storeLE_mod,
    low_full (n := 8) rfl, BitVec.ofNat_toNat, BitVec.setWidth_eq]

/-- 読み込んだ register の置き場には、命令の結果の下位の byte が入る。 -/
theorem handled_slot {k : κ} (hk : k ∈ c.loaded) :
    s'.mem.loadLE (v.addr s' k) (c.bytes k) =
      ((f (c.enter s).regs s.guest).1 k).toNat % 256 ^ c.bytes k := by
  have hpc := h.pc_regs k
  have hle := hu.bytes_le k hk
  have hslot := hv.run_slot hf (h.ready hu hv.loaded_nodup) hk
  rw [hu.slot_eq] at hslot
  rw [StateView.addr, handled_address h hu hv hf hs', handled_mem h hu hv hf hs',
    Mem.loadLE_storeLE_apart]
  · exact hslot
  · unfold StateView.addr at hpc
    omega

/-- 読み込んだ所の外では、guest の register の置き場は変わらない。 -/
theorem handled_outside {k : κ} {i m : Nat} (hi : i + m ≤ v.size k)
    (hk : k ∈ c.loaded → c.bytes k ≤ i) :
    s'.mem.loadLE (v.addr s' k + i) m = s.mem.loadLE (v.addr s k + i) m := by
  have hpc := h.pc_regs k
  have haddr : v.addr s' k = v.addr s k := handled_address h hu hv hf hs' _
  have hstack := h.regs_stack k
  rw [haddr, handled_mem h hu hv hf hs', Mem.loadLE_storeLE_apart (by omega)]
  refine run_loadLE h hu hv hf (fun j hj => ?_) (by omega)
  by_cases hjk : j = k
  · subst hjk
    have := hk hj
    omega
  · have hapart := h.regs_apart j k hjk
    have hle := hu.bytes_le j hj
    omega

omit hf hs' in
/-- 全体を読み込んだ register は、guest の値を持つ。 -/
theorem enter_regs_eq {k : κ} (hk : k ∈ c.loaded) (hbytes : c.bytes k = v.size k)
    (hwidth : M.width k = 8 * v.size k) : (c.enter s).regs k = v.regs s k := by
  have hlow := hv.enter_regs_loaded (h.ready hu hv.loaded_nodup) hk
  rw [hbytes, low_full hwidth, hu.slot_eq] at hlow
  rw [StateView.regs, ← hlow, BitVec.ofNat_toNat, BitVec.setWidth_eq]

/-- 全体を読み込んだ register の置き場には、命令の結果が入る。 -/
theorem handled_regs_loaded {k : κ} (hk : k ∈ c.loaded) (hbytes : c.bytes k = v.size k)
    (hwidth : M.width k = 8 * v.size k) :
    v.regs s' k = (f (c.enter s).regs s.guest).1 k := by
  have hslot := handled_slot h hu hv hf hs' hk
  rw [hbytes, low_full hwidth] at hslot
  rw [StateView.regs, hslot, BitVec.ofNat_toNat, BitVec.setWidth_eq]

/-- 読み込まなかった register の置き場は変わらない。 -/
theorem handled_regs_other {k : κ} (hk : k ∉ c.loaded) : v.regs s' k = v.regs s k := by
  have hsame := handled_outside h hu hv hf hs' (k := k) (i := 0) (m := v.size k)
    (by omega) (fun hmem => absurd hmem hk)
  rw [Nat.add_zero, Nat.add_zero] at hsame
  rw [StateView.regs, hsame, StateView.regs]

/-! ## 一つの bit -/

omit [DecidableEq κ] h hu hv hf hs' in
theorem regs_bit (s : Machine M G) {k : κ} {j : Nat} (hwidth : M.width k = 8 * v.size k)
    (hj : j < 8 * v.size k) :
    (v.regs s k).getLsbD j = (s.mem.loadLE (v.addr s k) (v.size k)).testBit j := by
  rw [StateView.regs, BitVec.getLsbD_ofNat, decide_eq_true (hwidth ▸ hj), Bool.true_and]

omit hf hs' in
/-- 読み込んだ bit は、guest の bit である。 -/
theorem enter_bit {k : κ} {j : Nat} (hk : k ∈ c.loaded) (hj : j < 8 * c.bytes k)
    (hwidth : M.width k = 8 * v.size k) :
    ((c.enter s).regs k).getLsbD j = (v.regs s k).getLsbD j := by
  have hle := hu.bytes_le k hk
  have hlow := hv.enter_regs_loaded (h.ready hu hv.loaded_nodup) hk
  rw [hu.slot_eq, ← Mem.loadLE_mod _ _ hle] at hlow
  rw [regs_bit s hwidth (by omega)]
  exact testBit_eq_of_mod hlow hj

/-- 読み込んだ bit の置き場には、命令の結果の bit が入る。 -/
theorem handled_bit {k : κ} {j : Nat} (hk : k ∈ c.loaded) (hj : j < 8 * c.bytes k)
    (hwidth : M.width k = 8 * v.size k) :
    (v.regs s' k).getLsbD j = ((f (c.enter s).regs s.guest).1 k).getLsbD j := by
  have hle := hu.bytes_le k hk
  have hslot := handled_slot h hu hv hf hs' hk
  rw [← Mem.loadLE_mod _ _ hle] at hslot
  rw [regs_bit s' hwidth (by omega)]
  exact testBit_eq_of_mod hslot hj

/-- 読み込まなかった bit の置き場は変わらない。 -/
theorem handled_bit_kept {k : κ} {j : Nat} (hk : k ∈ c.loaded → 8 * c.bytes k ≤ j)
    (hj : j < 8 * v.size k) (hwidth : M.width k = 8 * v.size k) :
    (v.regs s' k).getLsbD j = (v.regs s k).getLsbD j := by
  have haddr : v.addr s' k = v.addr s k := handled_address h hu hv hf hs' _
  have hsame := handled_outside h hu hv hf hs' (k := k) (i := j / 8) (m := 1) (by omega)
    fun hmem => by
      have hle := hk hmem
      omega
  rw [haddr] at hsame
  have hbyte := Mem.loadLE_eq_iff.mp hsame 0 (by decide)
  rw [Nat.add_zero] at hbyte
  rw [regs_bit s' hwidth hj, regs_bit s hwidth hj, Mem.testBit_loadLE _ _ hj,
    Mem.testBit_loadLE _ _ hj, haddr, hbyte]

end Handler

end Lifter

end AetherVM
