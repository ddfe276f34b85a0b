import AetherVM.Infra.Machine

/-!
# register の切り替え

host の register を stack に退避して、guest の register を memory から読み込み、一つの命令を実行してから、guest の
register を memory に書き戻し、host の register を元に戻す。guest の register の番地の基準になる register `cpu` と
stack pointer `sp` は、命令がそれらを使うときだけ、別の register に移しておく。
-/

namespace AetherVM.Infra

/--
切り替えの計画。`regcpu` と `regsp` は、命令を実行する間に `cpu` と `sp` の値を持つ register で、移さないときは
それら自身である。
-/
structure ContextSwitch (κ : Type) where
  cpu : κ
  sp : κ
  regcpu : κ
  regsp : κ
  saved : List κ
  loaded : List κ
  stride : κ → Nat
  savedBytes : κ → Nat
  off : κ → Int
  bytes : κ → Nat

namespace Machine

variable {κ : Type} [DecidableEq κ] {M : RegisterModel κ} {G : Type}

/-- 同じ register でなければ写す。 -/
def copyTo (dst src : κ) (s : Machine M G) : Machine M G :=
  if dst = src then s else s.move dst src

variable {dst src : κ} {s : Machine M G}

@[simp] theorem copyTo_mem : (copyTo dst src s).mem = s.mem := by
  unfold copyTo
  split <;> rfl

@[simp] theorem copyTo_guest : (copyTo dst src s).guest = s.guest := by
  unfold copyTo
  split <;> rfl

theorem copyTo_regs_of_ne {k : κ} (h : k ≠ dst) : (copyTo dst src s).regs k = s.regs k := by
  unfold copyTo
  split
  · rfl
  · exact set_regs_of_ne _ h _

theorem copyTo_address (h : M.width dst = M.width src) (off : Int) :
    (copyTo dst src s).address dst off = s.address src off := by
  unfold copyTo
  split
  · next heq => rw [heq]
  · rw [address, move, set_regs_self]
    exact toNat_setWidth_add h.symm _ _

theorem copyTo_toNat (h : M.width dst = M.width src) :
    ((copyTo dst src s).regs dst).toNat = (s.regs src).toNat := by
  rw [← address_zero, copyTo_address h, address_zero]

end Machine

namespace ContextSwitch

open Machine

variable {κ : Type} [DecidableEq κ] {M : RegisterModel κ} {G : Type} (c : ContextSwitch κ)

/-- host の register を退避して、基準の register と stack pointer を移す。 -/
def prologue (s : Machine M G) : Machine M G :=
  copyTo c.regsp c.sp (copyTo c.regcpu c.cpu (pushAll c.sp c.stride c.savedBytes c.saved s))

/-- 命令を実行する直前まで。 -/
def enter (s : Machine M G) : Machine M G :=
  loadAll c.regcpu c.off c.bytes c.loaded (c.prologue s)

/-- 命令を実行した後。 -/
def leave (s : Machine M G) : Machine M G :=
  popAll c.sp c.stride c.savedBytes c.saved.reverse
    (copyTo c.sp c.regsp (copyTo c.cpu c.regcpu (storeAll c.regcpu c.off c.bytes c.loaded s)))

def run (f : Effect M G) (s : Machine M G) : Machine M G := c.leave ((c.enter s).effect f)

/-- 積む byte の数。 -/
def depth : Nat := frame c.stride c.saved

/-- guest の register `k` の番地。 -/
def slot (s : Machine M G) (k : κ) : Nat := s.address c.cpu (c.off k)

/-- `used` の register を使う命令を、この計画で切り替えてよいこと。 -/
structure Valid (M : RegisterModel κ) (used : κ → Prop) : Prop where
  loaded_nodup : c.loaded.Nodup
  loaded_used : ∀ k ∈ c.loaded, used k
  loaded_width : ∀ k ∈ c.loaded, 8 * c.bytes k ≤ M.width k
  saved_nodup : c.saved.Nodup
  saved_used : ∀ k ∈ c.saved, used k
  saved_stride : ∀ k ∈ c.saved, c.savedBytes k ≤ c.stride k
  saved_width : ∀ k ∈ c.saved, 8 * c.savedBytes k ≤ M.width k
  sp_notMem : c.sp ∉ c.saved
  sp_ne_cpu : c.sp ≠ c.cpu
  regcpu_unused : ¬ used c.regcpu
  regcpu_ne_sp : c.regcpu ≠ c.sp
  regcpu_ne_regsp : c.regcpu ≠ c.regsp
  regcpu_width : M.width c.regcpu = M.width c.cpu
  regsp_unused : ¬ used c.regsp
  regsp_ne_cpu : c.regsp ≠ c.cpu
  regsp_width : M.width c.regsp = M.width c.sp
  cpu_saved : c.regcpu ≠ c.cpu → c.cpu ∈ c.saved
  cpu_width : M.width c.cpu = 8 * c.savedBytes c.cpu

/-- stack に余地があり、guest の register の置き場は、互いにも stack とも重ならないこと。 -/
structure Ready (s : Machine M G) : Prop where
  room : c.depth ≤ (s.regs c.sp).toNat
  slots : c.loaded.Pairwise fun i j =>
    c.slot s i + c.bytes i ≤ c.slot s j ∨ c.slot s j + c.bytes j ≤ c.slot s i
  stack : ∀ k ∈ c.loaded, c.slot s k + c.bytes k ≤ (s.regs c.sp).toNat - c.depth ∨
    (s.regs c.sp).toNat ≤ c.slot s k

variable {c} {used : κ → Prop} {s : Machine M G} {f : Effect M G}

namespace Valid

variable (hv : c.Valid M used)

/-! ## 命令を実行する直前まで -/

theorem prologue_guest : (c.prologue s).guest = s.guest := by
  simp only [prologue, copyTo_guest, pushAll_guest]

theorem prologue_regs {k : κ} (hsp : k ≠ c.sp) (hcpu : k ≠ c.regcpu) (hregsp : k ≠ c.regsp) :
    (c.prologue s).regs k = s.regs k := by
  rw [prologue, copyTo_regs_of_ne hregsp, copyTo_regs_of_ne hcpu, pushAll_regs,
    Function.update_of_ne hsp]

include hv

theorem prologue_mem {a : Nat} (hr : c.Ready s)
    (ha : a < (s.regs c.sp).toNat - c.depth ∨ (s.regs c.sp).toNat ≤ a) :
    (c.prologue s).mem a = s.mem a := by
  simp only [prologue, copyTo_mem]
  exact pushAll_mem hv.sp_notMem hv.saved_stride hr.room ha

/-- 移した先の register からも、同じ番地に届く。 -/
theorem prologue_address (off : Int) :
    (c.prologue s).address c.regcpu off = s.address c.cpu off := by
  rw [prologue, address, copyTo_regs_of_ne hv.regcpu_ne_regsp, ← address,
    copyTo_address hv.regcpu_width, address, pushAll_regs,
    Function.update_of_ne (Ne.symm hv.sp_ne_cpu), ← address]

theorem prologue_sp : ((c.prologue s).regs c.regsp).toNat =
    ((pushAll c.sp c.stride c.savedBytes c.saved s).regs c.sp).toNat := by
  rw [prologue, copyTo_toNat hv.regsp_width, copyTo_regs_of_ne (Ne.symm hv.regcpu_ne_sp)]

omit [DecidableEq κ] in
theorem regcpu_notMem : c.regcpu ∉ c.loaded := fun h => hv.regcpu_unused (hv.loaded_used _ h)

omit [DecidableEq κ] in
theorem regsp_notMem : c.regsp ∉ c.loaded := fun h => hv.regsp_unused (hv.loaded_used _ h)

theorem enter_eq : c.enter s = { c.prologue s with
    regs := loadedRegs c.regcpu c.off c.bytes c.loaded (c.prologue s) } :=
  loadAll_eq hv.regcpu_notMem hv.loaded_nodup

theorem enter_mem : (c.enter s).mem = (c.prologue s).mem := by rw [hv.enter_eq]

theorem enter_guest : (c.enter s).guest = s.guest := by
  rw [hv.enter_eq]
  exact prologue_guest

/-- 読み込んだ register の下位の byte は、guest の値である。 -/
theorem enter_regs_loaded (hr : c.Ready s) {k : κ} (hk : k ∈ c.loaded) :
    ((c.enter s).regs k).toNat % 256 ^ c.bytes k = s.mem.loadLE (c.slot s k) (c.bytes k) := by
  rw [hv.enter_eq]
  simp only [loadedRegs, hk, if_true, hv.prologue_address]
  rw [M.fill_low _ _ _ _ (hv.loaded_width k hk) (Mem.loadLE_lt _ _ _)]
  refine Mem.loadLE_eq_iff.mpr fun i hi => hv.prologue_mem hr ?_
  have := hr.stack k hk
  unfold slot at this
  omega

theorem enter_regs_of_notMem {k : κ} (hk : k ∉ c.loaded) :
    (c.enter s).regs k = (c.prologue s).regs k := by
  rw [hv.enter_eq]
  simp only [loadedRegs, hk, if_false]

/-! ## 命令を実行した後 -/

/-- 書き戻した後の memory。 -/
theorem run_mem (hf : f.Confined used) : (c.run f s).mem =
    storeSlots (c.slot s) c.bytes (fun k => ((f (c.enter s).regs s.guest).1 k).toNat) c.loaded
      (c.prologue s).mem := by
  have haddr : (fun k => ((c.enter s).effect f).address c.regcpu (c.off k)) = c.slot s := by
    funext k
    rw [slot, ← hv.prologue_address, address, address, effect_regs,
      hf.writes _ _ _ hv.regcpu_unused, hv.enter_regs_of_notMem hv.regcpu_notMem]
  rw [run, leave, (popAll_mem_guest _ _).1, copyTo_mem, copyTo_mem, storeAll_eq]
  simp only [haddr, effect_regs, effect_mem, hv.enter_guest, hv.enter_mem]

theorem run_guest : (c.run f s).guest = (f (c.enter s).regs s.guest).2 := by
  rw [run, leave, (popAll_mem_guest _ _).2, copyTo_guest, copyTo_guest, storeAll_eq]
  simp only [effect_guest, hv.enter_guest]

/-- 置き場には、命令の計算した値の下位の byte が入る。 -/
theorem run_slot (hf : f.Confined used) (hr : c.Ready s) {k : κ} (hk : k ∈ c.loaded) :
    (c.run f s).mem.loadLE (c.slot s k) (c.bytes k) =
      ((f (c.enter s).regs s.guest).1 k).toNat % 256 ^ c.bytes k := by
  rw [hv.run_mem hf]
  exact loadLE_storeSlots (v := fun k => ((f (c.enter s).regs s.guest).1 k).toNat) hr.slots hk

/-- 置き場と stack の外の memory は変わらない。 -/
theorem run_mem_outside (hf : f.Confined used) (hr : c.Ready s) {a : Nat}
    (hslots : ∀ k ∈ c.loaded, a < c.slot s k ∨ c.slot s k + c.bytes k ≤ a)
    (hstack : a < (s.regs c.sp).toNat - c.depth ∨ (s.regs c.sp).toNat ≤ a) :
    (c.run f s).mem a = s.mem a := by
  rw [hv.run_mem hf, storeSlots_outside hslots, hv.prologue_mem hr hstack]

/-- stack pointer と、退避した register の下位の byte は元に戻る。 -/
theorem run_saved (hf : f.Confined used) (hr : c.Ready s) :
    (c.run f s).regs c.sp = s.regs c.sp ∧ ∀ k ∈ c.saved,
      ((c.run f s).regs k).toNat % 256 ^ c.savedBytes k =
        (s.regs k).toNat % 256 ^ c.savedBytes k := by
  have hregsp : ((c.enter s).effect f).regs c.regsp = (c.prologue s).regs c.regsp := by
    rw [effect_regs, hf.writes _ _ _ hv.regsp_unused, hv.enter_regs_of_notMem hv.regsp_notMem]
  refine popAll_pushAll hv.sp_notMem hv.saved_nodup hv.saved_stride hv.saved_width hr.room ?_ ?_
  · apply BitVec.eq_of_toNat_eq
    rw [copyTo_toNat hv.regsp_width.symm, copyTo_regs_of_ne hv.regsp_ne_cpu, storeAll_eq, hregsp,
      hv.prologue_sp]
  · intro a h1 h2
    have hmem := hv.run_mem (s := s) hf
    rw [run, leave, (popAll_mem_guest _ _).1] at hmem
    rw [hmem, storeSlots_outside]
    · simp only [prologue, copyTo_mem]
    · intro k hk
      have := hr.stack k hk
      unfold depth at this
      omega

/-- 命令が使わず、移した先でもない register は変わらない。 -/
theorem run_regs (hf : f.Confined used) {k : κ} (hk : ¬ used k) (hsp : k ≠ c.sp)
    (hcpu : k ≠ c.cpu) (hregcpu : k ≠ c.regcpu) (hregsp : k ≠ c.regsp) :
    (c.run f s).regs k = s.regs k := by
  have hloaded : k ∉ c.loaded := fun h => hk (hv.loaded_used _ h)
  have hsaved : k ∉ c.saved.reverse := fun h => hk (hv.saved_used _ (List.mem_reverse.mp h))
  rw [run, leave, popAll_regs_of_notMem hsaved hsp, copyTo_regs_of_ne hsp, copyTo_regs_of_ne hcpu,
    storeAll_eq]
  simp only [effect_regs, hf.writes _ _ _ hk, hv.enter_regs_of_notMem hloaded,
    prologue_regs hsp hregcpu hregsp]

/-- 基準の register は元のままである。 -/
theorem run_cpu (hf : f.Confined used) (hr : c.Ready s) :
    (c.run f s).regs c.cpu = s.regs c.cpu := by
  by_cases h : c.regcpu = c.cpu
  · have hcpu : ¬ used c.cpu := h ▸ hv.regcpu_unused
    have hloaded : c.cpu ∉ c.loaded := fun hmem => hcpu (hv.loaded_used _ hmem)
    have hsaved : c.cpu ∉ c.saved.reverse :=
      fun hmem => hcpu (hv.saved_used _ (List.mem_reverse.mp hmem))
    have hsp := hv.sp_ne_cpu.symm
    have hregsp := hv.regsp_ne_cpu.symm
    rw [run, leave, popAll_regs_of_notMem hsaved hsp, copyTo_regs_of_ne hsp, copyTo, if_pos h.symm,
      storeAll_eq]
    simp only [effect_regs, hf.writes _ _ _ hcpu, hv.enter_regs_of_notMem hloaded]
    rw [prologue, copyTo_regs_of_ne hregsp, copyTo, if_pos h, pushAll_regs,
      Function.update_of_ne hsp]
  · have hsaved := (hv.run_saved hf hr).2 _ (hv.cpu_saved h)
    rw [low_full hv.cpu_width, low_full hv.cpu_width] at hsaved
    exact BitVec.eq_of_toNat_eq hsaved

/-- 命令が使っても退避してあり、移した先でもない register は変わらない。 -/
theorem run_kept (hf : f.Confined used) (hr : c.Ready s) (k : κ) (hsaved : used k → k ∈ c.saved)
    (hsp : k ≠ c.sp) (hregcpu : k ≠ c.cpu → k ≠ c.regcpu) (hregsp : k ≠ c.regsp) :
    ((c.run f s).regs k).toNat % 256 ^ c.savedBytes k =
      (s.regs k).toNat % 256 ^ c.savedBytes k := by
  by_cases hk : used k
  · exact (hv.run_saved hf hr).2 k (hsaved hk)
  · by_cases hcpu : k = c.cpu
    · rw [hcpu, hv.run_cpu hf hr]
    · rw [hv.run_regs hf hk hsp hcpu (hregcpu hcpu) hregsp]

end Valid

end ContextSwitch

end AetherVM.Infra
