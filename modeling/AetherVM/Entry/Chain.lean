import AetherVM.Entry.AArch64

/-!
# handler の連鎖

飛び続ける handler の間で成り立つ関係 `Running` を定め、三種類の handler がどれも、slot の意味に従ってこれを保つことを
言う。

* host の保つべき register と stack pointer は、連鎖に入った時の値である。
* `State` と pc は、slot の列の意味の状態を表す。
* `guarded` の番地（slot の列、`CPU.retaddr`、退避した register）は、連鎖に入った時のままである。
-/

namespace AetherVM

namespace Entry.AArch64

open Infra Lifter Lifter.AArch64 Orchestrator

variable {G : Type}

/-- 連鎖の間に変わらないもの。 -/
structure Fixed where
  base : BitVec 64
  sp : BitVec 64
  x : Fin 31 → BitVec 64
  d : Fin 32 → Nat
  guarded : Nat → Prop
  image : Mem

/-- 連鎖の間に保つ汎用 register。`x26` と `x27` は別に決まる。 -/
def Kept (i : Fin 31) : Prop := 19 ≤ i.val ∧ i.val ≤ 28 ∧ i ≠ 26 ∧ i ≠ 27

/-- `guarded` の番地は、`State` とも、pc とも、stack の空きとも重ならない。 -/
structure Apart (o : StateOffsets) (guarded : Nat → Prop) (s : Host G) : Prop where
  regs : ∀ a, guarded a → ∀ k,
    a < (stateView o).addr s k ∨ (stateView o).addr s k + k.bytes ≤ a
  pc : ∀ a, guarded a → a < (stateView o).pcAddr s ∨ (stateView o).pcAddr s + 8 ≤ a
  stack : ∀ a, guarded a → a < (s.regs .sp).toNat - 0x140 ∨ (s.regs .sp).toNat ≤ a

/-- host の状態が、slot の列の意味の状態を表すこと。 -/
structure Represents (o : StateOffsets) (F : Fixed) (s : Host G) (t : Thread G) : Prop where
  cpu : gpr s 26 = F.base
  sp : s.regs .sp = F.sp
  x : ∀ i, Kept i → gpr s i = F.x i
  d : ∀ i : Fin 32, 8 ≤ i.val → i.val ≤ 15 → (s.regs (.q i)).toNat % 2 ^ 64 = F.d i
  mem : ∀ a, F.guarded a → s.mem a = F.image a
  placed : StatePlaced o s
  apart : Apart o F.guarded s
  regs : (stateView o).regs s = t.regs
  pc : (stateView o).pc s = t.pc
  guest : s.guest = t.guest

/-- handler に飛ぶ直前の状態。引数と飛び先が揃っている。 -/
structure Running (o : StateOffsets) (F : Fixed) (s : Host G) (t : Thread G) : Prop
    extends Represents o F s t where
  chain : gpr s 27 = t.insn
  state : gpr s 0 = F.base
  vmaddr : gpr s 1 = t.pc
  insn : gpr s 2 = t.insn
  handler : (gpr s 16).toNat = s.mem.loadLE t.insn.toNat 8 % 2 ^ 59

/-! ## handler の約束 -/

/-- `host_` で始まる関数の約束。引数を受けて、次の `Instruction` の番地を `x0` に返す。 -/
def HostObeys (o : StateOffsets) (F : Fixed) (host : Host G → Host G) (f : Meaning G) : Prop :=
  ∀ s t t', Represents o F s t → gpr s 0 = F.base → gpr s 1 = 0 → gpr s 2 = t.insn →
    f t = some t' → Represents o F (host s) t' ∧ gpr (host s) 0 = t'.insn

/-- lift した実装の約束。`__remill_function_return` に、`State` と新しい pc を渡す。 -/
def LiftedObeys (o : StateOffsets) (F : Fixed) (host : Host G → Host G)
    (f : Thread G → Option (Thread G)) : Prop :=
  ∀ s t t', Running o F s t → f t = some t' → Represents o F (host s) t' ∧
    gpr (host s) 27 = t.insn ∧ gpr (host s) 0 = F.base ∧ gpr (host s) 1 = t'.pc

/-- handler が意味の通りに動くための約束。 -/
inductive Implements (o : StateOffsets) (F : Fixed) : Handler G → Meaning G → Prop where
  | event {ret : BitVec 64} {host : Host G → Host G} {f : Meaning G}
      (h : HostObeys o F host f) : Implements o F (.event ret host) f
  | native {used : Finset HostReg} {f : Effect hostModel G} {m : Meaning G} (hsp : .sp ∉ used)
      (hfree : ∃ i : Fin 31, i.val ≤ 18 ∧ .x i ∉ used) (hf : f.Confined (· ∈ used))
      (hm : ∀ t t', m t = some t' → nativeMeaning f t = some t') :
      Implements o F (.native used f) m
  | lifted {host : Host G → Host G} {f : Thread G → Option (Thread G)} (h : LiftedObeys o F host f) :
      Implements o F (.lifted host) (liftedMeaning f)

/-! ## 状態の写し替え -/

section Congr

variable {o : StateOffsets} {F : Fixed} {s s' : Host G} {t : Thread G}

theorem addr_congr (h26 : gpr s' 26 = gpr s 26) (k : HostReg) :
    (stateView o).addr s' k = (stateView o).addr s k := by
  have haddr : ∀ r : Host G, (stateView o).addr r k =
      (gpr r 26 + BitVec.ofInt 64 (o.offsetReg k)).toNat := fun r => xBank.address_reg r 26 _
  rw [haddr, haddr, h26]

theorem pcptr_congr (h26 : gpr s' 26 = gpr s 26) :
    (stateView o).pcptr s' = (stateView o).pcptr s := by
  have haddr : ∀ r : Host G, (stateView o).pcptr r =
      (gpr r 26 + BitVec.ofInt 64 (-0x10)).toNat := fun r => xBank.address_reg r 26 _
  rw [haddr, haddr, h26]

theorem pcAddr_congr (h26 : gpr s' 26 = gpr s 26) (hmem : s'.mem = s.mem) :
    (stateView o).pcAddr s' = (stateView o).pcAddr s := by
  rw [StateView.pcAddr, StateView.pcAddr, hmem, pcptr_congr h26]

theorem regs_congr (h26 : gpr s' 26 = gpr s 26) (hmem : s'.mem = s.mem) :
    (stateView o).regs s' = (stateView o).regs s := by
  funext k
  rw [StateView.regs, StateView.regs, hmem, addr_congr h26]

theorem pc_congr (h26 : gpr s' 26 = gpr s 26) (hmem : s'.mem = s.mem) :
    (stateView o).pc s' = (stateView o).pc s := by
  rw [StateView.pc, StateView.pc, hmem, pcAddr_congr h26 hmem]

/-- 配置は、`x26` と stack pointer と pc の番地で決まる。 -/
theorem placed_congr (h : StatePlaced o s) (h26 : gpr s' 26 = gpr s 26)
    (hsp : s'.regs .sp = s.regs .sp)
    (hpc : (stateView o).pcAddr s' = (stateView o).pcAddr s) : StatePlaced o s' where
  banks := h.banks
  low := by
    rw [h26]
    exact h.low
  high := by
    rw [h26]
    exact h.high
  room := by
    rw [hsp]
    exact h.room
  regs_stack := fun k => by
    rw [addr_congr h26, hsp]
    exact h.regs_stack k
  pcptr_stack := by
    rw [pcptr_congr h26, hsp]
    exact h.pcptr_stack
  pc_regs := fun k => by
    rw [addr_congr h26, hpc]
    exact h.pc_regs k
  pc_stack := by
    rw [hpc, hsp]
    exact h.pc_stack
  pc_pcptr := by
    rw [hpc, pcptr_congr h26]
    exact h.pc_pcptr

theorem Apart.congr {guarded : Nat → Prop} (h : Apart o guarded s) (h26 : gpr s' 26 = gpr s 26)
    (hsp : s'.regs .sp = s.regs .sp)
    (hpc : (stateView o).pcAddr s' = (stateView o).pcAddr s) : Apart o guarded s' where
  regs := fun a ha k => by
    rw [addr_congr h26]
    exact h.regs a ha k
  pc := fun a ha => by
    rw [hpc]
    exact h.pc a ha
  stack := fun a ha => by
    rw [hsp]
    exact h.stack a ha

/-- memory を変えず、保つべき register を変えなければ、表すものは変わらない。 -/
theorem Represents.congr (h : Represents o F s t) (hmem : s'.mem = s.mem)
    (hguest : s'.guest = s.guest) (hregs : ∀ k, (∀ i, k = .x i → i = 26 ∨ Kept i) →
      s'.regs k = s.regs k) : Represents o F s' t := by
  have hx : ∀ i, i = 26 ∨ Kept i → gpr s' i = gpr s i := by
    intro i hi
    refine xBank.get_congr (hregs _ fun j hj => ?_)
    cases hj
    exact hi
  have h26 := hx 26 (.inl rfl)
  have hsp : s'.regs .sp = s.regs .sp := hregs _ (by simp)
  have hpc := pcAddr_congr (o := o) h26 hmem
  constructor
  case cpu => exact h26.trans h.cpu
  case sp => exact hsp.trans h.sp
  case x => exact fun i hi => (hx i (.inr hi)).trans (h.x i hi)
  case d =>
    intro i h8 h15
    rw [hregs (.q i) (by simp)]
    exact h.d i h8 h15
  case mem =>
    rw [hmem]
    exact h.mem
  case placed => exact placed_congr h.placed h26 hsp hpc
  case apart => exact h.apart.congr h26 hsp hpc
  case regs => exact (regs_congr h26 hmem).trans h.regs
  case pc => exact (pc_congr h26 hmem).trans h.pc
  case guest => exact hguest.trans h.guest

end Congr

/-! ## event の handler -/

section Event

variable {o : StateOffsets} {F : Fixed} {s : Host G} {t : Thread G}

/-- host の関数に飛ぶ直前。 -/
def beforeHost (ret : BitVec 64) (s : Host G) : Host G :=
  xBank.set (xBank.set (xBank.set (xBank.set s 0 (gpr s 26)) 1 0) 2 (gpr s 27)) 30 ret

/-- 次の `Instruction` の番地 `insn` から、飛び先を取り出した状態。 -/
def fetched (s : Host G) (insn : BitVec 64) : Host G :=
  let word := s.mem.loadLE insn.toNat 8
  xBank.set (xBank.set (xBank.set s 2 insn) 16 (BitVec.ofNat 64 word)) 16
    (BitVec.ofNat 64 (word % 2 ^ 59))

/-- host の関数から戻って、次の handler に飛ぶ直前。 -/
def afterHost (o : StateOffsets) (s : Host G) : Host G :=
  let s₁ := xBank.set (xBank.set s 27 (gpr s 0)) 0 (gpr s 26)
  fetched (xBank.set (xBank.set s₁ 1 (BitVec.ofNat 64 ((stateView o).pcAddr s))) 1
    ((stateView o).pc s)) (gpr s 0)

theorem runCode_eventVm (o : StateOffsets) (ret : BitVec 64) (host : Host G → Host G)
    (s : Host G) :
    runCode (eventVm ret host) s = afterHost o (host (beforeHost ret s)) := by
  have hbefore : runCode (eventVm ret host) s =
      runCode ((eventVm ret host).drop 5) (host (beforeHost ret s)) := by
    simp only [runCode, eventVm, List.cons_append, List.nil_append, List.drop_succ_cons,
      List.drop_zero, List.foldl_cons, Code.exec, exec_mov, beforeHost, gpr, WordBank.get_set,
      Fin.reduceEq, if_false]
  rw [hbefore]
  generalize host (beforeHost ret s) = u
  have hcpu : u.mem.loadLE (xBank.get u 26 + BitVec.ofInt 64 (-0x10)).toNat 8 =
      (stateView o).pcAddr u := by
    rw [← xBank.address_reg]
    rfl
  have hpc : BitVec.ofNat 64 (u.mem.loadLE ((stateView o).pcAddr u) 8) = (stateView o).pc u := rfl
  have haddr : (BitVec.ofNat 64 ((stateView o).pcAddr u)).toNat = (stateView o).pcAddr u :=
    WordBank.toNat_loadLE _ _
  have hzero : ∀ x : BitVec 64, x + BitVec.ofInt 64 0 = x := fun x => BitVec.add_zero x
  simp only [runCode, eventVm, extractHandlerX16, List.cons_append, List.nil_append,
    List.drop_succ_cons, List.drop_zero, List.foldl_cons, List.foldl_nil, Code.exec, exec_mov,
    exec_ldr, exec_ubfx, afterHost, fetched, gpr, WordBank.get_set, WordBank.set_mem, if_true,
    if_false, hcpu, hpc, haddr, hzero, WordBank.toNat_loadLE, Nat.pow_zero, Nat.div_one,
    Fin.reduceEq, Fin.isValue]
  rfl

/-- 取り出した飛び先は、`Instruction` の下位の 59 bit である。 -/
theorem fetched_handler (s : Host G) (insn : BitVec 64) :
    (gpr (fetched s insn) 16).toNat = s.mem.loadLE insn.toNat 8 % 2 ^ 59 := by
  have hlt : s.mem.loadLE insn.toNat 8 % 2 ^ 59 < 2 ^ 64 := by omega
  simp only [fetched, gpr, WordBank.get_set, if_true]
  rw [BitVec.toNat_ofNat, Nat.mod_eq_of_lt hlt]

theorem fetched_regs (s : Host G) (insn : BitVec 64) {k : HostReg} (h2 : k ≠ .x 2)
    (h16 : k ≠ .x 16) : (fetched s insn).regs k = s.regs k := by
  simp only [fetched, xBank.set_regs _ _ _ h16, xBank.set_regs _ _ _ h2]

/-- 保つべき register は、引数の register ではない。 -/
theorem ne_of_kept {k : HostReg} (hk : ∀ i, k = .x i → i = 26 ∨ Kept i) {j : Fin 31}
    (hj : j.val ≤ 18 ∨ j = 27 ∨ j = 30) : k ≠ .x j := by
  intro heq
  rcases hk j heq with rfl | ⟨h19, h28, -, h27⟩
  · exact absurd hj (by decide)
  · rcases hj with hj | rfl | rfl
    · omega
    · exact h27 rfl
    · exact absurd h28 (by decide)

/-- host の関数が約束を守れば、event の handler は次の handler に正しく飛ぶ。 -/
theorem HostObeys.running {ret : BitVec 64} {host : Host G → Host G} {f : Meaning G}
    {t' : Thread G} (hf : HostObeys o F host f) (h : Running o F s t) (ht' : f t = some t') :
    Running o F (runCode (eventVm ret host) s) t' := by
  rw [runCode_eventVm o]
  have hbefore : Represents o F (beforeHost ret s) t := by
    refine h.toRepresents.congr rfl rfl fun k hk => ?_
    have h0 := ne_of_kept hk (j := 0) (.inl (by decide))
    have h1 := ne_of_kept hk (j := 1) (.inl (by decide))
    have h2 := ne_of_kept hk (j := 2) (.inl (by decide))
    have h30 := ne_of_kept hk (j := 30) (.inr (.inr rfl))
    simp only [beforeHost, xBank.set_regs _ _ _ h0, xBank.set_regs _ _ _ h1,
      xBank.set_regs _ _ _ h2, xBank.set_regs _ _ _ h30]
  obtain ⟨hrep, hinsn⟩ := hf (beforeHost ret s) t t' hbefore
    (by simp [beforeHost, gpr, ← h.cpu]) (by simp [beforeHost, gpr])
    (by simp [beforeHost, gpr, ← h.chain]) ht'
  generalize host (beforeHost ret s) = u at hrep hinsn
  have hafter : Represents o F (afterHost o u) t' := by
    refine hrep.congr rfl rfl fun k hk => ?_
    have h0 := ne_of_kept hk (j := 0) (.inl (by decide))
    have h1 := ne_of_kept hk (j := 1) (.inl (by decide))
    have h2 := ne_of_kept hk (j := 2) (.inl (by decide))
    have h16 := ne_of_kept hk (j := 16) (.inl (by decide))
    have h27 := ne_of_kept hk (j := 27) (.inr (.inl rfl))
    simp only [afterHost, fetched_regs _ _ h2 h16, xBank.set_regs _ _ _ h0,
      xBank.set_regs _ _ _ h1, xBank.set_regs _ _ _ h27]
  constructor
  case toRepresents => exact hafter
  case chain => simp [afterHost, fetched, gpr, ← hinsn]
  case state => simp [afterHost, fetched, gpr, ← hrep.cpu]
  case vmaddr => simp [afterHost, fetched, gpr, ← hrep.pc]
  case insn => simp [afterHost, fetched, gpr, ← hinsn]
  case handler =>
    rw [afterHost, fetched_handler, hinsn]
    rfl

end Event

/-! ## lift した命令の handler -/

section Lifted

variable {o : StateOffsets} {F : Fixed} {s : Host G} {t : Thread G}

theorem runCode_remillFunctionReturn (s : Host G) :
    runCode remillFunctionReturn s = fetched (xBank.set s 27 (gpr s 27 + 8)) (gpr s 27 + 8) := by
  have hzero : ∀ x : BitVec 64, x + BitVec.ofInt 64 0 = x := fun x => BitVec.add_zero x
  have height : BitVec.ofInt 64 8 = 8 := rfl
  simp only [runCode, remillFunctionReturn, extractHandlerX16, List.cons_append, List.nil_append,
    List.foldl_cons, List.foldl_nil, Code.exec, exec_mov, exec_add, exec_ldr, exec_ubfx, fetched,
    gpr, WordBank.get_set, WordBank.set_mem, if_true, if_false, hzero, height,
    WordBank.toNat_loadLE, Nat.pow_zero, Nat.div_one, Fin.reduceEq, Fin.isValue]
  rfl

/-- 実装が約束を守れば、lift した命令の handler は次の handler に正しく飛ぶ。 -/
theorem LiftedObeys.running {host : Host G → Host G} {f : Thread G → Option (Thread G)}
    {t' : Thread G} (hf : LiftedObeys o F host f) (h : Running o F s t)
    (ht' : liftedMeaning f t = some t') :
    Running o F (runCode remillFunctionReturn (host s)) t' := by
  obtain ⟨t₁, ht₁, rfl⟩ := Option.map_eq_some_iff.mp ht'
  obtain ⟨hrep, hchain, hstate, hvmaddr⟩ := hf s t t₁ h ht₁
  rw [runCode_remillFunctionReturn, hchain]
  generalize host s = u at hrep hchain hstate hvmaddr
  have hafter : Represents o F (fetched (xBank.set u 27 (t.insn + 8)) (t.insn + 8))
      { t₁ with insn := t.insn + 8 } := by
    have hrep' : Represents o F u { t₁ with insn := t.insn + 8 } := { hrep with }
    refine hrep'.congr rfl rfl fun k hk => ?_
    have h2 := ne_of_kept hk (j := 2) (.inl (by decide))
    have h16 := ne_of_kept hk (j := 16) (.inl (by decide))
    have h27 := ne_of_kept hk (j := 27) (.inr (.inl rfl))
    rw [fetched_regs _ _ h2 h16, xBank.set_regs _ _ _ h27]
  constructor
  case toRepresents => exact hafter
  case chain => simp [fetched, gpr]
  case state => simpa [fetched, gpr] using hstate
  case vmaddr => simpa [fetched, gpr] using hvmaddr
  case insn => simp [fetched, gpr]
  case handler => exact fetched_handler _ _

end Lifted

/-! ## 元の命令を埋め込んだ handler -/

section Native

variable {o : StateOffsets} {F : Fixed} {s : Host G} {t : Thread G} {used : Finset HostReg}
  {f : Effect hostModel G}

/-- 切り替えは、`guarded` の番地を変えない。 -/
theorem plan_guarded (h : Represents o F s t)
    (hv : (switchPlan o used).Valid hostModel (· ∈ used)) (hf : f.Confined (· ∈ used))
    (hr : (switchPlan o used).Ready s) {a : Nat} (ha : F.guarded a) :
    ((switchPlan o used).run f s).mem a = F.image a := by
  rw [← h.mem a ha]
  refine hv.run_mem_outside hf hr (fun k _ => ?_) ?_
  · rw [switchPlan_uses.slot_eq]
    exact h.apart.regs a ha k
  · have hstack := h.apart.stack a ha
    have hdepth : (switchPlan o used).depth ≤ 0x140 := depth_le
    change a < (s.regs .sp).toNat - _ ∨ (s.regs .sp).toNat ≤ a
    omega

/-- 命令の使う guest の register には結果が入り、使わない register は変わらない。 -/
theorem native_regs (h : Represents o F s t) (hsp : .sp ∉ used) {i : Fin 31} (hi : i.val ≤ 18)
    (hfree : .x i ∉ used) (hf : f.Confined (· ∈ used)) {s' : Host G}
    (hs' : PcAdvanced (stateView o) 4 ((switchPlan o used).run f s) s') :
    (stateView o).regs s' = (f t.regs t.guest).1 := by
  have hv := switchPlan_valid (o := o) hsp hi hfree
  have hu : Uses (switchPlan o used) (stateView o) 0x140 := switchPlan_uses
  have hp : Placed (stateView o) (switchPlan o used).sp 0x140 s := h.placed.placed
  have hloaded : ∀ k, k ∈ (switchPlan o used).loaded ↔ k ∈ used := fun k => mem_loaded hsp
  have heffect := hf.reads ((switchPlan o used).enter s).regs ((stateView o).regs s) s.guest
    fun k hk => enter_regs_eq hp hu hv ((hloaded k).mpr hk) rfl k.width_eq
  rw [← h.regs, ← h.guest]
  funext k
  by_cases hk : k ∈ used
  · rw [handled_regs_loaded hp hu hv hf hs' ((hloaded k).mpr hk) rfl k.width_eq, heffect.1 k hk]
  · rw [handled_regs_other hp hu hv hf hs' fun hmem => hk ((hloaded k).mp hmem),
      hf.writes _ _ _ hk]

/-- 元の命令を埋め込んだ handler は、次の handler に正しく飛ぶ。 -/
theorem native_running (hsp : .sp ∉ used) (hfree : ∃ i : Fin 31, i.val ≤ 18 ∧ .x i ∉ used)
    (hf : f.Confined (· ∈ used)) (h : Running o F s t) {t' : Thread G}
    (ht' : nativeMeaning f t = some t') :
    Running o F (runAsm f (nativeHandlerAArch64 o used) s) t' := by
  cases ht'
  obtain ⟨i, hi, hfree⟩ := hfree
  have hrep := h.toRepresents
  have hv := switchPlan_valid (o := o) hsp hi hfree
  have hu : Uses (switchPlan o used) (stateView o) 0x140 := switchPlan_uses
  have hp : Placed (stateView o) (switchPlan o used).sp 0x140 s := hrep.placed.placed
  have hr := hp.ready hu hv.loaded_nodup
  have hadv := runAsm_advance (f := f) o ((switchPlan o used).run f s)
  rw [runAsm_handler]
  generalize runAsm f advance ((switchPlan o used).run f s) = s' at hadv ⊢
  have hpc : PcAdvanced (stateView o) 4 ((switchPlan o used).run f s) s' :=
    ⟨hadv.others (.x 26) (by decide), hadv.mem⟩
  have hx : ∀ j : Fin 31, 19 ≤ j.val → j ≠ 27 → gpr s' j = gpr s j := by
    intro j hj h27
    have hother : .x j ∉ [HostReg.x 0, .x 1, .x 2, .x 16, .x 27] := by
      simp only [List.mem_cons, HostReg.x.injEq, List.not_mem_nil, or_false, not_or]
      refine ⟨?_, ?_, ?_, ?_, h27⟩ <;> (rintro rfl; exact absurd hj (by decide))
    exact (xBank.get_congr (hadv.others _ hother)).trans (plan_gpr hr hv hf hi hfree hj)
  have h26 : gpr s' 26 = gpr s 26 := hx 26 (by decide) (by decide)
  have h27 : gpr ((switchPlan o used).run f s) 27 = t.insn :=
    (plan_gpr hr hv hf hi hfree (by decide)).trans h.chain
  have hspEq : s'.regs .sp = s.regs .sp :=
    (hadv.others _ (by decide)).trans (hv.run_saved hf hr).1
  have hmem : s'.mem = ((switchPlan o used).run f s).mem.storeLE ((stateView o).pcAddr s) 8
      ((stateView o).pc s + 4).toNat := handled_mem hp hu hv hf hpc
  have hpcAddr : (stateView o).pcAddr s' = (stateView o).pcAddr s := by
    have hapart := hrep.placed.pc_pcptr
    have hptr : (stateView o).pcptr ((switchPlan o used).run f s) = (stateView o).pcptr s :=
      pcptr_congr (hv.run_cpu hf hr)
    rw [StateView.pcAddr, pcptr_congr h26, hmem, Mem.loadLE_storeLE_apart (by omega), ← hptr]
    exact run_pcAddr hp hu hv hf
  have hpcNext : (stateView o).pc s' = t.pc + 4 := hrep.pc ▸ handled_pc hp hu hv hf hpc
  constructor
  case toRepresents =>
    constructor
    case cpu => exact h26.trans hrep.cpu
    case sp => exact hspEq.trans hrep.sp
    case x => exact fun j hj => (hx j hj.1 hj.2.2.2).trans (hrep.x j hj)
    case d =>
      intro j h8 h15
      rw [hadv.others _ (by simp), plan_d hr hv hf hi hfree h8 h15, hrep.d j h8 h15]
    case mem =>
      intro a ha
      rw [hmem, Mem.storeLE_outside (hrep.apart.pc a ha), plan_guarded hrep hv hf hr ha]
    case placed => exact placed_congr hrep.placed h26 hspEq hpcAddr
    case apart => exact hrep.apart.congr h26 hspEq hpcAddr
    case regs => exact native_regs hrep hsp hi hfree hf hpc
    case pc => exact hpcNext
    case guest =>
      have heffect := hf.reads ((switchPlan o used).enter s).regs ((stateView o).regs s) s.guest
        fun k hk => enter_regs_eq hp hu hv ((mem_loaded hsp).mpr hk) rfl k.width_eq
      rw [hadv.guest, hv.run_guest, heffect.2, hrep.regs, hrep.guest]
  case chain => rw [hadv.chain, h27]
  case state =>
    rw [hadv.state, ← hrep.cpu]
    exact hv.run_cpu hf hr
  case vmaddr =>
    rw [hadv.vmaddr, run_pc hp hu hv hf, hrep.pc]
  case insn => rw [hadv.insn, h27]
  case handler => rw [hadv.handler, h27]

end Native

/-! ## 連鎖の全体 -/

section Chain

variable {i : Image G} {F : Fixed} {p : Program G}

/-- 約束を守る handler は、どれも次の handler に正しく飛ぶ。 -/
theorem Implements.running {o : StateOffsets} {h : Handler G} {f : Meaning G} {s : Host G}
    {t t' : Thread G} (hi : Implements o F h f) (hs : Running o F s t) (ht' : f t = some t') :
    Running o F (h.run o s) t' := by
  cases hi with
  | event hf => exact hf.running hs ht'
  | native hsp hfree hf hm => exact native_running hsp hfree hf hs (hm _ _ ht')
  | lifted hf => exact hf.running hs ht'

/--
slot の列の置き場。`guarded` の番地には slot と `CPU.retaddr` があり、slot の handler の番地には、その意味の通りに
動く code がある。番地は 59 bit に収まる。
-/
structure Loads (i : Image G) (F : Fixed) (p : Program G) : Prop where
  slot : ∀ a x, p.slot a = some x → a ≠ p.retCell →
    (∀ n < 8, F.guarded (a.toNat + n)) ∧ F.image.loadLE a.toNat 8 = p.word x
  retCell : ∀ n < 8, F.guarded (p.retCell.toNat + n)
  ret : F.image.loadLE p.retCell.toNat 8 = i.ret.toNat
  ret_lt : i.ret.toNat < 2 ^ 59
  address : ∀ h f, p.meaning h = some f → p.address h < 2 ^ 59 ∧ p.address h ≠ i.ret.toNat ∧
    ∃ b, i.handler (p.address h) = some b ∧ Implements i.offsets F b f

/-- `Instruction` の下位の 59 bit は、handler の番地である。 -/
theorem Program.word_mod (p : Program G) (x : Instruction) (h : p.address x.handler < 2 ^ 59) :
    p.word x % 2 ^ 59 = p.address x.handler := by
  unfold Program.word
  split <;> omega

variable {s : Host G} {t : Thread G}

/-- 今の slot が `retCell` なら、飛び先は `aether_vm_entry` の残りである。 -/
theorem Running.handler_ret (h : Running i.offsets F s t) (hl : Loads i F p)
    (ht : t.insn = p.retCell) : gpr s 16 = i.ret := by
  have hmem : s.mem.loadLE p.retCell.toNat 8 = F.image.loadLE p.retCell.toNat 8 :=
    Mem.loadLE_eq_iff.mpr fun n hn => h.mem _ (hl.retCell n hn)
  apply BitVec.eq_of_toNat_eq
  rw [h.handler, ht, hmem, hl.ret, Nat.mod_eq_of_lt hl.ret_lt]

/-- 今の slot が `retCell` でなければ、飛び先は slot の handler である。 -/
theorem Running.handler_slot (h : Running i.offsets F s t) (hl : Loads i F p)
    (ht : t.insn ≠ p.retCell) {x : Instruction} (hx : p.slot t.insn = some x)
    (haddr : p.address x.handler < 2 ^ 59) : (gpr s 16).toNat = p.address x.handler := by
  obtain ⟨hguarded, hword⟩ := hl.slot t.insn x hx ht
  have hmem : s.mem.loadLE t.insn.toNat 8 = F.image.loadLE t.insn.toNat 8 :=
    Mem.loadLE_eq_iff.mpr fun n hn => h.mem _ (hguarded n hn)
  rw [h.handler, hmem, hword, p.word_mod x haddr]

/-- host の一歩が、slot の列の一歩を表すこと。slot の列の意味が決まらなければ、何も言わない。 -/
def StepsAs (o : StateOffsets) (F : Fixed) (x : Host G ⊕ Option (Host G))
    (y : Thread G ⊕ Option (Thread G)) : Prop :=
  match y with
  | .inl t => ∃ s, x = .inl s ∧ Running o F s t
  | .inr (some t) => ∃ s, x = .inr (some s) ∧ Running o F s t
  | .inr none => True

theorem step_stepsAs (hl : Loads i F p) (h : Running i.offsets F s t) :
    StepsAs i.offsets F (i.step s) (p.step t) := by
  unfold Program.step
  split
  · next ht =>
    refine ⟨s, ?_, h⟩
    rw [Image.step, if_pos (h.handler_ret hl ht)]
  · next ht =>
    cases hx : p.slot t.insn with
    | none => trivial
    | some x =>
      cases hm : (p.meaning x.handler).bind (· t) with
      | none => simp only [hm, StepsAs]
      | some t' =>
        obtain ⟨f, hf, ht'⟩ := Option.bind_eq_some_iff.mp hm
        obtain ⟨haddr, hne, b, hb, himpl⟩ := hl.address x.handler f hf
        have h16 := h.handler_slot hl ht hx haddr
        have hret : gpr s 16 ≠ i.ret := fun heq => hne (by rw [← h16, heq])
        simp only [hm]
        refine ⟨b.run i.offsets s, ?_, himpl.running h ht'⟩
        rw [Image.step, if_neg hret, h16, hb]

/-- handler を何個実行しても、host の状態は slot の列の意味の状態を表す。 -/
theorem loop_stepsAs (hl : Loads i F p) (fuel : Nat) :
    ∀ {s : Host G} {t : Thread G}, Running i.offsets F s t →
      StepsAs i.offsets F (loop i.step fuel s) (loop p.step fuel t) := by
  induction fuel with
  | zero => exact fun h => ⟨_, rfl, h⟩
  | succ fuel ih =>
    intro s t h
    have hstep := step_stepsAs hl h
    rw [loop, loop]
    cases ht : p.step t with
    | inl t' =>
      rw [ht] at hstep
      obtain ⟨s', hs', h'⟩ := hstep
      rw [hs']
      exact ih h'
    | inr r =>
      cases r with
      | none => trivial
      | some t' =>
        rw [ht] at hstep
        obtain ⟨s', hs', h'⟩ := hstep
        rw [hs']
        exact ⟨s', rfl, h'⟩

end Chain

end Entry.AArch64

end AetherVM
