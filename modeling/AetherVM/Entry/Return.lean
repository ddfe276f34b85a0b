import AetherVM.Entry.Frame

/-!
# VM から戻ること

`aether_vm_entry` を呼ぶと、slot の列の意味の通りに handler が動き、`finish_emulation` に着けば、呼び手の保つべき
register と stack pointer を元に戻して帰る。途中で実行する slot の並びや数には依らない。
-/

namespace AetherVM

namespace Entry.AArch64

open Infra Lifter Lifter.AArch64 Orchestrator

variable {G : Type}

/-! ## 連鎖に入るところ -/

theorem runCode_append (prog prog' : List (Code G)) (s : Host G) :
    runCode (prog ++ prog') s = runCode prog' (runCode prog s) := List.foldl_append

theorem exec_ubfxWord (f : Effect hostModel G) (s : Host G) (i j : Fin 31) (lsb w : Nat) :
    Asm.exec f s (.ubfx (.x i) (.x j) lsb w) =
      wBank.set s (some i) (BitVec.ofNat 64 ((wBank.get s (some j)).toNat / 2 ^ lsb % 2 ^ w)) := rfl

/-- `enterVm` の後の状態。`ret` を `x3` の指す所と、`vm_retaddr` の返した所に書いてある。 -/
structure Jumped (ret : BitVec 64) (s s' : Host G) : Prop where
  state : gpr s' 0 = gpr s 26
  vmaddr : gpr s' 1 = BitVec.ofNat 64 (s.mem.loadLE (reg s none).toNat 8)
  insn : gpr s' 2 = gpr s 27
  handler : (gpr s' 16).toNat = s'.mem.loadLE (gpr s 27).toNat 8 % 2 ^ 59
  others : ∀ k, k ∉ [.x 0, .x 1, .x 2, .x 3, .x 4, .x 16, .x 30] → s'.regs k = s.regs k
  mem : s'.mem = (s.mem.storeLE (s.mem.loadLE (reg s none + BitVec.ofInt 64 8).toNat 8) 8
    ret.toNat).storeLE (gpr s 0).toNat 8 ret.toNat
  guest : s'.guest = s.guest

/-- `enterVm` の命令を順に実行した状態。 -/
def jumped (ret : BitVec 64) (s : Host G) : Host G :=
  let host := s.mem.loadLE (reg s none + BitVec.ofInt 64 8).toNat 8
  let s₁ := wBank.set (wBank.set (wBank.set s (some 4) (reg s (some 0))) (some 0)
    (reg s (some 26))) (some 2) (reg s (some 27))
  let s₂ := wBank.set (wBank.set s₁ (some 1) (BitVec.ofNat 64 (s.mem.loadLE (reg s none).toNat 8)))
    (some 3) (BitVec.ofNat 64 host)
  let s₃ := WordBank.setWord (wBank.set s₂ (some 30) ret) host ret
  let s₄ := WordBank.setWord s₃ (reg s (some 0)).toNat ret
  let word := s₄.mem.loadLE (reg s (some 27)).toNat 8
  wBank.set (wBank.set s₄ (some 16) (BitVec.ofNat 64 word)) (some 16)
    (BitVec.ofNat 64 (word % 2 ^ 59))

theorem runCode_enterVm (ret : BitVec 64) (s : Host G) : runCode (enterVm ret) s = jumped ret s := by
  have hzero : ∀ x : BitVec 64, x + BitVec.ofInt 64 0 = x := fun x => BitVec.add_zero x
  simp only [runCode, enterVm, ldp, vmEnterAArch64, extractHandlerX16, List.cons_append,
    List.nil_append, List.foldl_cons, List.foldl_nil, Code.exec, exec_mov_word, exec_ldrSp,
    exec_strWord, exec_ldrWord, exec_ubfxWord, xBank_set_eq, WordBank.get_set, wBank_get_setWord,
    WordBank.set_mem, if_true, if_false, reduceCtorEq, Option.some.injEq, Fin.reduceEq, jumped,
    reg, hzero, WordBank.toNat_loadLE, Int.reduceAdd, Nat.pow_zero, Nat.div_one,
    exec_br]

theorem enterVm_jumped (ret : BitVec 64) (s : Host G) : Jumped ret s (runCode (enterVm ret) s) := by
  rw [runCode_enterVm]
  have hgpr : ∀ (u : Host G) i, gpr u i = wBank.get u (some i) := fun _ _ => rfl
  constructor
  case state => simp [jumped, hgpr, reg, wBank_get_setWord, -WordBank.get_setWord]
  case vmaddr => simp [jumped, hgpr, reg, wBank_get_setWord, -WordBank.get_setWord]
  case insn => simp [jumped, hgpr, reg, wBank_get_setWord, -WordBank.get_setWord]
  case handler =>
    have hlt : ∀ m : Mem, m.loadLE (reg s (some 27)).toNat 8 % 2 ^ 59 < 2 ^ 64 :=
      fun m => by omega
    simp only [jumped, hgpr, WordBank.get_set, WordBank.set_mem, if_true, BitVec.toNat_ofNat]
    exact Nat.mod_eq_of_lt (hlt _)
  case others =>
    intro k hk
    simp only [List.mem_cons, List.not_mem_nil, or_false, not_or] at hk
    obtain ⟨h0, h1, h2, h3, h4, h16, h30⟩ := hk
    have hset : ∀ (u : Host G) (i : Fin 31) v, k ≠ .x i →
        (wBank.set u (some i) v).regs k = u.regs k := fun u i v h => wBank.set_regs u (some i) v h
    simp only [jumped, WordBank.setWord_regs, hset _ _ _ h0, hset _ _ _ h1, hset _ _ _ h2,
      hset _ _ _ h3, hset _ _ _ h4, hset _ _ _ h16, hset _ _ _ h30]
  case mem => simp only [jumped, WordBank.set_mem, WordBank.setWord_mem, hgpr, reg]
  case guest => simp only [jumped, WordBank.set_guest, WordBank.setWord_guest]

/-! ## 連鎖から戻るところ -/

theorem epilogue_restored (s : Host G) :
    Restored entryFrame [26, 27, 29, 30] s (runCode epilogue s) := by
  have hrun : runCode epilogue s =
      let load (off : Int) : BitVec 64 :=
        BitVec.ofNat 64 (s.mem.loadLE (reg s none + BitVec.ofInt 64 off).toNat 8)
      wBank.set (wBank.set (wBank.set (wBank.set (wBank.set s (some 29) (load 0x20)) (some 30)
        (load 0x28)) (some 26) (load 0x10)) (some 27) (load 0x18)) none
        (reg s none + BitVec.ofInt 64 0x30) := by
    simp only [runCode, epilogue, ldp, List.cons_append, List.nil_append, List.foldl_cons,
      List.foldl_nil, Code.exec, exec_ldrSp, exec_addSp, WordBank.get_set, WordBank.set_mem,
      if_false, reduceCtorEq, reg, Int.reduceAdd]
    rfl
  rw [hrun]
  constructor
  case sp => simp [reg]
  case saved =>
    intro i hi
    simp only [List.mem_cons, List.not_mem_nil, or_false] at hi
    rcases hi with rfl | rfl | rfl | rfl <;> simp [reg, entryFrame]
  case others =>
    intro k hk
    simp only [List.map_cons, List.map_nil, List.mem_cons, List.not_mem_nil, or_false, not_or] at hk
    obtain ⟨hsp, h26, h27, h29, h30⟩ := hk
    have hset : ∀ (u : Host G) (i : Option (Fin 31)) v, k ≠ wBank.reg i →
        (wBank.set u i v).regs k = u.regs k := fun u i v h => wBank.set_regs u i v h
    rw [hset _ none _ hsp, hset _ (some 27) _ h27, hset _ (some 26) _ h26, hset _ (some 30) _ h30,
      hset _ (some 29) _ h29]
  case mem => rfl
  case guest => rfl

/-! ## 呼び出しの条件 -/

/-- 戻り先を書く場所。`retaddr_aarch64` は guest の `LR`、`OpcodeEngine.cpp` の `vm_retaddr` は `CPU.rvalue` を返す。 -/
inductive RetPlace where
  | lr
  | rvalue
deriving DecidableEq, Repr

/-- `ret` を書いたあとの guest の register。 -/
def RetPlace.regs (place : RetPlace) (ret : BitVec 64) (R : hostModel.Values) : hostModel.Values :=
  match place with
  | .lr => Function.update R (.x 30) ret
  | .rvalue => R

theorem RetPlace.regs_lr (ret : BitVec 64) (R : hostModel.Values) :
    RetPlace.lr.regs ret R (.x 30) = ret :=
  Function.update_self (β := fun k => BitVec (hostModel.width k)) (.x 30) ret R

theorem RetPlace.regs_of_ne (ret : BitVec 64) (R : hostModel.Values) {k : HostReg}
    (hk : k ≠ .x 30) : RetPlace.lr.regs ret R k = R k := Function.update_of_ne hk _ R

/--
`vm_retaddr` の約束。`ptr` を返し、stack の `lo` までのほかは変えない。

AArch64 の guest のためのものである。x86 の guest の `retaddr_x86` は `State` の `RSP` を書き換えるので、この約束を
守らない。
-/
structure RetaddrObeys (f : Host G → Host G) (lo : Nat) (ptr : BitVec 64) : Prop where
  result : ∀ s, gpr (f s) 0 = ptr
  sp : ∀ s, (f s).regs .sp = s.regs .sp
  x : ∀ s (i : Fin 31), 19 ≤ i.val → i.val ≤ 28 → gpr (f s) i = gpr s i
  d : ∀ s (i : Fin 32), 8 ≤ i.val → i.val ≤ 15 →
    ((f s).regs (.q i)).toNat % 2 ^ 64 = (s.regs (.q i)).toNat % 2 ^ 64
  mem : ∀ s a, a < lo ∨ (s.regs .sp).toNat ≤ a → (f s).mem a = s.mem a
  guest : ∀ s, (f s).guest = s.guest

/-- 二つの範囲が重ならないこと。 -/
def Separate (a n b m : Nat) : Prop := a + n ≤ b ∨ b + m ≤ a

/-- 連鎖に入った時の `x26` と stack pointer を持つ状態。`State` と pc は、これから読む。 -/
def lowered (s : Host G) : Host G :=
  wBank.set (wBank.set s none (frameSp s)) (some 26) (gpr s 0)

/-- slot の列の置き場と、`CPU.retaddr`。 -/
def Program.Cell (p : Program G) (a : BitVec 64) : Prop := a = p.retCell ∨ (p.slot a).isSome = true

/-- `State` と pc と `pcptr` と、stack の `lo` から上に重ならない範囲。 -/
structure Outside (o : StateOffsets) (s : Host G) (lo a n : Nat) : Prop where
  regs : ∀ k, Separate a n ((stateView o).addr (lowered s) k) k.bytes
  pc : Separate a n ((stateView o).pcAddr (lowered s)) 8
  pcptr : Separate a n ((stateView o).pcptr (lowered s)) 8
  stack : a + n ≤ lo ∨ (s.regs .sp).toNat ≤ a

/-- `aether_vm_entry` の引数と、memory の配置。 -/
structure Enters (o : StateOffsets) (p : Program G) (place : RetPlace) (ptr : BitVec 64) (lo : Nat)
    (s : Host G) : Prop where
  placed : StatePlaced o (lowered s)
  room : lo + 0x170 ≤ (s.regs .sp).toNat
  vmaddr : gpr s 1 = (stateView o).pc (lowered s)
  retCell : gpr s 3 = p.retCell
  regs : ∀ k, (stateView o).addr (lowered s) k + k.bytes ≤ lo ∨
    (s.regs .sp).toNat ≤ (stateView o).addr (lowered s) k
  pc : (stateView o).pcAddr (lowered s) + 8 ≤ lo ∨
    (s.regs .sp).toNat ≤ (stateView o).pcAddr (lowered s)
  pcptr : (stateView o).pcptr (lowered s) + 8 ≤ lo ∨
    (s.regs .sp).toNat ≤ (stateView o).pcptr (lowered s)
  cell : ∀ a, p.Cell a → Outside o s lo a.toNat 8
  apart : ∀ a, p.Cell a → a ≠ p.retCell → Separate a.toNat 8 p.retCell.toNat 8
  word : ∀ a x, p.slot a = some x → a ≠ p.retCell → s.mem.loadLE a.toNat 8 = p.word x
  lr : place = .lr → ptr.toNat = (stateView o).addr (lowered s) (.x 30)
  rvalue : place = .rvalue → Outside o s lo ptr.toNat 8 ∧
    ∀ a, p.Cell a → Separate a.toNat 8 ptr.toNat 8

/-- 配置の条件は、handler の意味に依らない。 -/
theorem Enters.congr {o : StateOffsets} {p p' : Program G} {place : RetPlace} {ptr : BitVec 64}
    {lo : Nat} {s : Host G} (h : Enters o p place ptr lo s) (hslot : p'.slot = p.slot)
    (hret : p'.retCell = p.retCell) (haddr : p'.address = p.address) :
    Enters o p' place ptr lo s := by
  obtain ⟨slot, retCell, address, meaning⟩ := p
  obtain ⟨slot', retCell', address', meaning'⟩ := p'
  subst hslot hret haddr
  exact { h with }

/-- 連鎖の間に変わらないもの。`image` は、連鎖に入った時の memory である。 -/
def fixed (i : Image G) (p : Program G) (link : BitVec 64) (s : Host G) : Fixed where
  base := gpr s 0
  sp := frameSp s
  x := gpr s
  d := fun j => (s.regs (.q j)).toNat % 2 ^ 64
  guarded := fun a => (∃ c, p.Cell c ∧ c.toNat ≤ a ∧ a < c.toNat + 8) ∨
    ((s.regs .sp).toNat - 0x20 ≤ a ∧ a < (s.regs .sp).toNat)
  image := (i.enter link s).mem

/-- 連鎖に入った時の、slot の列の意味の状態。 -/
def entered (i : Image G) (place : RetPlace) (s : Host G) : Thread G where
  regs := place.regs i.ret ((stateView i.offsets).regs (lowered s))
  pc := gpr s 1
  guest := s.guest
  insn := gpr s 2

/-! ## 連鎖に入った時の状態 -/

section Entered

variable {i : Image G} {p : Program G} {place : RetPlace} {ptr link : BitVec 64} {lo : Nat}
  {s : Host G}

/-- `vm_retaddr` から戻った時の状態。 -/
structure Called (ptr : BitVec 64) (lo : Nat) (s u : Host G) : Prop where
  result : gpr u 0 = ptr
  sp : reg u none = frameSp s
  cpu : gpr u 26 = gpr s 0
  insns : gpr u 27 = gpr s 2
  x : ∀ j, Kept j → gpr u j = gpr s j
  d : ∀ j : Fin 32, 8 ≤ j.val → j.val ≤ 15 →
    (u.regs (.q j)).toNat % 2 ^ 64 = (s.regs (.q j)).toNat % 2 ^ 64
  mem : ∀ a, a < lo ∨ (s.regs .sp).toNat - 0x30 ≤ a → u.mem a = entryFrame.mem s a
  guest : u.guest = s.guest

theorem called (link : BitVec 64) (hf : RetaddrObeys i.vmRetaddr lo ptr)
    (hroom : 0x30 ≤ (s.regs .sp).toNat) :
    Called ptr lo s (i.vmRetaddr (xBank.set (runCode prologue s) 30 link)) := by
  have hs := prologue_framed s
  generalize runCode prologue s = s₁ at hs
  have hx : ∀ j : Fin 31, j ≠ 30 → gpr (xBank.set s₁ 30 link) j = gpr s₁ j := by
    intro j hj
    simp only [gpr, WordBank.get_set, if_neg hj]
  have hsp : reg (xBank.set s₁ 30 link) none = frameSp s :=
    (reg_of_sp (xBank.set_regs s₁ 30 link (k := .sp) (by simp))).trans hs.sp
  constructor
  case result => exact hf.result _
  case sp => exact (reg_of_sp (hf.sp _)).trans hsp
  case cpu => exact (hf.x _ 26 (by decide) (by decide)).trans ((hx 26 (by decide)).trans hs.cpu)
  case insns => exact (hf.x _ 27 (by decide) (by decide)).trans ((hx 27 (by decide)).trans hs.insns)
  case x =>
    rintro j ⟨h19, h28, h26, h27⟩
    have h29 : j ≠ 29 := by
      rintro rfl
      exact absurd h28 (by decide)
    have h30 : j ≠ 30 := by
      rintro rfl
      exact absurd h28 (by decide)
    exact (hf.x _ j h19 h28).trans ((hx j h30).trans (hs.others j h26 h27 h29))
  case d =>
    intro j h8 h15
    rw [hf.d _ j h8 h15, xBank_set_eq, set_q, hs.q]
  case mem =>
    intro a ha
    have hframe : ((xBank.set s₁ 30 link).regs .sp).toNat = (s.regs .sp).toNat - 0x30 := by
      rw [← reg_none, hsp, frameSp_toNat hroom]
    rw [hf.mem _ a (by rwa [hframe]), WordBank.set_mem, hs.mem]
  case guest => rw [hf.guest, WordBank.set_guest, hs.guest]

theorem enter_eq : i.enter link s =
    runCode (enterVm i.ret) (i.vmRetaddr (xBank.set (runCode prologue s) 30 link)) := by
  rw [Image.enter, runCode_append, runCode_append]
  rfl

/-- 連鎖に入った時の状態。 -/
structure Arrived (ret ptr retCell : BitVec 64) (lo : Nat) (s e : Host G) : Prop where
  state : gpr e 0 = gpr s 0
  vmaddr : gpr e 1 = gpr s 1
  insn : gpr e 2 = gpr s 2
  handler : (gpr e 16).toNat = e.mem.loadLE (gpr s 2).toNat 8 % 2 ^ 59
  sp : reg e none = frameSp s
  cpu : gpr e 26 = gpr s 0
  insns : gpr e 27 = gpr s 2
  x : ∀ j, Kept j → gpr e j = gpr s j
  d : ∀ j : Fin 32, 8 ≤ j.val → j.val ≤ 15 →
    (e.regs (.q j)).toNat % 2 ^ 64 = (s.regs (.q j)).toNat % 2 ^ 64
  guest : e.guest = s.guest
  mem : ∃ m : Mem, (∀ a, a < lo ∨ (s.regs .sp).toNat - 0x30 ≤ a → m a = entryFrame.mem s a) ∧
    e.mem = (m.storeLE retCell.toNat 8 ret.toNat).storeLE ptr.toNat 8 ret.toNat

theorem arrived (link : BitVec 64) (hf : RetaddrObeys i.vmRetaddr lo ptr)
    (h : Enters i.offsets p place ptr lo s) :
    Arrived i.ret ptr p.retCell lo s (i.enter link s) := by
  have hroom : 0x30 ≤ (s.regs .sp).toNat := by
    have := h.room
    omega
  have hu := called link hf hroom
  rw [enter_eq]
  generalize i.vmRetaddr (xBank.set (runCode prologue s) 30 link) = u at hu
  have he := enterVm_jumped i.ret u
  generalize runCode (enterVm i.ret) u = e at he
  have hsp : reg u none = frameSp s := hu.sp
  have hframe := frameSp_toNat hroom
  -- `vm_retaddr` を呼ぶ前に退避した引数を読み直す
  have hword : ∀ j ∈ entryFrame.regs, u.mem.loadLE (entryFrame.addr s j) 8 = (reg s (some j)).toNat := by
    intro j hj
    rw [← entryFrame.mem_word hroom hj]
    refine Mem.loadLE_eq_iff.mpr fun n hn => hu.mem _ (.inr ?_)
    rw [entryFrame.addr_eq hroom]
    omega
  have h1 : u.mem.loadLE (reg u none).toNat 8 = (gpr s 1).toNat := by
    have haddr : entryFrame.addr s 1 = (reg u none).toNat := by
      rw [entryFrame.addr_eq hroom, hsp, hframe]
      rfl
    rw [← haddr]
    exact hword 1 (by decide)
  have h3 : u.mem.loadLE (reg u none + BitVec.ofInt 64 8).toNat 8 = p.retCell.toNat := by
    rw [hsp, ← h.retCell]
    exact hword 3 (by decide)
  have hx : ∀ j : Fin 31, 19 ≤ j.val → j.val ≤ 28 → gpr e j = gpr u j := by
    intro j h19 h28
    refine xBank.get_congr (he.others _ ?_)
    simp only [List.mem_cons, List.not_mem_nil, or_false, not_or]
    refine ⟨?_, ?_, ?_, ?_, ?_, ?_, ?_⟩ <;> (intro heq; cases heq; revert h19 h28; decide)
  constructor
  case state => rw [he.state, hu.cpu]
  case vmaddr => rw [he.vmaddr, h1, BitVec.ofNat_toNat, BitVec.setWidth_eq]
  case insn => rw [he.insn, hu.insns]
  case handler => rw [he.handler, hu.insns]
  case sp => exact (reg_of_sp (he.others _ (by decide))).trans hu.sp
  case cpu => exact (hx 26 (by decide) (by decide)).trans hu.cpu
  case insns => exact (hx 27 (by decide) (by decide)).trans hu.insns
  case x => exact fun j hj => (hx j hj.1 hj.2.1).trans (hu.x j hj)
  case d =>
    intro j h8 h15
    rw [he.others _ (by simp), hu.d j h8 h15]
  case guest => rw [he.guest, hu.guest]
  case mem => exact ⟨u.mem, hu.mem, by rw [he.mem, h3, hu.result]⟩

section Memory

variable {o : StateOffsets} {ret : BitVec 64} {e : Host G}

theorem lowered_cpu (s : Host G) : gpr (lowered s) 26 = gpr s 0 := by
  have hget : gpr (lowered s) 26 = wBank.get (lowered s) (some 26) := rfl
  rw [hget, lowered, WordBank.get_set, if_pos rfl]

theorem lowered_sp (s : Host G) : reg (lowered s) none = frameSp s := by
  rw [reg, lowered, WordBank.get_set, WordBank.get_set]
  rfl

theorem Separate.symm {a n b m : Nat} (h : Separate a n b m) : Separate b m a n := Or.symm h

/-- `ptr` は stack の `lo` から上に無い。 -/
theorem Enters.ptr_stack (h : Enters o p place ptr lo s) :
    ptr.toNat + 8 ≤ lo ∨ (s.regs .sp).toNat ≤ ptr.toNat := by
  cases hplace : place with
  | lr =>
    rw [h.lr hplace]
    exact h.regs (.x 30)
  | rvalue => exact (h.rvalue hplace).1.stack

theorem Enters.retCell_outside (h : Enters o p place ptr lo s) :
    Outside o s lo p.retCell.toNat 8 := h.cell _ (.inl rfl)

/-- `ptr` は slot の列にも `CPU.retaddr` にも重ならない。 -/
theorem Enters.ptr_cell (h : Enters o p place ptr lo s) {a : BitVec 64} (ha : p.Cell a) :
    Separate a.toNat 8 ptr.toNat 8 := by
  cases hplace : place with
  | lr =>
    rw [h.lr hplace]
    exact (h.cell a ha).regs (.x 30)
  | rvalue => exact (h.rvalue hplace).2 a ha

/-- `ptr` は pc の番地にも `pcptr` にも重ならない。 -/
theorem Enters.ptr_pc (h : Enters o p place ptr lo s) :
    Separate ((stateView o).pcAddr (lowered s)) 8 ptr.toNat 8 ∧
      Separate ((stateView o).pcptr (lowered s)) 8 ptr.toNat 8 := by
  cases hplace : place with
  | lr =>
    rw [h.lr hplace]
    exact ⟨h.placed.pc_regs (.x 30), h.placed.placed.pcptr_regs (.x 30)⟩
  | rvalue => exact ⟨(h.rvalue hplace).1.pc.symm, (h.rvalue hplace).1.pcptr.symm⟩

variable (ha : Arrived ret ptr p.retCell lo s e) (h : Enters o p place ptr lo s)

include ha h

/-- stack と、`ret` を書いた二つの場所の外では、読む値は変わらない。 -/
theorem Arrived.load_far {a n : Nat} (hstack : a + n ≤ lo ∨ (s.regs .sp).toNat ≤ a)
    (hret : Separate a n p.retCell.toNat 8) (hptr : Separate a n ptr.toNat 8) :
    e.mem.loadLE a n = s.mem.loadLE a n := by
  have hroom := h.room
  obtain ⟨m, hm, hmem⟩ := ha.mem
  rw [hmem, Mem.loadLE_storeLE_apart hptr, Mem.loadLE_storeLE_apart hret]
  refine Mem.loadLE_eq_iff.mpr fun j hj => ?_
  rw [hm _ (by omega), entryFrame.mem_outside (by omega) (by omega)]

/-- 退避した register は、stack に残っている。 -/
theorem Arrived.load_frame {j : Fin 31} (hj : j ∈ entryFrame.regs) :
    e.mem.loadLE (entryFrame.addr s j) 8 = (reg s (some j)).toNat := by
  have hroom : 0x30 ≤ (s.regs .sp).toNat := by
    have := h.room
    omega
  have hlo := h.room
  have hptr := h.ptr_stack
  have hret := h.retCell_outside.stack
  have haddr := entryFrame.addr_eq hroom j
  have hoff := entryFrame.bound j
  obtain ⟨m, hm, hmem⟩ := ha.mem
  rw [hmem, Mem.loadLE_storeLE_apart (by omega), Mem.loadLE_storeLE_apart (by omega),
    ← entryFrame.mem_word hroom hj]
  exact Mem.loadLE_eq_iff.mpr fun n hn => hm _ (by omega)

theorem Arrived.pcAddr_eq : (stateView o).pcAddr e = (stateView o).pcAddr (lowered s) := by
  have h26 : gpr e 26 = gpr (lowered s) 26 := ha.cpu.trans (lowered_cpu s).symm
  rw [StateView.pcAddr, pcptr_congr h26]
  exact ha.load_far h h.pcptr h.retCell_outside.pcptr.symm h.ptr_pc.2

theorem Arrived.placed : StatePlaced o e := by
  refine placed_congr h.placed (ha.cpu.trans (lowered_cpu s).symm) ?_ (ha.pcAddr_eq h)
  rw [sp_of_reg ha.sp, sp_of_reg (lowered_sp s)]

/-- `State` の register は、`ret` を書いた所のほかは、呼ばれた時のままである。 -/
theorem Arrived.regs_eq : (stateView o).regs e =
    place.regs ret ((stateView o).regs (lowered s)) := by
  have haddr : ∀ k, (stateView o).addr e k = (stateView o).addr (lowered s) k :=
    addr_congr (ha.cpu.trans (lowered_cpu s).symm)
  have hfar : ∀ k, Separate ((stateView o).addr (lowered s) k) k.bytes ptr.toNat 8 →
      (stateView o).regs e k = (stateView o).regs (lowered s) k := by
    intro k hk
    rw [StateView.regs, haddr, StateView.regs]
    exact congrArg (BitVec.ofNat _)
      (ha.load_far h (h.regs k) (h.retCell_outside.regs k).symm hk)
  funext k
  cases hplace : place with
  | rvalue => exact hfar k ((h.rvalue hplace).1.regs k).symm
  | lr =>
    by_cases hk : k = .x 30
    · subst hk
      obtain ⟨m, -, hmem⟩ := ha.mem
      have hload : e.mem.loadLE ((stateView o).addr e (.x 30)) 8 = ret.toNat := by
        rw [haddr, ← h.lr hplace, hmem]
        exact Mem.loadLE_storeLE _ _ ret.isLt
      refine Eq.trans ?_ (RetPlace.regs_lr ret _).symm
      refine (congrArg (BitVec.ofNat 64) hload).trans ?_
      rw [BitVec.ofNat_toNat, BitVec.setWidth_eq]
    · rw [RetPlace.regs_of_ne _ _ hk]
      refine hfar k ?_
      rw [h.lr hplace]
      exact h.placed.placed.regs_apart k (.x 30) hk

end Memory

/-- 連鎖に入った時、host の状態は slot の列の意味の状態を表す。 -/
theorem running_entered (hf : RetaddrObeys i.vmRetaddr lo ptr)
    (h : Enters i.offsets p place ptr lo s) :
    Running i.offsets (fixed i p link s) (i.enter link s) (entered i place s) := by
  have ha := arrived link hf h
  have hroom := h.room
  have hframe : ((i.enter link s).regs .sp).toNat = (s.regs .sp).toNat - 0x30 := by
    rw [← reg_none, ha.sp, frameSp_toNat (by omega)]
  have h26 : gpr (i.enter link s) 26 = gpr (lowered s) 26 := ha.cpu.trans (lowered_cpu s).symm
  have hpcAddr := ha.pcAddr_eq h
  constructor
  case toRepresents =>
    constructor
    case cpu => exact ha.cpu
    case sp => exact sp_of_reg ha.sp
    case x => exact ha.x
    case d => exact ha.d
    case mem => exact fun _ _ => rfl
    case placed => exact ha.placed h
    case apart =>
      constructor
      case regs =>
        intro a hguarded k
        rw [addr_congr h26]
        rcases hguarded with ⟨c, hc, hle, hlt⟩ | ⟨hle, hlt⟩
        · have hsep := (h.cell c hc).regs k
          unfold Separate at hsep
          omega
        · have hstack := h.regs k
          omega
      case pc =>
        intro a hguarded
        rw [hpcAddr]
        rcases hguarded with ⟨c, hc, hle, hlt⟩ | ⟨hle, hlt⟩
        · have hsep := (h.cell c hc).pc
          unfold Separate at hsep
          omega
        · have hstack := h.pc
          omega
      case stack =>
        intro a hguarded
        rw [hframe]
        rcases hguarded with ⟨c, hc, hle, hlt⟩ | ⟨hle, hlt⟩
        · have hstack := (h.cell c hc).stack
          omega
        · omega
    case regs => exact ha.regs_eq h
    case pc =>
      rw [entered, h.vmaddr, StateView.pc, hpcAddr, StateView.pc]
      exact congrArg (BitVec.ofNat 64)
        (ha.load_far h h.pc h.retCell_outside.pc.symm h.ptr_pc.1)
    case guest => exact ha.guest
  case chain => exact ha.insns
  case state => exact ha.state
  case vmaddr => exact ha.vmaddr
  case insn => exact ha.insn
  case handler => exact ha.handler

theorem fixed_image : (fixed i p link s).image = (i.enter link s).mem := by
  simp only [fixed]

/-- slot の列と `CPU.retaddr` は、連鎖に入った時の memory にある。 -/
theorem loads_entered (hf : RetaddrObeys i.vmRetaddr lo ptr)
    (h : Enters i.offsets p place ptr lo s) (hret : i.ret.toNat < 2 ^ 59)
    (hcode : ∀ r f, p.meaning r = some f → p.address r < 2 ^ 59 ∧ p.address r ≠ i.ret.toNat ∧
      ∃ b, i.handler (p.address r) = some b ∧ Implements i.offsets (fixed i p link s) b f) :
    Loads i (fixed i p link s) p := by
  have ha := arrived link hf h
  have hguarded : ∀ c, p.Cell c → ∀ n < 8, (fixed i p link s).guarded (c.toNat + n) :=
    fun c hc n hn => .inl ⟨c, hc, Nat.le_add_right _ _, Nat.add_lt_add_left hn _⟩
  constructor
  case slot =>
    intro a x hx hne
    have hcell : p.Cell a := .inr (by rw [hx]; rfl)
    have hfar : (i.enter link s).mem.loadLE a.toNat 8 = s.mem.loadLE a.toNat 8 :=
      ha.load_far h (h.cell a hcell).stack (h.apart a hcell hne) (h.ptr_cell hcell)
    rw [fixed_image]
    exact ⟨hguarded a hcell, hfar.trans (h.word a x hx hne)⟩
  case retCell => exact hguarded _ (.inl rfl)
  case ret =>
    obtain ⟨m, -, hmem⟩ := ha.mem
    rw [fixed_image, hmem, Mem.loadLE_storeLE_apart (h.ptr_cell (.inl rfl))]
    exact Mem.loadLE_storeLE _ _ i.ret.isLt
  case ret_lt => exact hret
  case address => exact hcode

/-! ## 呼び手に戻る -/

/-- 呼び手から見た、戻ったあとの状態。保つべき register は元のままで、`State` は `t` を表す。 -/
structure Returned (o : StateOffsets) (s s' : Host G) (t : Thread G) : Prop where
  x : ∀ j : Fin 31, 19 ≤ j.val → gpr s' j = gpr s j
  d : ∀ j : Fin 32, 8 ≤ j.val → j.val ≤ 15 →
    (s'.regs (.q j)).toNat % 2 ^ 64 = (s.regs (.q j)).toNat % 2 ^ 64
  sp : s'.regs .sp = s.regs .sp
  regs : (stateView o).regs (xBank.set s' 26 (gpr s 0)) = t.regs
  pc : (stateView o).pc (xBank.set s' 26 (gpr s 0)) = t.pc
  guest : s'.guest = t.guest

/-- 連鎖の間に stack を書かなければ、`epilogue` は呼び手の register を元に戻す。 -/
theorem returned_epilogue {t : Thread G} {s' : Host G} (hf : RetaddrObeys i.vmRetaddr lo ptr)
    (h : Enters i.offsets p place ptr lo s) (hr : Running i.offsets (fixed i p link s) s' t) :
    Returned i.offsets s (runCode epilogue s') t := by
  have ha := arrived link hf h
  have hroom : 0x30 ≤ (s.regs .sp).toNat := by
    have := h.room
    omega
  have he := epilogue_restored s'
  generalize runCode epilogue s' = r at he
  have hsp : reg s' none = frameSp s := by
    have hsp : s'.regs .sp = (i.enter link s).regs .sp := hr.sp.trans (sp_of_reg ha.sp).symm
    rw [reg_of_sp hsp, ha.sp]
  have hframe : ∀ j ∈ [26, 27, 29, 30],
      s'.mem.loadLE (entryFrame.addr s j) 8 = (reg s (some j)).toNat := by
    intro j hj
    have hmem : j ∈ entryFrame.regs ∧ 0x10 ≤ entryFrame.off j := by revert j; decide
    rw [← ha.load_frame h hmem.1]
    refine Mem.loadLE_eq_iff.mpr fun n hn => hr.mem _ (.inr ?_)
    have hoff := entryFrame.bound j
    rw [entryFrame.addr_eq hroom]
    omega
  obtain ⟨hspBack, hsaved⟩ := he.back hsp hframe
  have hview : gpr (xBank.set r 26 (gpr s 0)) 26 = gpr s' 26 := by
    simp only [gpr, WordBank.get_set, if_true]
    exact hr.cpu.symm
  have hmem : (xBank.set r 26 (gpr s 0)).mem = s'.mem := he.mem
  constructor
  case x =>
    intro j hj
    by_cases hframe : j ∈ [26, 27, 29, 30]
    · exact hsaved j hframe
    · have hkept : Kept j := by
        simp only [List.mem_cons, List.not_mem_nil, or_false, not_or] at hframe
        obtain ⟨h26, h27, h29, h30⟩ := hframe
        refine ⟨hj, ?_, h26, h27⟩
        have hlt := j.isLt
        have hne : j.val ≠ 29 ∧ j.val ≠ 30 := ⟨fun hv => h29 (Fin.ext hv), fun hv => h30 (Fin.ext hv)⟩
        omega
      have hother : HostReg.x j ∉ HostReg.sp :: [26, 27, 29, 30].map HostReg.x := by
        simpa using hframe
      exact (xBank.get_congr (he.others _ hother)).trans (hr.x j hkept)
  case d =>
    intro j h8 h15
    rw [he.others _ (by simp)]
    exact hr.d j h8 h15
  case sp => exact sp_of_reg hspBack
  case regs => exact (regs_congr hview hmem).trans hr.regs
  case pc => exact (pc_congr hview hmem).trans hr.pc
  case guest => rw [he.guest, hr.guest]

/-- slot の列の実行が `finish_emulation` に着けば、`aether_vm_entry` は戻る。 -/
theorem finished_returns {fuel : Nat} {t : Thread G} (hf : RetaddrObeys i.vmRetaddr lo ptr)
    (h : Enters i.offsets p place ptr lo s) (hret : i.ret.toNat < 2 ^ 59)
    (hcode : ∀ r f, p.meaning r = some f → p.address r < 2 ^ 59 ∧ p.address r ≠ i.ret.toNat ∧
      ∃ b, i.handler (p.address r) = some b ∧ Implements i.offsets (fixed i p link s) b f)
    (ht : loop p.step fuel (entered i place s) = .inr (some t)) : ∃ s',
      i.aetherVmEntry link fuel s = .inr (some s') ∧ Returned i.offsets s s' t := by
  have hsteps := loop_stepsAs (loads_entered hf h hret hcode) fuel (running_entered hf h)
  rw [ht] at hsteps
  obtain ⟨s', hs', hr⟩ := hsteps
  exact ⟨_, by rw [Image.aetherVmEntry, hs'], returned_epilogue hf h hr⟩

/--
`aether_vm_entry` は、slot の列の意味の通りに handler を実行する。`finish_emulation` に着けば、呼び手の保つべき register
と stack pointer を元に戻して帰る。
-/
theorem aetherVmEntry_returns (hf : RetaddrObeys i.vmRetaddr lo ptr)
    (h : Enters i.offsets p place ptr lo s) (hret : i.ret.toNat < 2 ^ 59)
    (hcode : ∀ r f, p.meaning r = some f → p.address r < 2 ^ 59 ∧ p.address r ≠ i.ret.toNat ∧
      ∃ b, i.handler (p.address r) = some b ∧ Implements i.offsets (fixed i p link s) b f)
    (fuel : Nat) :
    (∀ t, loop p.step fuel (entered i place s) = .inl t → ∃ s',
      i.aetherVmEntry link fuel s = .inl s' ∧ Running i.offsets (fixed i p link s) s' t) ∧
    ∀ t, loop p.step fuel (entered i place s) = .inr (some t) → ∃ s',
      i.aetherVmEntry link fuel s = .inr (some s') ∧ Returned i.offsets s s' t := by
  refine ⟨fun t ht => ?_, fun t ht => finished_returns hf h hret hcode ht⟩
  have hsteps := loop_stepsAs (loads_entered hf h hret hcode) fuel (running_entered hf h)
  rw [ht] at hsteps
  obtain ⟨s', hs', hr⟩ := hsteps
  exact ⟨s', by rw [Image.aetherVmEntry, hs'], hr⟩

end Entered

/-! ## 命令が一つの列 -/

/-- `host_finish_emulation`。`&CPU.retaddr` を返す。 -/
def hostFinishEmulation (retCell : BitVec 64) (s : Host G) : Host G := xBank.set s 0 retCell

theorem hostFinishEmulation_obeys (o : StateOffsets) (F : Fixed) (retCell : BitVec 64) :
    HostObeys (G := G) o F (hostFinishEmulation retCell) fun t =>
      some { t with insn := retCell } := by
  rintro s t _ h _ _ _ ⟨⟩
  have hrep : Represents o F (hostFinishEmulation retCell s) t :=
    h.congr rfl rfl fun k hk => xBank.set_regs s 0 _ (ne_of_kept hk (.inl (by decide)))
  exact ⟨{ hrep with }, by simp [hostFinishEmulation, gpr]⟩

/-- 番地を一つ返すだけの関数。 -/
def returnPointer (ptr : BitVec 64) (s : Host G) : Host G := xBank.set s 0 ptr

/-- `retaddr_aarch64`。`State` の `LR` の番地を返す。 -/
def retaddrAArch64 (lr : BitVec 64) : Host G → Host G := returnPointer lr

theorem returnPointer_obeys (lo : Nat) (ptr : BitVec 64) :
    RetaddrObeys (G := G) (returnPointer ptr) lo ptr where
  result := fun s => by simp [returnPointer, gpr]
  sp := fun s => xBank.set_regs s 0 ptr (k := .sp) (by simp)
  x := fun s j h19 _ => by
    have hne : j ≠ 0 := by
      rintro rfl
      exact absurd h19 (by decide)
    simp only [returnPointer, gpr, WordBank.get_set, if_neg hne]
  d := fun s j _ _ => by rw [returnPointer, xBank_set_eq, set_q]
  mem := fun _ _ _ => rfl
  guest := fun _ => rfl

/-- 元の命令を埋め込んだ handler が `0x100`、`finish_emulation` の handler が `0x200` にある。 -/
def sampleProgram (f : Effect hostModel G) : Program G where
  slot a := if a = 0x5000 then some (.ofEntry (.entry 0x100) 4)
    else if a = 0x5008 then some (.ofEvent .finishEmulation) else none
  retCell := 0x6000
  address
    | .entry addr => addr.toNat
    | .func _ => 0x200
  meaning
    | .entry addr => if addr = 0x100 then some (nativeMeaning f) else none
    | .func .finishEmulation => some fun t => some { t with insn := 0x6000 }
    | .func _ => none

def sampleImage (used : Finset HostReg) (f : Effect hostModel G) : Image G where
  offsets := sampleOffsets
  ret := 0x7000
  vmRetaddr := retaddrAArch64 0x11f0
  handler a := if a = 0x100 then some (.native used f)
    else if a = 0x200 then some (.event 0x8000 (hostFinishEmulation 0x6000)) else none

/-- pc の置き場は 0x3000、pc は 5 で、0x5000 から slot が二つある。 -/
def sampleMem : Mem := fun a =>
  if a = 0xff1 then 0x30 else if a = 0x3000 then 5
  else if a = 0x5001 then 1 else if a = 0x5007 then 0x40
  else if a = 0x5009 then 2 else if a = 0x500f then 8 else 0

/-- `State` が 0x1000、pc が 0x3000、stack が 0x800 から下、slot の列が 0x5000 にある状態。 -/
def sampleHost (mem : Mem) (guest : G) : Host G where
  regs
    | .x i => if i = 0 then (0x1000 : BitVec 64) else if i = 2 then (0x5000 : BitVec 64)
      else if i = 3 then (0x6000 : BitVec 64) else (5 : BitVec 64)
    | .sp => (0x800 : BitVec 64)
    | .q _ => (0 : BitVec 128)
  mem := mem
  guest := guest

def sampleCall (guest : G) : Host G := sampleHost sampleMem guest

section SampleHost

variable (mem : Mem) (guest : G)

theorem sampleHost_addr (k : HostReg) :
    (stateView sampleOffsets).addr (lowered (sampleHost mem guest)) k =
      0x1000 + sampleOffsets.offsetReg k ∧ sampleOffsets.offsetReg k ≤ 0x5f0 ∧ k.bytes ≤ 16 := by
  have hoff : sampleOffsets.offsetReg k ≤ 0x5f0 := by
    cases k <;> simp only [StateOffsets.offsetReg, sampleOffsets] <;> omega
  have hcpu : gpr (lowered (sampleHost mem guest)) 26 = 0x1000 :=
    lowered_cpu (sampleHost mem guest)
  have haddr : (stateView sampleOffsets).addr (lowered (sampleHost mem guest)) k =
      (gpr (lowered (sampleHost mem guest)) 26 +
        BitVec.ofInt 64 (sampleOffsets.offsetReg k)).toNat :=
    xBank.address_reg _ 26 _
  have hbase : (0x1000 : BitVec 64).toNat = 0x1000 := rfl
  have hadd := toNat_add_ofInt (0x1000 : BitVec 64) (sampleOffsets.offsetReg k) (by omega)
    (by omega)
  refine ⟨?_, hoff, ?_⟩
  · rw [haddr, hcpu]
    omega
  · cases k <;> simp [HostReg.bytes]

theorem sampleHost_pcptr :
    (stateView sampleOffsets).pcptr (lowered (sampleHost mem guest)) = 0xff0 := by
  have hcpu : gpr (lowered (sampleHost mem guest)) 26 = 0x1000 :=
    lowered_cpu (sampleHost mem guest)
  have haddr : (stateView sampleOffsets).pcptr (lowered (sampleHost mem guest)) =
      (gpr (lowered (sampleHost mem guest)) 26 + BitVec.ofInt 64 (-0x10)).toNat :=
    xBank.address_reg _ 26 _
  rw [haddr, hcpu]
  rfl

variable {mem} (hpcptr : mem.loadLE 0xff0 8 = 0x3000)

include hpcptr

theorem sampleHost_pcAddr :
    (stateView sampleOffsets).pcAddr (lowered (sampleHost mem guest)) = 0x3000 := by
  rw [StateView.pcAddr, sampleHost_pcptr mem guest]
  exact hpcptr

theorem sampleHost_placed : StatePlaced sampleOffsets (lowered (sampleHost mem guest)) := by
  have hcpu : (gpr (lowered (sampleHost mem guest)) 26).toNat = 0x1000 := by
    rw [lowered_cpu]
    rfl
  have htop : ((sampleHost mem guest).regs .sp).toNat = 0x800 := rfl
  have hsp : ((lowered (sampleHost mem guest)).regs .sp).toNat = 0x7d0 := by
    rw [← reg_none, lowered_sp, frameSp_toNat (by omega), htop]
  have hregs := sampleHost_addr mem guest
  have hpc := sampleHost_pcAddr guest hpcptr
  have hpcptr := sampleHost_pcptr mem guest
  constructor
  case banks => decide
  case low => omega
  case high =>
    intro k
    have hk := (hregs k).2.1
    omega
  case room => omega
  case regs_stack =>
    intro k
    have hk := hregs k
    omega
  case pcptr_stack => omega
  case pc_regs =>
    intro k
    have hk := hregs k
    omega
  case pc_stack => omega
  case pc_pcptr => omega

/-- `State` と pc と stack より上の範囲。 -/
theorem sampleHost_outside {a : Nat} (ha : 0x4000 ≤ a) :
    Outside sampleOffsets (sampleHost mem guest) 0x600 a 8 := by
  have hsp : ((sampleHost mem guest).regs .sp).toNat = 0x800 := rfl
  have hpc := sampleHost_pcAddr guest hpcptr
  have hpcptr := sampleHost_pcptr mem guest
  constructor
  case regs =>
    intro k
    have hk := sampleHost_addr mem guest k
    unfold Separate
    omega
  case pc =>
    unfold Separate
    omega
  case pcptr =>
    unfold Separate
    omega
  case stack => omega

/-- 0x5000 から slot を二つ置いた列の、`aether_vm_entry` の引数。 -/
theorem sampleHost_enters {p : Program G} {place : RetPlace} {ptr : BitVec 64}
    (hpc : mem.loadLE 0x3000 8 = 5) (hret : p.retCell = 0x6000)
    (hslot : ∀ a, (p.slot a).isSome = true → a = 0x5000 ∨ a = 0x5008)
    (hword : ∀ a x, p.slot a = some x → mem.loadLE a.toNat 8 = p.word x)
    (hlr : place = .lr → ptr = 0x11f0) (hrvalue : place = .rvalue → ptr = 0x6100) :
    Enters sampleOffsets p place ptr 0x600 (sampleHost mem guest) := by
  have hsp : ((sampleHost mem guest).regs .sp).toNat = 0x800 := rfl
  have hregs := sampleHost_addr mem guest
  have hpcAddr := sampleHost_pcAddr guest hpcptr
  have hptr := sampleHost_pcptr mem guest
  have hcell : ∀ a, p.Cell a → a.toNat = 0x6000 ∨ a.toNat = 0x5000 ∨ a.toNat = 0x5008 := by
    rintro a (rfl | ha)
    · exact .inl (by rw [hret]; rfl)
    · rcases hslot a ha with rfl | rfl
      · exact .inr (.inl rfl)
      · exact .inr (.inr rfl)
  constructor
  case placed => exact sampleHost_placed guest hpcptr
  case room => omega
  case vmaddr =>
    rw [StateView.pc, hpcAddr]
    exact (congrArg (BitVec.ofNat 64) hpc).symm
  case retCell => exact hret.symm
  case regs =>
    intro k
    have hk := hregs k
    omega
  case pc => omega
  case pcptr => omega
  case cell =>
    intro a ha
    have ha := hcell a ha
    exact sampleHost_outside guest hpcptr (by omega)
  case apart =>
    intro a ha hne
    have hnat : a.toNat ≠ 0x6000 := fun heq => hne (by rw [hret]; exact BitVec.eq_of_toNat_eq heq)
    have hcells := hcell a ha
    have hretNat : (0x6000 : BitVec 64).toNat = 0x6000 := rfl
    rw [hret]
    unfold Separate
    omega
  case word => exact fun a x hx _ => hword a x hx
  case lr =>
    intro hplace
    rw [hlr hplace, (hregs _).1]
    decide
  case rvalue =>
    intro hplace
    have hnat : (0x6100 : BitVec 64).toNat = 0x6100 := rfl
    rw [hrvalue hplace]
    refine ⟨sampleHost_outside guest hpcptr (by omega), fun a ha => ?_⟩
    have ha := hcell a ha
    unfold Separate
    omega

end SampleHost

/-- slot の番地。 -/
theorem sampleProgram_slot {f : Effect hostModel G} {a : BitVec 64}
    (h : ((sampleProgram f).slot a).isSome = true) : a = 0x5000 ∨ a = 0x5008 := by
  by_cases h0 : a = 0x5000
  · exact .inl h0
  · by_cases h8 : a = 0x5008
    · exact .inr h8
    · have hslot : (sampleProgram f).slot a = none := (if_neg h0).trans (if_neg h8)
      rw [hslot] at h
      exact absurd h (by decide)

theorem sampleCall_enters (f : Effect hostModel G) (guest : G) :
    Enters sampleOffsets (sampleProgram f) .lr 0x11f0 0x600 (sampleCall guest) := by
  refine sampleHost_enters guest (by decide) (by decide) rfl (fun a => sampleProgram_slot)
    (fun a x hx => ?_) (fun _ => rfl) (by simp)
  have hword : sampleMem.loadLE 0x5000 8 = 0x100 % 2 ^ 59 + 2 ^ 59 * 0 + 2 ^ 60 * (4 % 16) ∧
      sampleMem.loadLE 0x5008 8 = 0x200 % 2 ^ 59 + 2 ^ 59 * 1 + 2 ^ 60 * (0 % 16) := by decide
  rcases sampleProgram_slot (by rw [hx]; rfl) with rfl | rfl
  · cases hx
    exact hword.1
  · cases hx
    exact hword.2

/-- 命令を一つ実行して、呼び手に戻る。 -/
theorem aetherVmEntry_returns_sample : ∃ s' t,
    (sampleImage {.x 0, .x 26} addX26).aetherVmEntry 0x9000 3 (sampleCall ()) = .inr (some s') ∧
      nativeMeaning addX26 (entered (sampleImage {.x 0, .x 26} addX26) .lr (sampleCall ())) =
        some t ∧
      Returned sampleOffsets (sampleCall ()) s' { t with insn := 0x6000 } := by
  suffices h : ∃ s',
      (sampleImage {.x 0, .x 26} addX26).aetherVmEntry 0x9000 3 (sampleCall ()) = .inr (some s') ∧
      Returned sampleOffsets (sampleCall ()) s' _ from
    h.imp fun s' hs' => ⟨_, hs'.1, rfl, hs'.2⟩
  refine (aetherVmEntry_returns (i := sampleImage {.x 0, .x 26} addX26)
    (returnPointer_obeys 0x600 0x11f0) (sampleCall_enters addX26 ()) (by decide) ?_ 3).2 _ ?_
  · intro r f hf
    rcases r with f' | addr
    · cases f' <;> try cases hf
      exact ⟨by decide, by decide, _, rfl, .event (hostFinishEmulation_obeys _ _ _)⟩
    · by_cases haddr : addr = 0x100
      · subst haddr
        cases hf
        exact ⟨by decide, by decide, _, rfl,
          .native (by decide) ⟨1, by decide, by decide⟩ addX26_confined fun _ _ h => h⟩
      · simp [sampleProgram, haddr] at hf
  · rfl

end Entry.AArch64

end AetherVM
