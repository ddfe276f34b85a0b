import AetherVM.Entry.Chain

/-!
# `aether_vm_entry` の前後

連鎖に入る前に stack に退避したものと、連鎖から戻ったあとに stack から戻すものを、一つずつの命令から計算する。stack
pointer も読み書きするので、汎用 register と stack pointer をまとめて扱う。
-/

namespace AetherVM

namespace Entry.AArch64

open Infra Lifter Lifter.AArch64

variable {G : Type}

/-- 汎用 register と stack pointer。`none` が stack pointer である。 -/
def wBank : WordBank hostModel (Option (Fin 31)) where
  reg
    | none => .sp
    | some i => .x i
  inj := by
    intro i j h
    cases i <;> cases j <;> simp_all
  width := by rintro (_ | _) <;> rfl

@[simp] theorem wBank_none : wBank.reg none = .sp := rfl

@[simp] theorem wBank_some (i : Fin 31) : wBank.reg (some i) = .x i := rfl

@[simp] theorem xBank_reg (i : Fin 31) : xBank.reg i = .x i := rfl

/-- register の値。 -/
def reg (s : Host G) (i : Option (Fin 31)) : BitVec 64 := wBank.get s i

theorem reg_none (s : Host G) : (reg s none).toNat = (s.regs .sp).toNat := wBank.toNat_get s none

theorem sp_of_reg {s : Host G} {v : BitVec 64} (h : reg s none = v) : s.regs .sp = v := by
  subst h
  rfl

theorem reg_of_sp {s s' : Host G} (h : s'.regs .sp = s.regs .sp) : reg s' none = reg s none :=
  wBank.get_congr h

section Step

variable (f : Effect hostModel G) (s : Host G) (i j : Fin 31) (off : Int)

theorem exec_mov_word : Asm.exec f s (.mov (.x i) (.x j)) =
    wBank.set s (some i) (wBank.get s (some j)) := wBank.move_reg s (some i) (some j)

theorem exec_addSp : Asm.exec f s (.add .sp .sp off) =
    wBank.set s none (wBank.get s none + BitVec.ofInt 64 off) := wBank.addImm_reg s none none off

theorem exec_addFromSp : Asm.exec f s (.add (.x i) .sp off) =
    wBank.set s (some i) (wBank.get s none + BitVec.ofInt 64 off) :=
  wBank.addImm_reg s (some i) none off

theorem exec_strSp : Asm.exec f s (.str (.x i) .sp off) =
    WordBank.setWord s (wBank.get s none + BitVec.ofInt 64 off).toNat (wBank.get s (some i)) :=
  wBank.store_reg s (some i) none off

theorem exec_ldrSp : Asm.exec f s (.ldr (.x i) .sp off) = wBank.set s (some i)
    (BitVec.ofNat 64 (s.mem.loadLE (wBank.get s none + BitVec.ofInt 64 off).toNat 8)) :=
  wBank.load_reg s (some i) none off

theorem exec_strWord : Asm.exec f s (.str (.x i) (.x j) off) =
    WordBank.setWord s (wBank.get s (some j) + BitVec.ofInt 64 off).toNat
      (wBank.get s (some i)) :=
  wBank.store_reg s (some i) (some j) off

theorem exec_ldrWord : Asm.exec f s (.ldr (.x i) (.x j) off) = wBank.set s (some i)
    (BitVec.ofNat 64 (s.mem.loadLE (wBank.get s (some j) + BitVec.ofInt 64 off).toNat 8)) :=
  wBank.load_reg s (some i) (some j) off

theorem exec_br (k : HostReg) : Asm.exec f s (.br k) = s := rfl

theorem xBank_set_eq (v : BitVec 64) : xBank.set s i v = wBank.set s (some i) v := rfl

end Step

/-! ## 退避 -/

/-- 0x30 byte の stack frame に退避する register と、その置き場。置き場は frame に収まり、互いに重ならない。 -/
structure FrameLayout where
  regs : List (Fin 31)
  off : Fin 31 → Nat
  bound : ∀ i, off i + 8 ≤ 0x30
  apart : regs.Pairwise fun i j => off i + 8 ≤ off j ∨ off j + 8 ≤ off i

/-- 下げた stack pointer。 -/
def frameSp (s : Host G) : BitVec 64 := reg s none + BitVec.ofInt 64 (-0x30)

namespace FrameLayout

variable (l : FrameLayout)

def addr (s : Host G) (i : Fin 31) : Nat := (frameSp s + BitVec.ofInt 64 (l.off i : Int)).toNat

/-- 退避したあとの memory。 -/
def mem (s : Host G) : Mem :=
  Machine.storeSlots (l.addr s) (fun _ => 8) (fun i => (reg s (some i)).toNat) l.regs s.mem

end FrameLayout

/-- `prologue` の frame。 -/
def entryFrame : FrameLayout where
  regs := [26, 27, 29, 30, 1, 3]
  off i := if i = 26 then 0x10 else if i = 27 then 0x18 else if i = 29 then 0x20
    else if i = 30 then 0x28 else if i = 1 then 0 else 8
  bound := by decide
  apart := by decide

/-- `prologue` の後の状態。 -/
structure Framed (s s' : Host G) : Prop where
  sp : reg s' none = frameSp s
  cpu : reg s' (some 26) = reg s (some 0)
  insns : reg s' (some 27) = reg s (some 2)
  others : ∀ i : Fin 31, i ≠ 26 → i ≠ 27 → i ≠ 29 → reg s' (some i) = reg s (some i)
  q : ∀ i, s'.regs (.q i) = s.regs (.q i)
  mem : s'.mem = entryFrame.mem s
  guest : s'.guest = s.guest

/-- vector register は、`wBank` の外にある。 -/
theorem set_q (s : Host G) (i : Option (Fin 31)) (v : BitVec 64) (j : Fin 32) :
    (wBank.set s i v).regs (.q j) = s.regs (.q j) := by
  refine wBank.set_regs s i v ?_
  cases i <;> simp

/-- 命令を順に実行した状態。 -/
def framed (s : Host G) : Host G :=
  let save (i : Fin 31) (u : Host G) : Host G :=
    WordBank.setWord u (entryFrame.addr s i) (reg s (some i))
  let s₁ := save 30 (save 29 (save 27 (save 26 (wBank.set s none (frameSp s)))))
  let s₂ := wBank.set s₁ (some 29) (frameSp s + BitVec.ofInt 64 0x20)
  save 3 (save 1 (wBank.set (wBank.set s₂ (some 26) (reg s (some 0))) (some 27) (reg s (some 2))))

/-- `WordBank.get_setWord` と同じだが、展開ではなく書き換えで使う。展開すると番地の計算まで比べてしまう。 -/
theorem wBank_get_setWord (s : Host G) (a : Nat) (v : BitVec 64) (i : Option (Fin 31)) :
    wBank.get (WordBank.setWord s a v) i = wBank.get s i := by
  rw [WordBank.get_setWord]

theorem runCode_prologue (s : Host G) : runCode prologue s = framed s := by
  simp only [runCode, prologue, stp, List.cons_append, List.nil_append, List.foldl_cons,
    List.foldl_nil, Code.exec, exec_addSp, exec_addFromSp, exec_strSp, exec_mov_word,
    WordBank.get_set, wBank_get_setWord, if_true, if_false, reduceCtorEq, Option.some.injEq,
    Fin.reduceEq, framed, FrameLayout.addr, frameSp, entryFrame, reg, Int.reduceAdd, Nat.cast_ofNat,
    Nat.cast_zero]

theorem prologue_framed (s : Host G) : Framed s (runCode prologue s) := by
  rw [runCode_prologue]
  constructor
  case sp => simp [framed, reg, wBank_get_setWord, -WordBank.get_setWord]
  case cpu => simp [framed, reg, wBank_get_setWord, -WordBank.get_setWord]
  case insns => simp [framed, reg, wBank_get_setWord, -WordBank.get_setWord]
  case others =>
    intro i h26 h27 h29
    simp [framed, reg, h26, h27, h29, wBank_get_setWord, -WordBank.get_setWord]
  case q => exact fun i => by simp only [framed, WordBank.setWord_regs, set_q]
  case mem =>
    simp only [framed, WordBank.setWord_mem, WordBank.set_mem, FrameLayout.mem,
      Machine.storeSlots, entryFrame, List.foldl_cons, List.foldl_nil]
  case guest => simp only [framed, WordBank.setWord_guest, WordBank.set_guest]

/-- frame に退避した register `l.regs` のうち、`regs` を元に戻した後の状態。 -/
structure Restored (l : FrameLayout) (regs : List (Fin 31)) (s s' : Host G) : Prop where
  sp : reg s' none = reg s none + BitVec.ofInt 64 0x30
  saved : ∀ i ∈ regs, reg s' (some i) =
    BitVec.ofNat 64 (s.mem.loadLE (reg s none + BitVec.ofInt 64 (l.off i : Int)).toNat 8)
  others : ∀ k, k ∉ HostReg.sp :: regs.map HostReg.x → s'.regs k = s.regs k
  mem : s'.mem = s.mem
  guest : s'.guest = s.guest

/-- 退避した値が残っていれば、register も stack pointer も元に戻る。 -/
theorem Restored.back {l : FrameLayout} {regs : List (Fin 31)} {s r s' : Host G}
    (h : Restored l regs r s') (hsp : reg r none = frameSp s)
    (hmem : ∀ i ∈ regs, r.mem.loadLE (l.addr s i) 8 = (reg s (some i)).toNat) :
    reg s' none = reg s none ∧ ∀ i ∈ regs, reg s' (some i) = reg s (some i) := by
  refine ⟨?_, fun i hi => ?_⟩
  · rw [h.sp, hsp, frameSp, BitVec.add_assoc]
    exact BitVec.add_zero _
  · have hload := h.saved i hi
    rw [hsp] at hload
    rw [hload]
    refine (congrArg (BitVec.ofNat 64) (hmem i hi)).trans ?_
    rw [BitVec.ofNat_toNat, BitVec.setWidth_eq]

section FrameMem

variable {s : Host G} (h : 0x30 ≤ (s.regs .sp).toNat) (l : FrameLayout)

include h

theorem frameSp_toNat : (frameSp s).toNat = (s.regs .sp).toNat - 0x30 := by
  have hlt : (s.regs .sp).toNat < 2 ^ 64 := (s.regs .sp).isLt
  have hsp := reg_none s
  have hbase := toNat_add_ofInt (reg s none) (-0x30) (by omega) (by omega)
  unfold frameSp
  omega

theorem FrameLayout.addr_eq (i : Fin 31) :
    l.addr s i = (s.regs .sp).toNat - 0x30 + l.off i := by
  have hlt : (s.regs .sp).toNat < 2 ^ 64 := (s.regs .sp).isLt
  have hsp := frameSp_toNat h
  have hoff := l.bound i
  have haddr := toNat_add_ofInt (frameSp s) (l.off i) (by omega) (by omega)
  unfold FrameLayout.addr
  omega

/-- frame の外は変わらない。 -/
theorem FrameLayout.mem_outside {a : Nat}
    (ha : a < (s.regs .sp).toNat - 0x30 ∨ (s.regs .sp).toNat ≤ a) : l.mem s a = s.mem a := by
  refine Machine.storeSlots_outside fun i _ => ?_
  have hoff := l.bound i
  rw [l.addr_eq h]
  omega

/-- 退避した値は、どれも残っている。 -/
theorem FrameLayout.mem_word {i : Fin 31} (hi : i ∈ l.regs) :
    (l.mem s).loadLE (l.addr s i) 8 = (reg s (some i)).toNat := by
  have happart : l.regs.Pairwise fun i j => l.addr s i + 8 ≤ l.addr s j ∨
      l.addr s j + 8 ≤ l.addr s i := by
    refine l.apart.imp fun hij => ?_
    rw [l.addr_eq h, l.addr_eq h]
    omega
  have hlt : (reg s (some i)).toNat < 256 ^ 8 := (reg s (some i)).isLt
  have hload : (l.mem s).loadLE (l.addr s i) 8 = (reg s (some i)).toNat % 256 ^ 8 :=
    Machine.loadLE_storeSlots happart hi
  rwa [Nat.mod_eq_of_lt hlt] at hload

end FrameMem

end Entry.AArch64

end AetherVM
