import AetherVM.Infra.Machine

/-!
# 64 bit の register

機械の register のうち、64 bit のものをまとめて扱う。値は `BitVec 64` として読み書きする。命令の列を一つずつ実行した
結果は、`get` と `set` だけで表せる。
-/

namespace AetherVM.Infra

/-- 64 bit の register の名前。 -/
structure WordBank {κ : Type} (M : RegisterModel κ) (ι : Type) where
  reg : ι → κ
  inj : Function.Injective reg
  width : ∀ i, M.width (reg i) = 64

namespace WordBank

variable {κ ι G : Type} [DecidableEq κ] [DecidableEq ι] {M : RegisterModel κ} (b : WordBank M ι)

def get (s : Machine M G) (i : ι) : BitVec 64 := (s.regs (b.reg i)).cast (b.width i)

def set (s : Machine M G) (i : ι) (v : BitVec 64) : Machine M G :=
  s.set (b.reg i) (v.cast (b.width i).symm)

/-- 8 byte を書いた状態。 -/
def setWord (s : Machine M G) (a : Nat) (v : BitVec 64) : Machine M G :=
  { s with mem := s.mem.storeLE a 8 v.toNat }

variable (s : Machine M G) (i j : ι) (v : BitVec 64) (a : Nat)

omit [DecidableEq κ] [DecidableEq ι] in
@[simp] theorem toNat_get : (b.get s i).toNat = (s.regs (b.reg i)).toNat := rfl

omit [DecidableEq κ] [DecidableEq ι] in
theorem get_congr {s s' : Machine M G} {i : ι} (h : s'.regs (b.reg i) = s.regs (b.reg i)) :
    b.get s' i = b.get s i :=
  congrArg (BitVec.cast (b.width i)) h

@[simp] theorem get_set : b.get (b.set s i v) j = if j = i then v else b.get s j := by
  by_cases h : j = i
  · subst h
    rw [if_pos rfl, get, set, Machine.set_regs_self, BitVec.cast_cast, BitVec.cast_eq]
  · rw [if_neg h, get, set, Machine.set_regs_of_ne _ fun heq => h (b.inj heq), get]

omit [DecidableEq ι] in
@[simp] theorem set_mem : (b.set s i v).mem = s.mem := rfl

omit [DecidableEq ι] in
@[simp] theorem set_guest : (b.set s i v).guest = s.guest := rfl

omit [DecidableEq ι] in
theorem set_regs {k : κ} (h : k ≠ b.reg i) : (b.set s i v).regs k = s.regs k :=
  Machine.set_regs_of_ne s h _

omit [DecidableEq κ] [DecidableEq ι] in
@[simp] theorem get_setWord : b.get (setWord s a v) j = b.get s j := rfl

omit [DecidableEq κ] in
@[simp] theorem setWord_mem : (setWord s a v).mem = s.mem.storeLE a 8 v.toNat := rfl

omit [DecidableEq κ] in
@[simp] theorem setWord_guest : (setWord s a v).guest = s.guest := rfl

omit [DecidableEq κ] in
@[simp] theorem setWord_regs : (setWord s a v).regs = s.regs := rfl

/-! ## 一つの命令 -/

omit [DecidableEq κ] [DecidableEq ι] in
theorem address_reg (off : Int) :
    s.address (b.reg i) off = (b.get s i + BitVec.ofInt 64 off).toNat := by
  have hadd := toNat_setWidth_add (b.width i) (s.regs (b.reg i)) off
  have hcast : (s.regs (b.reg i)).setWidth 64 = b.get s i := by
    refine BitVec.eq_of_toNat_eq ?_
    rw [BitVec.toNat_setWidth, toNat_get]
    exact Nat.mod_eq_of_lt (b.get s i).isLt
  rw [Machine.address, ← hadd, hcast]

omit [DecidableEq ι] in
theorem move_reg : s.move (b.reg i) (b.reg j) = b.set s i (b.get s j) := by
  refine congrArg (s.set (b.reg i)) (BitVec.eq_of_toNat_eq ?_)
  rw [BitVec.toNat_setWidth, BitVec.toNat_cast, toNat_get, b.width i]
  exact Nat.mod_eq_of_lt (b.get s j).isLt

omit [DecidableEq ι] in
theorem addImm_reg (imm : Int) :
    s.addImm (b.reg i) (b.reg j) imm = b.set s i (b.get s j + BitVec.ofInt 64 imm) := by
  refine congrArg (s.set (b.reg i)) (BitVec.eq_of_toNat_eq ?_)
  have hadd : (s.regs (b.reg j) + BitVec.ofInt _ imm).toNat =
      (b.get s j + BitVec.ofInt 64 imm).toNat := b.address_reg s j imm
  rw [BitVec.toNat_setWidth, BitVec.toNat_cast, hadd, b.width i]
  exact Nat.mod_eq_of_lt (b.get s j + BitVec.ofInt 64 imm).isLt

theorem toNat_loadLE (m : Mem) (a : Nat) :
    (BitVec.ofNat 64 (m.loadLE a 8)).toNat = m.loadLE a 8 := by
  rw [BitVec.toNat_ofNat]
  exact Nat.mod_eq_of_lt (Mem.loadLE_lt _ _ 8)

omit [DecidableEq ι] in
theorem load_reg (off : Int) : s.load (b.reg i) (b.reg j) off 8 =
    b.set s i (BitVec.ofNat 64 (s.mem.loadLE (b.get s j + BitVec.ofInt 64 off).toNat 8)) := by
  refine congrArg (s.set (b.reg i)) (BitVec.eq_of_toNat_eq ?_)
  have hlow := M.fill_low (b.reg i) (s.regs (b.reg i)) 8
    (s.mem.loadLE (s.address (b.reg j) off) 8) (Nat.le_of_eq (b.width i).symm)
    (Mem.loadLE_lt _ _ 8)
  rw [low_full (b.width i)] at hlow
  rw [hlow, BitVec.toNat_cast, toNat_loadLE, b.address_reg]

omit [DecidableEq κ] [DecidableEq ι] in
theorem store_reg (off : Int) : s.store (b.reg i) (b.reg j) off 8 =
    setWord s (b.get s j + BitVec.ofInt 64 off).toNat (b.get s i) := by
  rw [Machine.store, b.address_reg]
  rfl

end WordBank

end AetherVM.Infra
