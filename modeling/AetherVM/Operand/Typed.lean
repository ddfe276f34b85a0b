import Mathlib.Tactic.Common
import AetherVM.Infra.Width
import AetherVM.Operand.Raw

/-!
# 型の付いた expression の値（`src/OpcodeEngine.cpp` の `LiftExpressionOperandRecRaw`）

直接の interpreter は、途中の値をどれも 64 bit のまま持ち、幅を越えた bit を落とさない。また、`SExt` は operand の
幅でなく結果の幅から符号拡張し、`AShr` は 64 bit の値を shift する。

LLVM IR の意味（`value`）は bitvector の演算で書く。比べるために、折り返さずに計算した整数（`exact`）を使う。
幅を見る演算の operand が、折り返さずに計算しても幅に収まっていれば、下位の bit は LLVM の値に等しい。
-/

namespace AetherVM

open Infra

/-! ## 幅の操作 -/

theorem toNat_one_shiftLeft (bits : Nat) (h : bits < 64) :
    ((1 : UInt64) <<< UInt64.ofNat bits).toNat = 2 ^ bits := by
  have hbits : (UInt64.ofNat bits).toNat = bits :=
    UInt64.toNat_ofNat_of_lt' (Nat.lt_trans h (by decide))
  have hlt : 2 ^ bits < 2 ^ 64 := Nat.pow_lt_pow_right (by decide) h
  rw [UInt64.toNat_shiftLeft, hbits, Nat.mod_eq_of_lt h, Nat.shiftLeft_eq, UInt64.toNat_one,
    Nat.one_mul, Nat.mod_eq_of_lt hlt]

theorem toNat_maskToBits (v : UInt64) {bits : Nat} (h1 : 1 ≤ bits) (h2 : bits ≤ 64) :
    (maskToBits v bits).toNat = v.toNat % 2 ^ bits := by
  unfold maskToBits
  rw [if_neg (by omega)]
  split
  · have : bits = 64 := by omega
    rw [this, Nat.mod_eq_of_lt (UInt64.toNat_lt v)]
  · have hshift := toNat_one_shiftLeft bits (by omega)
    have hsub : (((1 : UInt64) <<< UInt64.ofNat bits) - 1).toNat = 2 ^ bits - 1 := by
      rw [UInt64.toNat_sub_of_le, hshift]
      · rfl
      · rw [UInt64.le_iff_toNat_le, hshift]
        exact Nat.one_le_two_pow
    rw [UInt64.toNat_and, hsub, Nat.and_two_pow_sub_one_eq_mod]

/-- mask は、下位の bit だけの bitvector を 64 bit に戻したものである。 -/
theorem toBitVec_maskToBits (v : UInt64) {bits : Nat} (h1 : 1 ≤ bits) (h2 : bits ≤ 64) :
    (maskToBits v bits).toBitVec = (v.toBitVec.setWidth bits).setWidth 64 := by
  have hlt : v.toNat % 2 ^ bits < 2 ^ 64 :=
    Nat.lt_of_lt_of_le (Nat.mod_lt _ (Nat.two_pow_pos bits)) (Nat.pow_le_pow_right (by decide) h2)
  apply BitVec.eq_of_toNat_eq
  rw [UInt64.toNat_toBitVec, toNat_maskToBits v h1 h2, BitVec.toNat_setWidth,
    BitVec.toNat_setWidth, UInt64.toNat_toBitVec, Nat.mod_eq_of_lt hlt]

/-- `SignExtend` は、下位の bit の符号拡張である。 -/
theorem toBitVec_signExtend (v : UInt64) {bits : Nat} (h1 : 1 ≤ bits) (h2 : bits ≤ 64) :
    (signExtend v bits).toBitVec = (v.toBitVec.setWidth bits).signExtend 64 := by
  unfold signExtend
  split
  · next h =>
    have hbits : bits = 64 := by omega
    subst hbits
    rw [BitVec.signExtend_eq, BitVec.setWidth_eq]
  · next h =>
    have hsign := toNat_one_shiftLeft (bits - 1) (by omega)
    have hmask := toNat_maskToBits v h1 h2
    have hpow : 2 ^ bits = 2 * 2 ^ (bits - 1) := by
      rw [← Nat.pow_succ']
      congr 1
      omega
    have hle : 2 ^ bits ≤ 2 ^ 64 := Nat.pow_le_pow_right (by decide) h2
    have hlt : v.toNat % 2 ^ bits < 2 ^ bits := Nat.mod_lt _ (Nat.two_pow_pos bits)
    apply BitVec.eq_of_toNat_eq
    rw [UInt64.toNat_toBitVec, UInt64.toNat_sub, UInt64.toNat_xor, hmask, hsign,
      BitVec.toNat_signExtend, BitVec.msb_eq_decide, BitVec.toNat_setWidth, BitVec.toNat_setWidth,
      UInt64.toNat_toBitVec, Nat.mod_eq_of_lt (Nat.lt_of_lt_of_le hlt hle)]
    by_cases hmsb : 2 ^ (bits - 1) ≤ v.toNat % 2 ^ bits
    · -- 符号の bit が立っている
      have hxor : v.toNat % 2 ^ bits ^^^ 2 ^ (bits - 1) = v.toNat % 2 ^ bits - 2 ^ (bits - 1) := by
        have := xor_two_pow (v := v.toNat % 2 ^ bits - 2 ^ (bits - 1)) (k := bits - 1) (by omega)
        rw [Nat.sub_add_cancel hmsb] at this
        nth_rewrite 1 [← this]
        rw [Nat.xor_assoc, Nat.xor_self, Nat.xor_zero]
      rw [hxor, decide_eq_true hmsb, if_pos rfl]
      omega
    · rw [xor_two_pow (by omega), decide_eq_false hmsb, if_neg (by decide)]
      omega

/-- 符号の bit が 0 なら、符号拡張しても変わらない。 -/
theorem toNat_signExtend (v : UInt64) {bits : Nat} (h1 : 1 ≤ bits) (h2 : bits ≤ 64)
    (h : v.toNat < 2 ^ (bits - 1)) : (signExtend v bits).toNat = v.toNat := by
  have hlow : (v.toBitVec.setWidth bits).toNat = v.toNat := by
    rw [BitVec.toNat_setWidth, UInt64.toNat_toBitVec]
    exact Nat.mod_eq_of_lt
      (Nat.lt_of_lt_of_le h (Nat.pow_le_pow_right (by decide) (Nat.sub_le _ _)))
  have hmsb : (v.toBitVec.setWidth bits).msb = false :=
    msb_of_lt (k := bits - 1) (by rw [hlow]; exact h) (by omega)
  rw [← UInt64.toNat_toBitVec (signExtend v bits), toBitVec_signExtend v h1 h2,
    BitVec.signExtend_eq_setWidth_of_msb_false hmsb, BitVec.toNat_setWidth, hlow]
  exact Nat.mod_eq_of_lt v.toNat_lt

/-! ## expression -/

/-- operand の整数の幅。 -/
abbrev Width := { w : Nat // 1 ≤ w ∧ w ≤ 64 }

/-- 二項の演算。 -/
inductive BinOp where
  | add | sub | mul | urem | shl | lshr | ashr | and | or | xor
deriving DecidableEq, Repr

def BinOp.opcode : BinOp → UInt32
  | add => 13
  | sub => 15
  | mul => 17
  | urem => 22
  | shl => 25
  | lshr => 26
  | ashr => 27
  | and => 28
  | or => 29
  | xor => 30

/--
型の付いた expression。register の offset は `regoffs` から引けたものである。`std::string` の register は、名前の
最初の文字で幅が決まる。
-/
inductive TypedExpr (regoffs : RegOffs) : Width → Type
  | binary {w : Width} (op : BinOp) (a b : TypedExpr regoffs w) : TypedExpr regoffs w
  | trunc {v w : Width} (h : w.val < v.val) (a : TypedExpr regoffs v) : TypedExpr regoffs w
  | zext {v w : Width} (h : v.val < w.val) (a : TypedExpr regoffs v) : TypedExpr regoffs w
  | sext {v w : Width} (h : v.val < w.val) (a : TypedExpr regoffs v) : TypedExpr regoffs w
  | constant {w : Width} (v : BitVec w.val) : TypedExpr regoffs w
  | register {w : Width} (name : Name) (off : Nat) (h : regoffs name = some off) :
      TypedExpr regoffs w
  | string {w : Width} (c : UInt8) (s : Name) (off : Nat) (h : regoffs (c :: s) = some off)
      (hw : w.val = if c = 0x77 then 32 else 64) : TypedExpr regoffs w

namespace TypedExpr

variable {regoffs : RegOffs}

/-- Remill の expression。 -/
def erase : {w : Width} → TypedExpr regoffs w → RemillExpr
  | w, binary op a b => .llvmOp op.opcode a.erase b.erase (some w.val)
  | w, trunc _ a => .llvmOp 38 a.erase .null (some w.val)
  | w, zext _ a => .llvmOp 39 a.erase .null (some w.val)
  | w, sext _ a => .llvmOp 40 a.erase .null (some w.val)
  | w, constant v => .constant (some ⟨w.val, v⟩)
  | w, register name .. => .register (some (name, UInt64.ofNat w.val))
  | _, string c s .. => .name (c :: s)

/-- register の byte 列。 -/
def regBytes (st : CpuState) (off size : Nat) : Nat :=
  ofLE ((List.range ((size + 7) / 8)).map fun i => st.bytes (off % 2 ^ 32 + i))

/-! ## LLVM IR の意味 -/

/-- 二項の演算の値。 -/
def BinOp.value {n : Nat} (op : BinOp) (a b : BitVec n) : BitVec n :=
  match op with
  | .add => a + b
  | .sub => a - b
  | .mul => a * b
  | .urem => a % b
  | .shl => a <<< b.toNat
  | .lshr => a >>> b.toNat
  | .ashr => a.sshiftRight b.toNat
  | .and => a &&& b
  | .or => a ||| b
  | .xor => a ^^^ b

/-- expression の値。 -/
def value (st : CpuState) : {w : Width} → TypedExpr regoffs w → BitVec w.val
  | _, binary op a b => BinOp.value op (a.value st) (b.value st)
  | w, trunc _ a => (a.value st).setWidth w.val
  | w, zext _ a => (a.value st).setWidth w.val
  | w, sext _ a => (a.value st).signExtend w.val
  | _, constant v => v
  | w, register _ off _ => BitVec.ofNat w.val (regBytes st off w.val)
  | w, string _ _ off _ _ => BitVec.ofNat w.val (regBytes st off w.val)

/-- poison や未定義の値にならないこと。shift 量は幅より小さく、割る数は 0 でない。 -/
def Defined (st : CpuState) : {w : Width} → TypedExpr regoffs w → Prop
  | w, binary op a b => a.Defined st ∧ b.Defined st ∧
    match op with
    | .shl | .lshr | .ashr => (b.value st).toNat < w.val
    | .urem => b.value st ≠ 0
    | _ => True
  | _, trunc _ a | _, zext _ a | _, sext _ a => a.Defined st
  | _, _ => True

/-! ## 折り返さない計算 -/

/-- 折り返さない二項の演算。bit ごとの演算は 64 bit で行う。 -/
def BinOp.exact (op : BinOp) (x y : Int) (shift result : Nat) : Int :=
  match op with
  | .add => x + y
  | .sub => x - y
  | .mul => x * y
  | .shl => x * 2 ^ shift
  | .and => (BitVec.ofInt 64 x &&& BitVec.ofInt 64 y).toNat
  | .or => (BitVec.ofInt 64 x ||| BitVec.ofInt 64 y).toNat
  | .xor => (BitVec.ofInt 64 x ^^^ BitVec.ofInt 64 y).toNat
  | .urem | .lshr | .ashr => result

/-- 加減乗算と左 shift を折り返さずに計算した整数。幅を見る演算の結果は、LLVM の値である。 -/
def exact (st : CpuState) : {w : Width} → TypedExpr regoffs w → Int
  | _, binary op a b => BinOp.exact op (a.exact st) (b.exact st) (b.value st).toNat
    (BinOp.value op (a.value st) (b.value st)).toNat
  | _, register (w := w) _ off _ => regBytes st off w.val
  | _, string (w := w) _ _ off _ _ => regBytes st off w.val
  | _, e => (e.value st).toNat

/-- 折り返さずに計算しても幅に収まること。64 bit では、越えた bit は残らない。 -/
def Fits (st : CpuState) {w : Width} (e : TypedExpr regoffs w) : Prop :=
  w.val = 64 ∨ 0 ≤ e.exact st ∧ e.exact st < 2 ^ w.val

/-- 幅を見る演算の operand が幅に収まること。`a` と `b` は operand が収まることである。 -/
def BinOp.InRange (op : BinOp) (a b : Prop) : Prop :=
  match op with
  | .shl => b
  | .lshr | .ashr | .urem => a ∧ b
  | _ => True

/-- 符号を見る演算の operand の符号。`AShr` は 64 bit なら正しい。 -/
def SignOk (st : CpuState) : {w : Width} → TypedExpr regoffs w → Prop
  | w, binary .ashr a b => w.val = 64 ∨ (a.value st).msb = false ∨ (b.value st).toNat = 0
  | _, sext _ a => (a.value st).msb = false
  | _, _ => True

/-- 幅の中だけで計算できること。 -/
def Ok (st : CpuState) : {w : Width} → TypedExpr regoffs w → Prop
  | _, binary op a b =>
    (a.Ok st ∧ b.Ok st ∧ BinOp.InRange op (a.Fits st) (b.Fits st)) ∧ (binary op a b).SignOk st
  | _, trunc _ a => a.Ok st
  | _, zext _ a => a.Ok st ∧ a.Fits st
  | _, sext h a => (a.Ok st ∧ a.Fits st) ∧ (sext h a).SignOk st
  | _, _ => True

/-- 根の演算の operand が、どれも幅の中だけで計算できること。 -/
def OperandsOk (st : CpuState) : {w : Width} → TypedExpr regoffs w → Prop
  | _, binary op a b => a.Ok st ∧ b.Ok st ∧ BinOp.InRange op (a.Fits st) (b.Fits st)
  | _, trunc _ a => a.Ok st
  | _, zext _ a | _, sext _ a => a.Ok st ∧ a.Fits st
  | _, _ => True

/-! ## 直接の interpreter の値 -/

/-- 二項の演算の、64 bit の値。 -/
def BinOp.raw (op : BinOp) (lhs rhs : UInt64) : UInt64 :=
  match op with
  | .add => lhs + rhs
  | .sub => lhs - rhs
  | .mul => lhs * rhs
  | .urem => if rhs ≠ 0 then lhs % rhs else 0
  | .shl => lhs <<< rhs
  | .lshr => lhs >>> rhs
  | .ashr => (lhs.toInt64 >>> rhs.toInt64).toUInt64
  | .and => lhs &&& rhs
  | .or => lhs ||| rhs
  | .xor => lhs ^^^ rhs

/-- 型の付いた expression では、`LiftExpressionOperandRecRaw` は必ず値を返す。 -/
def raw (st : CpuState) : {w : Width} → TypedExpr regoffs w → UInt64
  | _, binary op a b => BinOp.raw op (a.raw st) (b.raw st)
  | w, trunc _ a | w, zext _ a => maskToBits (a.raw st) w.val
  | w, sext _ a => signExtend (a.raw st) w.val
  | _, constant v => UInt64.ofNat v.toNat
  | w, register _ off _ => loadRegValueRaw st (off % 2 ^ 32) w.val
  | w, string _ _ off _ _ => loadRegValueRaw st (off % 2 ^ 32) w.val

variable {st : CpuState} {w : Width}

theorem evalLLVMOp_binary (op : BinOp) (width : Except Fault Nat) (lhs rhs : UInt64) :
    evalLLVMOp op.opcode.toNat width lhs rhs = .ok (BinOp.raw op lhs rhs) := by
  cases op <;> rfl

theorem erase_ne_null (e : TypedExpr regoffs w) : e.erase ≠ .null := by
  cases e <;> nofun

theorem getOffset_eq {name : Name} {off : Nat} (h : regoffs name = some off) :
    getOffset regoffs name = .ok (off % 2 ^ 32) := by
  rw [getOffset, h]

theorem lift_erase (e : TypedExpr regoffs w) :
    liftExpressionOperandRecRaw regoffs st e.erase = .ok (e.raw st) := by
  have hlt : ∀ w : Width, w.val < 2 ^ 64 := fun w => Nat.lt_of_le_of_lt w.2.2 (by decide)
  induction e with
  | binary op a b iha ihb =>
    rw [erase, liftExpressionOperandRecRaw, iha, if_neg (erase_ne_null b), ihb]
    exact evalLLVMOp_binary op _ _ _
  | trunc h a ih =>
    rw [erase, liftExpressionOperandRecRaw, ih]
    rfl
  | zext h a ih =>
    rw [erase, liftExpressionOperandRecRaw, ih]
    rfl
  | sext h a ih =>
    rw [erase, liftExpressionOperandRecRaw, ih]
    rfl
  | @constant w v =>
    rw [erase, liftExpressionOperandRecRaw, if_pos]
    · rfl
    · exact Nat.lt_of_lt_of_le v.isLt (Nat.pow_le_pow_right (by decide) w.2.2)
  | @register w name off h =>
    have hsize : toUnsigned (UInt64.ofNat w.val).toNat = w.val := by
      have := w.2.2
      rw [UInt64.toNat_ofNat_of_lt' (hlt w), toUnsigned, Nat.mod_eq_of_lt (by omega)]
    rw [erase, liftExpressionOperandRecRaw, getOffset_eq h, hsize]
    rfl
  | @string w c s off h hw =>
    rw [erase, liftExpressionOperandRecRaw, getOffset_eq h, ← hw]
    rfl

/-! ## 折り返さない整数との関係 -/

/-- 64 bit の値 `r` も、LLVM の値 `v` も、整数 `x` を折り返したものであること。 -/
def Tracks {n : Nat} (r : UInt64) (v : BitVec n) (x : Int) : Prop :=
  r.toBitVec = BitVec.ofInt 64 x ∧ v = BitVec.ofInt n x

section Tracks

variable {n : Nat} {r r' : UInt64} {v v' : BitVec n} {x y : Int}

theorem Tracks.low (h : Tracks r v x) (hn : n ≤ 64) : r.toBitVec.setWidth n = v := by
  rw [h.1, h.2, setWidth_ofInt hn]

/-- 整数が幅に収まれば、64 bit の値は LLVM の値そのものである。 -/
theorem Tracks.toNat (h : Tracks r v x) (hn : n ≤ 64) (hfits : n = 64 ∨ 0 ≤ x ∧ x < 2 ^ n) :
    r.toNat = v.toNat := by
  show r.toBitVec.toNat = v.toNat
  rw [h.1, h.2]
  rcases hfits with rfl | ⟨h0, hlt⟩
  · rfl
  · have hpow : (2 : Int) ^ n ≤ 2 ^ 64 := by exact_mod_cast Nat.pow_le_pow_right (by decide) hn
    rw [toNat_ofInt_of_lt h0 hlt, toNat_ofInt_of_lt h0 (Int.lt_of_lt_of_le hlt hpow)]

/-- LLVM の値そのものなら、その整数を追う。 -/
theorem tracks_of_toNat (h : r.toNat = v.toNat) : Tracks r v v.toNat := by
  refine ⟨BitVec.eq_of_toNat_eq ?_, ?_⟩
  · rw [BitVec.ofInt_natCast, BitVec.toNat_ofNat, ← h]
    exact (Nat.mod_eq_of_lt r.toBitVec.isLt).symm
  · rw [BitVec.ofInt_natCast, BitVec.ofNat_toNat, BitVec.setWidth_eq]

/-- bit ごとの演算。 -/
theorem tracks_of_setWidth {a : BitVec 64} (hr : r.toBitVec = a) (hv : v = a.setWidth n) :
    Tracks r v a.toNat := by
  refine ⟨?_, ?_⟩
  · rw [BitVec.ofInt_natCast, BitVec.ofNat_toNat, BitVec.setWidth_eq, hr]
  · rw [BitVec.ofInt_natCast, BitVec.ofNat_toNat, hv]

/-- 折り返しと交換する演算。 -/
theorem Tracks.ring {z : Int} {r'' : UInt64} (ha : Tracks r v x) (hb : Tracks r' v' y)
    (op : (n : Nat) → BitVec n → BitVec n → BitVec n)
    (hz : ∀ n, BitVec.ofInt n z = op n (BitVec.ofInt n x) (BitVec.ofInt n y))
    (hr : r''.toBitVec = op 64 r.toBitVec r'.toBitVec) : Tracks r'' (op n v v') z := by
  refine ⟨?_, ?_⟩
  · rw [hz, ← ha.1, ← hb.1, hr]
  · rw [hz, ← ha.2, ← hb.2]

/-- 切り詰めと交換する演算。 -/
theorem Tracks.bitwise {r'' : UInt64} (ha : Tracks r v x) (hb : Tracks r' v' y) (hn : n ≤ 64)
    (op : (n : Nat) → BitVec n → BitVec n → BitVec n)
    (hop : ∀ {a b : BitVec 64}, (op 64 a b).setWidth n = op n (a.setWidth n) (b.setWidth n))
    (hr : r''.toBitVec = op 64 r.toBitVec r'.toBitVec) :
    Tracks r'' (op n v v') (op 64 (BitVec.ofInt 64 x) (BitVec.ofInt 64 y)).toNat := by
  refine tracks_of_setWidth ?_ ?_
  · rw [← ha.1, ← hb.1, hr]
  · rw [hop, setWidth_ofInt hn, setWidth_ofInt hn, ← ha.2, ← hb.2]

end Tracks

/-- 二項の演算は、operand の追う整数から計算した整数を追う。 -/
theorem tracks_binary (op : BinOp) {w : Width} {r r' : UInt64} {v v' : BitVec w.val} {x y : Int}
    (ha : Tracks r v x) (hb : Tracks r' v' y)
    (hdef : match op with
      | .shl | .lshr | .ashr => v'.toNat < w.val
      | .urem => v' ≠ 0
      | _ => True)
    (hrange : BinOp.InRange op (w.val = 64 ∨ 0 ≤ x ∧ x < 2 ^ w.val)
      (w.val = 64 ∨ 0 ≤ y ∧ y < 2 ^ w.val))
    (hsign : op = .ashr → w.val = 64 ∨ v.msb = false ∨ v'.toNat = 0) :
    Tracks (BinOp.raw op r r') (BinOp.value op v v')
      (BinOp.exact op x y v'.toNat (BinOp.value op v v').toNat) := by
  have hw := w.2.2
  cases op with
  | add => exact ha.ring hb (fun _ a b => a + b) (fun _ => BitVec.ofInt_add x y) rfl
  | sub => exact ha.ring hb (fun _ a b => a - b) (fun _ => ofInt_sub x y) rfl
  | mul => exact ha.ring hb (fun _ a b => a * b) (fun _ => BitVec.ofInt_mul x y) rfl
  | shl =>
    have hshift : r'.toNat = v'.toNat := hb.toNat hw hrange
    have hdef : v'.toNat < w.val := hdef
    refine ⟨?_, ?_⟩
    · rw [BinOp.exact, ofInt_mul_two_pow, ← ha.1, BinOp.raw, UInt64.toBitVec_shiftLeft]
      show r.toBitVec <<< (r'.toNat % 64) = _
      rw [hshift, Nat.mod_eq_of_lt (by omega)]
    · rw [BinOp.exact, ofInt_mul_two_pow, ← ha.2]
      rfl
  | urem =>
    refine tracks_of_toNat ?_
    have hl := ha.toNat hw hrange.1
    have hr := hb.toNat hw hrange.2
    have hne : r' ≠ 0 := by
      rintro rfl
      exact hdef (BitVec.eq_of_toNat_eq hr.symm)
    rw [BinOp.raw, if_pos hne, UInt64.toNat_mod, hl, hr]
    exact BitVec.toNat_umod.symm
  | lshr =>
    refine tracks_of_toNat ?_
    have hl := ha.toNat hw hrange.1
    have hr := hb.toNat hw hrange.2
    have hdef : v'.toNat < w.val := hdef
    rw [BinOp.raw, UInt64.toNat_shiftRight, hl, hr, Nat.mod_eq_of_lt (by omega)]
    exact (BitVec.toNat_ushiftRight _ _).symm
  | ashr =>
    refine tracks_of_toNat ?_
    have hl := ha.toNat hw hrange.1
    have hr := hb.toNat hw hrange.2
    have hdef : v'.toNat < w.val := hdef
    show (r.toInt64 >>> r'.toInt64).toUInt64.toBitVec.toNat = (v.sshiftRight v'.toNat).toNat
    rw [toBitVec_sshiftRight (by omega), hr]
    refine toNat_sshiftRight_congr hl ?_
    rcases hsign rfl with h64 | hmsb | hzero
    · exact .inl h64.symm
    · -- 符号の無い値は、64 bit でも符号を持たない
      by_cases h64 : w.val = 64
      · exact .inl h64.symm
      · refine .inr (.inl ⟨msb_of_lt (k := w.val) ?_ (by omega), hmsb⟩)
        have hlt := v.isLt
        rw [← hl] at hlt
        exact hlt
    · exact .inr (.inr hzero)
  | and => exact ha.bitwise hb hw (fun _ a b => a &&& b) BitVec.setWidth_and rfl
  | or => exact ha.bitwise hb hw (fun _ a b => a ||| b) BitVec.setWidth_or rfl
  | xor => exact ha.bitwise hb hw (fun _ a b => a ^^^ b) BitVec.setWidth_xor rfl

/-- 64 bit までの register は値を返す。 -/
theorem tracks_register (off : Nat) :
    Tracks (loadRegValueRaw st (off % 2 ^ 32) w.val) (BitVec.ofNat w.val (regBytes st off w.val))
      (regBytes st off w.val) := by
  have hw := w.2.2
  have hload : loadRegValueRaw st (off % 2 ^ 32) w.val = UInt64.ofNat (regBytes st off w.val) := by
    unfold loadRegValueRaw
    exact if_neg (by omega)
  rw [hload]
  exact ⟨rfl, rfl⟩

/-- `Ok` の expression では、64 bit の値も LLVM の値も、折り返さずに計算した整数を追う。 -/
theorem tracks_of_ok (e : TypedExpr regoffs w) (hdef : e.Defined st) (hok : e.Ok st) :
    Tracks (e.raw st) (e.value st) (e.exact st) := by
  induction e with
  | @binary w op a b iha ihb =>
    obtain ⟨ha, hb, hdef⟩ := hdef
    obtain ⟨⟨hoka, hokb, hrange⟩, hsign⟩ := hok
    refine tracks_binary op (iha ha hoka) (ihb hb hokb) hdef hrange ?_
    rintro rfl
    exact hsign
  | @trunc v w h a ih =>
    have ha := ih hdef hok
    refine tracks_of_toNat ?_
    show (maskToBits (a.raw st) w.val).toNat = ((a.value st).setWidth w.val).toNat
    rw [toNat_maskToBits _ w.2.1 w.2.2, ← UInt64.toNat_toBitVec, ← BitVec.toNat_setWidth, ha.1,
      ha.2, setWidth_ofInt w.2.2, setWidth_ofInt (Nat.le_of_lt h)]
  | @zext v w h a ih =>
    have ha := (ih hdef hok.1).toNat v.2.2 hok.2
    refine tracks_of_toNat ?_
    show (maskToBits (a.raw st) w.val).toNat = ((a.value st).setWidth w.val).toNat
    rw [toNat_maskToBits _ w.2.1 w.2.2, ha, BitVec.toNat_setWidth]
  | @sext v w h a ih =>
    have ha := (ih hdef hok.1.1).toNat v.2.2 hok.1.2
    have hmsb : (a.value st).msb = false := hok.2
    refine tracks_of_toNat ?_
    show (signExtend (a.raw st) w.val).toNat = ((a.value st).signExtend w.val).toNat
    have hlt := (a.value st).isLt
    have hsub : 2 ^ v.val ≤ 2 ^ (w.val - 1) := Nat.pow_le_pow_right (by decide) (by omega)
    have hw : 2 ^ v.val ≤ 2 ^ w.val := Nat.pow_le_pow_right (by decide) (Nat.le_of_lt h)
    rw [toNat_signExtend _ w.2.1 w.2.2 (by omega), ha,
      BitVec.signExtend_eq_setWidth_of_msb_false hmsb, BitVec.toNat_setWidth,
      Nat.mod_eq_of_lt (by omega)]
  | @constant w v =>
    refine tracks_of_toNat (UInt64.toNat_ofNat_of_lt' ?_)
    exact Nat.lt_of_lt_of_le v.isLt (Nat.pow_le_pow_right (by decide) w.2.2)
  | register name off h => exact tracks_register off
  | string c s off h hw => exact tracks_register off

/-! ## 下位の bit -/

/-- 下位の bit が LLVM の値に等しいこと。 -/
def Agrees (st : CpuState) (e : TypedExpr regoffs w) : Prop :=
  ∃ r, liftExpressionOperandRecRaw regoffs st e.erase = .ok r ∧
    r.toBitVec.setWidth w.val = e.value st

theorem agrees_iff {e : TypedExpr regoffs w} :
    e.Agrees st ↔ (e.raw st).toBitVec.setWidth w.val = e.value st := by
  constructor
  · rintro ⟨r, hr, hlow⟩
    rw [lift_erase] at hr
    cases hr
    exact hlow
  · exact fun h => ⟨_, lift_erase e, h⟩

theorem ok_iff {e : TypedExpr regoffs w} : e.Ok st ↔ e.OperandsOk st ∧ e.SignOk st := by
  cases e with
  | binary op a b => exact Iff.rfl
  | sext h a => exact Iff.rfl
  | trunc h a => exact (and_iff_left trivial).symm
  | zext h a => exact (and_iff_left trivial).symm
  | constant v => exact (and_iff_left trivial).symm
  | register name off h => exact (and_iff_left trivial).symm
  | string c s off h hw => exact (and_iff_left trivial).symm

/-- 幅に収まる operand の `SExt` が正しいのは、符号の bit が 0 のときに限る。 -/
theorem msb_of_agrees_sext {v w : Width} {h : v.val < w.val} {a : TypedExpr regoffs v}
    (hdef : a.Defined st) (hok : a.Ok st ∧ a.Fits st)
    (hagree : (sext h a : TypedExpr regoffs w).Agrees st) : (a.value st).msb = false := by
  have ha := (tracks_of_ok a hdef hok.1).toNat v.2.2 hok.2
  have hlt := (a.value st).isLt
  have hsub : 2 ^ v.val ≤ 2 ^ (w.val - 1) := Nat.pow_le_pow_right (by decide) (by omega)
  have hraw : (signExtend (a.raw st) w.val).toNat = (a.value st).toNat := by
    rw [toNat_signExtend _ w.2.1 w.2.2 (by omega), ha]
  -- operand の幅の位置の bit を比べる
  have hbit := congrArg (BitVec.getLsbD · v.val) (agrees_iff.mp hagree)
  simp only [raw, value, BitVec.getLsbD_setWidth, BitVec.getLsbD_signExtend, h, decide_true,
    Bool.true_and, Nat.lt_irrefl, if_false] at hbit
  rw [← hbit, ← BitVec.testBit_toNat, UInt64.toNat_toBitVec, hraw]
  exact Nat.testBit_lt_two_pow hlt

/-- 幅に収まる operand の `AShr` が正しいのは、64 bit か、符号の bit が 0 か、shift 量が 0 のときに限る。 -/
theorem sign_of_agrees_ashr {a b : TypedExpr regoffs w} (hdef : (binary .ashr a b).Defined st)
    (hok : (binary .ashr a b).OperandsOk st) (hagree : (binary .ashr a b).Agrees st) :
    w.val = 64 ∨ (a.value st).msb = false ∨ (b.value st).toNat = 0 := by
  obtain ⟨hda, hdb, hshift⟩ := hdef
  obtain ⟨hoka, hokb, hrange⟩ := hok
  have hw := w.2.2
  have hshift : (b.value st).toNat < w.val := hshift
  have ha := (tracks_of_ok a hda hoka).toNat hw hrange.1
  have hb := (tracks_of_ok b hdb hokb).toNat hw hrange.2
  have hlt := (a.value st).isLt
  by_contra hnot
  obtain ⟨h64, hmsb, hzero⟩ : w.val ≠ 64 ∧ (a.value st).msb ≠ false ∧ (b.value st).toNat ≠ 0 := by
    simpa only [not_or] using hnot
  have hraw : ((a.raw st).toInt64 >>> (b.raw st).toInt64).toUInt64.toBitVec
      = (a.raw st).toBitVec >>> (b.value st).toNat := by
    rw [toBitVec_sshiftRight (by omega), hb]
    refine BitVec.sshiftRight_eq_of_msb_false (msb_of_lt (k := w.val) ?_ (by omega))
    rw [UInt64.toNat_toBitVec, ha]
    exact hlt
  -- 最上位の bit を比べる
  have hbit := congrArg (BitVec.getLsbD · (w.val - 1)) (agrees_iff.mp hagree)
  have htop : w.val - 1 < w.val := Nat.sub_lt w.2.1 Nat.one_pos
  have hout : ¬ (b.value st).toNat + (w.val - 1) < w.val := by omega
  simp only [raw, value, BinOp.raw, BinOp.value, hraw, BitVec.getLsbD_setWidth,
    BitVec.getLsbD_sshiftRight, BitVec.getLsbD_ushiftRight, htop, hout, if_false, decide_true,
    Bool.true_and, Nat.not_le_of_lt htop, decide_false, Bool.not_false] at hbit
  refine hmsb ?_
  rw [← hbit, ← BitVec.testBit_toNat, UInt64.toNat_toBitVec, ha]
  exact Nat.testBit_lt_two_pow (Nat.lt_of_lt_of_le hlt
    (Nat.pow_le_pow_right (by decide) (Nat.le_of_not_lt hout)))

/--
幅の中だけで計算できる expression の値は、下位の bit が LLVM の値に等しい。operand までが幅の中だけで計算できる
なら、そうなるのは、符号を見る演算の operand の符号が正しいときに限る。
-/
theorem lift_agrees (e : TypedExpr regoffs w) (hdef : e.Defined st) :
    (e.Ok st → e.Agrees st) ∧ (e.OperandsOk st → e.Agrees st → e.Ok st) := by
  refine ⟨fun hok => agrees_iff.mpr ((tracks_of_ok e hdef hok).low w.2.2), fun hops hagree => ?_⟩
  refine ok_iff.mpr ⟨hops, ?_⟩
  cases e with
  | binary op a b =>
    cases op with
    | ashr => exact sign_of_agrees_ashr hdef hops hagree
    | _ => trivial
  | sext h a => exact msb_of_agrees_sext hdef hops hagree
  | _ => trivial

/-! ## 例 -/

def w8 : Width := ⟨8, by decide⟩
def w32 : Width := ⟨32, by decide⟩

/-- どの byte も 0 の CPU state。 -/
def zeroState : CpuState := ⟨0, fun _ => 0⟩

/-- `v` を 32 bit に符号拡張して 1 を足す。 -/
def sextSucc (v : BitVec 8) : TypedExpr (fun _ => none) w32 :=
  binary .add (sext (v := w8) (by decide) (constant v)) (constant (1#32))

theorem sextSucc_agrees : (sextSucc 0x7f).value zeroState = 0x80#32 ∧
    (sextSucc 0x7f).Agrees zeroState :=
  ⟨rfl, (lift_agrees (sextSucc 0x7f) ⟨trivial, trivial, trivial⟩).1
    ⟨⟨⟨⟨trivial, .inr ⟨by decide, by decide⟩⟩, rfl⟩, trivial, trivial⟩, trivial⟩⟩

/-- 負の operand の `SExt` は、符号拡張しない。 -/
theorem sextSucc_not_agrees : (sextSucc 0xff).Defined zeroState ∧
    (sextSucc 0xff).value zeroState = 0#32 ∧
    liftExpressionOperandRecRaw (fun _ => none) zeroState (sextSucc 0xff).erase = .ok 0x100 ∧
    ¬ (sextSucc 0xff).Agrees zeroState := by
  refine ⟨⟨trivial, trivial, trivial⟩, rfl, by decide, fun h => ?_⟩
  have hlow : (0x100#64).setWidth 32 = 0#32 := agrees_iff.mp h
  exact absurd hlow (by decide)

end TypedExpr

end AetherVM
