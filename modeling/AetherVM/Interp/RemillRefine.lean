import AetherVM.Infra.Refine
import AetherVM.Encode.Roundtrip
import AetherVM.Interp.Remill

/-!
# 事前符号化の interpreter は直接の interpreter を refine する

変換した operand の値は、元の operand の値に等しい。expression の木では、後の operand が node の列に
積み続けても、すでに積まれた部分は変わらない。そこで「積み終えた列を prefix に持つどの列の上でも、
根の評価は木の評価に等しい」ことを木の帰納法で示す。

直接の interpreter が未定義の動作をする入力（型の無い幅の変換、table の外の番号）では、何も主張しない。
-/

namespace AetherVM.InterpMetaData

open Infra IMetaData

variable {regoffs : RegOffs} {st : CpuState}

/-! ## 切り詰めで失われないこと -/

theorem toNat_ofNat_uint8 {n : Nat} (h : n ≤ 255) : (UInt8.ofNat n).toNat = n := by
  rw [UInt8.toNat_ofNat']
  exact Nat.mod_eq_of_lt (by omega)

theorem toNat_ofNat_uint16 {n : Nat} (h : n ≤ 65535) : (UInt16.ofNat n).toNat = n := by
  rw [UInt16.toNat_ofNat']
  exact Nat.mod_eq_of_lt (by omega)

theorem fitsU8_toNat {value : UInt64} {field : String} {b : UInt8}
    (h : fitsU8 value field = .ok b) : b.toNat = value.toNat := by
  unfold fitsU8 at h
  split at h
  · next hle =>
    cases h
    exact toNat_ofNat_uint8 hle
  · cases h

/-- 変換した register は、同じ場所の同じ幅を指す。 -/
theorem convertRegister_toNat {reg : RemillRegister} {r : Register}
    (h : convertRegister reg = .ok r) :
    r.offset.toNat = reg.offset.toNat ∧ r.size.toNat = reg.size.toNat := by
  unfold convertRegister at h
  split at h
  · cases h
  · next hle =>
    cases h
    exact ⟨toNat_ofNat_uint16 (by omega), toNat_ofNat_uint16 (by omega)⟩

/-! ## 木でない operand -/

/-- 幅 0 の register を読むと 0 になる。名前の有無と幅の有無の判定は、ここで一致する。 -/
theorem loadRegValueRaw_zero (offset : Nat) : loadRegValueRaw st offset 0 = 0 := rfl

theorem maskToBits_zero (bits : Nat) : maskToBits 0 bits = 0 := by
  unfold maskToBits
  split
  · rfl
  · split
    · rfl
    · exact UInt64.zero_and

theorem loadWordRegValOrZero_convert {reg : RemillRegister} {r : Register}
    (h : convertAddressRegister reg = .ok r) :
    loadWordRegValOrZero st r = AetherVM.loadWordRegValOrZero st reg := by
  unfold convertAddressRegister at h
  unfold loadWordRegValOrZero AetherVM.loadWordRegValOrZero
  split at h
  · next hname =>
    cases h
    rw [if_pos rfl, if_pos hname]
  · next hname =>
    obtain ⟨hoff, hsize⟩ := convertRegister_toNat h
    rw [if_neg hname, hoff, hsize]
    split
    · next hz =>
      have hz : reg.size.toNat = 0 := by rw [← hsize, hz]; rfl
      rw [hz, loadRegValueRaw_zero, maskToBits_zero]
    · rfl

theorem liftShiftRegisterOperandRaw_convert {s : RemillShiftRegister} {shift : ShiftRegister}
    (h : convertShiftRegister s = .ok shift) {size : UInt64} (hsize : size.toNat ≤ 65535) :
    liftShiftRegisterOperandRaw st (UInt16.ofNat size.toNat) shift
      = AetherVM.liftShiftRegisterOperandRaw st size s := by
  obtain ⟨shiftSize, hshift, h⟩ := ok_of_bind_eq_ok h
  obtain ⟨extractSize, hextract, h⟩ := ok_of_bind_eq_ok h
  obtain ⟨reg, hreg, h⟩ := ok_of_bind_eq_ok h
  cases h
  obtain ⟨hoff, hregsize⟩ := convertRegister_toNat hreg
  simp only [liftShiftRegisterOperandRaw, AetherVM.liftShiftRegisterOperandRaw, hoff, hregsize,
    fitsU8_toNat hshift, fitsU8_toNat hextract, toNat_ofNat_uint16 hsize, UInt64.ofNat_toNat]

theorem liftAddressOperandRaw_convert {a : RemillAddress} {address : Address}
    (h : convertAddress a = .ok address) :
    liftAddressOperandRaw st address = AetherVM.liftAddressOperandRaw st a := by
  obtain ⟨addressSize, haddress, h⟩ := ok_of_bind_eq_ok h
  obtain ⟨segment, hsegment, h⟩ := ok_of_bind_eq_ok h
  obtain ⟨base, hbase, h⟩ := ok_of_bind_eq_ok h
  obtain ⟨index, hindex, h⟩ := ok_of_bind_eq_ok h
  cases h
  simp only [liftAddressOperandRaw, AetherVM.liftAddressOperandRaw,
    loadWordRegValOrZero_convert hsegment, loadWordRegValOrZero_convert hbase,
    loadWordRegValOrZero_convert hindex, fitsU8_toNat haddress]

/-! ## expression -/

/-- 上下に分けた定数は、元の値に戻る。 -/
theorem constant_combine {value : Nat} (h : value < 2 ^ 64) :
    (UInt64.ofNat (UInt32.ofNat (value / 2 ^ 32)).toNat <<< 32
      ||| UInt64.ofNat (UInt32.ofNat value).toNat) = UInt64.ofNat value := by
  have hlow : (UInt32.ofNat value).toNat = value % 2 ^ 32 := UInt32.toNat_ofNat'
  have hhigh : (UInt32.ofNat (value / 2 ^ 32)).toNat = value / 2 ^ 32 := by
    rw [UInt32.toNat_ofNat']
    exact Nat.mod_eq_of_lt (by omega)
  rw [hlow, hhigh]
  apply UInt64.toNat_inj.mp
  have hlt : value % 2 ^ 32 < 2 ^ 32 := Nat.mod_lt _ (by decide)
  have hword : UInt64.size = 2 ^ 64 := rfl
  rw [UInt64.toNat_or, UInt64.toNat_shiftLeft, UInt64.toNat_ofNat_of_lt' (by omega),
    UInt64.toNat_ofNat_of_lt' (by omega), UInt64.toNat_ofNat_of_lt' (by omega)]
  have hs : (32 : UInt64).toNat % 64 = 32 := rfl
  rw [hs, Nat.shiftLeft_eq, Nat.mod_eq_of_lt (by omega), Nat.mul_comm,
    ← Nat.two_pow_add_eq_or_of_lt hlt]
  omega

/-- 幅を見ない演算は、幅が無くても同じ値になる。 -/
theorem evalLLVMOp_refines {opcode : Nat} {type : Option Nat} {width : UInt8}
    (h : convertWidth type = .ok width) (lhs rhs : UInt64) :
    Refines .undefined (evalLLVMOp opcode (typeSizeInBits type) lhs rhs)
      (evalLLVMOp opcode (.ok width.toNat) lhs rhs) := by
  cases type with
  | some w =>
    simp only [convertWidth] at h
    split at h
    · cases h
    · next hle =>
      rw [Except.ok.injEq] at h
      rw [← h, toNat_ofNat_uint8 (by omega)]
      exact .refl _
  | none =>
    cases hop : LLVMOpcode.ofOpcode opcode with
    | none =>
      simp only [evalLLVMOp, hop]
      exact .refl _
    | some op =>
      cases op with
      | zext | trunc | sext =>
        exact fun hne => absurd (by simp only [evalLLVMOp, hop]; rfl) hne
      | _ =>
        simp only [evalLLVMOp, hop]
        exact .refl _

theorem defined_abort {α : Type} : Defined .undefined (.error .abort : Except Fault α) :=
  fun h => by cases h

theorem evalLLVMOp_defined (opcode width : Nat) (lhs rhs : UInt64) :
    Defined .undefined (evalLLVMOp opcode (.ok width) lhs rhs) := by
  cases hop : LLVMOpcode.ofOpcode opcode with
  | none =>
    simp only [evalLLVMOp, hop]
    exact defined_abort
  | some op =>
    cases op with
    | _ =>
      simp only [evalLLVMOp, hop]
      exact .ok _

theorem getOffset_of_le {name : Name} {off : Nat} (h : regoffs name = some off)
    (hle : off ≤ 65535) : getOffset regoffs name = .ok off := by
  simp only [getOffset, h]
  rw [Nat.mod_eq_of_lt (by omega)]

/-! ## 変換が終わったときにしたこと

変換の成功から、根と列の形、通った検査を取り出す。
-/

section Inversion

variable {nodes nodes' : List Expression} {root : Expression}

theorem appendChild_ok
    {convert : List Expression → Except ConvertError (Expression × List Expression)} {i : UInt32}
    (h : appendChild convert nodes = .ok (i, nodes')) :
    ∃ child nodes₁, convert nodes = .ok (child, nodes₁) ∧ nodes' = nodes₁ ++ [child] ∧
      i.toNat = nodes₁.length ∧ i ≠ noChild := by
  obtain ⟨⟨child, nodes₁⟩, hconv, h⟩ := ok_of_bind_eq_ok h
  dsimp only at h
  split at h
  · cases h
  next hlt =>
  cases h
  have hn : noChild.toNat = 0xFFFFFFFF := rfl
  have hi : (UInt32.ofNat nodes₁.length).toNat = nodes₁.length := by
    rw [UInt32.toNat_ofNat']
    exact Nat.mod_eq_of_lt (by omega)
  refine ⟨child, nodes₁, hconv, rfl, hi, fun hc => ?_⟩
  rw [hc] at hi
  omega

theorem convertExpression_llvmOp {opcode : UInt32} {op1 op2 : RemillExpr} {type : Option Nat}
    (h : convertExpression regoffs (.llvmOp opcode op1 op2 type) nodes = .ok (root, nodes')) :
    ∃ lhs rhs width nodes₁, opcode.toNat ≤ 255 ∧
      appendChild (convertExpression regoffs op1) nodes = .ok (lhs, nodes₁) ∧
      (if op2 = .null then .ok (noChild, nodes₁)
        else appendChild (convertExpression regoffs op2) nodes₁) = .ok (rhs, nodes') ∧
      convertWidth type = .ok width ∧
      root = ⟨.operation lhs rhs, UInt8.ofNat opcode.toNat, width, 0⟩ := by
  rw [convertExpression] at h
  split at h
  · cases h
  next hop =>
  obtain ⟨⟨lhs, nodes₁⟩, h1, h⟩ := ok_of_bind_eq_ok h
  obtain ⟨⟨rhs, nodes₂⟩, h2, h⟩ := ok_of_bind_eq_ok h
  obtain ⟨width, hwidth, h⟩ := ok_of_bind_eq_ok h
  cases h
  exact ⟨lhs, rhs, width, nodes₁, by omega, h1, h2, hwidth, rfl⟩

theorem convertExpression_register {reg : Option (Name × UInt64)}
    (h : convertExpression regoffs (.register reg) nodes = .ok (root, nodes')) :
    ∃ name size off, reg = some (name, size) ∧ regoffs name = some off ∧ off ≤ 65535 ∧
      size.toNat ≤ 65535 ∧ nodes' = nodes ∧
      root = ⟨.reg ⟨UInt16.ofNat off, UInt16.ofNat size.toNat⟩, 0, 0, 0⟩ := by
  cases reg with
  | none => cases h
  | some reg =>
    obtain ⟨name, size⟩ := reg
    rw [convertExpression] at h
    split at h
    · cases h
    next off hoff =>
    split at h
    · cases h
    next hle =>
    cases h
    exact ⟨name, size, off, rfl, hoff, by omega, by omega, rfl, rfl⟩

/-- 定数の幅は 64 bit までなので、値も 64 bit に収まる。 -/
theorem convertExpression_constant {value : Option ((w : Nat) × BitVec w)}
    (h : convertExpression regoffs (.constant value) nodes = .ok (root, nodes')) :
    ∃ w, ∃ integer : BitVec w, value = some ⟨w, integer⟩ ∧ w ≤ 64 ∧ integer.toNat < 2 ^ 64 ∧
      nodes' = nodes ∧ root = ⟨.constant (UInt32.ofNat integer.toNat)
        (UInt32.ofNat (integer.toNat / 2 ^ 32)), 0, UInt8.ofNat w, 0⟩ := by
  cases value with
  | none => cases h
  | some value =>
    obtain ⟨w, integer⟩ := value
    rw [convertExpression] at h
    split at h
    · cases h
    next hle =>
    cases h
    have hlt : integer.toNat < 2 ^ 64 :=
      Nat.lt_of_lt_of_le integer.isLt (Nat.pow_le_pow_right (by decide) (by omega))
    exact ⟨w, integer, rfl, by omega, hlt, rfl, rfl⟩

theorem convertExpression_name {name : Name}
    (h : convertExpression regoffs (.name name) nodes = .ok (root, nodes')) :
    ∃ c s off, name = c :: s ∧ regoffs (c :: s) = some off ∧ off ≤ 65535 ∧ nodes' = nodes ∧
      root = ⟨.reg ⟨UInt16.ofNat off, if c = 0x77 then 32 else 64⟩, 0, 0, 0⟩ := by
  cases name with
  | nil => cases h
  | cons c s =>
    rw [convertExpression] at h
    split at h
    · cases h
    next off hoff =>
    split at h
    · cases h
    next hle =>
    cases h
    exact ⟨c, s, off, rfl, hoff, by omega, rfl, rfl⟩

end Inversion

/-! ## node の列 -/

/-- 積んだ node は、列がさらに伸びても同じ番号で読める。 -/
theorem elementAt_of_prefix {nodes final : List Expression} {child : Expression}
    (h : nodes ++ [child] <+: final) : elementAt final nodes.length = .ok child := by
  obtain ⟨rest, rfl⟩ := h
  simp [elementAt]

/--
`nodes` に `nodes'` まで積んで得た根 `root` が、値 `direct` を表すこと。列がこの後どう伸びても、
積んだ個数より多い fuel があれば、根の評価は `direct` を refine する。`direct` が未定義になるのは、
木に型の無い演算がある（`typed` でない）ときに限る。
-/
structure Represents (st : CpuState) (typed : Prop) (direct : Except Fault UInt64)
    (nodes nodes' : List Expression) (root : Expression) : Prop where
  grows : nodes <+: nodes'
  defined : typed → Defined .undefined direct
  value : ∀ {final : List Expression} {fuel : Nat}, nodes' <+: final →
    nodes'.length < nodes.length + fuel →
    Refines .undefined direct (liftExpressionOperandRecRaw st final fuel root)

/-- 子を持たない node は、列を伸ばさずに値を表す。 -/
theorem represents_leaf {typed : Prop} {direct : Except Fault UInt64} {nodes : List Expression}
    {root : Expression} {v : UInt64} (hdirect : direct = .ok v)
    (h : ∀ final fuel, liftExpressionOperandRecRaw st final (fuel + 1) root = .ok v) :
    Represents st typed direct nodes nodes root where
  grows := List.prefix_refl nodes
  defined := fun _ => hdirect ▸ .ok v
  value := by
    intro final fuel _ hfuel
    obtain ⟨fuel, rfl⟩ : ∃ n, fuel = n + 1 := ⟨fuel - 1, by omega⟩
    exact .of_eq ((h final fuel).trans hdirect.symm)

/-- 積んだ子 `i` が、値 `direct` を表すこと。 -/
structure RepresentsChild (st : CpuState) (typed : Prop) (direct : Except Fault UInt64)
    (nodes nodes' : List Expression) (i : UInt32) : Prop where
  ne_noChild : i ≠ noChild
  grows : nodes <+: nodes'
  lt : nodes.length < nodes'.length
  defined : typed → Defined .undefined direct
  value : ∀ {final : List Expression} {fuel : Nat}, nodes' <+: final →
    nodes'.length ≤ nodes.length + fuel →
    Refines .undefined direct
      (elementAt final i.toNat >>= liftExpressionOperandRecRaw st final fuel)

/-- 子を積めば、その番号は 32 bit に収まり、番兵にもならず、積んだ node を指す。 -/
theorem appendChild_represents
    {convert : List Expression → Except ConvertError (Expression × List Expression)}
    {typed : Prop} {direct : Except Fault UInt64} {nodes nodes' : List Expression} {i : UInt32}
    (hc : ∀ {nodes' root}, convert nodes = .ok (root, nodes') →
      Represents st typed direct nodes nodes' root)
    (h : appendChild convert nodes = .ok (i, nodes')) :
    RepresentsChild st typed direct nodes nodes' i := by
  obtain ⟨child, nodes₁, hconv, rfl, hi, hne⟩ := appendChild_ok h
  obtain ⟨hgrows, hdefined, hvalue⟩ := hc hconv
  have hle := hgrows.length_le
  -- 親は子の番号より後に積まれるので、列の長さを fuel にすれば子を辿れる
  refine ⟨hne, hgrows.trans (List.prefix_append _ _), ?_, hdefined,
    fun {final fuel} hp hfuel => ?_⟩
  · rw [List.length_append, List.length_singleton]
    omega
  · rw [List.length_append, List.length_singleton] at hfuel
    rw [hi, elementAt_of_prefix hp]
    exact hvalue ((List.prefix_append _ _).trans hp) (by omega)

/-- 二つ目の子。無ければ番兵を書き、値は 0 である。 -/
theorem appendChild_or_noChild {op : RemillExpr} {nodes nodes' : List Expression} {i : UInt32}
    (hc : ∀ {nodes nodes' : List Expression} {root : Expression},
      convertExpression regoffs op nodes = .ok (root, nodes') →
      Represents st op.Typed (AetherVM.liftExpressionOperandRecRaw regoffs st op) nodes nodes' root)
    (h : (if op = .null then .ok (noChild, nodes)
      else appendChild (convertExpression regoffs op) nodes) = .ok (i, nodes')) :
    nodes <+: nodes' ∧
      (op.Typed → Defined .undefined
        (if op = .null then .ok 0 else AetherVM.liftExpressionOperandRecRaw regoffs st op)) ∧
      ∀ {final : List Expression} {fuel : Nat}, nodes' <+: final →
        nodes'.length ≤ nodes.length + fuel →
        Refines .undefined
          (if op = .null then .ok 0 else AetherVM.liftExpressionOperandRecRaw regoffs st op)
          (if i = noChild then .ok 0
            else elementAt final i.toNat >>= liftExpressionOperandRecRaw st final fuel) := by
  split at h
  · next hnull =>
    cases h
    simp only [if_pos hnull, if_true]
    exact ⟨List.prefix_refl _, fun _ => .ok 0, fun _ _ => .refl _⟩
  · next hnull =>
    have hchild := appendChild_represents hc h
    simp only [if_neg hnull, if_neg hchild.ne_noChild]
    exact ⟨hchild.grows, hchild.defined, hchild.value⟩

/-- 変換した expression の根は、木の値を表す。 -/
theorem convertExpression_represents (st : CpuState) (expr : RemillExpr) :
    ∀ {nodes nodes' : List Expression} {root : Expression},
    convertExpression regoffs expr nodes = .ok (root, nodes') →
    Represents st expr.Typed (AetherVM.liftExpressionOperandRecRaw regoffs st expr) nodes nodes'
      root := by
  induction expr with
  | null =>
    intro nodes nodes' root h
    cases h
  | llvmOp opcode op1 op2 type ih1 ih2 =>
    intro nodes nodes' root h
    obtain ⟨lhs, rhs, width, nodes₁, hop, h1, h2, hwidth, rfl⟩ := convertExpression_llvmOp h
    have hlhs := appendChild_represents ih1 h1
    obtain ⟨hgrows, hdefined, hvalue⟩ := appendChild_or_noChild ih2 h2
    have hlt := hlhs.lt
    have hle := hgrows.length_le
    -- 子は先に置かれるので、左の子は右の子の後まで残り、深さは fuel より一つ浅い
    refine ⟨hlhs.grows.trans hgrows, ?_, fun {final fuel} hp hfuel => ?_⟩
    · rintro ⟨htype, ht1, ht2⟩
      obtain ⟨w, rfl⟩ := Option.isSome_iff_exists.mp htype
      exact (hlhs.defined ht1).bind fun l _ => (hdefined ht2).bind fun r _ =>
        evalLLVMOp_defined opcode.toNat w l r
    · obtain ⟨fuel, rfl⟩ : ∃ n, fuel = n + 1 := ⟨fuel - 1, by omega⟩
      rw [AetherVM.liftExpressionOperandRecRaw, liftExpressionOperandRecRaw]
      refine (hlhs.value (hgrows.trans hp) (by omega)).bind fun l _ => ?_
      refine (hvalue hp (by omega)).bind fun r _ => ?_
      rw [toNat_ofNat_uint8 hop]
      exact evalLLVMOp_refines hwidth l r
  | register reg =>
    intro nodes nodes' root h
    obtain ⟨name, size, off, rfl, hoff, hoffle, hsizele, rfl, rfl⟩ := convertExpression_register h
    have hsize : toUnsigned size.toNat = size.toNat := Nat.mod_eq_of_lt (by omega)
    refine represents_leaf ?_ fun final fuel => rfl
    rw [AetherVM.liftExpressionOperandRecRaw, getOffset_of_le hoff hoffle, hsize,
      toNat_ofNat_uint16 hoffle, toNat_ofNat_uint16 hsizele]
    rfl
  | constant value =>
    intro nodes nodes' root h
    obtain ⟨width, integer, rfl, -, hlt, rfl, rfl⟩ := convertExpression_constant h
    refine represents_leaf ?_ fun final fuel => rfl
    rw [AetherVM.liftExpressionOperandRecRaw, if_pos hlt, constant_combine hlt]
  | name s =>
    intro nodes nodes' root h
    obtain ⟨c, s, off, rfl, hoff, hoffle, rfl, rfl⟩ := convertExpression_name h
    refine represents_leaf ?_ fun final fuel => rfl
    rw [AetherVM.liftExpressionOperandRecRaw, getOffset_of_le hoff hoffle,
      toNat_ofNat_uint16 hoffle]
    split
    · rfl
    · rfl

/-! ## operand の table -/

theorem bool_toUInt8_ne_zero (b : Bool) : decide (b.toUInt8 ≠ 0) = b := by cases b <;> rfl

/--
metadata の operand が、どの CPU state でも元の operand と同じ値になること。型の無い演算を含まなければ、
元の operand の値は未定義にならない。
-/
def Agrees (regoffs : RegOffs) (expressions : List Expression) (op : RemillOperand)
    (operand : Operand) : Prop :=
  ∀ (st : CpuState) (pointer : Bool),
    (op.value.Typed → Defined .undefined (liftOperand regoffs st op pointer)) ∧
    Refines .undefined (liftOperand regoffs st op pointer)
      (liftOperandRaw st expressions operand pointer)

theorem liftShiftRegisterOperandRaw_defined (st : CpuState) (size : UInt64)
    (s : RemillShiftRegister) :
    Defined .undefined (AetherVM.liftShiftRegisterOperandRaw st size s) := by
  refine Defined.bind ?_ fun a _ => .ok _
  unfold extendValue
  split
  · exact .ok _
  · dsimp only
    split
    · split
      · exact .ok _
      · split
        · exact .ok _
        · exact defined_abort
    · exact .ok _

/-- 列がこの後どう伸びても、変換した operand は元の operand と同じ値になる。 -/
theorem convertOperand_agrees {op : RemillOperand} {nodes nodes' : List Expression}
    {operand : Operand} (h : convertOperand regoffs op nodes = .ok (operand, nodes')) :
    nodes <+: nodes' ∧ ∀ {final : List Expression}, nodes' <+: final → op.size.toNat ≤ 65535 →
      Agrees regoffs final op operand := by
  obtain ⟨⟨value, nodes₁⟩, hvalue, h⟩ := ok_of_bind_eq_ok h
  cases h
  obtain ⟨size, action, v⟩ := op
  cases v with
  | invalid =>
    cases hvalue
    exact ⟨List.prefix_refl _, fun _ _ st pointer => ⟨fun _ => defined_abort, .refl _⟩⟩
  | reg r =>
    obtain ⟨reg, hreg, hvalue⟩ := ok_of_bind_eq_ok hvalue
    cases hvalue
    obtain ⟨hoff, hsize⟩ := convertRegister_toNat hreg
    refine ⟨List.prefix_refl _, fun _ _ st pointer => ⟨fun _ => .ok _, .of_eq ?_⟩⟩
    simp only [liftOperandRaw, liftOperand, liftRegisterOperandRaw, hoff, hsize]
  | shiftReg s =>
    obtain ⟨shift, hshift, hvalue⟩ := ok_of_bind_eq_ok hvalue
    cases hvalue
    exact ⟨List.prefix_refl _, fun _ hsize st pointer =>
      ⟨fun _ => liftShiftRegisterOperandRaw_defined st size s,
        .of_eq (liftShiftRegisterOperandRaw_convert hshift hsize)⟩⟩
  | imm val isSigned =>
    cases hvalue
    refine ⟨List.prefix_refl _, fun _ hsize st pointer => ⟨fun _ => .ok _, .of_eq ?_⟩⟩
    simp only [liftOperandRaw, liftOperand, bool_toUInt8_ne_zero, toNat_ofNat_uint16 hsize]
  | addr a =>
    obtain ⟨address, haddress, hvalue⟩ := ok_of_bind_eq_ok hvalue
    cases hvalue
    refine ⟨List.prefix_refl _, fun _ _ st pointer => ⟨fun _ => .ok _, .of_eq ?_⟩⟩
    simp only [liftOperandRaw, liftOperand, liftAddressOperandRaw_convert haddress]
  | expr t ptr e =>
    obtain ⟨⟨root, nodes₂⟩, hroot, hvalue⟩ := ok_of_bind_eq_ok hvalue
    cases hvalue
    have hrep := fun st => convertExpression_represents st e hroot
    refine ⟨(hrep ⟨0, fun _ => 0⟩).grows, fun {final} hp _ st pointer => ?_⟩
    have hle := hp.length_le
    exact ⟨(hrep st).defined, (hrep st).value hp (by omega)⟩

/-- table の変換では、後の operand が積む node は、前の operand の値を変えない。 -/
theorem convertOperandsFrom_agrees : ∀ {ops : List RemillOperand} {nodes final : List Expression}
    {metadata : List Operand}, convertOperandsFrom regoffs ops nodes = .ok (metadata, final) →
    nodes <+: final ∧ ∀ {k : Nat} {op : RemillOperand}, ops[k]? = some op →
      ∃ operand, metadata[k]? = some operand ∧
        (op.size.toNat ≤ 65535 → Agrees regoffs final op operand)
  | [], nodes, final, metadata, h => by
    cases h
    exact ⟨List.prefix_refl _, fun hk => by simp at hk⟩
  | op :: ops, nodes, final, metadata, h => by
    obtain ⟨⟨operand, nodes₁⟩, hop, h⟩ := ok_of_bind_eq_ok h
    obtain ⟨⟨rest, final'⟩, hrest, h⟩ := ok_of_bind_eq_ok h
    cases h
    obtain ⟨hgrows, hvalue⟩ := convertOperand_agrees hop
    obtain ⟨hgrows', hvalues⟩ := convertOperandsFrom_agrees hrest
    refine ⟨hgrows.trans hgrows', fun {k} {o} hk => ?_⟩
    cases k with
    | zero =>
      rw [List.getElem?_cons_zero, Option.some.injEq] at hk
      subst hk
      exact ⟨operand, rfl, hvalue hgrows'⟩
    | succ k => exact hvalues hk

/-! ## handler の呼び出し -/

theorem liftAll_defined {α : Type} {f : α → Except Fault UInt64} : ∀ {xs : List α},
    (∀ a ∈ xs, Defined .undefined (f a)) → Defined .undefined (liftAll f xs)
  | [], _ => .ok _
  | a :: xs, h => by
    refine (h a List.mem_cons_self).bind fun v _ => ?_
    exact (liftAll_defined fun b hb => h b (List.mem_cons_of_mem _ hb)).bind fun vs _ => .ok _

theorem liftAll_refines {α : Type} {f g : α → Except Fault UInt64} : ∀ {xs : List α},
    (∀ a ∈ xs, Refines .undefined (f a) (g a)) →
    Refines .undefined (liftAll f xs) (liftAll g xs)
  | [], _ => .refl _
  | a :: xs, h => by
    refine (h a List.mem_cons_self).bind fun v _ => ?_
    exact (liftAll_refines fun b hb => h b (List.mem_cons_of_mem _ hb)).bind fun vs _ => .refl _

theorem liftAll_map {α β : Type} {f : β → Except Fault UInt64} (g : α → β) : ∀ (xs : List α),
    liftAll f (xs.map g) = liftAll (fun a => f (g a)) xs
  | [] => rfl
  | a :: xs => by rw [List.map_cons, liftAll, liftAll, liftAll_map g xs]

theorem liftAll_length {α : Type} {f : α → Except Fault UInt64} : ∀ {xs : List α}
    {vs : List UInt64}, liftAll f xs = .ok vs → vs.length = xs.length
  | [], vs, h => by cases h; rfl
  | a :: xs, vs, h => by
    obtain ⟨v, _, h⟩ := ok_of_bind_eq_ok h
    obtain ⟨vs', hvs, h⟩ := ok_of_bind_eq_ok h
    cases h
    rw [List.length_cons, List.length_cons, liftAll_length hvs]

/-- record に書かれた `impl` は、table の中で handler の実装を指す。 -/
theorem elementAt_implField {e : PreEncoder} {h : OpcodeHandler} {dyn dyn' : Nat} {impl : UInt16}
    (hty : h.type = .remill) (himpl : e.implField h dyn = some (impl, dyn')) :
    ∃ handler, elementAt (e.tables.of e.arch) impl.toNat = .ok handler ∧ handler.impl = h.impl := by
  simp only [PreEncoder.implField, hty] at himpl
  split at himpl
  · cases himpl
  next index hfind =>
  split at himpl
  · cases himpl
  next hlt =>
  simp only [Option.some.injEq, Prod.mk.injEq] at himpl
  have hno : PreEncoder.noImpl = 65535 := rfl
  obtain ⟨hindex, hp, -⟩ := List.findIdx?_eq_some_iff_getElem.mp hfind
  refine ⟨(e.tables.of e.arch)[index], ?_, eq_of_beq hp⟩
  rw [← himpl.1, toNat_ofNat_uint16 (by omega), elementAt, List.getElem?_eq_getElem hindex]

section

variable {e : PreEncoder} {operands : List RemillOperand} {metadata : List Operand}
  {expressions : List Expression} {serialized : List (Nat × Bytes)}

/-- table の operand は、どれも同じ番号の metadata に同じ値で写る。 -/
def TableAgrees (regoffs : RegOffs) (operands : List RemillOperand) (metadata : List Operand)
    (expressions : List Expression) : Prop :=
  ∀ (k : Nat) (op : RemillOperand), operands[k]? = some op →
    ∃ operand, metadata[k]? = some operand ∧ Agrees regoffs expressions op operand

theorem convertOperands_agrees
    (hconv : convertOperands regoffs operands = .ok (metadata, expressions))
    (hsize : ∀ op ∈ operands, op.size.toNat ≤ 65535) :
    TableAgrees regoffs operands metadata expressions := by
  intro k op hop
  obtain ⟨operand, hoperand, hvalue⟩ := (convertOperandsFrom_agrees hconv).2 hop
  exact ⟨operand, hoperand, hvalue (hsize op (List.mem_of_getElem? hop))⟩

/-- 引数の番号がどこを指していても、二つの interpreter の lift は refinement の関係にある。 -/
theorem liftArg_refines (htable : TableAgrees regoffs operands metadata expressions)
    (st : CpuState) (index : Nat) (pointer : Bool) :
    Refines .undefined (elementAt operands index >>= fun op => liftOperand regoffs st op pointer)
      (elementAt metadata index >>= fun op => liftOperandRaw st expressions op pointer) := by
  cases hop : operands[index]? with
  | none =>
    intro hne
    exact absurd (by rw [elementAt, hop]; rfl) hne
  | some op =>
    obtain ⟨operand, hoperand, hvalue⟩ := htable _ _ hop
    rw [elementAt, elementAt, hop, hoperand]
    exact (hvalue st pointer).2

/-- handler の引数が table の中を指し、指す operand に型の無い演算が無いこと。 -/
def ArgsDefined (operands : List RemillOperand) (h : OpcodeHandler) : Prop :=
  ∀ arg ∈ h.args, ∃ op, operands[arg.index]? = some op ∧ op.value.Typed

/-- そのような handler の直接の解釈は、未定義にならない。 -/
theorem interpRemill_defined (htable : TableAgrees regoffs operands metadata expressions)
    {h : OpcodeHandler} (hargs : h.args.length ≤ 13) (hdef : ArgsDefined operands h)
    (layout : StateLayout) (st : CpuState) :
    Defined .undefined (h.interpRemill regoffs layout operands st) := by
  refine Defined.bind (liftAll_defined fun arg harg => ?_) fun params hparams => ?_
  · obtain ⟨op, hop, htyped⟩ := hdef arg harg
    obtain ⟨operand, -, hvalue⟩ := htable _ _ hop
    rw [elementAt, hop]
    exact (hvalue _ arg.pointer).1 htyped
  · have hlen := liftAll_length hparams
    rw [if_neg (by omega), if_neg (by omega)]
    exact .ok _

/-- record が handler を伝え、`impl` が同じ実装を指すなら、呼び出しは同じになる。 -/
theorem interpRemill_of_describes (htable : TableAgrees regoffs operands metadata expressions)
    {h : OpcodeHandler} {view : HandlerView} (hd : PreEncoder.Describes view h)
    (hty : h.type = .remill) (hargs : h.args.length ≤ 13)
    {handlers : List AetherVM.Handler} {handler : AetherVM.Handler}
    (hhandler : elementAt handlers view.head.impl.toNat = .ok handler)
    (himpl : handler.impl = h.impl) (layout : StateLayout) (st : CpuState) :
    Refines .undefined (h.interpRemill regoffs layout operands st)
      (some <$> interpRemill handlers layout metadata expressions view st) := by
  rw [OpcodeHandler.interpRemill, interpRemill, hhandler, hd.oplen]
  set st' := setNextPC layout st h.oplen.toNat
  -- 読んだ引数の列は、番号と flag の列として handler の引数に等しい
  have hview : liftAll (fun info : IMetaData.OperandInfo =>
        elementAt metadata info.index.toNat >>= fun op =>
          liftOperandRaw st' expressions op info.pointer) view.operands
      = liftAll (fun opi : OperandInfo => elementAt metadata opi.index >>= fun op =>
          liftOperandRaw st' expressions op opi.pointer) h.args := by
    have hmap := congrArg (liftAll fun p : Nat × Bool => elementAt metadata p.1 >>= fun op =>
      liftOperandRaw st' expressions op p.2) (hd.args hty)
    rwa [liftAll_map, liftAll_map] at hmap
  show Refines _ _ (some <$> (liftAll _ view.operands >>= _))
  rw [hview, map_bind]
  refine (liftAll_refines fun opi _ => liftArg_refines htable st' opi.index opi.pointer).bind
    fun params hparams => .of_eq ?_
  have hlen := liftAll_length hparams
  rw [if_neg (by omega), if_neg (by omega), if_neg (by omega), if_neg (by omega), himpl]
  rfl

/--
事前符号化の interpreter は直接の interpreter を refine する。共有の table の operand は一つずつ同じ値になり、
13 個までの引数を持つ Remill の handler は、書いた record から読んでも同じ実装を同じ引数で呼ぶ。
直接の側が未定義になるのは、引数が table の外を指すか、幅の変換に型が無いときだけである。
-/
theorem interpRemill_refines
    (hconv : convertOperands regoffs operands = .ok (metadata, expressions))
    (hsize : ∀ op ∈ operands, op.size.toNat ≤ 65535)
    (hser : e.serializeHandler = .ok serialized) :
    TableAgrees regoffs operands metadata expressions ∧
    ∀ {i : Nat} {source : PreEncoder.Handler}, e.handlers[i]? = some source →
      source.ptr.type = .remill → source.ptr.args.length ≤ 13 →
      ∃ off record view, serialized[i]? = some (off, record) ∧ readHandler record 0 = some view ∧
        ∀ (layout : StateLayout) (st : CpuState),
          (ArgsDefined operands source.ptr →
            Defined .undefined (source.ptr.interpRemill regoffs layout operands st)) ∧
          Refines .undefined (source.ptr.interpRemill regoffs layout operands st)
            (some <$> interpRemill (e.tables.of e.arch) layout metadata expressions view st) := by
  have htable := convertOperands_agrees hconv hsize
  refine ⟨htable, fun {i} {source} hi hty hargs => ?_⟩
  obtain ⟨impl, d, d', himpl, hf, hrecord⟩ := (PreEncoder.serialized_of_ok hser).getElem? hi
  have hread := PreEncoder.readHandler_recordBytes (e := e) hf impl [] []
  rw [List.nil_append, List.append_nil, List.length_nil] at hread
  obtain ⟨handler, hhandler, himpl⟩ := elementAt_implField hty himpl
  refine ⟨_, _, _, hrecord, hread, fun layout st => ⟨?_, ?_⟩⟩
  · exact fun hdef => interpRemill_defined htable hargs hdef layout st
  · exact interpRemill_of_describes htable (PreEncoder.describes_record hf impl) hty hargs
      hhandler himpl layout st

end

/-- `X0` と `w1` の offset だけを持つ table。 -/
def sampleRegOffs : RegOffs := fun name =>
  if name = [0x58, 0x30] then some 544 else if name = [0x77, 0x31] then some 560 else none

/-- 書き込み先の `X0` と、`zext w1 + 5`。 -/
def sampleRemillOperands : List RemillOperand :=
  [⟨64, .write, .reg ⟨[0x58, 0x30], 64, 544⟩⟩,
    ⟨64, .read, .expr ⟨.expression, rfl⟩ 0x9000
      (.llvmOp 13 (.llvmOp 39 (.name [0x77, 0x31]) .null (some 64)) (.constant (some ⟨64, 5⟩))
        (some 64))⟩]

theorem sample_interpRemill : ∃ metadata expressions serialized off record view,
    convertOperands sampleRegOffs sampleRemillOperands = .ok (metadata, expressions) ∧
      expressions.length = 3 ∧ PreEncoder.sample.serializeHandler = .ok serialized ∧
      serialized[0]? = some (off, record) ∧ readHandler record 0 = some view ∧
      ∀ (layout : StateLayout) (st : CpuState),
        some <$> interpRemill [⟨7, 0x4000⟩, ⟨9, 0x4010⟩] layout metadata expressions view st
          = (⟨[0x20, 0, 2, 0x8b], 4, .remill, 0, [⟨0, true⟩, ⟨1, false⟩], 0x4000⟩
              : OpcodeHandler).interpRemill sampleRegOffs layout sampleRemillOperands st := by
  have hconv : ∃ metadata expressions,
      convertOperands sampleRegOffs sampleRemillOperands = .ok (metadata, expressions) ∧
        expressions.length = 3 := ⟨_, _, rfl, rfl⟩
  have hser : ∃ serialized, PreEncoder.sample.serializeHandler = .ok serialized := ⟨_, rfl⟩
  obtain ⟨metadata, expressions, hconv, hlen⟩ := hconv
  obtain ⟨serialized, hser⟩ := hser
  obtain ⟨-, hcall⟩ := interpRemill_refines hconv (by decide) hser
  obtain ⟨off, record, view, hrecord, hread, hcall⟩ := hcall (i := 0) rfl rfl (by decide)
  refine ⟨metadata, expressions, serialized, off, record, view, hconv, hlen, hser, hrecord, hread,
    fun layout st => (hcall layout st).2 ((hcall layout st).1 ?_)⟩
  intro arg harg
  rcases List.mem_cons.mp harg with rfl | harg
  · exact ⟨_, rfl, trivial⟩
  · rw [List.mem_singleton.mp harg]
    exact ⟨_, rfl, rfl, ⟨rfl, trivial, trivial⟩, trivial⟩

end AetherVM.InterpMetaData
