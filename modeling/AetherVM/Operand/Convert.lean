import AetherVM.Operand.Remill

/-!
# operand の変換（`src/OpcodeEngine.cpp` の `ConvertExpression`・`ConvertOperand`・`convertOperands`）

共有の operand table を metadata の operand に写す。expression の木は、子から先に node の列へ積み、
親は子を番号で指す。根だけは列に積まず、operand の中に置く。
-/

namespace AetherVM

open Infra IMetaData

/-- 変換が失敗する理由。 -/
inductive ConvertError where
  | nullExpression
  | opcodeLimit
  | tooManyNodes
  | widthLimit
  | nullRegister
  | unknownRegister (name : Name)
  | expressionRegisterLimit (name : Name)
  | unsupportedConstant
  | emptyName
  | expressionOffsetLimit (name : Name)
  | fieldLimit (field : String)
  | registerLimit (name : Name)
deriving DecidableEq

/-- source の文字列定数の byte 列。 -/
def text (s : String) : Bytes := s.toUTF8.toList

def ConvertError.message : ConvertError → Bytes
  | nullExpression => text "null Remill operand expression"
  | opcodeLimit => text "LLVM opcode does not fit in expression metadata"
  | tooManyNodes => text "too many Remill operand expression nodes"
  | widthLimit => text "expression width does not fit in metadata"
  | nullRegister => text "null register in Remill operand expression"
  | unknownRegister name => text "unknown register in Remill operand expression: " ++ name
  | expressionRegisterLimit name =>
    text "register offset or size does not fit in expression metadata: " ++ name
  | unsupportedConstant => text "unsupported constant in Remill operand expression"
  | emptyName => text "empty register name in Remill operand expression"
  | expressionOffsetLimit name =>
    text "register offset does not fit in expression metadata: " ++ name
  | fieldLimit field => text "Remill operand " ++ text field ++ text " does not fit in metadata"
  | registerLimit name =>
    text "Remill register offset or size does not fit in metadata: " ++ name

/-- `regoffs`。register の名前から CPU state の中の offset を引く。 -/
abbrev RegOffs := Name → Option Nat

/-! ## expression -/

/-- `append_child`。子を変換して列の末尾に積み、その番号を返す。 -/
def appendChild
    (convert : List Expression → Except ConvertError (Expression × List Expression))
    (nodes : List Expression) : Except ConvertError (UInt32 × List Expression) := do
  let (child, nodes) ← convert nodes
  if noChild.toNat ≤ nodes.length then .error .tooManyNodes
  else .ok (UInt32.ofNat nodes.length, nodes ++ [child])

/-- 演算の幅。型が無ければ 0 のままである。 -/
def convertWidth : Option Nat → Except ConvertError UInt8
  | none => .ok 0
  | some width => if 255 < width then .error .widthLimit else .ok (UInt8.ofNat width)

/-- `ConvertExpression`。返すのは根の node と、子を積んだ後の列である。 -/
def convertExpression (regoffs : RegOffs) :
    RemillExpr → List Expression → Except ConvertError (Expression × List Expression)
  | .null, _ => .error .nullExpression
  | .llvmOp opcode op1 op2 type, nodes =>
    if 255 < opcode.toNat then .error .opcodeLimit
    else do
      let (lhs, nodes) ← appendChild (convertExpression regoffs op1) nodes
      let (rhs, nodes) ← (if op2 = .null then .ok (noChild, nodes)
        else appendChild (convertExpression regoffs op2) nodes)
      let width ← convertWidth type
      .ok (⟨.operation lhs rhs, UInt8.ofNat opcode.toNat, width, 0⟩, nodes)
  | .register none, _ => .error .nullRegister
  | .register (some (name, size)), nodes =>
    match regoffs name with
    | none => .error (.unknownRegister name)
    | some off =>
      if 65535 < off ∨ 65535 < size.toNat then .error (.expressionRegisterLimit name)
      else .ok (⟨.reg ⟨UInt16.ofNat off, UInt16.ofNat size.toNat⟩, 0, 0, 0⟩, nodes)
  | .constant none, _ => .error .unsupportedConstant
  | .constant (some ⟨width, integer⟩), nodes =>
    if 64 < width then .error .unsupportedConstant
    else
      let value := integer.toNat
      .ok (⟨.constant (UInt32.ofNat value) (UInt32.ofNat (value / 2 ^ 32)), 0, UInt8.ofNat width,
        0⟩, nodes)
  | .name [], _ => .error .emptyName
  | .name (c :: s), nodes =>
    match regoffs (c :: s) with
    | none => .error (.unknownRegister (c :: s))
    | some off =>
      if 65535 < off then .error (.expressionOffsetLimit (c :: s))
      else .ok (⟨.reg ⟨UInt16.ofNat off, if c = 0x77 then 32 else 64⟩, 0, 0, 0⟩, nodes)

/-! ## operand -/

/-- `fits_u8`。 -/
def fitsU8 (value : UInt64) (field : String) : Except ConvertError UInt8 :=
  if value.toNat ≤ 255 then .ok (UInt8.ofNat value.toNat) else .error (.fieldLimit field)

/-- `convert_register`。 -/
def convertRegister (reg : RemillRegister) : Except ConvertError Register :=
  if 65535 < reg.offset.toNat ∨ 65535 < reg.size.toNat then .error (.registerLimit reg.name)
  else .ok ⟨UInt16.ofNat reg.offset.toNat, UInt16.ofNat reg.size.toNat⟩

/-- address の register。名前が空なら零のままにする。 -/
def convertAddressRegister (reg : RemillRegister) : Except ConvertError Register :=
  if reg.name = [] then .ok ⟨0, 0⟩ else convertRegister reg

def convertShiftRegister (s : RemillShiftRegister) : Except ConvertError ShiftRegister := do
  let shiftSize ← fitsU8 s.shiftSize "shift size"
  let extractSize ← fitsU8 s.extractSize "extract size"
  let reg ← convertRegister s.reg
  .ok ⟨reg, shiftSize, extractSize, s.shiftFirst.toUInt8, s.canShiftOpSize.toUInt8,
    s.shiftOp.toByte, s.extendOp.toByte⟩

def convertAddress (a : RemillAddress) : Except ConvertError Address := do
  let addressSize ← fitsU8 a.addressSize "address size"
  let segment ← convertAddressRegister a.segmentBaseReg
  let base ← convertAddressRegister a.baseReg
  let index ← convertAddressRegister a.indexReg
  .ok ⟨segment, base, index, a.scale, a.displacement, addressSize, a.kind⟩

/-- union の値の変換（`ConvertOperand` の `switch`）。 -/
def convertValue (regoffs : RegOffs) (nodes : List Expression) :
    RemillValue → Except ConvertError (Value × List Expression)
  | .invalid => .ok (.invalid, nodes)
  | .reg r => do .ok (.reg (← convertRegister r), nodes)
  | .shiftReg s => do .ok (.shiftRegister (← convertShiftRegister s), nodes)
  | .imm val isSigned => .ok (.immediate ⟨val, isSigned.toUInt8⟩, nodes)
  | .addr a => do .ok (.address (← convertAddress a), nodes)
  | .expr t _ e => do
    let (converted, nodes) ← convertExpression regoffs e nodes
    .ok (.expression t converted, nodes)

/-- `ConvertOperand`。`size` は 16 bit に切り詰める。 -/
def convertOperand (regoffs : RegOffs) (op : RemillOperand) (nodes : List Expression) :
    Except ConvertError (Operand × List Expression) := do
  let (value, nodes) ← convertValue regoffs nodes op.value
  .ok (⟨UInt16.ofNat op.size.toNat, op.action, value⟩, nodes)

/-- `convertOperands` の loop。 -/
def convertOperandsFrom (regoffs : RegOffs) :
    List RemillOperand → List Expression → Except ConvertError (List Operand × List Expression)
  | [], nodes => .ok ([], nodes)
  | op :: rest, nodes => do
    let (converted, nodes) ← convertOperand regoffs op nodes
    let (metadata, nodes) ← convertOperandsFrom regoffs rest nodes
    .ok (converted :: metadata, nodes)

/-- `OpcodeEngine::convertOperands`。 -/
def convertOperands (regoffs : RegOffs) (operands : List RemillOperand) :
    Except ConvertError (List Operand × List Expression) :=
  convertOperandsFrom regoffs operands []

end AetherVM
