import AetherVM.MetaData.Reader
import AetherVM.Operand.Raw

/-!
# metadata の operand の値（`src/InterpMetaData.cpp` の `Lift*OperandRaw` と `interpRemill`）

事前符号化の interpreter は、map した file の operand と expression の列から、実装に渡す引数を作る。
expression の子は列の中の番号なので、木の深さに限りは無い。評価には fuel を渡す。列の長さより深い道は
同じ node を二度通るので、そこで fuel が尽きる評価は終わらない。
-/

namespace AetherVM.InterpMetaData

open Infra IMetaData

/-- `LoadWordRegValOrZeroRaw`。幅が 0 なら 0 である。 -/
def loadWordRegValOrZero (st : CpuState) (reg : Register) : UInt64 :=
  if reg.size = 0 then 0
  else maskToBits (loadRegValueRaw st reg.offset.toNat reg.size.toNat) 64

/-- `LiftShiftRegisterOperandRaw`。 -/
def liftShiftRegisterOperandRaw (st : CpuState) (size : UInt16) (shift : ShiftRegister) :
    Except Fault UInt64 :=
  shiftRegisterValue (loadRegValueRaw st shift.reg.offset.toNat shift.reg.size.toNat)
    shift.reg.size.toNat shift.extractSize.toNat size.toNat (UInt64.ofNat shift.shiftSize.toNat)
    shift.shiftOp shift.extendOp

/-- `LiftAddressOperandRaw`。 -/
def liftAddressOperandRaw (st : CpuState) (address : Address) : UInt64 :=
  addressValue (loadWordRegValOrZero st address.segment) (loadWordRegValOrZero st address.base)
    (loadWordRegValOrZero st address.index) address.scale address.displacement
    address.addressSize.toNat

/-- `LiftExpressionOperandRecRaw`。 -/
def liftExpressionOperandRecRaw (st : CpuState) (expressions : List Expression) :
    Nat → Expression → Except Fault UInt64
  | 0, _ => .error .undefined
  | fuel + 1, expression =>
    match expression.payload with
    | .operation lhs rhs => do
      let lhs ← elementAt expressions lhs.toNat >>=
        liftExpressionOperandRecRaw st expressions fuel
      let rhs ← (if rhs = noChild then .ok 0
        else elementAt expressions rhs.toNat >>= liftExpressionOperandRecRaw st expressions fuel)
      evalLLVMOp expression.opcode.toNat (.ok expression.width.toNat) lhs rhs
    | .reg r => .ok (loadRegValueRaw st r.offset.toNat r.size.toNat)
    | .constant low high => .ok (UInt64.ofNat high.toNat <<< 32 ||| UInt64.ofNat low.toNat)
    | .invalid => .error .abort

/-- `LiftOperandRaw`。 -/
def liftOperandRaw (st : CpuState) (expressions : List Expression) (operand : Operand)
    (pointer : Bool) : Except Fault UInt64 :=
  match operand.value with
  | .reg r =>
    .ok (if pointer then st.base + UInt64.ofNat r.offset.toNat
      else loadRegValueRaw st r.offset.toNat r.size.toNat)
  | .shiftRegister shift => liftShiftRegisterOperandRaw st operand.size shift
  | .immediate i => .ok (immediateValue i.value (i.isSigned ≠ 0) operand.size.toNat)
  | .address address => .ok (liftAddressOperandRaw st address)
  | .expression _ expression =>
    liftExpressionOperandRecRaw st expressions (expressions.length + 1) expression
  | .invalid => .error .abort

/--
`InterpMetaData::interpRemill`。`handlers` は host の実装の table で、`view` は読んだ record である。
呼び分けに無い個数の引数では打ち切る。
-/
def interpRemill (handlers : List AetherVM.Handler) (layout : StateLayout) (operands : List Operand)
    (expressions : List Expression) (view : HandlerView) (st : CpuState) : Except Fault Call := do
  let handler ← elementAt handlers view.head.impl.toNat
  let st := setNextPC layout st view.head.oplen.toNat
  let params ← liftAll (fun info : IMetaData.OperandInfo => do
    liftOperandRaw st expressions (← elementAt operands info.index.toNat) info.pointer)
    view.operands
  if 14 < params.length then .error .undefined
  else if 13 < params.length then .error .abort
  else .ok ⟨handler.impl, 0 :: st.base :: params⟩

end AetherVM.InterpMetaData
