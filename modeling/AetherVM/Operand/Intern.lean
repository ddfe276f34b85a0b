import AetherVM.Infra.Intern
import AetherVM.Infra.Search
import AetherVM.Operand.Raw

/-!
# operand の共有（`src/OpcodeEngine.cpp` の `RemillOperand::ID` と `initRemill`）

decode した命令の operand は、128 bit の ID で共有の table に登録される。同じ ID の operand が
すでにあれば、新しい operand は捨てられ、handler は前の operand の番号を使う。

ID は、operand の種類ごとに一部の field だけから作られる。`size` や register の幅は入らず、register の
名前は先頭の 8 byte しか入らない。
-/

namespace AetherVM

open Infra

/-- 型 `uint128_var_t`。 -/
structure Uint128 where
  low : UInt64
  high : UInt64
deriving DecidableEq, Repr

/-! ## ID -/

/-- 名前の先頭 8 byte を `low` に写したもの。 -/
def nameWord (name : Name) : UInt64 := UInt64.ofNat (ofLE (name.take 8))

/-- `shift_size` から `extend_op` までの byte 列。二つの `bool` の後ろに 2 byte の padding が入る。 -/
def RemillShiftRegister.fieldBytes (s : RemillShiftRegister) : Bytes :=
  toLE 8 s.shiftSize.toNat ++ toLE 8 s.extractSize.toNat
    ++ [s.shiftFirst.toUInt8, s.canShiftOpSize.toUInt8] ++ zeros 2
    ++ toLE 4 s.shiftOp.toByte.toNat ++ toLE 4 s.extendOp.toByte.toNat

/-- `scale` から `kind` までの byte 列。 -/
def RemillAddress.fieldBytes (a : RemillAddress) : Bytes :=
  toLE 8 a.scale.toUInt64.toNat ++ toLE 8 a.displacement.toUInt64.toNat
    ++ toLE 8 a.addressSize.toNat ++ toLE 4 a.kind.toNat

/-- 種類ごとの部分（`ID` の `switch`）。`hash` は `hash_value` である。種類の無い operand では 0 になる。 -/
def RemillValue.idWords (hash : Bytes → UInt64) (pointer : Bool) : RemillValue → Uint128
  | .invalid => ⟨0, 0⟩
  | .reg r => ⟨nameWord r.name ||| (UInt64.ofNat pointer.toNat <<< 31), 0⟩
  | .shiftReg s => ⟨nameWord s.reg.name ||| (hash s.fieldBytes <<< 24), 0⟩
  | .imm val isSigned => ⟨val, UInt64.ofNat isSigned.toNat⟩
  | .addr a =>
    ⟨hash (a.segmentBaseReg.name ++ a.baseReg.name ++ a.indexReg.name),
      UInt64.ofNat ((hash a.fieldBytes).toNat % 2 ^ 32) <<< 28⟩
  | .expr _ ptr _ => ⟨ptr, 0⟩

/-- `RemillOperand::ID`。 -/
def RemillOperand.id (hash : Bytes → UInt64) (op : RemillOperand) (pointer : Bool) : Uint128 :=
  let words := op.value.idWords hash pointer
  { words with
    high := words.high ||| (UInt64.ofNat op.value.type.toByte.toNat <<< 60)
      ||| (UInt64.ofNat (op.action = .write : Bool).toNat <<< 63) }

/-! ## `initOffsets` -/

/-- `SetOffset`。 -/
def setOffset (regoffs : RegOffs) (reg : RemillRegister) : Except Fault RemillRegister := do
  .ok { reg with offset := UInt32.ofNat (← getOffset regoffs reg.name) }

/-- 名前が空なら何もしない `SetOffset`。 -/
def setOffsetOptional (regoffs : RegOffs) (reg : RemillRegister) : Except Fault RemillRegister :=
  if reg.name = [] then .ok reg else setOffset regoffs reg

/-- `RemillOperand::initOffsets`。 -/
def RemillOperand.initOffsets (regoffs : RegOffs) (op : RemillOperand) :
    Except Fault RemillOperand :=
  match op.value with
  | .reg r => do .ok { op with value := .reg (← setOffset regoffs r) }
  | .shiftReg s => do .ok { op with value := .shiftReg { s with reg := ← setOffset regoffs s.reg } }
  | .addr a => do
    let segment ← setOffsetOptional regoffs a.segmentBaseReg
    let base ← setOffsetOptional regoffs a.baseReg
    let index ← setOffsetOptional regoffs a.indexReg
    .ok { op with
      value := .addr { a with segmentBaseReg := segment, baseReg := base, indexReg := index } }
  | _ => .ok op

/-! ## 登録 -/

/-- `operands` と `operandmap`。 -/
abbrev OperandTable := Interner Uint128 RemillOperand OperandInfo

/-- decode した命令のうち、`initRemill` が読むもの。 -/
structure RemillInstruction where
  function : Name
  bytes : Bytes
  operands : List RemillOperand
deriving DecidableEq

/--
`initRemill` が使う外のもの。`handlers` は architecture に応じた実装の table、`isPointerArg` は
semantics の関数の引数の型が pointer かどうかである。
-/
structure RemillEnv where
  hash : Bytes → UInt64
  handlers : List Handler
  isPointerArg : Name → Nat → Bool
  regoffs : RegOffs

namespace RemillEnv

variable (env : RemillEnv)

/-- 名前の hash で実装を引く。 -/
def findHandler (function : Name) : Option Handler :=
  let key := env.hash function
  let found := binarySearch (fun i => env.handlers[i]?.any fun h => decide (h.hash < key))
    env.handlers.length
  env.handlers[found]?.filter fun h => h.hash = key

/-- 命令の operand と、それを pointer で渡すかどうか。先頭の二つの引数は operand ではない。 -/
def arguments (inst : RemillInstruction) : List (RemillOperand × Bool) :=
  inst.operands.zipIdx.map fun p => (p.1, env.isPointerArg inst.function (p.2 + 2))

def id (arg : RemillOperand × Bool) : Uint128 := arg.1.id env.hash arg.2

/-- operand 一つの登録。番号は 31 bit の field に入る。 -/
def request (arg : RemillOperand × Bool) : Request Fault Uint128 RemillOperand OperandInfo where
  key := env.id arg
  item := arg.1.initOffsets env.regoffs
  make := fun n => ⟨n % 2 ^ 31, arg.2⟩

/-- operand の loop の一回分。種類の無い operand にも `ID` はあるので、ほかのものと同じに登録する。 -/
def internArg (arg : RemillOperand × Bool) (t : OperandTable) :
    Except Fault (OperandTable × OperandInfo) :=
  t.intern (env.request arg)

/-- operand の loop。 -/
def initArgs : List (RemillOperand × Bool) → OperandTable →
    Except Fault (OperandTable × List OperandInfo)
  | [], t => .ok (t, [])
  | arg :: rest, t => do
    let (t, info) ← env.internArg arg t
    let (t, infos) ← initArgs rest t
    .ok (t, info :: infos)

/-- `OpcodeHandler::initRemill`。実装が無ければ `initDynamic` に移るので、operand は登録しない。 -/
def initRemill (opcode : Bytes) (inst : RemillInstruction) (t : OperandTable) :
    Except Fault (OperandTable × Option OpcodeHandler) :=
  match env.findHandler inst.function with
  | none => .ok (t, none)
  | some found => do
    let (t, args) ← env.initArgs (env.arguments inst) t
    .ok (t, some ⟨opcode, UInt8.ofNat inst.bytes.length, .remill, 0, args, found.impl⟩)

/-- 命令を順に `initRemill` に渡す。 -/
def initRemills : List (Bytes × RemillInstruction) → OperandTable →
    Except Fault (OperandTable × List (Option OpcodeHandler))
  | [], t => .ok (t, [])
  | (opcode, inst) :: rest, t => do
    let (t, handler) ← env.initRemill opcode inst t
    let (t, handlers) ← initRemills rest t
    .ok (t, handler :: handlers)

end RemillEnv

end AetherVM
