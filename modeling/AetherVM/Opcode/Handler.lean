import AetherVM.Infra.Bytes
import AetherVM.MetaData.Layout

/-!
# opcode の handler（`src/OpcodeEngine.h`、`src/Handler.h`）
-/

namespace AetherVM

open Infra

/-- 列挙型 `OpcodeHandler::Type`。 -/
inductive HandlerType where
  | remill
  | mcInst
  | dynamic
  | prebuilt
  | prebuiltMapped
deriving DecidableEq, Repr

namespace HandlerType

def toNat : HandlerType → Nat
  | remill => 0
  | mcInst => 1
  | dynamic => 2
  | prebuilt => 3
  | prebuiltMapped => 4

theorem toNat_lt (t : HandlerType) : t.toNat < 5 := by cases t <;> decide

/-- 番号は種類を決める。 -/
theorem toNat_inj {s t : HandlerType} (h : s.toNat = t.toNat) : s = t := by
  cases s <;> cases t <;> first | rfl | exact absurd h (by decide)

end HandlerType

/-- 共有の operand table の番号と、register を pointer で渡すかどうか。 -/
structure OperandInfo where
  index : Nat
  pointer : Bool
deriving DecidableEq, Repr

/--
`OpcodeHandler<T>`。`opcode` は `T` の memory 上の byte 列で、長さは `sizeof(T)` である。
`impl` は host の address で、種類によって Remill の実装か、生成した native code を指す。
-/
structure OpcodeHandler where
  opcode : Bytes
  oplen : UInt8
  type : HandlerType
  implsize : UInt16
  args : List OperandInfo
  impl : UInt64
deriving DecidableEq

/-- 名前の hash と実装。表は hash の昇順に並ぶ。 -/
structure Handler where
  hash : UInt64
  impl : UInt64
deriving DecidableEq, Repr

/-- `Handler::aarch64` と `Handler::x86`。 -/
structure HandlerTables where
  aarch64 : List Handler
  x86 : List Handler

/-- architecture に応じた表。 -/
def HandlerTables.of (tables : HandlerTables) : ArchType → List Handler
  | .arm64 => tables.aarch64
  | .x86_64 => tables.x86

end AetherVM
