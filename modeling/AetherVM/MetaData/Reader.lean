import AetherVM.MetaData.Layout

/-!
# `.aevm` file の読み手（`src/IMetaData.h` の accessor）

読み手は map した file の中を pointer で辿る。ここでは pointer を file の中の offset にして、
読んだ結果を値として返す。file の外を読むことになれば `none` である。
-/

namespace AetherVM.IMetaData

open Infra

namespace Header

/-- `insns()[0]` から `num_instruction` 個。 -/
def readInsns (md : Header) (file : Bytes) : Option (List InsnMeta) :=
  insnMetaCodec.readArray file md.insns md.numInstruction.toNat

/-- `operands()[0]` から `num_operands` 個。 -/
def readOperands (md : Header) (file : Bytes) : Option (List Operand) :=
  operandCodec.readArray file md.operands md.numOperands.toNat

/-- `expressions()[0]` から `num_expressions` 個。 -/
def readExpressions (md : Header) (file : Bytes) : Option (List Expression) :=
  expressionCodec.readArray file md.expressions md.numExpressions.toNat

end Header

/-- record を読んで得られるもの。 -/
structure HandlerView where
  head : Handler
  opcode : Bytes
  operands : List OperandInfo
deriving DecidableEq

/-- `self` にある record を、固定部分、`opcode[0..oplen)`、`operand()[0..oprnum)` の順に読む。 -/
def readHandler (file : Bytes) (self : Nat) : Option HandlerView :=
  (handlerCodec.read file self).bind fun head =>
    (readBytes file (self + Handler.fixedSize) head.oplen.toNat).bind fun opcode =>
      (operandInfoCodec.readArray file (head.operand self) head.oprnum.toNat).bind fun operands =>
        some ⟨head, opcode, operands⟩

/--
四つの section が header の直後から隙間も重なりも無く並び、`size` で終わること。
`handlerBytes` は handler の record の長さの和である。
-/
structure Header.Sections (md : Header) (handlerBytes : Nat) : Prop where
  header : headerCodec.size = md.insns
  insns : md.insns + md.numInstruction.toNat * insnMetaCodec.size = md.operands
  operands : md.operands + md.numOperands.toNat * operandCodec.size = md.expressions
  expressions :
    md.expressions + md.numExpressions.toNat * expressionCodec.size = md.offHandlers.toNat
  handlers : md.offHandlers.toNat + handlerBytes = md.size.toNat

end AetherVM.IMetaData
