import AetherVM.Infra.Refine
import AetherVM.Operand.Intern

/-!
# handler の初期化（`src/OpcodeEngine.cpp` の `init`・`initDynamic`、`src/OpcodeAArch64.cpp`）

handler を作ると、file の中の大域変数に跡が残る。Remill の operand は `operands` に、AArch64 の SP を
使う命令は `insts` に登録され、どちらでもない命令の native code は実行できる page に置かれる。

decoder・逆 assembler・assembler は外のものなので、`Toolchain` の field として受け取る。
`page_alloc` の返す page は、何回目の割り当てかで呼び分ける。iOS 向けの分岐は扱わない。
-/

namespace AetherVM

open Infra

/-- `DecodeInstruction` の結果。`inst.bytes` が空なら decode できていない。 -/
structure Decoded where
  inst : RemillInstruction
  valid : Bool
deriving DecidableEq

/--
外の道具と、process の中で変わらない表。`μ` は `llvm::MCInst` で、`hasSP` は operand に
`AArch64::SP` があるかどうかである。`nativeCode` は生成した handler を assemble した byte 列である。
-/
structure Toolchain (μ : Type) where
  decode : ArchType → Bytes → Decoded
  disassemble : ArchType → Bytes → Nat × μ
  hasSP : μ → Bool
  nativeCode : ArchType → μ → Bytes → Bytes
  hash : Bytes → UInt64
  tables : HandlerTables
  isPointerArg : ArchType → Name → Nat → Bool
  loadRegoffs : ArchType → RegOffs
  pageBase : Nat → UInt64
  pageSize : Nat
  abortImpl : UInt64

/--
大域変数。`regoffs` は、どの architecture の表が入っているかで表す（空なら `none`）。
`dynhandlers` は割り当てた page、`pagecur` は最後の page の中の位置、`allocs` は割り当ての回数である。
-/
structure Globals (μ : Type) where
  operands : OperandTable
  regoffs : Option ArchType
  insts : Interner UInt32 μ OperandInfo
  dynhandlers : List Nat
  pagestart : Option Nat
  pagecur : Nat
  allocs : Nat

def Globals.empty {μ : Type} : Globals μ := ⟨.empty, none, .empty, [], none, 0, 0⟩

/-- `regoffs` が空のときだけ、`arch` の表を読み込む。 -/
def Globals.loadRegoffs {μ : Type} (g : Globals μ) (arch : ArchType) : Globals μ :=
  { g with regoffs := some (g.regoffs.getD arch) }

/-- handler を作ったときの architecture と、`regoffs` に入っていた表。 -/
structure Build where
  arch : ArchType
  reg : ArchType
deriving DecidableEq, Repr

/--
集合の要素。handler のほかに、native code を置いた page と、作られたときの記録を持つ。
`denotes` は、そのとき引数の番号が指していた operand である。
-/
structure HandlerEntry where
  handler : OpcodeHandler
  page : Option Nat
  build : Option Build
  denotes : List (Option RemillOperand)
deriving DecidableEq

namespace Toolchain

variable {μ : Type} (tc : Toolchain μ)

/-- `initRemill` の見る環境。`reg` は `regoffs` に入っている表である。 -/
def env (arch reg : ArchType) : RemillEnv where
  hash := tc.hash
  handlers := tc.tables.of arch
  isPointerArg := tc.isPointerArg arch
  regoffs := tc.loadRegoffs reg

/-- `*(uint32_t *)&opcode`。 -/
def opcodeWord (opcode : Bytes) : UInt32 := UInt32.ofNat (ofLE (opcode.take 4))

/-- `initMCInstARM64` の登録。 -/
def mcInstRequest (opcode : Bytes) (inst : μ) : Request Fault UInt32 μ OperandInfo where
  key := opcodeWord opcode
  item := .ok inst
  make := fun n => ⟨n % 2 ^ 31, false⟩

/-- native code を置く page を決める。今の page に入らなければ新しく割り当てる。 -/
def reservePage (size : Nat) (g : Globals μ) : Globals μ × Nat :=
  match g.pagestart with
  | some page =>
    if tc.pageSize - g.pagecur < size then
      ({ g with
        dynhandlers := g.dynhandlers ++ [g.allocs], pagestart := some g.allocs, pagecur := 0
        allocs := g.allocs + 1 }, g.allocs)
    else (g, page)
  | none =>
    ({ g with
      dynhandlers := g.dynhandlers ++ [g.allocs], pagestart := some g.allocs, pagecur := 0
      allocs := g.allocs + 1 }, g.allocs)

/-- `OpcodeHandler::initDynamic`。 -/
def initDynamic (arch : ArchType) (opcode : Bytes) (g : Globals μ) :
    Except Fault (Globals μ × OpcodeHandler × Option Nat) :=
  let (oplen, inst) := tc.disassemble arch opcode
  if arch = .arm64 ∧ tc.hasSP inst then do
    let (insts, info) ← g.insts.intern (mcInstRequest opcode inst)
    .ok ({ g with insts := insts }, ⟨opcode, UInt8.ofNat oplen, .mcInst, 0, [info], 0⟩, none)
  else if oplen = 0 then
    .ok (g, ⟨opcode, 0, .dynamic, 0, [], tc.abortImpl⟩, none)
  else
    let code := tc.nativeCode arch inst (opcode.take oplen)
    let (g, page) := tc.reservePage code.length g
    .ok ({ g with pagecur := g.pagecur + code.length },
      ⟨opcode, UInt8.ofNat oplen, .dynamic, UInt16.ofNat code.length, [],
        tc.pageBase page + UInt64.ofNat g.pagecur⟩, some page)

/--
`OpcodeHandler::init(inst)`。`arch` は `CPU.runtime` の architecture である。`regoffs` は空のときだけ
読み込まれる。実装の無い命令は、invalid として `init` をやり直す。
-/
def init (arch : ArchType) (opcode : Bytes) (decoded : Decoded) (g : Globals μ) :
    Except Fault (Globals μ × HandlerEntry) := do
  let reg := g.regoffs.getD arch
  let g := g.loadRegoffs arch
  let (operands, found) ← (if decoded.valid then
      (tc.env arch reg).initRemill opcode decoded.inst g.operands else .ok (g.operands, none))
  let g := { g with operands := operands }
  match found with
  | some h =>
    .ok (g, ⟨h, none, some ⟨arch, reg⟩, h.args.map fun arg => operands.items[arg.index]?⟩)
  | none => do
    let (g, h, page) ← tc.initDynamic arch opcode g
    .ok (g, ⟨h, page, some ⟨arch, reg⟩, []⟩)

/-! ## 行き先 -/

/-- Remill の実装があるか。実装の表は `regoffs` に依らない。 -/
def hasHandler (arch : ArchType) (decoded : Decoded) : Bool :=
  decoded.valid && ((tc.env arch arch).findHandler decoded.inst.function).isSome

/-- `init` の四つの行き先。大域変数のどこに触れるかは、行き先で決まる。 -/
inductive Inits (arch : ArchType) (opcode : Bytes) (decoded : Decoded) (g : Globals μ) :
    Globals μ → HandlerEntry → Prop
  | remill {impl : UInt64} {operands : OperandTable} {args : List OperandInfo}
      (hfound : tc.hasHandler arch decoded = true)
      (hargs : (tc.env arch (g.regoffs.getD arch)).initArgs
        ((tc.env arch (g.regoffs.getD arch)).arguments decoded.inst) g.operands
          = .ok (operands, args)) :
      Inits arch opcode decoded g { g.loadRegoffs arch with operands := operands }
        ⟨⟨opcode, UInt8.ofNat decoded.inst.bytes.length, .remill, 0, args, impl⟩, none,
          some ⟨arch, g.regoffs.getD arch⟩, args.map fun arg => operands.items[arg.index]?⟩
  | mcInst {insts : Interner UInt32 μ OperandInfo} {info : OperandInfo}
      (hfound : tc.hasHandler arch decoded = false) (harch : arch = .arm64)
      (hsp : tc.hasSP (tc.disassemble arch opcode).2 = true)
      (hinfo : g.insts.intern (mcInstRequest opcode (tc.disassemble arch opcode).2)
        = .ok (insts, info)) :
      Inits arch opcode decoded g { g.loadRegoffs arch with insts := insts }
        ⟨⟨opcode, UInt8.ofNat (tc.disassemble arch opcode).1, .mcInst, 0, [info], 0⟩, none,
          some ⟨arch, g.regoffs.getD arch⟩, []⟩
  | abort (hfound : tc.hasHandler arch decoded = false)
      (hsp : ¬ (arch = .arm64 ∧ tc.hasSP (tc.disassemble arch opcode).2 = true)) :
      Inits arch opcode decoded g (g.loadRegoffs arch)
        ⟨⟨opcode, 0, .dynamic, 0, [], tc.abortImpl⟩, none, some ⟨arch, g.regoffs.getD arch⟩, []⟩
  | code {g' : Globals μ} {page oplen size : Nat}
      (hfound : tc.hasHandler arch decoded = false)
      (hsp : ¬ (arch = .arm64 ∧ tc.hasSP (tc.disassemble arch opcode).2 = true))
      (hpage : tc.reservePage size (g.loadRegoffs arch) = (g', page)) :
      Inits arch opcode decoded g { g' with pagecur := g'.pagecur + size }
        ⟨⟨opcode, UInt8.ofNat oplen, .dynamic, UInt16.ofNat size, [],
          tc.pageBase page + UInt64.ofNat g'.pagecur⟩, some page,
          some ⟨arch, g.regoffs.getD arch⟩, []⟩

variable {tc} {arch : ArchType} {opcode : Bytes} {decoded : Decoded} {g g' : Globals μ}

theorem initDynamic_inits {h : OpcodeHandler} {page : Option Nat}
    (hfound : tc.hasHandler arch decoded = false)
    (hinit : tc.initDynamic arch opcode (g.loadRegoffs arch) = .ok (g', h, page)) :
    tc.Inits arch opcode decoded g g' ⟨h, page, some ⟨arch, g.regoffs.getD arch⟩, []⟩ := by
  simp only [initDynamic] at hinit
  split at hinit
  · next hsp =>
    obtain ⟨⟨insts, info⟩, hinfo, hinit⟩ := ok_of_bind_eq_ok hinit
    cases hinit
    exact .mcInst hfound hsp.1 hsp.2 hinfo
  · next hsp =>
    split at hinit
    · cases hinit
      exact .abort hfound hsp
    · cases hinit
      exact .code hfound hsp rfl

/-- `init` が終われば、行き先は四つのどれかである。 -/
theorem init_inits {x : HandlerEntry} (h : tc.init arch opcode decoded g = .ok (g', x)) :
    tc.Inits arch opcode decoded g g' x := by
  obtain ⟨⟨operands, found⟩, hremill, h⟩ := ok_of_bind_eq_ok h
  -- 実装が見つからなければ、operand の table は変わらない
  have hcase : found = none ∧ operands = g.operands ∧ tc.hasHandler arch decoded = false ∨
      ∃ impl args, tc.hasHandler arch decoded = true ∧
        (tc.env arch (g.regoffs.getD arch)).initArgs
          ((tc.env arch (g.regoffs.getD arch)).arguments decoded.inst) g.operands
            = .ok (operands, args) ∧
        found = some ⟨opcode, UInt8.ofNat decoded.inst.bytes.length, .remill, 0, args, impl⟩ := by
    split at hremill
    · next hvalid =>
      unfold RemillEnv.initRemill at hremill
      split at hremill
      · next hnone =>
        cases hremill
        refine .inl ⟨rfl, rfl, ?_⟩
        simp only [hasHandler, hvalid, Bool.true_and]
        exact congrArg Option.isSome hnone
      · next handler hfound =>
        obtain ⟨⟨t, args⟩, hargs, hremill⟩ := ok_of_bind_eq_ok hremill
        cases hremill
        refine .inr ⟨_, _, ?_, hargs, rfl⟩
        simp only [hasHandler, hvalid, Bool.true_and]
        exact congrArg Option.isSome hfound
    · next hvalid =>
      cases hremill
      refine .inl ⟨rfl, rfl, ?_⟩
      simp only [hasHandler, hvalid, Bool.false_and]
  rcases hcase with ⟨rfl, rfl, hfound⟩ | ⟨impl, args, hfound, hargs, rfl⟩
  · obtain ⟨⟨g₁, handler, page⟩, hdynamic, h⟩ := ok_of_bind_eq_ok h
    cases h
    exact initDynamic_inits hfound hdynamic
  · cases h
    exact .remill hfound hargs

/-- Remill の実装を使わず、`SP` も読まない命令なら、`init` は失敗しない。 -/
theorem exists_init (hsp : ∀ inst, tc.hasSP inst = false) (hvalid : decoded.valid = false)
    (arch : ArchType) (opcode : Bytes) (g : Globals μ) :
    ∃ r, tc.init arch opcode decoded g = .ok r := by
  have hdynamic : ∀ g, ∃ r, tc.initDynamic arch opcode g = .ok r := by
    intro g
    simp only [initDynamic, hsp, Bool.false_eq_true, and_false, if_false]
    split
    · exact ⟨_, rfl⟩
    · exact ⟨_, rfl⟩
  obtain ⟨⟨g', h, page⟩, hr⟩ := hdynamic (g.loadRegoffs arch)
  refine ⟨(g', ⟨h, page, some ⟨arch, g.regoffs.getD arch⟩, []⟩), ?_⟩
  rw [init, hvalid]
  change (tc.initDynamic arch opcode (g.loadRegoffs arch) >>= _) = _
  rw [hr]
  rfl

end Toolchain

end AetherVM
