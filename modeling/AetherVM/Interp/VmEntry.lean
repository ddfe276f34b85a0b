import AetherVM.Infra.Loop
import AetherVM.Interp.DispatchSound
import AetherVM.Interp.Remill

/-!
# chained interpreter の run（`src/InterpMetaData.cpp` の `main`・`vmEntry`・`CallHost`）

`vmEntry` は、いまの命令の record を読んで handler を実行し、handler の残した pc から次の命令を決める。
次の命令は、直後の entry、`nexticache`、二分探索の順に探し、局所変数は module を移るたびに書き直す。

この run を、pc の命令を先頭から探すだけの interpreter と比べる。実行時に外から来るもの（Remill の実装、
MCInst の解釈、native code、host の関数、debugger）は `External` に置く。
-/

namespace AetherVM

open Infra

/-! ## CPU -/

/-- CPU state と、それ以外の状態（guest の memory など）。 -/
structure Cpu (M : Type) where
  state : CpuState
  mem : M

namespace CpuState

/-- `off` にある 64 bit の field。 -/
def word (st : CpuState) (off : Nat) : UInt64 :=
  UInt64.ofNat (ofLE ((List.range 8).map fun i => st.bytes (off + i)))

def setWord (st : CpuState) (off : Nat) (v : UInt64) : CpuState :=
  { st with
    bytes := fun i =>
      if off ≤ i ∧ i < off + 8 then (toLE 8 v.toNat).getD (i - off) 0 else st.bytes i }

end CpuState

/-- `main` が触れる register の位置。 -/
structure MainLayout extends StateLayout where
  x0 : Nat
  x1 : Nat
  lr : Nat

/-- `UpdatePC`。 -/
def updatePC (layout : StateLayout) (st : CpuState) : CpuState :=
  st.setWord layout.pc (st.word layout.nextPc)

namespace InterpMetaData

open IMetaData

/-- map した file と、読み込むときに積んだ MCInst の列。 -/
structure Image (ν : Type) where
  file : Bytes
  mcinsts : List ν

/--
実行時に外から来るもの。`images` は map した address で引き、`handlers` は host の実装の table である。
`hook` は、debug のときに命令ごとに呼ばれる `insn_handler` で、そうでなければ何もしない。
-/
structure External (M ν : Type) where
  layout : MainLayout
  handlers : List AetherVM.Handler
  images : Nat → Image ν
  invoke : Call → Cpu M → Cpu M
  mcInst : ν → Cpu M → Except Fault (Cpu M)
  native : Bytes → Cpu M → Cpu M
  callHost : UInt64 → Cpu M → Cpu M
  hook : Cpu M → Cpu M

namespace External

variable {M ν : Type} (ext : External M ν)

/-- `CPU.pcptr[0]`。 -/
def pc (cpu : Cpu M) : UInt64 := cpu.state.word ext.layout.pc

def setPC (cpu : Cpu M) (addr : UInt64) : Cpu M :=
  { cpu with state := cpu.state.setWord ext.layout.pc addr }

/-- 実装を呼ぶ前に次の pc を置き、戻ったらそれを pc に写す。 -/
def callRemill (oplen : Nat) (call : Call) (cpu : Cpu M) : Cpu M :=
  let cpu := ext.invoke call
    { cpu with state := setNextPC ext.layout.toStateLayout cpu.state oplen }
  { cpu with state := updatePC ext.layout.toStateLayout cpu.state }

/-- `CPU.pcptr[0] = pc = CallHost(pc)`。戻り先は `x30` である。 -/
def host (cpu : Cpu M) : Cpu M :=
  let cpu := ext.callHost (ext.pc cpu) cpu
  ext.setPC cpu (cpu.state.word ext.layout.lr)

/-! ## 命令一つ -/

/-- `vmEntry` の `switch`。`self` は record の位置で、`operands` と `expressions` は file の中の offset である。 -/
def runHandler (img : Image ν) (md : Header) (self operands expressions : Nat)
    (view : HandlerView) (cpu : Cpu M) : Except Fault (Cpu M) :=
  if view.head.type.toNat = HandlerType.remill.toNat then
    match operandCodec.readArray img.file operands md.numOperands.toNat,
      expressionCodec.readArray img.file expressions md.numExpressions.toNat with
    | some ops, some exprs => do
      let call ← interpRemill ext.handlers ext.layout.toStateLayout ops exprs view cpu.state
      .ok (ext.callRemill view.head.oplen.toNat call cpu)
    | _, _ => .error .undefined
  else if view.head.type.toNat = HandlerType.mcInst.toNat then
    match img.mcinsts[view.head.impl.toNat]? with
    | none => .error .undefined
    | some inst => ext.mcInst inst cpu
  else if view.head.type.toNat = HandlerType.dynamic.toNat then
    .ok (ext.native (img.file.drop (view.head.handler self)) cpu)
  else .error .abort

/-- 局所変数の pointer から、いまの命令の handler を実行する。 -/
def runInsn (metadata mdinsns operands expressions insn : Nat) (cpu : Cpu M) :
    Except Fault (Cpu M) :=
  let img := ext.images metadata
  match headerCodec.read img.file 0,
    insnMetaCodec.read img.file (mdinsns - metadata + insn * insnMetaCodec.size) with
  | some md, some entry =>
    match readHandler img.file (md.handler entry) with
    | none => .error .undefined
    | some view =>
      ext.runHandler img md (md.handler entry) (operands - metadata) (expressions - metadata) view
        cpu
  | _, _ => .error .undefined

end External

/-! ## `vmEntry` -/

/-- 外側の loop の先頭か、内側の loop の先頭か。 -/
inductive Phase where
  | exec
  | seek
deriving DecidableEq, Repr

structure Vm (M : Type) where
  phase : Phase
  st : VmState
  cpu : Cpu M

section

variable {M ν : Type} (ext : External M ν) (this : UInt64)

/-- 外側の loop の handler の実行か、内側の loop の一回。 -/
def vmStep (v : Vm M) : Vm M ⊕ Except Fault (Cpu M) :=
  match v.phase with
  | .exec =>
    if ext.pc v.cpu = this then .inr (.ok v.cpu)
    else
      match ext.runInsn v.st.metadata v.st.mdinsns v.st.operands v.st.expressions v.st.insn
        (ext.hook v.cpu) with
      | .error fault => .inr (.error fault)
      | .ok cpu => .inl ⟨.seek, v.st, cpu⟩
  | .seek =>
    match (dispatch this v.st (ext.pc v.cpu)).2 with
    | .next st => .inl ⟨.exec, st, v.cpu⟩
    | .done => .inr (.ok v.cpu)
    | .host => .inl ⟨.seek, v.st, ext.host v.cpu⟩
    | .fault => .inr (.error .undefined)

end

/-- `main` が `find` から得るもの。`exit` は `-1` を返して終わることである。 -/
inductive Start where
  | started (st : VmState)
  | exit
  | undefined

/-- `main` の前半と、`vmEntry` の局所変数の初期化。 -/
def start (runtimes : List RuntimeMetaData) (entry : UInt64) : Start :=
  match find runtimes entry with
  | none => .undefined
  | some none => .exit
  | some (some j) =>
    match runtimes[j]? with
    | none => .undefined
    | some rt =>
      match rt.find entry with
      | none => .exit
      | some k => .started (VmState.enter ⟨runtimes, 0, 0, 0, 0, 0, 0⟩ j rt k)

/-- 引数と pc を置き、最初の戻り先を `this` にする（ARM64）。 -/
def External.enterMain {M ν : Type} (ext : External M ν) (this entry argc argv : UInt64)
    (cpu : Cpu M) : Cpu M :=
  { cpu with
    state := (((cpu.state.setWord ext.layout.x0 argc).setWord ext.layout.x1 argv).setWord
      ext.layout.pc entry).setWord ext.layout.lr this }

/-! ## pc の命令を探すだけの interpreter -/

/-- 番地から、そこの命令の意味を引く interpreter。 -/
structure Interpreter (C : Type) where
  pc : C → UInt64
  code : UInt64 → Option (C → Except Fault C)
  host : C → C
  hook : C → C

/-- `cur` は、いま実行するか、いま実行し終えた命令の番地である。 -/
structure Spot (C : Type) where
  phase : Phase
  cur : UInt64
  cpu : C

/-- 番兵なら終わり、命令があれば実行し、無ければ host を呼ぶ。 -/
def Interpreter.step {C : Type} (I : Interpreter C) (this : UInt64) (s : Spot C) :
    Spot C ⊕ Except Fault C :=
  match s.phase with
  | .exec =>
    if I.pc s.cpu = this then .inr (.ok s.cpu)
    else
      match I.code s.cur with
      | none => .inr (.error .undefined)
      | some run =>
        match run (I.hook s.cpu) with
        | .error fault => .inr (.error fault)
        | .ok cpu => .inl ⟨.seek, s.cur, cpu⟩
  | .seek =>
    if I.pc s.cpu = this then .inr (.ok s.cpu)
    else
      match I.code (I.pc s.cpu) with
      | none => .inl ⟨.seek, s.cur, I.host s.cpu⟩
      | some _ => .inl ⟨.exec, I.pc s.cpu, s.cpu⟩

/-- 番地 `addr` を含む最初の module と、その表でその番地にある最初の命令。 -/
def locate (runtimes : List RuntimeMetaData) (addr : UInt64) : Option (RuntimeMetaData × Nat) :=
  (runtimes.find? fun rt => rt.contain addr).bind fun rt =>
    (rt.insns.findIdx? fun insn => rt.rtbase.toNat + insn.rva.toNat = addr.toNat).map fun k =>
      (rt, k)

/-- 読み込んだ module の命令を引く interpreter。 -/
def External.interpreter {M ν : Type} (ext : External M ν) (runtimes : List RuntimeMetaData) :
    Interpreter (Cpu M) where
  pc := ext.pc
  code := fun addr => (locate runtimes addr).map fun p =>
    ext.runInsn p.1.metadata (p.1.metadata + p.1.header.insns)
      (p.1.metadata + p.1.header.operands) (p.1.metadata + p.1.header.expressions) p.2
  host := ext.host
  hook := ext.hook

end InterpMetaData

end AetherVM
