import Mathlib.Data.List.Nodup
import AetherVM.Engine.Register

/-!
# debugger の register（`lldb/src/Context.cpp`）

debugger は `RegisterInfo` の表の番号で register を選び、もう一つの表 `registers` の同じ番号の register を
読み書きする。8 byte 以下の register は `State` の 8 byte をそのまま読み、`byte_size` だけを受け取って
8 byte に零で伸ばして書く。8 byte を越える register は vector register のときだけ書かれる。
-/

namespace AetherVM.Debugger

open Infra

/-- `RegisterInfo` のうち、読み書きが使うもの。 -/
structure RegisterInfo where
  name : String
  byteSize : Nat
deriving DecidableEq, Repr

/--
一つの register context の表と、その CPU。`fields` は CPU の register の名前と、その register を持つ `State` の
field の番地で、名前の通りの register に着くかどうかを言うためのものである。
-/
structure RegisterContext where
  registers : List CpuRegister
  registerInfos : List RegisterInfo
  file : RegisterFile
  fields : List (String × Nat)

/-! ## 表 -/

namespace Arm64

/-- `arm64::registers`。`FP`、`LR`、`SP` は `x 29` から `x 31` である。 -/
def registers : List CpuRegister :=
  (List.finRange 32).map .x ++ [.pc, .nzcv] ++ (List.finRange 32).map .q ++ [.fpsr, .fpcr]

def defineGPR64 (reg : String) : RegisterInfo := ⟨reg, 8⟩
def defineMiscRegs (reg : String) (size : Nat) : RegisterInfo := ⟨reg, size⟩
def defineVREG (reg : String) : RegisterInfo := ⟨reg, 16⟩

/-- `arm64::register_infos`。 -/
def registerInfos : List RegisterInfo :=
  (List.range 29).map (fun i => defineGPR64 ("x" ++ toString i)) ++
    [defineGPR64 "fp", defineGPR64 "lr", defineGPR64 "sp", defineGPR64 "pc",
      defineMiscRegs "cpsr" 4] ++
    (List.range 32).map (fun i => defineVREG ("v" ++ toString i)) ++
    [defineMiscRegs "fpsr" 4, defineMiscRegs "fpcr" 4]

/-- 名前ごとの field。`fp` と `lr` は `gpr.x29` と `gpr.x30` である。 -/
def fields (s : AArch64State) : List (String × Nat) :=
  (List.finRange 29).map (fun i => ("x" ++ toString i.val, s.x ⟨i.val, by omega⟩)) ++
    [("fp", s.x ⟨29, by decide⟩), ("lr", s.x ⟨30, by decide⟩), ("sp", s.sp), ("pc", s.pc),
      ("cpsr", s.nzcv)] ++
    (List.finRange 32).map (fun i => ("v" ++ toString i.val, s.simd i)) ++
    [("fpsr", s.fpsr), ("fpcr", s.fpcr)]

end Arm64

namespace X64

/-- `x86_64::registers`。 -/
def registers : List CpuRegister :=
  [.rax, .rbx, .rcx, .rdx, .rsi, .rdi, CpuRegister.rbp, CpuRegister.rsp, .r8, .r9, .r10, .r11, .r12,
    .r13, .r14, .r15, CpuRegister.rip, .rflags, .cs, .ss, .ds, .es, .fs, .gs] ++
    (List.finRange 8).map .st ++ (List.finRange 8).map .mm ++ (List.finRange 32).map .xmm

def defineGPR (reg : String) : RegisterInfo := ⟨reg, 8⟩
def defineFlag : RegisterInfo := ⟨"eflags", 4⟩
def defineSeg (reg : String) : RegisterInfo := ⟨reg, 4⟩
def defineST (i : Nat) : RegisterInfo := ⟨"st" ++ toString i, 10⟩
def defineMM (i : Nat) : RegisterInfo := ⟨"mm" ++ toString i, 8⟩
def defineXMM (i : Nat) : RegisterInfo := ⟨"xmm" ++ toString i, 16⟩

/-- `x86_64::register_infos`。segment の順は `registers` と違う。 -/
def registerInfos : List RegisterInfo :=
  ["rax", "rbx", "rcx", "rdx", "rsi", "rdi", "rbp", "rsp", "r8", "r9", "r10", "r11", "r12", "r13",
    "r14", "r15", "rip"].map defineGPR ++ [defineFlag] ++
    ["cs", "fs", "gs", "ss", "ds", "es"].map defineSeg ++
    (List.range 8).map defineST ++ (List.range 8).map defineMM ++ (List.range 32).map defineXMM

/-- 名前ごとの field。 -/
def fields (s : X86State) : List (String × Nat) :=
  [("rax", s.rax), ("rbx", s.rbx), ("rcx", s.rcx), ("rdx", s.rdx), ("rsi", s.rsi), ("rdi", s.rdi),
    ("rbp", s.rbp), ("rsp", s.rsp), ("r8", s.r8), ("r9", s.r9), ("r10", s.r10), ("r11", s.r11),
    ("r12", s.r12), ("r13", s.r13), ("r14", s.r14), ("r15", s.r15), ("rip", s.rip),
    ("eflags", s.rflag), ("cs", s.cs), ("fs", s.fs), ("gs", s.gs), ("ss", s.ss), ("ds", s.ds),
    ("es", s.es)] ++
    (List.finRange 8).map (fun i => ("st" ++ toString i.val, s.st i)) ++
    (List.finRange 8).map (fun i => ("mm" ++ toString i.val, s.mmx i)) ++
    (List.finRange 32).map (fun i => ("xmm" ++ toString i.val, s.vec i))

/-- `fields` の順に並べた register。`registers` とは segment の順が違う。 -/
def namedRegisters : List CpuRegister :=
  [.rax, .rbx, .rcx, .rdx, .rsi, .rdi, CpuRegister.rbp, CpuRegister.rsp, .r8, .r9, .r10, .r11, .r12,
    .r13, .r14, .r15, CpuRegister.rip, .rflags, .cs, .fs, .gs, .ss, .ds, .es] ++
    (List.finRange 8).map .st ++ (List.finRange 8).map .mm ++ (List.finRange 32).map .xmm

end X64

/-! ## 読み書き -/

namespace RegisterContext

variable (c : RegisterContext) (e : PcBase)

/-- `DoReadRegister`。読んだ値と、読んだ後の CPU を返す。 -/
def readRegister (index : Nat) (cpu : CPUState) : Option (Nat × CPUState) := do
  let info ← c.registerInfos[index]?
  let reg ← c.registers[index]?
  let (regptr, cpu) ← e.getRegister c.file cpu reg
  some (regptr.load cpu (if info.byteSize ≤ 8 then 8 else info.byteSize), cpu)

/-- `DoWriteRegister`。`regval` は零で埋めた 16 byte で、`setRegister` の成否は見ない。 -/
def writeRegister (index value : Nat) (cpu : CPUState) : Option CPUState := do
  let info ← c.registerInfos[index]?
  let reg ← c.registers[index]?
  let regval := value % 256 ^ info.byteSize
  some (if 8 < info.byteSize then (c.file.setRegisterSIMD cpu reg regval).2
    else (c.file.setRegister cpu reg (regval % 256 ^ 8)).2)

/-- 表の `index` 番の register が着く field。 -/
def reached (index : Nat) : Option Nat := c.registers[index]?.bind c.file.offset

/-- 表の `index` 番の名前の register を持つ field。 -/
def named (index : Nat) : Option Nat :=
  c.registerInfos[index]?.bind fun info => c.fields.lookup info.name

/-- 読んだ値。 -/
def value (index : Nat) (cpu : CPUState) : Option Nat := (c.readRegister e index cpu).map Prod.fst

/--
一つの register の読み書きが忠実であること。書いた値が読め、読んだ値を書いても CPU は変わらず、他の
register の値は変わらず、名前の通りの register の field に着く。
-/
structure Faithful (index : Nat) (cpu : CPUState) (v : Nat) : Prop where
  roundtrip : (c.writeRegister index v cpu).bind (c.value e index) = some v
  restore : (c.readRegister e index cpu).bind (fun p => c.writeRegister index p.1 p.2)
    = (c.readRegister e index cpu).map Prod.snd
  frame : ∀ j, j ≠ index →
    (c.writeRegister index v cpu).bind (c.value e j) = c.value e j cpu
  name : c.reached index = c.named index

end RegisterContext

/-! ## 表の性質 -/

/-- 表に載る大きさ。 -/
def byteSizeOf : CpuRegister → Nat
  | .nzcv | .fpsr | .fpcr | .rflags | .ss | .es | .gs | .fs | .ds | .cs => 4
  | .st _ => 10
  | .q _ | .xmm _ => 16
  | _ => 8

/-- segment の register。 -/
def isSegment : CpuRegister → Bool
  | .ss | .es | .gs | .fs | .ds | .cs => true
  | _ => false

/-- 読み書きが触れる byte の数。 -/
def widthOf (reg : CpuRegister) : Nat := max 8 (byteSizeOf reg)

namespace RegisterContext

/--
`named` の register は、`fields` の順に、その field に着く。表の register と違うのは `cs` のほかの segment
だけで、着くのは他の segment の field である。
-/
structure NamesMatch (c : RegisterContext) (named : List CpuRegister) : Prop where
  names : c.registerInfos.map RegisterInfo.name = c.fields.map Prod.fst
  nodup : (c.registerInfos.map RegisterInfo.name).Nodup
  offsets : c.fields.map (fun f => some f.2) = named.map c.file.offset
  same : ∀ p ∈ c.registers.zip named,
    isSegment p.1 = isSegment p.2 ∧ (p.1 = p.2 ↔ (isSegment p.1 = true → p.1 = .cs))

/-- 二つの表と `switch` が揃っていること。 -/
structure WellFormed (c : RegisterContext) : Prop where
  sizes : c.registerInfos.map RegisterInfo.byteSize = c.registers.map byteSizeOf
  names : ∃ named, c.NamesMatch named
  offsets : ∀ reg ∈ c.registers, (c.file.offset reg).isSome
  nodup : c.registers.Nodup
  simd : ∀ reg ∈ c.registers, (c.file.simd reg = true ↔ byteSizeOf reg = 16)
  flag : byteSizeOf c.file.flagRegister = 4 ∧ isSegment c.file.flagRegister = false
  bits : (c.file.flags.map Prod.fst).Nodup ∧ ∀ p ∈ c.file.flags, p.1 < 32
  pairs : ∀ reg ∈ c.registers, isSegment reg = true → .ss ∈ c.registers ∧ .ds ∈ c.registers

end RegisterContext

/-- `AetherRegisterContextARM64`。 -/
def arm64Context (s : AArch64State) : RegisterContext :=
  ⟨Arm64.registers, Arm64.registerInfos, s.file, Arm64.fields s⟩

/-- `AetherRegisterContextX64`。 -/
def x64Context (s : X86State) : RegisterContext :=
  ⟨X64.registers, X64.registerInfos, s.file, X64.fields s⟩

theorem arm64Context_namesMatch (s : AArch64State) :
    (arm64Context s).NamesMatch Arm64.registers where
  names := rfl
  nodup := by
    show (Arm64.registerInfos.map RegisterInfo.name).Nodup
    decide +kernel
  offsets := rfl
  same := by
    show ∀ p ∈ Arm64.registers.zip Arm64.registers, isSegment p.1 = isSegment p.2 ∧
      (p.1 = p.2 ↔ (isSegment p.1 = true → p.1 = .cs))
    decide +kernel

theorem x64Context_namesMatch (s : X86State) :
    (x64Context s).NamesMatch X64.namedRegisters where
  names := rfl
  nodup := by
    show (X64.registerInfos.map RegisterInfo.name).Nodup
    decide +kernel
  offsets := rfl
  same := by
    show ∀ p ∈ X64.registers.zip X64.namedRegisters, isSegment p.1 = isSegment p.2 ∧
      (p.1 = p.2 ↔ (isSegment p.1 = true → p.1 = .cs))
    decide +kernel

theorem arm64Context_wellFormed (s : AArch64State) : (arm64Context s).WellFormed where
  sizes := rfl
  names := ⟨_, arm64Context_namesMatch s⟩
  offsets := List.all_eq_true.mp
    (show Arm64.registers.all (fun r => (s.file.offset r).isSome) = true from rfl)
  nodup := show Arm64.registers.Nodup by decide +kernel
  simd := by
    have hall : Arm64.registers.all
        (fun r => decide (s.file.simd r = true ↔ byteSizeOf r = 16)) = true := rfl
    exact fun reg hreg => of_decide_eq_true (List.all_eq_true.mp hall reg hreg)
  flag := ⟨rfl, rfl⟩
  bits := by simp [arm64Context, AArch64State.file]
  pairs := by
    show ∀ reg ∈ Arm64.registers, isSegment reg = true → CpuRegister.ss ∈ Arm64.registers ∧
      CpuRegister.ds ∈ Arm64.registers
    decide +kernel

theorem x64Context_wellFormed (s : X86State) : (x64Context s).WellFormed where
  sizes := rfl
  names := ⟨_, x64Context_namesMatch s⟩
  offsets := List.all_eq_true.mp
    (show X64.registers.all (fun r => (s.file.offset r).isSome) = true from rfl)
  nodup := show X64.registers.Nodup by decide +kernel
  simd := by
    have hall : X64.registers.all
        (fun r => decide (s.file.simd r = true ↔ byteSizeOf r = 16)) = true := rfl
    exact fun reg hreg => of_decide_eq_true (List.all_eq_true.mp hall reg hreg)
  flag := ⟨rfl, rfl⟩
  bits := by simp [x64Context, X86State.file]
  pairs := by
    show ∀ reg ∈ X64.registers, isSegment reg = true → CpuRegister.ss ∈ X64.registers ∧
      CpuRegister.ds ∈ X64.registers
    decide +kernel

end AetherVM.Debugger
