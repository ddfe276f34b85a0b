import AetherVM.Engine.Register
import AetherVM.Infra.WordMem
import AetherVM.Operand.Raw

/-!
# AArch64 の SP を使う命令の interpreter（`src/OpcodeAArch64.cpp` の `interpMCInstARM64`）

Remill の実装の無い三つの store は、LLVM の `MCInst` の operand を読んで手で書いた関数が実行する。
memory の address は host の address と同じなので、値は `memcpy` で直接書く。`State` は guest の memory の
外にあるものとする。address の計算は 2 の補数で折り返す。

architecture の側では、`Q` の register の値を 16 byte、`D` の register をその下位 8 byte として、SP と PC と
memory の変化だけを書く。interpreter の関数がこれに従うのは、`STPQi` のほかの命令ではいつもで、`STPQi` では
二つ目の register を 16 byte ではなく 8 byte 先に書いても同じ結果になるときに限る。
-/

namespace AetherVM.MCInterp

open Infra

/-! ## `MCInst` -/

/-- `MCInst` の opcode。 -/
inductive Opcode where
  | stpDpre
  | strDpre
  | stpQi
  | other (id : UInt32)
deriving DecidableEq, Repr

/-- `MCOperand`。register は LLVM の番号である。 -/
inductive MCOperand where
  | reg (id : UInt32)
  | imm (value : Int64)
deriving DecidableEq, Repr

structure MCInst where
  opcode : Opcode
  operands : List MCOperand

/-- LLVM の生成した register の番号のうち、`D0`、`Q0`、`SP`。`D` と `Q` の番号は並びの順である。 -/
structure RegisterEnum where
  d0 : UInt32
  q0 : UInt32
  sp : UInt32

/-- `inst.getOperand(i).getReg()`。 -/
def MCInst.getReg (inst : MCInst) (i : Nat) : Except Fault UInt32 :=
  match inst.operands[i]? with
  | some (.reg id) => .ok id
  | _ => .error .undefined

/-- `inst.getOperand(i).getImm()`。 -/
def MCInst.getImm (inst : MCInst) (i : Nat) : Except Fault Int64 :=
  match inst.operands[i]? with
  | some (.imm value) => .ok value
  | _ => .error .undefined

/-! ## interpreter -/

/-- 実行中の thread。`cpu` は `State`、`mem` は guest の memory である。 -/
structure InterpState where
  cpu : CPUState
  mem : WordMem

section Interp

variable (f : RegisterFile) (enum : RegisterEnum) (inst : MCInst) (s : InterpState)

/-- `(Register)((int)Register::Q0 + index)`。vector register の外は考えない。 -/
def vectorRegister (index : UInt32) : Except Fault CpuRegister :=
  if h : index.toNat < 32 then .ok (.q ⟨index.toNat, h⟩) else .error .undefined

/-- `CPU.getRegisterAArch64(reg)`。`nullptr` は読めない。 -/
def getRegister (reg : CpuRegister) : Except Fault (Nat × InterpState) :=
  match f.getRegister s.cpu reg with
  | none => .error .undefined
  | some (ptr, cpu) => .ok (ptr, { s with cpu := cpu })

/-- `CPU.setRegisterAArch64(reg, {.u8 = val})`。 -/
def setRegister (reg : CpuRegister) (val : UInt64) : InterpState :=
  { s with cpu := (f.setRegister s.cpu reg val.toNat).2 }

/-- `std::memcpy((void *)dst, ptr, n)`。 -/
def memcpy (dst : UInt64) (ptr n : Nat) : InterpState :=
  { s with mem := s.mem.store dst (s.cpu.mem.load ptr n) }

/-- `interp_STPDpre`。 -/
def interpSTPDpre : Except Fault InterpState := do
  let idm := (← inst.getReg 1) - enum.d0
  let idn := (← inst.getReg 2) - enum.d0
  let imm := (← inst.getImm 4) * 8
  let (dm, s) ← getRegister f s (← vectorRegister idm)
  let (dn, s) ← getRegister f s (← vectorRegister idn)
  let (ptr, s) ← getRegister f s .sp
  let sp := UInt64.ofNat (s.cpu.mem.loadLE ptr 8) + imm.toUInt64
  let s := memcpy s (sp + 0) dm 8
  let s := memcpy s (sp + 8) dn 8
  .ok (setRegister f s .sp sp)

/-- `interp_STRDpre`。 -/
def interpSTRDpre : Except Fault InterpState := do
  let idm := (← inst.getReg 1) - enum.d0
  let imm ← inst.getImm 3
  let (dm, s) ← getRegister f s (← vectorRegister idm)
  let (ptr, s) ← getRegister f s .sp
  let sp := UInt64.ofNat (s.cpu.mem.loadLE ptr 8) + imm.toUInt64
  let s := memcpy s sp dm 8
  .ok (setRegister f s .sp sp)

/-- `interp_STPQi`。二つ目の register も 8 byte 先に書く。 -/
def interpSTPQi : Except Fault InterpState := do
  let iqm := (← inst.getReg 0) - enum.q0
  let iqn := (← inst.getReg 1) - enum.q0
  let imm := (← inst.getImm 3) * 16
  let (qm, s) ← getRegister f s (← vectorRegister iqm)
  let (qn, s) ← getRegister f s (← vectorRegister iqn)
  let (ptr, s) ← getRegister f s .sp
  let sp := UInt64.ofNat (s.cpu.mem.loadLE ptr 8) + imm.toUInt64
  let s := memcpy s (sp + 0) qm 16
  let s := memcpy s (sp + 8) qn 16
  .ok s

/-- `interpMCInstARM64` の `switch`。知らない命令では `exit(-1)` する。 -/
def interpOpcode : Except Fault InterpState :=
  match inst.opcode with
  | .stpDpre => interpSTPDpre f enum inst s
  | .strDpre => interpSTRDpre f enum inst s
  | .stpQi => interpSTPQi f enum inst s
  | .other _ => .error .abort

/-- `interpMCInstARM64`。 -/
def interpMCInstARM64 : Except Fault InterpState := do
  let s ← interpOpcode f enum inst s
  let (ptr, s) ← getRegister f s .pc
  let pc := UInt64.ofNat (s.cpu.mem.loadLE ptr 8)
  .ok (setRegister f s .pc (pc + 4))

end Interp

/-! ## architecture -/

/-- register の byte の数。 -/
def widthOf : CpuRegister → Nat
  | .q _ => 16
  | _ => 8

/-- architecture の状態。 -/
structure ArchState where
  reg : CpuRegister → Nat
  mem : WordMem

namespace ArchState

variable (a : ArchState)

/-- 64 bit の register の値。 -/
def word (reg : CpuRegister) : UInt64 := UInt64.ofNat (a.reg reg)

def set (reg : CpuRegister) (val : UInt64) : ArchState :=
  { a with reg := Function.update a.reg reg val.toNat }

/-- `val` の下位 `n` byte を書く。 -/
def store (addr : UInt64) (n val : Nat) : ArchState :=
  { a with mem := a.mem.store addr (toLE n val) }

end ArchState

/-- 三つの命令。即値は符号付きである。 -/
inductive Instruction where
  /-- `STP Dm, Dn, [SP, #8*imm]!` -/
  | stpDpre (m n : Fin 32) (imm : Int64)
  /-- `STR Dm, [SP, #imm]!` -/
  | strDpre (m : Fin 32) (imm : Int64)
  /-- `STP Qm, Qn, [SP, #16*imm]` -/
  | stpQi (m n : Fin 32) (imm : Int64)
deriving DecidableEq

namespace Instruction

/-- LLVM の逆 assembler が作る `MCInst`。 -/
def mcInst (enum : RegisterEnum) : Instruction → MCInst
  | stpDpre m n imm => ⟨.stpDpre, [.reg enum.sp, .reg (enum.d0 + UInt32.ofNat m),
      .reg (enum.d0 + UInt32.ofNat n), .reg enum.sp, .imm imm]⟩
  | strDpre m imm => ⟨.strDpre, [.reg enum.sp, .reg (enum.d0 + UInt32.ofNat m), .reg enum.sp,
      .imm imm]⟩
  | stpQi m n imm => ⟨.stpQi, [.reg (enum.q0 + UInt32.ofNat m), .reg (enum.q0 + UInt32.ofNat n),
      .reg enum.sp, .imm imm]⟩

/-- 最初に書く address。 -/
def address (a : ArchState) : Instruction → UInt64
  | stpDpre _ _ imm => a.word .sp + imm.toUInt64 * 8
  | strDpre _ imm => a.word .sp + imm.toUInt64
  | stpQi _ _ imm => a.word .sp + imm.toUInt64 * 16

/-- architecture の定める、命令の効果。 -/
def step (inst : Instruction) (a : ArchState) : ArchState :=
  let addr := inst.address a
  let effect := match inst with
    | stpDpre m n _ =>
      ((a.store addr 8 (a.reg (.q m))).store (addr + 8) 8 (a.reg (.q n))).set .sp addr
    | strDpre m _ => (a.store addr 8 (a.reg (.q m))).set .sp addr
    | stpQi m n _ => (a.store addr 16 (a.reg (.q m))).store (addr + 16) 16 (a.reg (.q n))
  effect.set .pc (a.word .pc + 4)

/--
二つ目の register を 8 byte 先に書いても、結果が変わらないこと。`STPQi` では、書かれる 32 byte の 8 byte ごとの
値が、下から二つ目より上で揃っているときである。
-/
def Fits (a : ArchState) (inst : Instruction) : Prop :=
  match inst with
  | stpQi m n _ =>
    a.reg (.q m) / 2 ^ 64 = a.reg (.q n) % 2 ^ 64 ∧ a.reg (.q n) / 2 ^ 64 = a.reg (.q n) % 2 ^ 64 ∧
      ofLE (a.mem.load (inst.address a + 24) 8) = a.reg (.q n) / 2 ^ 64
  | _ => True

end Instruction

/-- interpreter の状態が表す、architecture の状態。 -/
def InterpState.arch (f : RegisterFile) (s : InterpState) : ArchState where
  reg reg := match f.offset reg with
    | some o => s.cpu.mem.loadLE o (widthOf reg)
    | none => 0
  mem := s.mem

/-- SP と PC の field は、ほかの register の field と重ならない。 -/
structure Laid (s : AArch64State) : Prop where
  sp : ∀ reg o, reg ≠ .sp → s.file.offset reg = some o → o + widthOf reg ≤ s.sp ∨ s.sp + 8 ≤ o
  pc : ∀ reg o, reg ≠ .pc → s.file.offset reg = some o → o + widthOf reg ≤ s.pc ∨ s.pc + 8 ≤ o

/-! ## 一つの操作と architecture の状態 -/

section Spec

variable {arm : AArch64State} {enum : RegisterEnum} {s : InterpState}

theorem vectorRegister_sub (base : UInt32) (i : Fin 32) :
    vectorRegister (base + UInt32.ofNat i - base) = .ok (.q i) := by
  have hi : (base + UInt32.ofNat i - base).toNat = i.val := by
    rw [UInt32.add_comm, UInt32.add_sub_cancel,
      UInt32.toNat_ofNat_of_lt' (Nat.lt_trans i.isLt (by decide))]
  unfold vectorRegister
  rw [dif_pos (show (base + UInt32.ofNat i - base).toNat < 32 by rw [hi]; exact i.isLt)]
  simp only [hi]

/-- flag の register のほかは、読んでも状態は変わらない。 -/
theorem getRegister_eq {reg : CpuRegister} {o : Nat} (ho : arm.file.offset reg = some o)
    (hne : reg ≠ .nzcv) : getRegister arm.file s reg = .ok (o, s) := by
  unfold getRegister
  rw [RegisterFile.getRegister_of_ne ho hne]

theorem getRegister_q (i : Fin 32) : getRegister arm.file s (.q i) = .ok (arm.simd i, s) :=
  getRegister_eq rfl nofun

theorem getRegister_sp : getRegister arm.file s .sp = .ok (arm.sp, s) := getRegister_eq rfl nofun

theorem getRegister_pc : getRegister arm.file s .pc = .ok (arm.pc, s) := getRegister_eq rfl nofun

theorem arch_memcpy {dst : UInt64} (i : Fin 32) {n : Nat} (hn : n ≤ 16) :
    (memcpy s dst (arm.simd i) n).arch arm.file
      = (s.arch arm.file).store dst n ((s.arch arm.file).reg (.q i)) := by
  unfold memcpy ArchState.store InterpState.arch
  show _ = ArchState.mk _ (s.mem.store dst (toLE n (s.cpu.mem.loadLE (arm.simd i) 16)))
  rw [Mem.toLE_loadLE _ _ hn]

/-- 一つの register に書くと、その register の値だけが変わる。 -/
theorem arch_setRegister (reg : CpuRegister) {o : Nat} (ho : arm.file.offset reg = some o)
    (hne : reg ≠ .nzcv) (hwidth : widthOf reg = 8)
    (hapart : ∀ reg' o', reg' ≠ reg → arm.file.offset reg' = some o' →
      o' + widthOf reg' ≤ o ∨ o + 8 ≤ o') (val : UInt64) :
    (setRegister arm.file s reg val).arch arm.file = (s.arch arm.file).set reg val := by
  unfold setRegister InterpState.arch ArchState.set
  rw [RegisterFile.setRegister_of_ne ho hne]
  congr 1
  funext reg'
  by_cases heq : reg' = reg
  · subst heq
    rw [Function.update_self, ho]
    show (s.cpu.mem.storeLE o 8 val.toNat).loadLE o (widthOf reg') = _
    rw [hwidth, Mem.loadLE_storeLE _ _ val.toNat_lt]
  · rw [Function.update_of_ne heq]
    dsimp only
    cases ho' : arm.file.offset reg' with
    | none => rfl
    | some o' => exact Mem.loadLE_storeLE_apart (hapart reg' o' heq ho')

theorem arch_setRegister_sp (hlaid : Laid arm) (val : UInt64) :
    (setRegister arm.file s .sp val).arch arm.file = (s.arch arm.file).set .sp val :=
  arch_setRegister .sp (o := arm.sp) rfl (by decide) rfl hlaid.sp val

theorem arch_setRegister_pc (hlaid : Laid arm) (val : UInt64) :
    (setRegister arm.file s .pc val).arch arm.file = (s.arch arm.file).set .pc val :=
  arch_setRegister .pc (o := arm.pc) rfl (by decide) rfl hlaid.pc val

/-! ## 三つの関数 -/

theorem interpOpcode_stpDpre (m n : Fin 32) (imm : Int64) :
    interpOpcode arm.file enum ((Instruction.stpDpre m n imm).mcInst enum) s =
      let addr := (Instruction.stpDpre m n imm).address (s.arch arm.file)
      .ok (setRegister arm.file
        (memcpy (memcpy s addr (arm.simd m) 8) (addr + 8) (arm.simd n) 8) .sp addr) := by
  show interpSTPDpre _ _ _ _ = _
  simp only [interpSTPDpre, Instruction.mcInst, MCInst.getReg, MCInst.getImm,
    List.getElem?_cons_succ, List.getElem?_cons_zero, bind, Except.bind, vectorRegister_sub,
    getRegister_q, getRegister_sp, UInt64.add_zero]
  rfl

theorem interpOpcode_strDpre (m : Fin 32) (imm : Int64) :
    interpOpcode arm.file enum ((Instruction.strDpre m imm).mcInst enum) s =
      let addr := (Instruction.strDpre m imm).address (s.arch arm.file)
      .ok (setRegister arm.file (memcpy s addr (arm.simd m) 8) .sp addr) := by
  show interpSTRDpre _ _ _ _ = _
  simp only [interpSTRDpre, Instruction.mcInst, MCInst.getReg, MCInst.getImm,
    List.getElem?_cons_succ, List.getElem?_cons_zero, bind, Except.bind, vectorRegister_sub,
    getRegister_q, getRegister_sp]
  rfl

theorem interpOpcode_stpQi (m n : Fin 32) (imm : Int64) :
    interpOpcode arm.file enum ((Instruction.stpQi m n imm).mcInst enum) s =
      let addr := (Instruction.stpQi m n imm).address (s.arch arm.file)
      .ok (memcpy (memcpy s addr (arm.simd m) 16) (addr + 8) (arm.simd n) 16) := by
  show interpSTPQi _ _ _ _ = _
  simp only [interpSTPQi, Instruction.mcInst, MCInst.getReg, MCInst.getImm,
    List.getElem?_cons_succ, List.getElem?_cons_zero, bind, Except.bind, vectorRegister_sub,
    getRegister_q, getRegister_sp, UInt64.add_zero]
  rfl

/-- architecture の状態で見た interpreter。`STPQi` の二つ目の register の位置だけが違う。 -/
def Instruction.interpStep (inst : Instruction) (a : ArchState) : ArchState :=
  match inst with
  | stpQi m n _ =>
    let addr := inst.address a
    ((a.store addr 16 (a.reg (.q m))).store (addr + 8) 16 (a.reg (.q n))).set .pc (a.word .pc + 4)
  | _ => inst.step a

/-- `switch` の後で、PC は次の命令に進む。 -/
theorem interpMCInstARM64_of_opcode (hlaid : Laid arm) {inst : MCInst} {s' : InterpState}
    (h : interpOpcode arm.file enum inst s = .ok s') :
    (interpMCInstARM64 arm.file enum inst s).map (InterpState.arch arm.file)
      = .ok ((s'.arch arm.file).set .pc ((s'.arch arm.file).word .pc + 4)) := by
  unfold interpMCInstARM64
  simp only [h, bind, Except.bind, getRegister_pc]
  show Except.ok _ = _
  rw [arch_setRegister_pc hlaid]
  rfl

theorem interpMCInstARM64_arch (hlaid : Laid arm) (inst : Instruction) :
    (interpMCInstARM64 arm.file enum (inst.mcInst enum) s).map (InterpState.arch arm.file)
      = .ok (inst.interpStep (s.arch arm.file)) := by
  cases inst with
  | stpDpre m n imm =>
    rw [interpMCInstARM64_of_opcode hlaid (interpOpcode_stpDpre m n imm), arch_setRegister_sp hlaid,
      arch_memcpy _ (by decide), arch_memcpy _ (by decide)]
    rfl
  | strDpre m imm =>
    rw [interpMCInstARM64_of_opcode hlaid (interpOpcode_strDpre m imm), arch_setRegister_sp hlaid,
      arch_memcpy _ (by decide)]
    rfl
  | stpQi m n imm =>
    rw [interpMCInstARM64_of_opcode hlaid (interpOpcode_stpQi m n imm), arch_memcpy _ (by decide),
      arch_memcpy _ (by decide)]
    rfl

/-! ## architecture に従うとき -/

/-- 8 byte 先に重ねて書いても、続けて書いたのと同じになる条件。 -/
theorem store_pair_iff (a : ArchState) (addr : UInt64) {v w : Nat} (hv : v < 256 ^ 16)
    (hw : w < 256 ^ 16) :
    ((a.store addr 16 v).store (addr + 8) 16 w).mem
        = ((a.store addr 16 v).store (addr + 16) 16 w).mem ↔
      v / 2 ^ 64 = w % 2 ^ 64 ∧ w / 2 ^ 64 = w % 2 ^ 64 ∧
        ofLE (a.mem.load (addr + 24) 8) = w / 2 ^ 64 := by
  have hpow : (256 : Nat) ^ 8 = 2 ^ 64 := by decide
  have hhigh : ∀ x < 256 ^ 16, x / 256 ^ 8 < 256 ^ 8 := by
    intro x hx
    rw [show (16 : Nat) = 8 + 8 from rfl, Nat.pow_add] at hx
    exact Nat.div_lt_of_lt_mul hx
  have hload : a.mem.load (addr + 24) 8 = toLE 8 (w / 256 ^ 8) ↔
      ofLE (a.mem.load (addr + 24) 8) = w / 256 ^ 8 := by
    conv => rhs; rw [← ofLE_toLE_of_lt (hhigh w hw)]
    exact ⟨congrArg ofLE, ofLE_inj (by simp)⟩
  have hpair := WordMem.store_pair_iff (m := a.mem) (a := addr) (k := 8) (length_toLE 8 v)
    (length_toLE 8 (v / 256 ^ 8)) (length_toLE 8 w) (length_toLE 8 (w / 256 ^ 8)) (by decide)
  rw [← toLE_add, ← toLE_add, toLE_eq_iff, toLE_eq_iff, Nat.mod_eq_of_lt (hhigh v hv),
    Nat.mod_eq_of_lt (hhigh w hw), show UInt64.ofNat (3 * 8) = 24 from rfl, hload, hpow] at hpair
  exact hpair

/-- register の同じ二つの状態に同じ値を書いて等しいのは、memory が等しいときである。 -/
theorem ArchState.set_eq_iff {a b : ArchState} (hreg : a.reg = b.reg) {reg : CpuRegister}
    {val : UInt64} : a.set reg val = b.set reg val ↔ a.mem = b.mem := by
  unfold ArchState.set
  rw [ArchState.mk.injEq, hreg]
  exact ⟨fun h => h.2, fun h => ⟨rfl, h⟩⟩

theorem Instruction.interpStep_eq_iff {a : ArchState} (hq : ∀ i, a.reg (.q i) < 256 ^ 16)
    (inst : Instruction) : inst.interpStep a = inst.step a ↔ inst.Fits a := by
  cases inst with
  | stpDpre m n imm => exact ⟨fun _ => trivial, fun _ => rfl⟩
  | strDpre m imm => exact ⟨fun _ => trivial, fun _ => rfl⟩
  | stpQi m n imm =>
    unfold interpStep step Fits
    dsimp only
    generalize address a (stpQi m n imm) = addr
    rw [← store_pair_iff a addr (hq m) (hq n)]
    refine ArchState.set_eq_iff ?_
    rfl

/--
**三つの命令の関数は、`STPQi` の二つ目の register を 8 byte 先に書く分だけ、architecture から外れる。**
-/
theorem interpMCInstARM64_iff (hlaid : Laid arm) (inst : Instruction) :
    (interpMCInstARM64 arm.file enum (inst.mcInst enum) s).map (InterpState.arch arm.file)
        = .ok (inst.step (s.arch arm.file)) ↔
      inst.Fits (s.arch arm.file) := by
  have hq : ∀ i, (s.arch arm.file).reg (.q i) < 256 ^ 16 := fun i => Mem.loadLE_lt _ _ _
  rw [interpMCInstARM64_arch hlaid, Except.ok.injEq]
  exact inst.interpStep_eq_iff hq

end Spec

/-! ## 実例 -/

/-- `x 31` は SP であり、ほかの `x i` は SP の前に並ぶ。 -/
theorem sample_x {i : Fin 32} (hi : CpuRegister.x i ≠ .sp) :
    (if h : i.val < 31 then AArch64State.sample.x ⟨i.val, h⟩ else AArch64State.sample.sp)
      = 16 + 8 * i.val ∧ i.val < 31 := by
  have hlt : i.val < 31 := by
    have hne : i.val ≠ 31 := fun h => hi (congrArg CpuRegister.x (Fin.ext h))
    have hbound := i.isLt
    omega
  exact ⟨dif_pos hlt, hlt⟩

theorem sample_laid : Laid AArch64State.sample where
  sp reg o hne ho := by
    cases reg <;> simp only [AArch64State.file, Option.some.injEq, reduceCtorEq] at ho
    case x i =>
      obtain ⟨hx, hlt⟩ := sample_x hne
      rw [hx] at ho
      simp only [widthOf, AArch64State.sample]
      omega
    all_goals
      simp only [widthOf, AArch64State.sample] at ho ⊢
      omega
  pc reg o hne ho := by
    cases reg <;> simp only [AArch64State.file, Option.some.injEq, reduceCtorEq] at ho
    case x i =>
      simp only [widthOf, AArch64State.sample] at ho ⊢
      split at ho <;> omega
    case pc => exact absurd rfl hne
    all_goals
      simp only [widthOf, AArch64State.sample] at ho ⊢
      omega

/-- SP が `0x1000` で、`Q0` が `0x11`、`Q1` が `0x22` の状態。 -/
def sampleInterp : InterpState where
  cpu := ⟨(Mem.storeLE (fun _ => 0) 264 8 0x1000).storeLE 288 16 0x11 |>.storeLE 304 16 0x22, 0⟩
  mem := fun _ => 0

def sampleEnum : RegisterEnum := ⟨48, 144, 8⟩

/-- `stp d0, d1, [sp, #-16]!` は architecture のとおりである。 -/
theorem sampleInterp_stpDpre :
    (interpMCInstARM64 AArch64State.sample.file sampleEnum
        ((Instruction.stpDpre 0 1 (-2)).mcInst sampleEnum) sampleInterp).map
        (InterpState.arch AArch64State.sample.file)
      = .ok ((Instruction.stpDpre 0 1 (-2)).step (sampleInterp.arch AArch64State.sample.file)) :=
  (interpMCInstARM64_iff sample_laid _).mpr trivial

/-- `stp q0, q1, [sp]` は、`Q1` を `0x1010` ではなく `0x1008` に書く。 -/
theorem sampleInterp_not_stpQi :
    (interpMCInstARM64 AArch64State.sample.file sampleEnum
        ((Instruction.stpQi 0 1 0).mcInst sampleEnum) sampleInterp).map
        (fun s => s.mem 0x1008) = .ok 0x22 ∧
      ((Instruction.stpQi 0 1 0).step (sampleInterp.arch AArch64State.sample.file)).mem 0x1008 = 0 ∧
      ¬ (interpMCInstARM64 AArch64State.sample.file sampleEnum
          ((Instruction.stpQi 0 1 0).mcInst sampleEnum) sampleInterp).map
          (InterpState.arch AArch64State.sample.file)
        = .ok ((Instruction.stpQi 0 1 0).step (sampleInterp.arch AArch64State.sample.file)) := by
  have hrun : (interpMCInstARM64 _ sampleEnum _ sampleInterp).map _ = _ :=
    interpMCInstARM64_arch sample_laid (.stpQi 0 1 0)
  have hcode : ((Instruction.stpQi 0 1 0).interpStep
      (sampleInterp.arch AArch64State.sample.file)).mem 0x1008 = 0x22 := by decide
  have harch : ((Instruction.stpQi 0 1 0).step
      (sampleInterp.arch AArch64State.sample.file)).mem 0x1008 = 0 := by decide
  generalize interpMCInstARM64 _ _ _ sampleInterp = r at hrun ⊢
  refine ⟨?_, harch, fun h => ?_⟩
  · cases r with
    | error e => cases hrun
    | ok s =>
      show Except.ok ((s.arch AArch64State.sample.file).mem 0x1008) = _
      rw [Except.ok.inj hrun, hcode]
  · rw [← Except.ok.inj (hrun.symm.trans h), hcode] at harch
    exact absurd harch (by decide)

end AetherVM.MCInterp
