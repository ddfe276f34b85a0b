import AetherVM.Infra.Mem

/-!
# CPU の register（`include/Register.h`、`src/CPUState.cpp`、`BinaryEngine::getRegister`）

`getRegister*` は Remill の `State` の中の field の pointer を返し、`setRegister*` はそこへ 8 byte を書く。
16 byte の値を書けるのは vector register だけである。flag の register だけは、値の語のほかに bit ごとの
byte（`sr` / `aflag`）があり、読むときは byte から語へ、書くときは語から byte へ写す。

PC は `BinaryEngine::getRegister` が、付けた binary の番地に直してから返す。`setRegister` は直さない。

`State` の field の番地は Remill のものなので、parameter として受け取る。
-/

namespace AetherVM

open Infra

/--
`enum class Register`。`FP`、`LR`、`SP` は `x 29`、`x 30`、`x 31`、`RIP`、`RBP`、`RSP` は `pc`、`x 29`、
`x 31` の別名である。

enum では `RSP = SP` の次が `RAX` なので、`RAX` から `MM5` の値は `NZCV` から `FPCR` の値と同じである。ここでは
名前で区別し、もう一方の architecture の名前は register の無いもの（`offset` が `none`）とする。
-/
inductive CpuRegister where
  | zero
  | pc
  | x (i : Fin 32)
  | nzcv
  | q (i : Fin 32)
  | fpsr
  | fpcr
  | rax
  | rbx
  | rcx
  | rdi
  | rdx
  | rsi
  | r8
  | r9
  | r10
  | r11
  | r12
  | r13
  | r14
  | r15
  | rflags
  | ss
  | es
  | gs
  | fs
  | ds
  | cs
  | st (i : Fin 8)
  | mm (i : Fin 8)
  | xmm (i : Fin 32)
deriving DecidableEq, Repr

namespace CpuRegister

abbrev fp : CpuRegister := .x 29
abbrev lr : CpuRegister := .x 30
abbrev sp : CpuRegister := .x 31
abbrev rip : CpuRegister := .pc
abbrev rbp : CpuRegister := fp
abbrev rsp : CpuRegister := sp

end CpuRegister

/-! ## `State` の field -/

/--
一つの architecture の register の置き場所。`offset` は `getRegister*` の `switch` で、`flags` は
flag の bit と、その byte の番地である。
-/
structure RegisterFile where
  offset : CpuRegister → Option Nat
  flagRegister : CpuRegister
  flags : List (Nat × Nat)
  simd : CpuRegister → Bool

/-- `aarch64::State` の field の番地。`n` から `v` は `sr` の中のものである。 -/
structure AArch64State where
  pc : Nat
  zero : Nat
  x : Fin 31 → Nat
  sp : Nat
  nzcv : Nat
  n : Nat
  z : Nat
  c : Nat
  v : Nat
  simd : Fin 32 → Nat
  fpsr : Nat
  fpcr : Nat

/-- `getRegisterAArch64`、`setRegisterAArch64`、`setRegisterNEON` の表。 -/
def AArch64State.file (s : AArch64State) : RegisterFile where
  offset
    | .pc => some s.pc
    | .zero => some s.zero
    | .x i => some (if h : i.val < 31 then s.x ⟨i, h⟩ else s.sp)
    | .nzcv => some s.nzcv
    | .q i => some (s.simd i)
    | .fpsr => some s.fpsr
    | .fpcr => some s.fpcr
    | _ => none
  flagRegister := .nzcv
  flags := [(31, s.n), (30, s.z), (29, s.c), (28, s.v)]
  simd
    | .q _ => true
    | _ => false

/-- `aarch64::State` の並びの一つ。 -/
def AArch64State.sample : AArch64State where
  pc := 0
  zero := 8
  x := fun i => 16 + 8 * i
  sp := 264
  nzcv := 272
  n := 280
  z := 281
  c := 282
  v := 283
  simd := fun i => 288 + 16 * i
  fpsr := 800
  fpcr := 804

/-- `x86::State` の field の番地。`af` から `zf` は `aflag` の中のものである。 -/
structure X86State where
  rip : Nat
  zero : Nat
  rax : Nat
  rbp : Nat
  rbx : Nat
  rcx : Nat
  rdi : Nat
  rdx : Nat
  rsi : Nat
  rsp : Nat
  r8 : Nat
  r9 : Nat
  r10 : Nat
  r11 : Nat
  r12 : Nat
  r13 : Nat
  r14 : Nat
  r15 : Nat
  rflag : Nat
  af : Nat
  cf : Nat
  df : Nat
  of : Nat
  pf : Nat
  sf : Nat
  zf : Nat
  ss : Nat
  es : Nat
  gs : Nat
  fs : Nat
  ds : Nat
  cs : Nat
  st : Fin 8 → Nat
  mmx : Fin 8 → Nat
  vec : Fin 32 → Nat

/-- `getRegisterX86`、`setRegisterX86`、`setRegisterSSE` の表。 -/
def X86State.file (s : X86State) : RegisterFile where
  offset
    | .pc => some s.rip
    | .zero => some s.zero
    | .rax => some s.rax
    | .x 29 => some s.rbp
    | .rbx => some s.rbx
    | .rcx => some s.rcx
    | .rdi => some s.rdi
    | .rdx => some s.rdx
    | .rsi => some s.rsi
    | .x 31 => some s.rsp
    | .r8 => some s.r8
    | .r9 => some s.r9
    | .r10 => some s.r10
    | .r11 => some s.r11
    | .r12 => some s.r12
    | .r13 => some s.r13
    | .r14 => some s.r14
    | .r15 => some s.r15
    | .rflags => some s.rflag
    | .ss => some s.ss
    | .es => some s.es
    | .gs => some s.gs
    | .fs => some s.fs
    | .ds => some s.ds
    | .cs => some s.cs
    | .st i => some (s.st i)
    | .mm i => some (s.mmx i)
    | .xmm i => some (s.vec i)
    | _ => none
  flagRegister := .rflags
  flags := [(4, s.af), (0, s.cf), (10, s.df), (11, s.of), (2, s.pf), (7, s.sf), (6, s.zf)]
  simd
    | .xmm _ => true
    | _ => false

/-! ## `CPUState` -/

/-- `CPUState` のうち register に関わるもの。`mem` は `State` の byte、`pc` は直した PC の置き場所である。 -/
structure CPUState where
  mem : Mem
  pc : UInt64

/-- flag の byte を語の bit に写す。 -/
def collectFlags (flags : List (Nat × Nat)) (m : Mem) (word : Nat) : Nat :=
  flags.foldl (fun w p => assignBit w p.1 ((m p.2).toNat.testBit 0)) word

/-- 語の bit を flag の byte に写す。 -/
def spreadFlags (flags : List (Nat × Nat)) (word : Nat) (m : Mem) : Mem :=
  flags.foldl (fun m p => Function.update m p.2 (if word.testBit p.1 then 1 else 0)) m

namespace RegisterFile

variable (f : RegisterFile)

/-- `getRegisterAArch64` / `getRegisterX86`。返すのは field の番地である。 -/
def getRegister (cpu : CPUState) (reg : CpuRegister) : Option (Nat × CPUState) :=
  (f.offset reg).map fun o =>
    if reg = f.flagRegister then
      let word := collectFlags f.flags cpu.mem (cpu.mem.loadLE o 8)
      (o, { cpu with mem := cpu.mem.storeLE o 8 word })
    else (o, cpu)

/-- `setRegisterAArch64` / `setRegisterX86`。 -/
def setRegister (cpu : CPUState) (reg : CpuRegister) (val : Nat) : Bool × CPUState :=
  match f.getRegister cpu reg with
  | none => (false, cpu)
  | some (o, cpu) =>
    let m := cpu.mem.storeLE o 8 val
    (true, { cpu with mem :=
      if reg = f.flagRegister then spreadFlags f.flags (m.loadLE o 8) m else m })

/-- `setRegisterNEON` / `setRegisterSSE`。 -/
def setRegisterSIMD (cpu : CPUState) (reg : CpuRegister) (val : Nat) : Bool × CPUState :=
  if f.simd reg then
    match f.getRegister cpu reg with
    | none => (false, cpu)
    | some (o, cpu) => (true, { cpu with mem := cpu.mem.storeLE o 16 val })
  else (false, cpu)

end RegisterFile

/-! ## `BinaryEngine` -/

/-- `Binary::sections()` の一つの要素。 -/
structure BinarySection where
  addr : UInt64
  foff : UInt64
  size : UInt64
  text : Bool
deriving DecidableEq, Repr

/--
`BinaryEngine` のうち PC の変換が読むもの。`binary` は `m_binary` の `imageBase`、`binaryOpcode` は
`m_binary_opcode` の `fileBuffer` と `sections` である。
-/
structure PcBase where
  binary : Option UInt64
  basePointer : UInt64
  binaryOpcode : Option (UInt64 × List BinarySection)

/-- opcode の binary の section を順に見る。`TEXT` でない section で止まる。 -/
def scanSections (filebuf pc : UInt64) : List BinarySection → Option UInt64
  | [] => none
  | sect :: rest =>
    let sectbuf := filebuf + sect.foff
    let sectend := sectbuf + sect.size
    if sectbuf ≤ pc ∧ pc < sectend then some (sect.addr + pc - sectbuf)
    else if sect.text then scanSections filebuf pc rest
    else none

namespace PcBase

/-- 実行時の PC を binary の番地に直す。直さないときは `none` である。 -/
def convert (e : PcBase) (pc : UInt64) : Option UInt64 :=
  match e.binary with
  | some imageBase => some (imageBase + pc - e.basePointer)
  | none => e.binaryOpcode.bind fun b => scanSections b.1 pc b.2

/-- 読み手に見える PC。 -/
def view (e : PcBase) (pc : UInt64) : UInt64 := (e.convert pc).getD pc

end PcBase

/-- `getRegister` の返す pointer。`State` の中か、`CPUState::pc` である。 -/
inductive RegisterPtr where
  | field (off : Nat)
  | pc
deriving DecidableEq, Repr

def RegisterPtr.load (cpu : CPUState) (n : Nat) : RegisterPtr → Nat
  | .field off => cpu.mem.loadLE off n
  | .pc => cpu.pc.toNat

/-- `BinaryEngine::getRegister`。`cvtpc` は真で、`pcptr` は PC の field を指す。 -/
def PcBase.getRegister (e : PcBase) (f : RegisterFile) (cpu : CPUState) (reg : CpuRegister) :
    Option (RegisterPtr × CPUState) :=
  match (if reg = .pc then
      (f.offset .pc).bind fun pcptr => e.convert (UInt64.ofNat (cpu.mem.loadLE pcptr 8))
    else none) with
  | some pc => some (.pc, { cpu with pc := pc })
  | none => (f.getRegister cpu reg).map fun p => (.field p.1, p.2)

/-! ## flag の語と byte -/

section Flags

variable {flags : List (Nat × Nat)} {m : Mem} {word : Nat} {p : Nat × Nat}

/-- byte が語の bit と揃っていれば、写しても変わらない。 -/
theorem collectFlags_eq_self (h : ∀ p ∈ flags, (m p.2).toNat.testBit 0 = word.testBit p.1) :
    collectFlags flags m word = word := by
  induction flags with
  | nil => rfl
  | cons p flags ih =>
    rw [collectFlags, List.foldl_cons, h p List.mem_cons_self, assignBit_testBit]
    exact ih fun q hq => h q (List.mem_cons_of_mem p hq)

/-- flag でない bit は変わらない。 -/
theorem testBit_collectFlags_of_notMem {j : Nat} (h : j ∉ flags.map Prod.fst) :
    (collectFlags flags m word).testBit j = word.testBit j := by
  induction flags generalizing word with
  | nil => rfl
  | cons p flags ih =>
    rw [List.map_cons, List.mem_cons, not_or] at h
    rw [collectFlags, List.foldl_cons]
    exact (ih h.2).trans (by rw [testBit_assignBit, if_neg h.1])

theorem testBit_collectFlags (hnodup : (flags.map Prod.fst).Nodup) (hp : p ∈ flags) :
    (collectFlags flags m word).testBit p.1 = (m p.2).toNat.testBit 0 := by
  induction flags generalizing word with
  | nil => cases hp
  | cons q flags ih =>
    rw [List.map_cons, List.nodup_cons] at hnodup
    rw [collectFlags, List.foldl_cons]
    rcases List.mem_cons.mp hp with rfl | hp
    · exact (testBit_collectFlags_of_notMem hnodup.1).trans (by rw [testBit_assignBit, if_pos rfl])
    · exact ih hnodup.2 hp

/-- flag の bit がどれも `k` より下なら、`k` bit に収まるかどうかは変わらない。 -/
theorem collectFlags_lt_iff {k : Nat} (hbits : ∀ p ∈ flags, p.1 < k) :
    collectFlags flags m word < 2 ^ k ↔ word < 2 ^ k := by
  have hhigh : ∀ j, k ≤ j → (collectFlags flags m word).testBit j = word.testBit j := by
    intro j hj
    refine testBit_collectFlags_of_notMem fun hmem => ?_
    obtain ⟨p, hp, rfl⟩ := List.mem_map.mp hmem
    exact absurd (hbits p hp) (Nat.not_lt.mpr hj)
  have hlow : ∀ {w w' : Nat}, (∀ j, k ≤ j → w.testBit j = w'.testBit j) → w' < 2 ^ k →
      w < 2 ^ k := by
    intro w w' heq hlt
    refine Nat.lt_pow_two_of_testBit w fun j hj => ?_
    rw [heq j hj]
    exact Nat.testBit_lt_two_pow (Nat.lt_of_lt_of_le hlt (Nat.pow_le_pow_right (by decide) hj))
  exact ⟨hlow fun j hj => (hhigh j hj).symm, hlow hhigh⟩

/-- flag の byte のほかは変わらない。 -/
theorem spreadFlags_of_notMem {a : Nat} (h : a ∉ flags.map Prod.snd) :
    spreadFlags flags word m a = m a := by
  induction flags generalizing m with
  | nil => rfl
  | cons p flags ih =>
    rw [List.map_cons, List.mem_cons, not_or] at h
    rw [spreadFlags, List.foldl_cons]
    exact (ih h.2).trans (Function.update_of_ne h.1 _ _)

theorem spreadFlags_of_mem (hnodup : (flags.map Prod.snd).Nodup) (hp : p ∈ flags) :
    spreadFlags flags word m p.2 = if word.testBit p.1 then 1 else 0 := by
  induction flags generalizing m with
  | nil => cases hp
  | cons q flags ih =>
    rw [List.map_cons, List.nodup_cons] at hnodup
    rw [spreadFlags, List.foldl_cons]
    rcases List.mem_cons.mp hp with rfl | hp
    · exact (spreadFlags_of_notMem hnodup.1).trans (Function.update_self _ _ _)
    · exact ih hnodup.2 hp

/-- 写しても変わらないのは、どの byte も bit と揃っているときに限る。 -/
theorem spreadFlags_eq_self_iff (hnodup : (flags.map Prod.snd).Nodup) :
    spreadFlags flags word m = m ↔ ∀ p ∈ flags, m p.2 = if word.testBit p.1 then 1 else 0 := by
  constructor
  · intro h p hp
    rw [← spreadFlags_of_mem hnodup hp (m := m), h]
  · intro h
    funext a
    by_cases ha : a ∈ flags.map Prod.snd
    · obtain ⟨p, hp, rfl⟩ := List.mem_map.mp ha
      rw [spreadFlags_of_mem hnodup hp, h p hp]
    · exact spreadFlags_of_notMem ha

/-- byte が自分の最下位 bit だけであることは、0 か 1 であることである。 -/
theorem eq_testBit_iff_lt_two (b : UInt8) :
    (b = if b.toNat.testBit 0 then 1 else 0) ↔ b < 2 := by
  rw [Nat.testBit_zero, UInt8.lt_iff_toNat_lt, ← UInt8.toNat_inj, apply_ite UInt8.toNat]
  simp only [decide_eq_true_eq, UInt8.toNat_ofNat]
  split
  · next h => omega
  · next h => omega

end Flags

/-! ## 読み書きの結果 -/

section Access

variable {f : RegisterFile} {e : PcBase} {cpu : CPUState} {reg : CpuRegister} {o val : Nat}

theorem RegisterFile.getRegister_of_ne (ho : f.offset reg = some o) (hne : reg ≠ f.flagRegister) :
    f.getRegister cpu reg = some (o, cpu) := by
  simp [getRegister, ho, hne]

/-- flag の register を読むと、先に byte が語へ写される。 -/
theorem RegisterFile.getRegister_flag (ho : f.offset f.flagRegister = some o) :
    f.getRegister cpu f.flagRegister = some (o, { cpu with
      mem := cpu.mem.storeLE o 8 (collectFlags f.flags cpu.mem (cpu.mem.loadLE o 8)) }) := by
  simp [getRegister, ho]

theorem RegisterFile.setRegister_of_ne (ho : f.offset reg = some o) (hne : reg ≠ f.flagRegister) :
    (f.setRegister cpu reg val).2 = { cpu with mem := cpu.mem.storeLE o 8 val } := by
  rw [setRegister, getRegister_of_ne ho hne]
  simp [hne]

theorem RegisterFile.setRegister_flag (ho : f.offset f.flagRegister = some o)
    (hval : val < 256 ^ 8) : (f.setRegister cpu f.flagRegister val).2
      = { cpu with mem := spreadFlags f.flags val (cpu.mem.storeLE o 8 val) } := by
  rw [setRegister, getRegister_flag ho]
  simp only [if_true, Mem.storeLE_storeLE, Mem.loadLE_storeLE _ _ hval]

theorem PcBase.getRegister_of_ne_pc (hne : reg ≠ .pc) :
    e.getRegister f cpu reg = (f.getRegister cpu reg).map fun p => (.field p.1, p.2) := by
  simp [getRegister, hne]

/-- PC を読むと、変換した値が返る。 -/
theorem PcBase.getRegister_pc (e : PcBase) (cpu : CPUState) (ho : f.offset .pc = some o)
    (hflag : f.flagRegister ≠ .pc) :
    (e.getRegister f cpu .pc).map (fun r => (r.1.load r.2 8, r.2)) =
      some ((e.view (UInt64.ofNat (cpu.mem.loadLE o 8))).toNat,
        { cpu with pc := (e.convert (UInt64.ofNat (cpu.mem.loadLE o 8))).getD cpu.pc }) := by
  unfold getRegister view
  rw [if_pos rfl, ho, Option.bind_some, RegisterFile.getRegister_of_ne ho (Ne.symm hflag)]
  cases e.convert (UInt64.ofNat (cpu.mem.loadLE o 8)) with
  | some pc => rfl
  | none =>
    have hlt : cpu.mem.loadLE o 8 < 2 ^ 64 := Mem.loadLE_lt _ _ _
    simp only [Option.map_some, RegisterPtr.load, Option.getD_none, UInt64.toNat_ofNat_of_lt' hlt]

end Access

end AetherVM
