import Mathlib.Logic.Function.Basic
import Mathlib.Tactic.Tauto
import AetherVM.Opcode.Init

/-!
# handler の集合（`src/OpcodeEngine.h`、`src/OpcodeEngine.cpp` の `prefetch`）

`OpcodeEngine` は、opcode の幅ごとに handler の集合を持つ。集合は opcode を整数として見た順に並ぶ。
`prefetch` は buffer を先頭から decode し、まだ無い opcode の handler だけを作る。
-/

namespace AetherVM

open Infra

/-- 五つの集合の opcode の型 `T`。 -/
inductive OpcodeWidth where
  | w1 | w2 | w4 | w8 | w16
deriving DecidableEq, Repr

namespace OpcodeWidth

/-- `sizeof(T)`。 -/
def size : OpcodeWidth → Nat
  | w1 => 1
  | w2 => 2
  | w4 => 4
  | w8 => 8
  | w16 => 16

/-- 長さ `n` の opcode を入れる集合（`prefetch` の `switch`）。 -/
def ofLength (n : Nat) : OpcodeWidth :=
  if n = 1 then w1
  else if n = 2 then w2
  else if n = 3 ∨ n = 4 then w4
  else if 5 ≤ n ∧ n ≤ 8 then w8
  else w16

end OpcodeWidth

/-- `T` の値の byte 列。短い opcode の後ろは 0 である。 -/
def opcodeKey (bytes : Bytes) : Bytes :=
  let size := (OpcodeWidth.ofLength bytes.length).size
  bytes.take size ++ zeros (size - bytes.length)

/-- 集合の要素。`page` は native code を置いた page である。 -/
abbrev HandlerSet := List HandlerEntry

namespace HandlerSet

/-- `handlers.find`。 -/
def find (s : HandlerSet) (opcode : Bytes) : Option HandlerEntry :=
  List.find? (fun h => h.handler.opcode = opcode) s

/-- `handlers.insert`。opcode の順を保つ。 -/
def insert (s : HandlerSet) (h : HandlerEntry) : HandlerSet :=
  s.takeWhile (fun x => ofLE x.handler.opcode < ofLE h.handler.opcode)
    ++ h :: s.dropWhile (fun x => ofLE x.handler.opcode < ofLE h.handler.opcode)

theorem mem_insert {s : HandlerSet} {x y : HandlerEntry} :
    y ∈ s.insert x ↔ y = x ∨ y ∈ s := by
  rw [insert, List.mem_append, List.mem_cons]
  conv_rhs => rw [← List.takeWhile_append_dropWhile
    (p := fun z => decide (ofLE z.handler.opcode < ofLE x.handler.opcode)) (l := s)]
  rw [List.mem_append]
  tauto

end HandlerSet

/-- `OpcodeEngine` の `opc1` から `opc16` まで。 -/
abbrev OpcodeEngine := OpcodeWidth → HandlerSet

/-- 集合の一つに handler を加えた engine の handler は、加えたものか前からあるものである。 -/
theorem mem_update_insert {engine : OpcodeEngine} {w w' : OpcodeWidth}
    {x y : HandlerEntry}
    (h : y ∈ Function.update engine w ((engine w).insert x) w') : y = x ∨ y ∈ engine w' := by
  by_cases hw : w' = w
  · subst hw
    rw [Function.update_self] at h
    exact HandlerSet.mem_insert.mp h
  · rw [Function.update_of_ne hw] at h
    exact .inr h

/-- 集合の一つに加えた handler は engine にあり、前からある handler も残る。 -/
theorem mem_update_insert_of {engine : OpcodeEngine} {w w' : OpcodeWidth} {x y : HandlerEntry}
    (h : w' = w ∧ y = x ∨ y ∈ engine w') :
    y ∈ Function.update engine w ((engine w).insert x) w' := by
  by_cases hw : w' = w
  · subst hw
    rw [Function.update_self]
    exact HandlerSet.mem_insert.mpr (h.imp_left And.right)
  · rw [Function.update_of_ne hw]
    exact h.resolve_left fun hx => hw hx.1

namespace Toolchain

variable {μ : Type} (tc : Toolchain μ)

/-- `OpcodeHandlers::prefetch`。 -/
def prefetchOne (arch : ArchType) (decoded : Decoded) (bytes : Bytes)
    (s : Globals μ × OpcodeEngine) : Except Fault (Globals μ × OpcodeEngine) :=
  let opcode := opcodeKey bytes
  let width := OpcodeWidth.ofLength bytes.length
  match (s.2 width).find opcode with
  | some _ => .ok s
  | none => do
    let (g, h) ← tc.init arch opcode decoded s.1
    .ok (g, Function.update s.2 width ((s.2 width).insert h))

/-- decode できなければ、AArch64 では 4 byte、x86 では 1 byte を一つの命令とみなす。 -/
def decodeAt (arch : ArchType) (mem : Nat → UInt8) (ptr : Nat) : Decoded :=
  let insnsize := if arch = .arm64 then 4 else 16
  let decoded := tc.decode arch ((List.range insnsize).map fun i => mem (ptr + i))
  if decoded.inst.bytes.length = 0 then
    let bytes := (List.range (if arch = .arm64 then 4 else 1)).map fun i => mem (ptr + i)
    { decoded with inst := { decoded.inst with bytes := bytes } }
  else decoded

/--
`OpcodeEngine::prefetch` の loop。一回ごとに 1 byte 以上進むので、残りの byte 数の `fuel` で足りる。
-/
def prefetchLoop (arch : ArchType) (mem : Nat → UInt8) (fin : Nat) :
    Nat → Nat → Globals μ × OpcodeEngine → Except Fault (Globals μ × OpcodeEngine)
  | 0, _, s => .ok s
  | fuel + 1, ptr, s =>
    if ptr < fin then do
      let decoded := tc.decodeAt arch mem ptr
      let length := decoded.inst.bytes.length
      let s ← tc.prefetchOne arch decoded ((List.range length).map fun i => mem (ptr + i)) s
      prefetchLoop arch mem fin fuel (ptr + length) s
    else .ok s

/-- `OpcodeEngine::prefetch`。buffer は `[start, fin)` である。 -/
def prefetch (arch : ArchType) (mem : Nat → UInt8) (start fin : Nat)
    (s : Globals μ × OpcodeEngine) : Except Fault (Globals μ × OpcodeEngine) :=
  tc.prefetchLoop arch mem fin (fin - start) start s

/--
`interpret` の返り値。`false` になるのは、引数が多すぎて `interpRemill` が実装を呼べないときである。
-/
def interprets (x : HandlerEntry) : Bool := x.handler.type ≠ .remill || x.handler.args.length ≤ 13

/-- `OpcodeHandler<T>{.opcode = opcode}`。 -/
def blank (opcode : Bytes) : HandlerEntry := ⟨⟨opcode, 0, .remill, 0, [], 0⟩, none, none, []⟩

/--
`OpcodeHandlers::emulate`。無い opcode の handler は、`readonly` でなければ opcode だけから decode して
作る。decode できなければ、`init` の済んでいない handler が集合に残る。`interpret` そのものは、
engine も大域変数も変えない。
-/
def emulate (readonly : Bool) (arch : ArchType) (bytes : Bytes) (s : Globals μ × OpcodeEngine) :
    Except Fault ((Globals μ × OpcodeEngine) × Bool) :=
  let opcode := opcodeKey bytes
  let width := OpcodeWidth.ofLength bytes.length
  match (s.2 width).find opcode with
  | some x => .ok (s, interprets x)
  | none =>
    if readonly then .ok (s, false)
    else
      let decoded := tc.decode arch opcode
      if decoded.inst.bytes.length = 0 then
        .ok ((s.1, Function.update s.2 width ((s.2 width).insert (blank opcode))), false)
      else do
        let (g, x) ← tc.init arch opcode decoded s.1
        .ok ((g, Function.update s.2 width ((s.2 width).insert x)), interprets x)

/-- `OpcodeEngine::emulate(span)` が取り出す opcode。取り出せなければ `false` を返して終わる。 -/
def spanOpcode (arch : ArchType) (bytes : Bytes) : Option Bytes :=
  if arch = .arm64 then if bytes.length < 4 then none else some (bytes.take 4)
  else if 16 ≤ bytes.length then
    let opsz := (tc.disassemble arch bytes).1
    if opsz = 0 then none else some (bytes.take opsz)
  else some bytes

/-! ## decode した命令の列

命令の列を先に取り出すと、`prefetch` はこの列を左から畳み込むものになる。
-/

/-- `prefetch` の loop が decode する命令と、その byte 列。 -/
def visits (arch : ArchType) (mem : Nat → UInt8) (fin : Nat) :
    Nat → Nat → List (Decoded × Bytes)
  | 0, _ => []
  | fuel + 1, ptr =>
    if ptr < fin then
      let decoded := tc.decodeAt arch mem ptr
      let length := decoded.inst.bytes.length
      (decoded, (List.range length).map fun i => mem (ptr + i))
        :: visits arch mem fin fuel (ptr + length)
    else []

/-- 列を左から engine に読ませる。 -/
def prefetchAll (arch : ArchType) :
    List (Decoded × Bytes) → Globals μ × OpcodeEngine → Except Fault (Globals μ × OpcodeEngine)
  | [], s => .ok s
  | v :: rest, s => tc.prefetchOne arch v.1 v.2 s >>= prefetchAll arch rest

variable {tc} {arch : ArchType}

theorem prefetchLoop_eq (mem : Nat → UInt8) (fin : Nat) : ∀ (fuel ptr : Nat)
    (s : Globals μ × OpcodeEngine),
    tc.prefetchLoop arch mem fin fuel ptr s
      = tc.prefetchAll arch (tc.visits arch mem fin fuel ptr) s
  | 0, ptr, s => rfl
  | fuel + 1, ptr, s => by
    rw [prefetchLoop, visits]
    split
    · rw [prefetchAll]
      refine congrArg (_ >>= ·) (funext fun s' => ?_)
      exact prefetchLoop_eq mem fin fuel _ s'
    · rfl

theorem prefetchAll_append (vs ws : List (Decoded × Bytes)) : ∀ s : Globals μ × OpcodeEngine,
    tc.prefetchAll arch (vs ++ ws) s = tc.prefetchAll arch vs s >>= tc.prefetchAll arch ws := by
  induction vs with
  | nil => intro s; rfl
  | cons v vs ih =>
    intro s
    rw [List.cons_append, prefetchAll, prefetchAll, bind_assoc]
    exact congrArg (_ >>= ·) (funext ih)

/-- Remill の実装を使わず、`SP` も読まない命令の列なら、`prefetch` は失敗しない。 -/
theorem exists_prefetchAll (hsp : ∀ inst, tc.hasSP inst = false) (vs : List (Decoded × Bytes)) :
    (∀ v ∈ vs, v.1.valid = false) →
    ∀ s : Globals μ × OpcodeEngine, ∃ s', tc.prefetchAll arch vs s = .ok s' := by
  induction vs with
  | nil => intro _ s; exact ⟨s, rfl⟩
  | cons v vs ih =>
    intro hvs s
    have hone : ∃ s', tc.prefetchOne arch v.1 v.2 s = .ok s' := by
      cases hfind : (s.2 (OpcodeWidth.ofLength v.2.length)).find (opcodeKey v.2) with
      | some x => exact ⟨s, by simp only [prefetchOne, hfind]⟩
      | none =>
        obtain ⟨⟨g, x⟩, hr⟩ := exists_init hsp (hvs v List.mem_cons_self) arch (opcodeKey v.2) s.1
        simp only [prefetchOne, hfind, hr]
        exact ⟨_, rfl⟩
    obtain ⟨s', hs'⟩ := hone
    obtain ⟨s'', hs''⟩ := ih (fun v' hv' => hvs v' (List.mem_cons_of_mem v hv')) s'
    refine ⟨s'', ?_⟩
    rw [prefetchAll, hs']
    exact hs''

end Toolchain

end AetherVM
