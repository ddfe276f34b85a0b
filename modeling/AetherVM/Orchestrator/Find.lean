import AetherVM.Orchestrator.Encode

/-!
# slot の検索（`src/Orchestrator.cpp` の `findBlocks`・`findCache`・`find`）

address から実行を始める slot を探す。block の先頭なら block の最初の slot を返し、block の途中なら
slot の `oplen` を足しながら address を探す。結果は thread ごとの cache に入る。

slot は、どの binary の何番目かで表す。`insn - 1` は列の前に出ることがあるので、番号は整数である。
-/

namespace AetherVM.Orchestrator

open Infra

/-- slot を指す pointer。 -/
structure Slot where
  bin : Nat
  index : Int
deriving DecidableEq, Repr

/-- 検索の結果。`undefined` は空の block の先頭を参照する未定義の動作である。 -/
inductive Found (α : Type) where
  | undefined
  | null
  | slot (s : α)
deriving DecidableEq, Repr

/-- `Orchestrator::Cache`。`L1` の各 entry は address と slot で、slot の無い entry は空である。 -/
structure Cache where
  current : Option Nat
  L1 : Nat → Nat × Option Slot

/-- `cache_index`。 -/
def cacheIndex (vmaddr : Nat) : Nat := vmaddr % 256

def Cache.store (c : Cache) (vmaddr : Nat) (s : Slot) : Cache :=
  { c with L1 := fun i => if i = cacheIndex vmaddr then (vmaddr, some s) else c.L1 i }

/-- `clear` の後の cache。 -/
def Cache.empty : Cache := ⟨none, fun _ => (0, none)⟩

def vmaddrLt (bb : BasicBlocks) (vmaddr i : Nat) : Bool :=
  match bb.vmaddrs[i]? with
  | some addr => addr < vmaddr
  | none => false

/--
block の途中の検索。`addr` はここまでの slot の長さを足した address、`first` は block の最初の slot の
番号である。見つけた slot の一つ前が event でなければ、見つけた slot に戻す。
-/
def walkBlock (rthandlers : List Instruction) (first vmaddr : Nat) :
    List Nat → Nat → Option Int
  | [], _ => none
  | insn :: rest, addr =>
    let oplen := (rthandlers[insn]?.map Instruction.oplen).getD 0
    if addAddr addr oplen = vmaddr then
      if first < insn ∧ (rthandlers[insn - 1]?.map Instruction.event).getD false = false then
        some insn
      else some (insn - 1)
    else walkBlock rthandlers first vmaddr rest (addAddr addr oplen)

/-- `Orchestrator::findBlocks`。cache への書き込みは `find` で行う。 -/
def findBlocks (bb : BasicBlocks) (vmaddr : Nat) : Found Int :=
  if vmaddr < bb.vmaddrs.headD 0 ∨ bb.maxaddr ≤ vmaddr then .null
  else
    let found := binarySearch (vmaddrLt bb vmaddr) bb.vmaddrs.length
    if bb.vmaddrs[found]? = some vmaddr then
      match (bb.bbhandlers[found]?.getD []).head? with
      | some insn => .slot insn
      | none => .undefined
    else
      let index := if found ≠ 0 then found - 1 else found
      let insns := bb.bbhandlers[index]?.getD []
      match walkBlock bb.rthandlers (insns.headD 0) vmaddr insns (bb.vmaddrs[index]?.getD 0) with
      | some insn => .slot insn
      | none => .null

/-- `basicblocks` を順に探す loop。`i` は残りの先頭の番号である。 -/
def findAll (c : Cache) (vmaddr : Nat) : List BasicBlocks → Nat → Found Slot × Cache
  | [], _ => (.null, c)
  | bb :: rest, i =>
    if c.current = some i then findAll c vmaddr rest (i + 1)
    else
      match findBlocks bb vmaddr with
      | .undefined => (.undefined, c)
      | .slot insn => (.slot ⟨i, insn⟩, { c.store vmaddr ⟨i, insn⟩ with current := some i })
      | .null => findAll c vmaddr rest (i + 1)

/-- `Orchestrator::findCache`。 -/
def findCache (blocks : List BasicBlocks) (c : Cache) (cur vmaddr : Nat) : Found Slot × Cache :=
  match c.L1 (cacheIndex vmaddr) with
  | (addr, some s) =>
    if addr = vmaddr then (.slot s, c)
    else lookup
  | (_, none) => lookup
where
  /-- `findBlocks(*cache.current, vmaddr)`。 -/
  lookup : Found Slot × Cache :=
    match blocks[cur]? with
    | none => (.undefined, c)
    | some bb =>
      match findBlocks bb vmaddr with
      | .undefined => (.undefined, c)
      | .null => (.null, c)
      | .slot insn => (.slot ⟨cur, insn⟩, c.store vmaddr ⟨cur, insn⟩)

/-- `Orchestrator::find`。`null` は `&terminate` を返すことを表す。 -/
def find (blocks : List BasicBlocks) (c : Cache) (vmaddr : Nat) : Found Slot × Cache :=
  match c.current with
  | none => findAll c vmaddr blocks 0
  | some cur =>
    match findCache blocks c cur vmaddr with
    | (.null, c) => findAll c vmaddr blocks 0
    | r => r

end AetherVM.Orchestrator
