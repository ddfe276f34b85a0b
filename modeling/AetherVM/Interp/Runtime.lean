import AetherVM.Infra.Search
import AetherVM.MetaData.Layout
import Mathlib.Data.List.Sort

/-!
# 読み込んだ module（`src/InterpMetaData.h`、`src/InterpMetaData.cpp`）

chained interpreter は、実行中の address から module を探し、module の命令の表から entry を探す。
どちらも二分探索である。命令の表の外を読んだときに何が見えるかは `beyond` で与え、
どの番号を調べたかは `findReads` で言う。
-/

namespace AetherVM

open Infra IMetaData

/--
`RuntimeMetaData` のうち、探索と実行が読むもの。`metadata` は map した file の address、`insns` は
命令の表、`beyond` は表の終わりより先の memory を命令の entry として見たものである。
-/
structure RuntimeMetaData where
  path : String
  metadata : Nat
  header : Header
  insns : List InsnMeta
  beyond : Nat → InsnMeta
  nexticache : List Nat
  rtbase : UInt64
  rtend : UInt64

namespace RuntimeMetaData

variable (rt : RuntimeMetaData)

def contain (addr : UInt64) : Bool := rt.rtbase ≤ addr && addr < rt.rtend

/-- `insns[i]`。表の外なら、そこにある memory を読む。 -/
def insn (i : Nat) : InsnMeta := rt.insns[i]?.getD (rt.beyond i)

/-- 探す `rva`。差は 32 bit に切り詰められる。 -/
def key (addr : UInt64) : UInt32 := (addr - rt.rtbase).toUInt32

/-- `insns[i] < key`。 -/
def insnLt (addr : UInt64) (i : Nat) : Bool := (rt.insn i).rva < rt.key addr

/-- `RuntimeMetaData::find`。命令の番号を返す。`none` は `nullptr` である。 -/
def find (addr : UInt64) : Option Nat :=
  let found := binarySearch (rt.insnLt addr) rt.insns.length
  if (rt.insn found).rva = rt.key addr then some found else none

/-- `find` が調べる命令の番号。二分探索の後、見つけた所をもう一度見る。 -/
def findReads (addr : UInt64) : List Nat :=
  searchReads (rt.insnLt addr) rt.insns.length ++ [binarySearch (rt.insnLt addr) rt.insns.length]

/-- 命令の表は `rva` の狭義の昇順である。 -/
def Increasing : Prop := rt.insns.Pairwise fun a b => a.rva < b.rva

end RuntimeMetaData

namespace InterpMetaData

/-- `runtimes[i].rtbase < addr`。 -/
def rtLt (runtimes : List RuntimeMetaData) (addr : UInt64) (i : Nat) : Bool :=
  match runtimes[i]? with
  | some rt => rt.rtbase < addr
  | none => false

/--
`InterpMetaData::find` のうち module を探す部分。返すのは `runtimes` の番号である。
外側の `none` は未定義の動作（空の `runtimes` の参照）、内側の `none` は `nullptr` である。
-/
def find (runtimes : List RuntimeMetaData) (addr : UInt64) : Option (Option Nat) :=
  let found := binarySearch (rtLt runtimes addr) runtimes.length
  let found := if found = runtimes.length then runtimes.length - 1 else found
  match runtimes[found]? with
  | none => none
  | some rt => if rt.rtend < addr then some none else some (some found)

/-- `operator<=>`。base の address だけを比べる。 -/
def baseLe (a b : RuntimeMetaData) : Prop := a.rtbase ≤ b.rtbase

instance : DecidableRel baseLe := fun a b => inferInstanceAs (Decidable (a.rtbase ≤ b.rtbase))

instance : Std.Total baseLe := ⟨fun a b => UInt64.le_total a.rtbase b.rtbase⟩

instance : IsTrans RuntimeMetaData baseLe := ⟨fun _ _ _ h1 h2 => UInt64.le_trans h1 h2⟩

/-- `std::sort` の結果。base の等しいもの同士の順は決まっていない。 -/
structure Sorts (xs ys : List RuntimeMetaData) : Prop where
  perm : ys.Perm xs
  sorted : ys.Pairwise baseLe

/-- `InterpMetaData::add`。`.aevm` file が無ければ何も足さない。 -/
def add (runtimes : List RuntimeMetaData) (aevm : String) (loaded : Option RuntimeMetaData) :
    String × List RuntimeMetaData :=
  match loaded with
  | none => (s!"{aevm} does not exist", runtimes)
  | some rt => ("", (runtimes ++ [rt]).insertionSort baseLe)

/-- `mods` を順に足した後の `runtimes`。 -/
inductive Loaded : List RuntimeMetaData → List RuntimeMetaData → Prop
  | nil : Loaded [] []
  | add {mods runtimes runtimes' : List RuntimeMetaData} {rt : RuntimeMetaData}
      (h : Loaded mods runtimes) (hs : Sorts (runtimes ++ [rt]) runtimes') :
      Loaded (mods ++ [rt]) runtimes'

theorem loaded_add {mods runtimes : List RuntimeMetaData} (h : Loaded mods runtimes)
    (aevm : String) (rt : RuntimeMetaData) :
    Loaded (mods ++ [rt]) (add runtimes aevm (some rt)).2 :=
  .add h ⟨List.perm_insertionSort _ _, List.pairwise_insertionSort _ _⟩

theorem Loaded.sorts {mods runtimes : List RuntimeMetaData} (h : Loaded mods runtimes) :
    Sorts mods runtimes := by
  induction h with
  | nil => exact ⟨List.Perm.refl _, List.Pairwise.nil⟩
  | @add mods runtimes runtimes' rt _ hs ih =>
    exact ⟨hs.perm.trans (ih.perm.append_right _), hs.sorted⟩

end InterpMetaData

end AetherVM
