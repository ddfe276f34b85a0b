import AetherVM.Infra.Run
import AetherVM.Interp.Lookup

/-!
# chained interpreter の次の命令（`src/InterpMetaData.cpp` の `vmEntry`）

`vmEntry` は handler を一つ実行するたびに、handler の残した pc から次の命令を決める。
同じ module の中なら、次の entry、cache した entry、二分探索の順に試し、
別の module なら `InterpMetaData::find` で探す。どこでもなければ host の関数を呼ぶ。

handler と host の関数は pc に何を残してもよい。host から戻った後は、状態を変えずに同じ loop を
もう一度回る。`assert` は release build では消えるので、その先の `nullptr` の参照を `fault` とする。
-/

namespace AetherVM

open Infra IMetaData

namespace InterpMetaData

/--
`vmEntry` の局所変数と `runtimes`。`rt` は module の番号、`insn` は命令の表の番号である。
`metadata`・`mdinsns`・`operands`・`expressions` は address である。
-/
structure VmState where
  runtimes : List RuntimeMetaData
  rt : Nat
  insn : Nat
  metadata : Nat
  mdinsns : Nat
  operands : Nat
  expressions : Nat

/-- 次の命令の決め方の結果。 -/
inductive Outcome where
  | next (st : VmState)
  | done
  | host
  | fault

/-- `runtimes.begin()->rtbase`。 -/
def rtStart (runtimes : List RuntimeMetaData) : UInt64 :=
  match runtimes.head? with
  | some rt => rt.rtbase
  | none => 0

/-- `runtimes.rbegin()->rtend`。 -/
def rtEnd (runtimes : List RuntimeMetaData) : UInt64 :=
  match runtimes.getLast? with
  | some rt => rt.rtend
  | none => 0

/-- module の section を指す局所変数を揃える。 -/
def VmState.enter (st : VmState) (j : Nat) (rt : RuntimeMetaData) (insn : Nat) : VmState where
  runtimes := st.runtimes
  rt := j
  insn := insn
  metadata := rt.metadata
  mdinsns := rt.metadata + rt.header.insns
  operands := rt.metadata + rt.header.operands
  expressions := rt.metadata + rt.header.expressions

/-- `nexticache` を見つけた命令自身の番号で書き換える。 -/
def VmState.cache (st : VmState) (rt : RuntimeMetaData) (found : Nat) : VmState :=
  { st with
    insn := found
    runtimes := st.runtimes.set st.rt { rt with nexticache := rt.nexticache.set found found } }

/--
同じ module の中での次の命令。調べた命令の番号と結果を返す。
-/
def dispatchSame (st : VmState) (rt : RuntimeMetaData) (pc : UInt64) : List Nat × Outcome :=
  if rt.rtbase + (rt.insn (st.insn + 1)).rva.toUInt64 = pc then
    ([st.insn + 1], .next { st with insn := st.insn + 1 })
  else
    match rt.nexticache[st.insn]? with
    | none => ([st.insn + 1], .fault)
    | some cached =>
      if rt.rtbase + (rt.insn cached).rva.toUInt64 = pc then
        ([st.insn + 1, cached], .next { st with insn := cached })
      else
        match rt.find pc with
        | none => ((st.insn + 1) :: cached :: rt.findReads pc, .fault)
        | some found => ((st.insn + 1) :: cached :: rt.findReads pc, .next (st.cache rt found))

/-- 別の module での次の命令。module の番号と、そこで調べた命令の番号を返す。 -/
def dispatchOther (st : VmState) (pc : UInt64) : List (Nat × Nat) × Outcome :=
  match find st.runtimes pc with
  | some (some j) =>
    match st.runtimes[j]? with
    | none => ([], .fault)
    | some rt =>
      match rt.find pc with
      | none => ((rt.findReads pc).map (j, ·), .fault)
      | some found => ((rt.findReads pc).map (j, ·), .next (st.enter j rt found))
  | _ => ([], .fault)

/--
`vmEntry` の内側の loop の一回。`this` は番兵の address である。調べた命令（module の番号と
表の番号）の列と、結果を返す。
-/
def dispatch (this : UInt64) (st : VmState) (pc : UInt64) : List (Nat × Nat) × Outcome :=
  match st.runtimes[st.rt]? with
  | none => ([], .fault)
  | some rt =>
    if rt.contain pc then
      let r := dispatchSame st rt pc
      (r.1.map (st.rt, ·), r.2)
    else if rtStart st.runtimes ≤ pc ∧ pc < rtEnd st.runtimes then dispatchOther st pc
    else if pc = this then ([], .done)
    else ([], .host)

/-! ## 正しさ -/

/-- `rt` の表の `k` 番目が pc の命令であること。 -/
def EntryAt (rt : RuntimeMetaData) (pc : UInt64) (k : Nat) : Prop :=
  ∃ insn, rt.insns[k]? = some insn ∧ rt.rtbase.toNat + insn.rva.toNat = pc.toNat

/-- 局所変数が、module `rt` の section を指していること。 -/
structure VmState.InSections (st : VmState) (rt : RuntimeMetaData) : Prop where
  metadata : st.metadata = rt.metadata
  mdinsns : st.mdinsns = rt.metadata + rt.header.insns
  operands : st.operands = rt.metadata + rt.header.operands
  expressions : st.expressions = rt.metadata + rt.header.expressions

/--
次の命令の決め方が正しいこと。pc の命令を持つ module があれば、その module のその命令へ進む。番兵なら
終わる。どちらでもなければ、pc が module の範囲の中でも外でも host を呼ぶ。いずれでも、命令の表の外は調べない。
-/
structure Exact (this : UInt64) (st : VmState) (pc : UInt64) : Prop where
  entry : ∀ j rt k, st.runtimes[j]? = some rt → rt.contain pc = true → EntryAt rt pc k →
    ∃ st', (dispatch this st pc).2 = .next st' ∧ st'.rt = j ∧ st'.insn = k ∧ st'.InSections rt
  sentinel : pc = this → (dispatch this st pc).2 = .done
  host : (∀ rt ∈ st.runtimes, rt.contain pc = true → ∀ k, ¬ EntryAt rt pc k) → pc ≠ this →
    (dispatch this st pc).2 = .host
  reads : ∀ p ∈ (dispatch this st pc).1, ∃ rt, st.runtimes[p.1]? = some rt ∧
    p.2 < rt.insns.length

/--
次の命令を正しく決められる状態と pc。番兵とどの module にも無い pc は、最初の base から最後の end までの
外にある。同じ module に留まるなら、いまの命令は表の最後ではない。別の module に移るなら、module の
探索が正しく答える。pc を含む module の表には、pc の命令がある。
-/
structure Safe (this : UInt64) (st : VmState) (pc : UInt64) : Prop where
  sentinel : pc = this → (∀ rt, st.runtimes[st.rt]? = some rt → rt.contain pc = false) ∧
    ¬ (rtStart st.runtimes ≤ pc ∧ pc < rtEnd st.runtimes)
  outside : (∀ rt ∈ st.runtimes, rt.contain pc = false) →
    ¬ (rtStart st.runtimes ≤ pc ∧ pc < rtEnd st.runtimes)
  same : ∀ rt, st.runtimes[st.rt]? = some rt → rt.contain pc = true →
    st.insn + 1 < rt.insns.length
  other : ∀ j rt, st.runtimes[j]? = some rt → j ≠ st.rt → rt.contain pc = true →
    pc < rtEnd st.runtimes ∧ Findable st.runtimes pc
  entry : ∀ rt ∈ st.runtimes, rt.contain pc = true → ∃ k, EntryAt rt pc k

/-- `RuntimeMetaData` の constructor が作る `nexticache`。 -/
def freshCache (n : Nat) : List Nat := (List.range n).map (· + 1)

/-- `vmEntry` に入った直後の状態。 -/
structure Entered (mods : List RuntimeMetaData) (st : VmState) : Prop where
  loaded : Loaded mods st.runtimes
  cache : ∀ rt ∈ mods, rt.nexticache = freshCache rt.insns.length
  current : ∃ rt, st.runtimes[st.rt]? = some rt ∧ st.insn < rt.insns.length ∧ st.InSections rt

/-- handler か host が pc を残すたびの一歩。host を呼ぶ間、状態は変わらない。 -/
def Step (this : UInt64) (st : VmState) (pc : UInt64) (st' : VmState) : Prop :=
  (dispatch this st pc).2 = .next st' ∨ (dispatch this st pc).2 = .host ∧ st' = st

end InterpMetaData

end AetherVM
