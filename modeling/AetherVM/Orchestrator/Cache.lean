import AetherVM.Infra.Run
import AetherVM.Orchestrator.Find

/-!
# cache は検索の答えを変えない

`find` は、`L1` と `current` の binary を先に調べる。`L1` の場所は address の下位 8 bit で決まるので、
異なる binary の address が同じ場所を上書きし合い、binary が増えた後も古い答えは残る。

範囲の重ならない binary だけを `encode` した thread では、どの順に `encode`・`find`・`clear` を呼んでも、
`find` の答えは、cache を使わずにすべての binary を順に調べた答え（`search`）と同じである。
-/

namespace AetherVM.Orchestrator

open Infra

/-! ## 操作と run -/

/-- cache を使わない検索。`i` は残りの先頭の番号である。 -/
def search (vmaddr : Nat) : List BasicBlocks → Nat → Found Slot
  | [], _ => .null
  | bb :: rest, i =>
    match findBlocks bb vmaddr with
    | .undefined => .undefined
    | .slot insn => .slot ⟨i, insn⟩
    | .null => search vmaddr rest (i + 1)

/-- `basicblocks` と、一つの thread の cache。 -/
structure State where
  basicblocks : List BasicBlocks
  cache : Cache

/-- 初めの状態。 -/
def State.init : State := ⟨[], .empty⟩

/-- `Orchestrator` の呼び出し。`lifted` は、そのときの lift 済みの命令である。 -/
inductive Op where
  | encode (cfg : EventConfig) (lifted : Bytes → Option UInt64) (bin : Binary) (addend : Nat)
  | find (vmaddr : Nat)
  | clear

/-- 呼び出し一つ。`none` は未定義の動作である。関数の無い binary の `encode` も未定義である。 -/
def State.step (s : State) : Op → Option State
  | .encode cfg lifted bin addend =>
    if bin.functions = [] then none
    else some ⟨s.basicblocks ++ [Orchestrator.encode cfg lifted bin addend],
      { s.cache with current := some s.basicblocks.length }⟩
  | .find vmaddr =>
    match Orchestrator.find s.basicblocks s.cache vmaddr with
    | (.undefined, _) => none
    | (_, cache) => some { s with cache := cache }
  | .clear => some .init

/-- `findBlocks` が調べる範囲 `[最初の block の address, maxaddr)`。 -/
def BasicBlocks.Covers (bb : BasicBlocks) (a : Nat) : Prop :=
  bb.vmaddrs.headD 0 ≤ a ∧ a < bb.maxaddr

/-- 範囲が重ならない。 -/
def BasicBlocks.Apart (bb bb' : BasicBlocks) : Prop := ∀ a, ¬ (bb.Covers a ∧ bb'.Covers a)

/-- `encode` する binary の範囲は、いまある binary の範囲と重ならない。 -/
def State.Fits (s : State) : Op → Prop
  | .encode cfg lifted bin addend =>
    ∀ bb ∈ s.basicblocks, bb.Apart (Orchestrator.encode cfg lifted bin addend)
  | .find _ | .clear => True

/-! ## 検索の範囲 -/

variable {bb : BasicBlocks} {blocks : List BasicBlocks} {a v i : Nat} {c : Cache}

/-- binary の番号を付ける。 -/
def Found.inBin (i : Nat) : Found Int → Found Slot
  | .undefined => .undefined
  | .null => .null
  | .slot insn => .slot ⟨i, insn⟩

theorem Found.inBin_eq_null {r : Found Int} : r.inBin i = .null ↔ r = .null := by
  cases r <;> simp [Found.inBin]

/-- 範囲の外では見つからない。 -/
theorem covers_of_findBlocks (h : findBlocks bb a ≠ .null) : bb.Covers a := by
  by_contra hc
  refine h (if_pos ?_)
  unfold BasicBlocks.Covers at hc
  omega

/-- 範囲が重ならなければ、見つかる binary は一つで、順に調べてもそれに着く。 -/
theorem search_eq (hapart : blocks.Pairwise BasicBlocks.Apart) {j : Nat}
    (hj : blocks[j]? = some bb) (hne : findBlocks bb a ≠ .null) :
    search a blocks i = (findBlocks bb a).inBin (i + j) := by
  induction blocks generalizing i j with
  | nil => cases hj
  | cons bb' rest ih =>
    rw [List.pairwise_cons] at hapart
    cases j with
    | zero =>
      rw [List.getElem?_cons_zero, Option.some.injEq] at hj
      subst hj
      rw [search]
      cases hf : findBlocks bb' a with
      | undefined => rfl
      | slot insn => rfl
      | null => exact absurd hf hne
    | succ j =>
      rw [List.getElem?_cons_succ] at hj
      have hnull : findBlocks bb' a = .null := by
        by_contra hc
        exact hapart.1 bb (List.mem_of_getElem? hj) a
          ⟨covers_of_findBlocks hc, covers_of_findBlocks hne⟩
      rw [search, hnull]
      have hrec := ih (i := i + 1) hapart.2 hj
      rwa [Nat.add_right_comm, Nat.add_assoc] at hrec

/-! ## 不変条件 -/

/-- `L1` に残る答えは、どれもいまの binary の検索の答えである。 -/
def Remembers (blocks : List BasicBlocks) (c : Cache) : Prop :=
  ∀ i v p, c.L1 i = (v, some p) →
    ∃ bb, blocks[p.bin]? = some bb ∧ findBlocks bb v = .slot p.index

theorem Remembers.store (h : Remembers blocks c) {n : Int} (hi : blocks[i]? = some bb)
    (hn : findBlocks bb v = .slot n) : Remembers blocks (c.store v ⟨i, n⟩) := by
  intro k w p hk
  unfold Cache.store at hk
  dsimp only at hk
  split at hk
  · cases hk
    exact ⟨bb, hi, hn⟩
  · exact h k w p hk

/-- binary が増えても、前の答えは残る。 -/
theorem Remembers.append (h : Remembers blocks c) (bb : BasicBlocks) :
    Remembers (blocks ++ [bb]) c := by
  intro k w p hk
  obtain ⟨bb', hbb', hf⟩ := h k w p hk
  refine ⟨bb', ?_, hf⟩
  rwa [List.getElem?_append_left (List.getElem?_eq_some_iff.mp hbb').1]

/-- 範囲は重ならず、`current` は binary の一つで、`L1` の答えは正しい。 -/
structure State.Inv (s : State) : Prop where
  apart : s.basicblocks.Pairwise BasicBlocks.Apart
  current : ∀ i, s.cache.current = some i → i < s.basicblocks.length
  remembers : Remembers s.basicblocks s.cache

/-! ## 一回の `find` -/

/--
`find` の後半の loop。飛ばす `current` の binary では見つからないなら、`search` と同じ答えになる。
覚えるのは、見つけた答えとその binary だけである。
-/
theorem findAll_spec {rest : List BasicBlocks} (h : Remembers blocks c)
    (hcur : ∀ i, c.current = some i → i < blocks.length)
    (hrest : ∀ j, rest[j]? = blocks[i + j]?)
    (hskip : ∀ j bb, c.current = some j → blocks[j]? = some bb → findBlocks bb v = .null) :
    (findAll c v rest i).1 = search v rest i ∧ Remembers blocks (findAll c v rest i).2 ∧
      ∀ j, (findAll c v rest i).2.current = some j → j < blocks.length := by
  induction rest generalizing i with
  | nil => exact ⟨rfl, h, hcur⟩
  | cons bb rest ih =>
    have hi : blocks[i]? = some bb := (hrest 0).symm
    have hnext : ∀ j, rest[j]? = blocks[i + 1 + j]? := by
      intro j
      rw [Nat.add_assoc, Nat.add_comm 1 j, ← hrest (j + 1), List.getElem?_cons_succ]
    unfold findAll search
    split
    · next hc =>
      rw [hskip i bb hc hi]
      exact ih hnext
    · cases hf : findBlocks bb v with
      | undefined => exact ⟨rfl, h, hcur⟩
      | null => exact ih hnext
      | slot n =>
        refine ⟨rfl, h.store hi hf, fun j hj => ?_⟩
        cases hj
        exact (List.getElem?_eq_some_iff.mp hi).1

/-- `findCache` の後半。`current` の binary を調べる。 -/
theorem findCache_lookup_spec (h : Remembers blocks c) (hi : blocks[i]? = some bb) :
    (findCache.lookup blocks c i v).1 = (findBlocks bb v).inBin i ∧
      Remembers blocks (findCache.lookup blocks c i v).2 ∧
      (findCache.lookup blocks c i v).2.current = c.current := by
  unfold findCache.lookup
  rw [hi]
  dsimp only
  cases hf : findBlocks bb v with
  | undefined => exact ⟨rfl, h, rfl⟩
  | null => exact ⟨rfl, h, rfl⟩
  | slot n => exact ⟨rfl, h.store hi hf, rfl⟩

/-- `findCache` の答えは、一つの binary の答えである。`null` なら、それは `current` の binary である。 -/
theorem findCache_spec (h : Remembers blocks c) (hi : blocks[i]? = some bb) :
    (∃ j bb', blocks[j]? = some bb' ∧ (findCache blocks c i v).1 = (findBlocks bb' v).inBin j ∧
        (findBlocks bb' v = .null → j = i)) ∧
      Remembers blocks (findCache blocks c i v).2 ∧
      (findCache blocks c i v).2.current = c.current := by
  obtain ⟨hlookup, hrem, hcur⟩ := findCache_lookup_spec (v := v) h hi
  unfold findCache
  cases hl : c.L1 (cacheIndex v) with
  | mk w o =>
    cases o with
    | none => exact ⟨⟨i, bb, hi, hlookup, fun _ => rfl⟩, hrem, hcur⟩
    | some p =>
      dsimp only
      split
      · next hw =>
        subst hw
        obtain ⟨bb', hbb', hf⟩ := h _ _ _ hl
        refine ⟨⟨p.bin, bb', hbb', ?_, fun hc => ?_⟩, h, rfl⟩
        · rw [hf]
          rfl
        · rw [hf] at hc
          cases hc
      · exact ⟨⟨i, bb, hi, hlookup, fun _ => rfl⟩, hrem, hcur⟩

/-- `current` があれば、`findCache` の答えが `null` のときだけ、残りの binary を調べる。 -/
theorem find_of_current (hc : c.current = some i) : find blocks c v =
    if (findCache blocks c i v).1 = .null then findAll (findCache blocks c i v).2 v blocks 0
    else findCache blocks c i v := by
  unfold find
  rw [hc]
  dsimp only
  split
  · next heq => rw [heq, if_pos rfl]
  · next hne =>
    rw [if_neg fun h => hne (findCache blocks c i v).2 (Prod.ext h rfl)]

/-- 不変条件を満たす状態の `find` は、`search` の答えを返し、不変条件を保つ。 -/
theorem State.Inv.find {s : State} (h : s.Inv) (v : Nat) :
    (Orchestrator.find s.basicblocks s.cache v).1 = search v s.basicblocks 0 ∧
      State.Inv { s with cache := (Orchestrator.find s.basicblocks s.cache v).2 } := by
  cases hc : s.cache.current with
  | none =>
    obtain ⟨hans, hrem, hcur⟩ := findAll_spec (v := v) (i := 0) h.remembers h.current
      (fun j => by rw [Nat.zero_add]) (fun j bb hj => by rw [hc] at hj; cases hj)
    unfold Orchestrator.find
    rw [hc]
    exact ⟨hans, h.apart, hcur, hrem⟩
  | some i =>
    obtain ⟨bb, hi⟩ : ∃ bb, s.basicblocks[i]? = some bb :=
      ⟨_, List.getElem?_eq_getElem (h.current i hc)⟩
    obtain ⟨⟨j, bb', hj, hans, hnull⟩, hrem, hcur⟩ := findCache_spec (v := v) h.remembers hi
    have hlt : ∀ k, (findCache s.basicblocks s.cache i v).2.current = some k →
        k < s.basicblocks.length := fun k hk => h.current k (hcur ▸ hk)
    rw [find_of_current hc]
    by_cases hf : findBlocks bb' v = .null
    · -- `current` の binary に無ければ、それを飛ばして残りを調べる
      rw [hnull hf, hi, Option.some.injEq] at hj
      subst hj
      obtain ⟨hall, hrem', hcur'⟩ := findAll_spec (v := v) (i := 0) hrem hlt
        (fun k => by rw [Nat.zero_add]) (fun k bb'' hk hbb => by
          rw [hcur, hc, Option.some.injEq] at hk
          rw [← hk, hi, Option.some.injEq] at hbb
          rw [← hbb, hf])
      rw [if_pos (by rw [hans, hf]; rfl)]
      exact ⟨hall, h.apart, hcur', hrem'⟩
    · -- ほかの答えは、見つかるただ一つの binary の答えである
      rw [if_neg (by rwa [hans, Found.inBin_eq_null]), hans, search_eq h.apart hj hf, Nat.zero_add]
      exact ⟨rfl, h.apart, hlt, hrem⟩

/-! ## run -/

theorem State.inv_init : State.init.Inv :=
  ⟨.nil, fun _ hi => (by cases hi), fun _ _ _ hi => by cases hi⟩

theorem State.Inv.step {s s' : State} {op : Op} (h : s.Inv) (hfits : s.Fits op)
    (hs : s.step op = some s') : s'.Inv := by
  cases op with
  | encode cfg lifted bin addend =>
    simp only [State.step, Option.ite_none_left_eq_some, Option.some.injEq] at hs
    obtain ⟨-, rfl⟩ := hs
    refine ⟨?_, fun i hi => ?_, h.remembers.append _⟩
    · rw [List.pairwise_append]
      refine ⟨h.apart, List.pairwise_singleton _ _, fun bb hbb bb' hbb' => ?_⟩
      rw [List.mem_singleton.mp hbb']
      exact hfits bb hbb
    · cases hi
      rw [List.length_append, List.length_singleton]
      exact Nat.lt_succ_self _
  | find v =>
    have hinv := (h.find v).2
    simp only [State.step] at hs
    split at hs
    · cases hs
    · next heq =>
      cases hs
      rwa [heq] at hinv
  | clear =>
    cases hs
    exact State.inv_init

/--
cache の透過性。

範囲の重ならない binary の `encode` と、任意の address の `find` と、`clear` をどの順に何回呼んだ後でも、
`find` は、そのときのすべての binary を cache を使わずに順に調べたのと同じ答えを返す。
-/
theorem find_eq_search {s : State} (hrun : Run (fun s op s' => s.step op = some s') State.Fits
    State.init s) (vmaddr : Nat) :
    (find s.basicblocks s.cache vmaddr).1 = search vmaddr s.basicblocks 0 := by
  have hinv : s.Inv :=
    hrun.invariant State.inv_init fun s op s' h hfits hs => h.step hfits hs
  exact (hinv.find vmaddr).1

/-- 命令一つの関数だけの binary。 -/
def retBinary : Binary := ⟨.arm64, [⟨0x1000, 0x1004, [⟨0, 4, .ret, false, [0xc0, 3, 0x5f, 0xd6]⟩]⟩]⟩

/-- event の slot を置かない設定で、lift 済みの命令が無いときの `encode`。 -/
def encodeRet (addend : Nat) : Op :=
  .encode ⟨false, false, false, false⟩ (fun _ => none) retBinary addend

/-- `addend` を変えて二度 `encode` し、それぞれ検索する。二つの address の `L1` の場所は同じである。 -/
def sampleState : Option State :=
  [encodeRet 0x10000, .find 0x11000, encodeRet 0x20000, .find 0x21000].foldlM State.step .init

theorem sampleState_find : ∃ s, sampleState = some s ∧
    (find s.basicblocks s.cache 0x11000).1 = search 0x11000 s.basicblocks 0 ∧
    search 0x11000 s.basicblocks 0 = .slot ⟨0, 0⟩ ∧
    s.cache.L1 (cacheIndex 0x11000) = (0x21000, some ⟨1, 0⟩) := by
  have hfits : ∀ c, State.Fits ⟨[encode ⟨false, false, false, false⟩ (fun _ => none) retBinary
      0x10000], c⟩ (encodeRet 0x20000) := by
    intro c bb hbb a hc
    rw [List.mem_singleton.mp hbb] at hc
    have h1 : a < 0x11004 := hc.1.2
    have h2 : 0x21000 ≤ a := hc.2.1
    omega
  have h1 : Run (fun s op s' => s.step op = some s') State.Fits .init _ :=
    .tail (i := encodeRet 0x10000) .refl (fun bb hbb => absurd hbb List.not_mem_nil) rfl
  have h2 := Run.tail (i := Op.find 0x11000) h1 trivial rfl
  have h3 := Run.tail (i := encodeRet 0x20000) h2 (hfits _) rfl
  have h4 := Run.tail (i := Op.find 0x21000) h3 trivial rfl
  exact ⟨_, rfl, find_eq_search h4 _, by decide, by decide⟩

end AetherVM.Orchestrator
