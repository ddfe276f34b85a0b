import AetherVM.Opcode.Emulate

/-!
# cache は答えを変えない（`src/OpcodeEngine.h` の `OpcodeHandlers`）

cache の要素は、集合の node を指す pointer である。`prefetch` は node を集合に入れてから `init` し、その後で cache に
書く。`emulate` も同じ順だが、`init` が decode できなければ cache に書かずに終わる。

ここでは node を作られた順の番号で表す。cache が当たれば、pointer の指す node の今の中身を実行する。cache の無いものは
いつも集合を探す。hash が衝突しても、前の `init` が失敗していても、二つは同じ handler を実行する。
-/

namespace AetherVM

open Infra

/-- node を pointer で持つ `OpcodeHandlers<T>`。`nodes` は作られた順、`order` は集合の順の番号である。 -/
structure HandlerNodes where
  nodes : List HandlerEntry
  order : List Nat
  caches : Nat → Option Nat

namespace HandlerNodes

def empty : HandlerNodes := ⟨[], [], fun _ => none⟩

/-- pointer の指す node の今の中身。 -/
def entry (s : HandlerNodes) (i : Nat) : HandlerEntry := s.nodes[i]?.getD (Toolchain.blank [])

/-- `handlers.find`。見つかった node の番号を返す。 -/
def find (s : HandlerNodes) (opcode : Bytes) : Option Nat :=
  s.order.find? fun i => (s.entry i).handler.opcode = opcode

/-- 新しい node を、opcode の順の場所に入れる。 -/
def push (s : HandlerNodes) (opcode : Bytes) (x : HandlerEntry) : HandlerNodes :=
  { s with
    nodes := s.nodes ++ [x]
    order := s.order.takeWhile (fun i => ofLE (s.entry i).handler.opcode < ofLE opcode)
      ++ s.nodes.length
        :: s.order.dropWhile (fun i => ofLE (s.entry i).handler.opcode < ofLE opcode) }

/-- `handlers.insert(OpcodeHandler<T>{.opcode = opcode})`。 -/
def insert (s : HandlerNodes) (opcode : Bytes) : HandlerNodes × Nat :=
  (s.push opcode (Toolchain.blank opcode), s.nodes.length)

/-- `init` は、集合に入れた後の node を書き換える。 -/
def write (s : HandlerNodes) (i : Nat) (x : HandlerEntry) : HandlerNodes :=
  { s with nodes := s.nodes.set i x }

/-- `caches[id] = &*found`。 -/
def store (s : HandlerNodes) (id i : Nat) : HandlerNodes :=
  { s with caches := Function.update s.caches id (some i) }

/-- 集合の handler を順に並べたもの。 -/
def handlers (s : HandlerNodes) : HandlerSet := s.order.map s.entry

end HandlerNodes

/-- pointer を、指す node の opcode で表したもの。 -/
def HandlerNodes.keyed (s : HandlerNodes) : OpcodeHandlers :=
  ⟨s.handlers, fun id => (s.caches id).map fun i => (s.entry i).handler.opcode⟩

/-- 一つの集合に起きること。大域変数は、ほかの集合や thread も変える。 -/
inductive HandlersEvent (μ : Type) where
  | call (arch : ArchType) (c : HandlersCall)
  | globals (g : Globals μ)

namespace Toolchain

variable {μ : Type} (tc : Toolchain μ) (hash : Bytes → UInt8)

/-- `OpcodeHandlers<T>::emulate`。`interpret` を呼ぶ handler を返す。 -/
def emulateNodes (arch : ArchType) (opcode : Bytes) (readonly : Bool)
    (s : Globals μ × HandlerNodes) :
    Except Fault ((Globals μ × HandlerNodes) × Option HandlerEntry) :=
  let id := (hash opcode).toNat
  match (s.2.caches id).filter fun i => (s.2.entry i).handler.opcode = opcode with
  | some i => .ok (s, some (s.2.entry i))
  | none =>
    match s.2.find opcode with
    | some i => .ok ((s.1, s.2.store id i), some ((s.2.store id i).entry i))
    | none =>
      if readonly then .ok (s, none)
      else
        let (n, i) := s.2.insert opcode
        let decoded := tc.decode arch opcode
        if decoded.inst.bytes.length = 0 then .ok ((s.1, n), none)
        else do
          let (g, x) ← tc.init arch opcode decoded s.1
          let n := (n.write i x).store id i
          .ok ((g, n), some (n.entry i))

/-- `OpcodeHandlers<T>::prefetch`。 -/
def prefetchNodes (arch : ArchType) (opcode : Bytes) (decoded : Decoded)
    (s : Globals μ × HandlerNodes) :
    Except Fault ((Globals μ × HandlerNodes) × Option HandlerEntry) :=
  match s.2.find opcode with
  | some _ => .ok (s, none)
  | none => do
    let (n, i) := s.2.insert opcode
    let (g, x) ← tc.init arch opcode decoded s.1
    .ok ((g, (n.write i x).store (hash opcode).toNat i), none)

def stepNodes (s : Globals μ × HandlerNodes) :
    HandlersEvent μ → Except Fault ((Globals μ × HandlerNodes) × Option HandlerEntry)
  | .call arch (.emulate opcode readonly) => tc.emulateNodes hash arch opcode readonly s
  | .call arch (.prefetch opcode decoded) => tc.prefetchNodes hash arch opcode decoded s
  | .globals g => .ok ((g, s.2), none)

/-! ## cache の無いもの -/

/-- cache の無い `emulate`。いつも集合を探す。 -/
def emulateSearch (arch : ArchType) (opcode : Bytes) (readonly : Bool)
    (s : Globals μ × HandlerSet) :
    Except Fault ((Globals μ × HandlerSet) × Option HandlerEntry) :=
  match s.2.find opcode with
  | some x => .ok (s, some x)
  | none =>
    if readonly then .ok (s, none)
    else
      let decoded := tc.decode arch opcode
      if decoded.inst.bytes.length = 0 then .ok ((s.1, s.2.insert (blank opcode)), none)
      else do
        let (g, x) ← tc.init arch opcode decoded s.1
        .ok ((g, s.2.insert x), some x)

/-- cache の無い `prefetch`。 -/
def prefetchSearch (arch : ArchType) (opcode : Bytes) (decoded : Decoded)
    (s : Globals μ × HandlerSet) :
    Except Fault ((Globals μ × HandlerSet) × Option HandlerEntry) :=
  match s.2.find opcode with
  | some _ => .ok (s, none)
  | none => do
    let (g, x) ← tc.init arch opcode decoded s.1
    .ok ((g, s.2.insert x), none)

def stepSearch (s : Globals μ × HandlerSet) :
    HandlersEvent μ → Except Fault ((Globals μ × HandlerSet) × Option HandlerEntry)
  | .call arch (.emulate opcode readonly) => tc.emulateSearch arch opcode readonly s
  | .call arch (.prefetch opcode decoded) => tc.prefetchSearch arch opcode decoded s
  | .globals g => .ok ((g, s.2), none)

end Toolchain

namespace HandlerNodes

/--
cache の不変条件。集合の番号は node のあるもので、cache の指す node は集合にあり、集合の opcode は
互いに異なる。
-/
structure Coherent (s : HandlerNodes) : Prop where
  live : ∀ i ∈ s.order, i < s.nodes.length
  pointed : ∀ id i, s.caches id = some i → i ∈ s.order
  distinct : ∀ i ∈ s.order, ∀ j ∈ s.order,
    (s.entry i).handler.opcode = (s.entry j).handler.opcode → i = j

variable {s : HandlerNodes} {opcode : Bytes} {x : HandlerEntry} {i id : Nat}

theorem coherent_empty : empty.Coherent where
  live := fun _ hi => absurd hi List.not_mem_nil
  pointed := nofun
  distinct := fun _ hi => absurd hi List.not_mem_nil

/-! ## 集合の操作 -/

theorem find_handlers (s : HandlerNodes) (opcode : Bytes) :
    s.handlers.find opcode = (s.find opcode).map s.entry := by
  simp only [handlers, HandlerSet.find, find, List.find?_map]
  rfl

/-- 集合にある node は、その opcode を探せば見つかる。 -/
theorem Coherent.find_of_mem (h : s.Coherent) (hi : i ∈ s.order)
    (hop : (s.entry i).handler.opcode = opcode) : s.find opcode = some i := by
  cases hfind : s.find opcode with
  | none =>
    have hne := List.find?_eq_none.mp hfind i hi
    exact absurd (decide_eq_true hop) hne
  | some j =>
    have hp := List.find?_some hfind
    have hj := of_decide_eq_true hp
    exact congrArg some (h.distinct j (List.mem_of_find?_eq_some hfind) i hi (hj.trans hop.symm))

/-- cache が当たれば、集合を探しても同じ node が見つかる。 -/
theorem Coherent.find_of_cached (h : s.Coherent)
    (hi : (s.caches id).filter (fun i => (s.entry i).handler.opcode = opcode) = some i) :
    s.find opcode = some i := by
  obtain ⟨hcache, hop⟩ := Option.filter_eq_some_iff.mp hi
  exact h.find_of_mem (h.pointed id i hcache) (of_decide_eq_true hop)

@[simp] theorem handlers_store : (s.store id i).handlers = s.handlers := rfl

@[simp] theorem entry_store (j : Nat) : (s.store id i).entry j = s.entry j := rfl

theorem Coherent.store (h : s.Coherent) (hi : i ∈ s.order) : (s.store id i).Coherent where
  live := h.live
  distinct := h.distinct
  pointed := by
    intro k j hj
    simp only [HandlerNodes.store, Function.update_apply] at hj
    split at hj
    · obtain rfl := Option.some.inj hj
      exact hi
    · exact h.pointed k j hj

/-- 集合に入れてから書き換えた node は、初めからその中身で入れたものである。 -/
theorem write_insert (s : HandlerNodes) (opcode : Bytes) (x : HandlerEntry) :
    (s.insert opcode).1.write (s.insert opcode).2 x = s.push opcode x := by
  simp [insert, push, write]

theorem entry_push_of_lt (hi : i < s.nodes.length) :
    (s.push opcode x).entry i = s.entry i := by
  simp [entry, push, List.getElem?_append_left hi]

@[simp] theorem entry_push_length : (s.push opcode x).entry s.nodes.length = x := by
  simp [entry, push]

theorem mem_order_push :
    i ∈ (s.push opcode x).order ↔ i = s.nodes.length ∨ i ∈ s.order := by
  simp only [push, List.mem_append, List.mem_cons]
  conv_rhs => rw [← List.takeWhile_append_dropWhile
    (p := fun i => decide (ofLE (s.entry i).handler.opcode < ofLE opcode)) (l := s.order)]
  rw [List.mem_append]
  tauto

/-- 新しい node を入れた集合は、その handler を入れた集合である。 -/
theorem Coherent.handlers_push (h : s.Coherent) (hx : x.handler.opcode = opcode) :
    (s.push opcode x).handlers = s.handlers.insert x := by
  have hsame : ∀ {l : List Nat}, (∀ i ∈ l, i ∈ s.order) →
      l.map (s.push opcode x).entry = l.map s.entry := fun hl =>
    List.map_congr_left fun i hi => entry_push_of_lt (h.live i (hl i hi))
  have htake := hsame (List.takeWhile_subset
    (p := fun i => decide (ofLE (s.entry i).handler.opcode < ofLE opcode)) (l := s.order))
  have hdrop := hsame (List.dropWhile_subset
    (p := fun i => decide (ofLE (s.entry i).handler.opcode < ofLE opcode)) (l := s.order))
  rw [handlers, HandlerSet.insert, hx]
  simp only [handlers, List.takeWhile_map, List.dropWhile_map]
  change (List.takeWhile _ _ ++ _ :: List.dropWhile _ _).map _ = _
  rw [List.map_append, List.map_cons, entry_push_length, htake, hdrop]
  rfl

theorem Coherent.push (h : s.Coherent) (hx : x.handler.opcode = opcode)
    (hnone : s.find opcode = none) : (s.push opcode x).Coherent := by
  have hnew : ∀ i ∈ s.order, (s.entry i).handler.opcode ≠ opcode := fun i hi hop =>
    List.find?_eq_none.mp hnone i hi (decide_eq_true hop)
  refine ⟨fun i hi => ?_, fun id i hi => ?_, fun i hi j hj hop => ?_⟩
  · have hlength : (s.push opcode x).nodes.length = s.nodes.length + 1 := by
      simp [HandlerNodes.push]
    rcases mem_order_push.mp hi with rfl | hi
    · omega
    · have := h.live i hi
      omega
  · exact mem_order_push.mpr (.inr (h.pointed id i hi))
  · rcases mem_order_push.mp hi with rfl | hi <;> rcases mem_order_push.mp hj with rfl | hj
    · rfl
    · rw [entry_push_length, entry_push_of_lt (h.live j hj), hx] at hop
      exact absurd hop.symm (hnew j hj)
    · rw [entry_push_length, entry_push_of_lt (h.live i hi), hx] at hop
      exact absurd hop (hnew i hi)
    · rw [entry_push_of_lt (h.live i hi), entry_push_of_lt (h.live j hj)] at hop
      exact h.distinct i hi j hj hop

/-- `init` の済んだ node を cache に書くまで。 -/
theorem Coherent.init (h : s.Coherent) (hx : x.handler.opcode = opcode)
    (hnone : s.find opcode = none) :
    (((s.insert opcode).1.write (s.insert opcode).2 x).store id (s.insert opcode).2).Coherent := by
  rw [write_insert]
  exact (h.push hx hnone).store (mem_order_push.mpr (.inl rfl))

theorem Coherent.handlers_init (h : s.Coherent) (hx : x.handler.opcode = opcode) :
    (((s.insert opcode).1.write (s.insert opcode).2 x).store id (s.insert opcode).2).handlers
      = s.handlers.insert x := by
  rw [write_insert, handlers_store, h.handlers_push hx]

theorem entry_init :
    (((s.insert opcode).1.write (s.insert opcode).2 x).store id (s.insert opcode).2).entry
      (s.insert opcode).2 = x := by
  rw [write_insert, entry_store]
  exact entry_push_length

/-! ## pointer と opcode -/

theorem Coherent.cached_keyed (h : s.Coherent) (id : Nat) (opcode : Bytes) :
    s.keyed.cached id opcode
      = ((s.caches id).filter fun i => (s.entry i).handler.opcode = opcode).map s.entry := by
  cases hcache : s.caches id with
  | none => simp [OpcodeHandlers.cached, keyed, hcache]
  | some i =>
    simp only [OpcodeHandlers.cached, keyed, hcache, Option.map_some, Option.filter_some]
    by_cases hop : (s.entry i).handler.opcode = opcode
    · rw [if_pos hop, hop, find_handlers, h.find_of_mem (h.pointed id i hcache) hop]
      simp
    · simp [hop]

theorem keyed_store (hop : (s.entry i).handler.opcode = opcode) :
    (s.store id i).keyed = s.keyed.store id opcode := by
  simp only [keyed, OpcodeHandlers.store, handlers_store, OpcodeHandlers.mk.injEq, true_and]
  funext k
  simp only [store, entry, Function.update_apply]
  split
  · exact congrArg some hop
  · rfl

theorem Coherent.keyed_push (h : s.Coherent) (hx : x.handler.opcode = opcode) :
    (s.push opcode x).keyed = { s.keyed with handlers := s.keyed.handlers.insert x } := by
  simp only [keyed, h.handlers_push hx, OpcodeHandlers.mk.injEq, true_and]
  funext k
  change Option.map _ (s.caches k) = _
  cases hk : s.caches k with
  | none => rfl
  | some i =>
    simp only [Option.map_some]
    rw [entry_push_of_lt (h.live i (h.pointed k i hk))]

theorem Coherent.keyed_init (h : s.Coherent) (hx : x.handler.opcode = opcode) :
    (((s.insert opcode).1.write (s.insert opcode).2 x).store id (s.insert opcode).2).keyed
      = OpcodeHandlers.store { s.keyed with handlers := s.keyed.handlers.insert x } id opcode := by
  rw [write_insert, keyed_store, h.keyed_push hx]
  exact (congrArg (fun x : HandlerEntry => x.handler.opcode) entry_push_length).trans hx

end HandlerNodes

/-- `fib_hash8` の値は 8 bit に収まる。 -/
theorem fibHash8_lt (w : OpcodeWidth) (x : Bytes) : fibHash8 w x < 2 ^ 8 := by
  cases w <;> simp only [fibHash8] <;> omega

namespace Toolchain

variable {μ : Type} {tc : Toolchain μ} {hash : Bytes → UInt8}
  {s : Globals μ × HandlerNodes} {p : (Globals μ × HandlerNodes) × Option HandlerEntry}

/-- node の集合を、handler の集合に写す。 -/
def searchState (s : Globals μ × HandlerNodes) : Globals μ × HandlerSet := (s.1, s.2.handlers)

/-! ## 一つの呼び出し -/

theorem emulateSearch_eq (h : s.2.Coherent) (arch : ArchType) (opcode : Bytes) (readonly : Bool) :
    tc.emulateSearch arch opcode readonly (searchState s)
      = (fun p => (searchState p.1, p.2)) <$> tc.emulateNodes hash arch opcode readonly s := by
  have hset : (searchState s).2.find opcode = (s.2.find opcode).map s.2.entry :=
    s.2.find_handlers opcode
  cases hcached : (s.2.caches (hash opcode).toNat).filter
      fun i => (s.2.entry i).handler.opcode = opcode with
  | some i =>
    simp only [emulateSearch, emulateNodes, hset, hcached, h.find_of_cached hcached]
    rfl
  | none =>
    cases hfind : s.2.find opcode with
    | some i =>
      simp only [emulateSearch, emulateNodes, hset, hcached, hfind]
      rfl
    | none =>
      simp only [emulateSearch, emulateNodes, hset, hcached, hfind, Option.map_none]
      cases readonly with
      | true => rfl
      | false =>
        rw [if_neg Bool.false_ne_true, if_neg Bool.false_ne_true]
        split
        · exact congrArg (fun hs => Except.ok ((s.1, hs), none)) (h.handlers_push rfl).symm
        · rw [map_bind]
          refine bind_congr_of_ok fun q hinit => ?_
          have hop := (init_inits hinit).opcode_eq
          change _ = Except.ok ((q.1, HandlerNodes.handlers _), some (HandlerNodes.entry _ _))
          rw [h.handlers_init hop, HandlerNodes.entry_init]
          rfl

theorem prefetchSearch_eq (h : s.2.Coherent) (arch : ArchType) (opcode : Bytes)
    (decoded : Decoded) :
    tc.prefetchSearch arch opcode decoded (searchState s)
      = (fun p => (searchState p.1, p.2)) <$> tc.prefetchNodes hash arch opcode decoded s := by
  have hset : (searchState s).2.find opcode = (s.2.find opcode).map s.2.entry :=
    s.2.find_handlers opcode
  cases hfind : s.2.find opcode with
  | some i =>
    simp only [prefetchSearch, prefetchNodes, hset, hfind]
    rfl
  | none =>
    simp only [prefetchSearch, prefetchNodes, hset, hfind, Option.map_none]
    rw [map_bind]
    refine bind_congr_of_ok fun q hinit => ?_
    have hop := (init_inits hinit).opcode_eq
    change _ = Except.ok ((q.1, HandlerNodes.handlers _), none)
    rw [h.handlers_init hop]
    rfl

/-- cache の無いものは、同じ呼び出しで同じ handler を実行し、同じ集合に着く。 -/
theorem stepSearch_eq (h : s.2.Coherent) (e : HandlersEvent μ) :
    tc.stepSearch (searchState s) e
      = (fun p => (searchState p.1, p.2)) <$> tc.stepNodes hash s e := by
  match e with
  | .call arch (.emulate opcode readonly) => exact emulateSearch_eq h arch opcode readonly
  | .call arch (.prefetch opcode decoded) => exact prefetchSearch_eq h arch opcode decoded
  | .globals g => rfl

/-- 実際の hash では、cache の pointer を opcode で表したものと同じである。 -/
theorem callHandlers_keyed (h : s.2.Coherent) (arch : ArchType) (w : OpcodeWidth)
    (c : HandlersCall) :
    tc.callHandlers arch w (s.1, s.2.keyed) c
      = (fun p => ⟨p.1.1, p.1.2.keyed, p.2⟩) <$>
          tc.stepNodes (fun opcode => UInt8.ofNat (fibHash8 w opcode)) s (.call arch c) := by
  have hid : ∀ opcode, (UInt8.ofNat (fibHash8 w opcode)).toNat = fibHash8 w opcode := fun opcode =>
    Nat.mod_eq_of_lt (fibHash8_lt w opcode)
  have hset : ∀ opcode, s.2.keyed.handlers.find opcode = (s.2.find opcode).map s.2.entry :=
    s.2.find_handlers
  cases c with
  | emulate opcode readonly =>
    simp only [callHandlers, stepNodes, emulateHandlers, emulateNodes, hid, hset, h.cached_keyed]
    cases hcached : (s.2.caches (fibHash8 w opcode)).filter
        fun i => (s.2.entry i).handler.opcode = opcode with
    | some i => rfl
    | none =>
      simp only [Option.map_none]
      cases hfind : s.2.find opcode with
      | some i =>
        have hp := List.find?_some hfind
        have hop := of_decide_eq_true hp
        change Except.ok _ = Except.ok (Emulated.mk _ (HandlerNodes.keyed _) _)
        rw [HandlerNodes.keyed_store hop]
        rfl
      | none =>
        simp only [Option.map_none]
        cases readonly with
        | true => rfl
        | false =>
          rw [if_neg Bool.false_ne_true, if_neg Bool.false_ne_true]
          split
          · have hpush : (s.2.push opcode (blank opcode)).keyed = _ := h.keyed_push rfl
            change _ = Except.ok (Emulated.mk _ (HandlerNodes.keyed (s.2.push opcode _)) none)
            rw [hpush]
          · rw [map_bind]
            refine bind_congr_of_ok fun q hinit => ?_
            have hop := (init_inits hinit).opcode_eq
            change _ = Except.ok (Emulated.mk _ (HandlerNodes.keyed _)
              (some (HandlerNodes.entry _ _)))
            rw [h.keyed_init hop, HandlerNodes.entry_init]
  | prefetch opcode decoded =>
    simp only [callHandlers, stepNodes, prefetchHandlers, prefetchNodes, hid, hset]
    cases hfind : s.2.find opcode with
    | some i => rfl
    | none =>
      simp only [Option.map_none]
      rw [map_bind]
      refine bind_congr_of_ok fun q hinit => ?_
      have hop := (init_inits hinit).opcode_eq
      change _ = Except.ok (Emulated.mk _ (HandlerNodes.keyed _) none)
      rw [h.keyed_init hop]

theorem emulateNodes_coherent (h : s.2.Coherent) {arch : ArchType} {opcode : Bytes}
    {readonly : Bool} (hp : tc.emulateNodes hash arch opcode readonly s = .ok p) :
    p.1.2.Coherent := by
  simp only [emulateNodes] at hp
  split at hp
  · cases hp
    exact h
  split at hp
  · next i hfind =>
    cases hp
    exact h.store (List.mem_of_find?_eq_some hfind)
  next hnone =>
  split at hp
  · cases hp
    exact h
  split at hp
  · cases hp
    exact h.push rfl hnone
  · obtain ⟨⟨g, x⟩, hinit, hp⟩ := ok_of_bind_eq_ok hp
    cases hp
    exact h.init (init_inits hinit).opcode_eq hnone

theorem prefetchNodes_coherent (h : s.2.Coherent) {arch : ArchType} {opcode : Bytes}
    {decoded : Decoded} (hp : tc.prefetchNodes hash arch opcode decoded s = .ok p) :
    p.1.2.Coherent := by
  simp only [prefetchNodes] at hp
  split at hp
  · cases hp
    exact h
  · next hnone =>
    obtain ⟨⟨g, x⟩, hinit, hp⟩ := ok_of_bind_eq_ok hp
    cases hp
    exact h.init (init_inits hinit).opcode_eq hnone

theorem stepNodes_coherent (h : s.2.Coherent) {e : HandlersEvent μ}
    (hp : tc.stepNodes hash s e = .ok p) : p.1.2.Coherent := by
  match e with
  | .call arch (.emulate opcode readonly) => exact emulateNodes_coherent h hp
  | .call arch (.prefetch opcode decoded) => exact prefetchNodes_coherent h hp
  | .globals g =>
    obtain rfl := Except.ok.inj hp
    exact h

/-! ## run -/

/--
空の集合からのどの呼び出しの列でも、cache のあるものと無いものは、同じ順に同じ handler を実行し、同じように失敗し、
同じ集合を残す。cache の指す node は、いつも集合の要素である。
-/
theorem run_cache_transparent (tc : Toolchain μ) (hash : Bytes → UInt8) (g : Globals μ)
    (es : List (HandlersEvent μ)) :
    runOutputs tc.stepSearch es (g, [])
        = ((runOutputs (tc.stepNodes hash) es (g, .empty)).1,
          searchState <$> (runOutputs (tc.stepNodes hash) es (g, .empty)).2) ∧
      ∀ s, (runOutputs (tc.stepNodes hash) es (g, .empty)).2 = .ok s →
        ∀ id i, s.2.caches id = some i →
          i ∈ s.2.order ∧ i < s.2.nodes.length ∧ s.2.entry i ∈ s.2.handlers := by
  have hstep : ∀ (s : Globals μ × HandlerNodes) e, s.2.Coherent → tc.stepSearch (searchState s) e
      = (fun p => (searchState p.1, p.2)) <$> tc.stepNodes hash s e := fun s e h =>
    stepSearch_eq h e
  have hinv : ∀ (s : Globals μ × HandlerNodes) e p, s.2.Coherent →
      tc.stepNodes hash s e = .ok p → p.1.2.Coherent := fun s e p h hp => stepNodes_coherent h hp
  obtain ⟨hsame, hcoherent⟩ :=
    runOutputs_simulates hstep hinv es (g, .empty) HandlerNodes.coherent_empty
  refine ⟨hsame, fun s hs id i hi => ?_⟩
  have h := hcoherent s hs
  have hi := h.pointed id i hi
  exact ⟨hi, h.live i hi, List.mem_map_of_mem hi⟩

end Toolchain

end AetherVM
