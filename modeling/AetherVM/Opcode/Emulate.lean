import AetherVM.Infra.Run
import AetherVM.Opcode.Keys

/-!
# decode できない opcode の跡（`src/OpcodeEngine.h` の `OpcodeHandlers`）

一つの幅の handler の集合は、256 個の cache を前に置く。`emulate` は無い opcode の handler を集合に入れてから
`init` し、`init` が decode できなければ、入れた handler を除かずに `false` を返す。残った handler の `type` は
`OHT_Remill`、`impl` は空なので、同じ opcode の次の `emulate` はそれを実行する。
-/

namespace AetherVM

open Infra

/-- `fib_hash8`。幅ごとに一つある。 -/
def fibHash8 : OpcodeWidth → Bytes → Nat
  | .w1, x => ofLE x % 2 ^ 8
  | .w2, x => ofLE x * 40503 / 2 ^ 8 % 2 ^ 8
  | .w4, x => ofLE x * 2654435769 % 2 ^ 32 / 2 ^ 24
  | .w8, x => ofLE x * 11400714819323198485 % 2 ^ 64 / 2 ^ 56
  | .w16, x => (ofLE (x.take 8) ^^^ ofLE (x.drop 8)) * 11400714819323198485 % 2 ^ 64 / 2 ^ 56

/-- `OpcodeHandlers<T>`。`caches` の pointer は、指す要素の opcode で表す。 -/
structure OpcodeHandlers where
  handlers : HandlerSet
  caches : Nat → Option Bytes

namespace OpcodeHandlers

def empty : OpcodeHandlers := ⟨[], fun _ => none⟩

/-- cache の指す handler。その opcode が探すものでなければ使わない。 -/
def cached (s : OpcodeHandlers) (id : Nat) (opcode : Bytes) : Option HandlerEntry :=
  match s.caches id with
  | none => none
  | some key => if key = opcode then s.handlers.find key else none

def store (s : OpcodeHandlers) (id : Nat) (opcode : Bytes) : OpcodeHandlers :=
  { s with caches := Function.update s.caches id (some opcode) }

end OpcodeHandlers

/-- `emulate` の結果。`interpreted` は `interpret` を呼んだ handler である。 -/
structure Emulated (μ : Type) where
  globals : Globals μ
  handlers : OpcodeHandlers
  interpreted : Option HandlerEntry

/-- `emulate` の返り値。`interpret` を呼ばなければ `false` である。 -/
def Emulated.result {μ : Type} (r : Emulated μ) : Bool := r.interpreted.any Toolchain.interprets

/-- `OpcodeHandlers<T>` の呼び出し。 -/
inductive HandlersCall where
  | emulate (opcode : Bytes) (readonly : Bool)
  | prefetch (opcode : Bytes) (decoded : Decoded)
deriving DecidableEq

def HandlersCall.opcode : HandlersCall → Bytes
  | emulate opcode _ => opcode
  | prefetch opcode _ => opcode

namespace Toolchain

variable {μ : Type} (tc : Toolchain μ) (arch : ArchType) (w : OpcodeWidth)

/-- `OpcodeHandlers<T>::emulate`。 -/
def emulateHandlers (opcode : Bytes) (readonly : Bool) (s : Globals μ × OpcodeHandlers) :
    Except Fault (Emulated μ) :=
  let id := fibHash8 w opcode
  match s.2.cached id opcode with
  | some x => .ok ⟨s.1, s.2, some x⟩
  | none =>
    match s.2.handlers.find opcode with
    | some x => .ok ⟨s.1, s.2.store id opcode, some x⟩
    | none =>
      if readonly then .ok ⟨s.1, s.2, none⟩
      else
        let decoded := tc.decode arch opcode
        if decoded.inst.bytes.length = 0 then
          .ok ⟨s.1, { s.2 with handlers := s.2.handlers.insert (blank opcode) }, none⟩
        else do
          let (g, x) ← tc.init arch opcode decoded s.1
          let handlers : OpcodeHandlers := { s.2 with handlers := s.2.handlers.insert x }
          .ok ⟨g, handlers.store id opcode, some x⟩

/-- `OpcodeHandlers<T>::prefetch`。 -/
def prefetchHandlers (opcode : Bytes) (decoded : Decoded) (s : Globals μ × OpcodeHandlers) :
    Except Fault (Emulated μ) :=
  match s.2.handlers.find opcode with
  | some _ => .ok ⟨s.1, s.2, none⟩
  | none => do
    let (g, x) ← tc.init arch opcode decoded s.1
    let handlers : OpcodeHandlers := { s.2 with handlers := s.2.handlers.insert x }
    .ok ⟨g, handlers.store (fibHash8 w opcode) opcode, none⟩

def callHandlers (s : Globals μ × OpcodeHandlers) : HandlersCall → Except Fault (Emulated μ)
  | .emulate opcode readonly => tc.emulateHandlers arch w opcode readonly s
  | .prefetch opcode decoded => tc.prefetchHandlers arch w opcode decoded s

/-- 一つの呼び出しで進む。 -/
def HandlersStep (s : Globals μ × OpcodeHandlers) (c : HandlersCall)
    (s' : Globals μ × OpcodeHandlers) : Prop :=
  ∃ r, tc.callHandlers arch w s c = .ok r ∧ s' = (r.globals, r.handlers)

/-- 新しい handler を作ろうとし、`init` が decode できない呼び出し。 -/
def Rejects (s : Globals μ × OpcodeHandlers) : HandlersCall → Prop
  | .emulate opcode readonly =>
    readonly = false ∧ s.2.handlers.find opcode = none ∧
      (tc.decode arch opcode).inst.bytes.length = 0
  | .prefetch _ _ => False

/-- 状態 `s` からのどの呼び出しの後でも、`opcode` の `emulate` は何も実行せずに `false` を返す。 -/
def Refused (opcode : Bytes) (s : Globals μ × OpcodeHandlers) : Prop :=
  ∀ s', Run (tc.HandlersStep arch w) (fun _ _ => True) s s' →
    ∀ readonly r, tc.emulateHandlers arch w opcode readonly s' = .ok r →
      r.interpreted = none ∧ r.result = false

/--
拒まれた opcode が跡を残さないこと。拒まれた呼び出しは集合も cache も変えず、同じ opcode の後の
`emulate` も拒まれる。`interpret` を呼ぶ handler は、どれも `init` の済んだものである。
-/
structure Traceless (s : Globals μ × OpcodeHandlers) (c : HandlersCall) (r : Emulated μ) :
    Prop where
  unchanged : tc.Rejects arch s c → r.handlers = s.2
  refused : tc.Rejects arch s c → tc.Refused arch w c.opcode (r.globals, r.handlers)
  initialised : ∀ x, r.interpreted = some x → x.build.isSome

variable {tc arch w} {g g' : Globals μ} {s s' : Globals μ × OpcodeHandlers} {opcode : Bytes}
  {c : HandlersCall} {r : Emulated μ} {x : HandlerEntry}

/-! ## 集合 -/

theorem Inits.build_isSome {decoded : Decoded} (h : tc.Inits arch opcode decoded g g' x) :
    x.build.isSome := by
  cases h <;> rfl

theorem insert_ne_self (hs : HandlerSet) (x : HandlerEntry) : hs.insert x ≠ hs := by
  intro h
  have hlen : (hs.takeWhile _ ++ x :: hs.dropWhile _).length = hs.length := congrArg List.length h
  rw [List.length_append, List.length_cons, ← Nat.add_assoc, ← List.length_append,
    List.takeWhile_append_dropWhile] at hlen
  omega

/-- 加えた handler は見つかり、ほかの opcode の handler はそのままである。 -/
theorem find_insert {hs : HandlerSet} {o : Bytes} (h : hs.find x.handler.opcode = none) :
    (hs.insert x).find o = if x.handler.opcode = o then some x else hs.find o := by
  unfold HandlerSet.find HandlerSet.insert at *
  conv_rhs => rw [← List.takeWhile_append_dropWhile
    (p := fun z => decide (ofLE z.handler.opcode < ofLE x.handler.opcode)) (l := hs)]
  rw [List.find?_append, List.find?_append, List.find?_cons]
  split
  · next heq =>
    have heq := of_decide_eq_true heq
    rw [if_pos heq]
    have hnone : (hs.takeWhile fun z => ofLE z.handler.opcode < ofLE x.handler.opcode).find?
        (fun y => decide (y.handler.opcode = o)) = none := by
      rw [List.find?_eq_none] at h ⊢
      intro y hy
      rw [← heq]
      exact h y ((List.takeWhile_prefix _).subset hy)
    rw [hnone]
    rfl
  · next hne => rw [if_neg (of_decide_eq_false (Bool.not_eq_true _ ▸ hne))]

/-- cache が答えるのは、集合の答えである。 -/
theorem find_of_cached {id : Nat} (h : s.2.cached id opcode = some x) :
    s.2.handlers.find opcode = some x := by
  unfold OpcodeHandlers.cached at h
  split at h
  · cases h
  · split at h
    · next heq => exact heq ▸ h
    · cases h

theorem cached_eq_none {id : Nat} (h : s.2.handlers.find opcode = none) :
    s.2.cached id opcode = none := by
  unfold OpcodeHandlers.cached
  split
  · rfl
  · split
    · next heq => rw [heq, h]
    · rfl

/-! ## 一つの呼び出し -/

/-- 拒まれた呼び出しは、`init` の済んでいない handler を集合に残す。 -/
theorem callHandlers_of_rejects (hc : tc.Rejects arch s c) :
    tc.callHandlers arch w s c = .ok ⟨s.1,
      { s.2 with handlers := s.2.handlers.insert (blank c.opcode) }, none⟩ := by
  cases c with
  | prefetch opcode decoded => exact absurd hc id
  | emulate opcode readonly =>
    obtain ⟨rfl, hfind, hdecode⟩ := hc
    simp only [callHandlers, emulateHandlers, cached_eq_none hfind, hfind, hdecode, if_true]
    rfl

/--
呼び出しは、集合を変えずにその答えを返すか、集合に無い opcode の handler を一つ加える。加えた handler は、拒まれなければ
`init` の済んだものである。
-/
theorem callHandlers_cases (hr : tc.callHandlers arch w s c = .ok r) :
    (r.handlers.handlers = s.2.handlers ∧
      ∀ x, r.interpreted = some x → s.2.handlers.find c.opcode = some x) ∨
    ∃ y : HandlerEntry, y.handler.opcode = c.opcode ∧ s.2.handlers.find c.opcode = none ∧
      r.handlers.handlers = s.2.handlers.insert y ∧ (∀ x, r.interpreted = some x → x = y) ∧
        (tc.Rejects arch s c ∨ y.build.isSome) := by
  cases c with
  | prefetch opcode decoded =>
    simp only [callHandlers, prefetchHandlers] at hr
    split at hr
    · cases hr
      exact .inl ⟨rfl, nofun⟩
    · next hfind =>
      obtain ⟨⟨g, y⟩, hinit, hr⟩ := ok_of_bind_eq_ok hr
      cases hr
      have hy := init_inits hinit
      exact .inr ⟨y, hy.opcode_eq, hfind, rfl, nofun, .inr hy.build_isSome⟩
  | emulate opcode readonly =>
    simp only [callHandlers, emulateHandlers] at hr
    split at hr
    · next y hy =>
      cases hr
      refine .inl ⟨rfl, fun x hx => ?_⟩
      cases hx
      exact find_of_cached hy
    split at hr
    · next y hy =>
      cases hr
      refine .inl ⟨rfl, fun x hx => ?_⟩
      cases hx
      exact hy
    next hfind =>
    split at hr
    · cases hr
      exact .inl ⟨rfl, nofun⟩
    next hreadonly =>
    split at hr
    · next hdecode =>
      cases hr
      exact .inr ⟨blank opcode, rfl, hfind, rfl, nofun,
        .inl ⟨Bool.not_eq_true _ ▸ hreadonly, hfind, hdecode⟩⟩
    · obtain ⟨⟨g, y⟩, hinit, hr⟩ := ok_of_bind_eq_ok hr
      cases hr
      have hy := init_inits hinit
      refine .inr ⟨y, hy.opcode_eq, hfind, rfl, fun x hx => ?_, .inr hy.build_isSome⟩
      cases hx
      rfl

/-- 拒まれない呼び出しの後の handler は、前からあるものか、`init` の済んだ新しいものである。 -/
theorem callHandlers_of_not_rejects (hc : ¬ tc.Rejects arch s c)
    (hr : tc.callHandlers arch w s c = .ok r) :
    (∀ x ∈ r.handlers.handlers, x ∈ s.2.handlers ∨ x.build.isSome) ∧
      ∀ x, r.interpreted = some x → x ∈ s.2.handlers ∨ x.build.isSome := by
  rcases callHandlers_cases hr with ⟨hsame, hfound⟩ | ⟨y, -, -, hinsert, hnew, hy⟩
  · rw [hsame]
    exact ⟨fun x hx => .inl hx, fun x hx => .inl (List.mem_of_find?_eq_some (hfound x hx))⟩
  · have hy := hy.resolve_left hc
    refine ⟨fun x hx => ?_, fun x hx => .inr (hnew x hx ▸ hy)⟩
    rw [hinsert] at hx
    rcases HandlerSet.mem_insert.mp hx with rfl | hx
    · exact .inr hy
    · exact .inl hx

/-- 集合にある opcode は、どの呼び出しの後でも同じ handler のままである。 -/
theorem find_callHandlers (hx : s.2.handlers.find opcode = some x)
    (hr : tc.callHandlers arch w s c = .ok r) : r.handlers.handlers.find opcode = some x := by
  rcases callHandlers_cases hr with ⟨hsame, -⟩ | ⟨y, hopcode, hnone, hinsert, -, -⟩
  · rw [hsame, hx]
  · rw [hinsert, find_insert (hopcode ▸ hnone), if_neg, hx]
    rintro rfl
    rw [hopcode, hnone] at hx
    cases hx

/-- 集合にある opcode の `emulate` は、その handler を実行する。 -/
theorem emulateHandlers_of_find {readonly : Bool} (hx : s.2.handlers.find opcode = some x)
    (hr : tc.emulateHandlers arch w opcode readonly s = .ok r) : r.interpreted = some x := by
  simp only [emulateHandlers] at hr
  split at hr
  · next y hy =>
    cases hr
    exact (find_of_cached hy).symm.trans hx
  · rw [hx] at hr
    cases hr
    rfl

/-! ## run -/

/-- 拒まれた opcode は、その後どの呼び出しを経ても、`init` の済んでいない handler で実行される。 -/
theorem interprets_blank_of_rejects (hc : tc.Rejects arch s c)
    (hr : tc.callHandlers arch w s c = .ok r)
    (hrun : Run (tc.HandlersStep arch w) (fun _ _ => True) (r.globals, r.handlers) s')
    {readonly : Bool} {r' : Emulated μ}
    (hr' : tc.emulateHandlers arch w c.opcode readonly s' = .ok r') :
    r'.interpreted = some (blank c.opcode) := by
  have hfind : s'.2.handlers.find c.opcode = some (blank c.opcode) := by
    refine hrun.invariant (p := fun s' => s'.2.handlers.find c.opcode = some (blank c.opcode)) ?_ ?_
    · rw [callHandlers_of_rejects hc] at hr
      cases hr
      have hnone : s.2.handlers.find c.opcode = none := by
        cases c with
        | emulate opcode readonly => exact hc.2.1
        | prefetch opcode decoded => exact absurd hc id
      exact (find_insert (x := blank c.opcode) hnone).trans (if_pos rfl)
    · rintro s₁ call s₂ hfind - ⟨r₁, hr₁, rfl⟩
      exact find_callHandlers hfind hr₁
  exact emulateHandlers_of_find hfind hr'

/-- 拒まれた呼び出しの無い run では、集合の handler はどれも `init` の済んだものである。 -/
theorem initialised_of_run (hrun : Run (tc.HandlersStep arch w)
    (fun s c => ¬ tc.Rejects arch s c) (g, .empty) s) :
    ∀ x ∈ s.2.handlers, x.build.isSome := by
  refine hrun.invariant (p := fun s => ∀ x ∈ s.2.handlers, x.build.isSome)
    (fun x hx => absurd hx List.not_mem_nil) ?_
  rintro s₁ call s₂ hall hc ⟨r₁, hr₁, rfl⟩ x hx
  exact ((callHandlers_of_not_rejects hc hr₁).1 x hx).elim (hall x) id

/--
拒まれた呼び出しの無い run のどの状態でも、呼び出しが跡を残さないのは、それが拒まれないときに限る。
拒まれた呼び出しは、いつも集合に handler を残す。
-/
theorem run_traceless_iff (hrun : Run (tc.HandlersStep arch w)
    (fun s c => ¬ tc.Rejects arch s c) (g, .empty) s) (c : HandlersCall)
    (hr : tc.callHandlers arch w s c = .ok r) :
    tc.Traceless arch w s c r ↔ ¬ tc.Rejects arch s c := by
  constructor
  · intro h hc
    have hsame := h.unchanged hc
    rw [callHandlers_of_rejects hc] at hr
    cases hr
    exact insert_ne_self _ _ (congrArg OpcodeHandlers.handlers hsame)
  · intro hc
    refine ⟨fun h => absurd h hc, fun h => absurd h hc, fun x hx => ?_⟩
    exact ((callHandlers_of_not_rejects hc hr).2 x hx).elim (initialised_of_run hrun x) id

/-- `NOP` だけを decode する x86-64 の環境。 -/
def nopToolchain : Toolchain Unit where
  decode := fun _ bytes =>
    if bytes = [0x90] then ⟨⟨[], [0x90], []⟩, false⟩ else ⟨⟨[], [], []⟩, false⟩
  disassemble := fun _ bytes => (if bytes = [0x90] then 1 else 0, ())
  hasSP := fun _ => false
  nativeCode := fun _ _ opcode => opcode
  hash := fun _ => 0
  tables := ⟨[], []⟩
  isPointerArg := fun _ _ _ => false
  loadRegoffs := fun _ _ => none
  pageBase := fun _ => 0
  pageSize := 0x1000
  abortImpl := 0x10

/-- `NOP` を二度と、readonly で `0x06` を呼んだ後でも、`NOP` の `emulate` は跡を残さない。 -/
theorem nopToolchain_traceless : ∃ s r,
    Run (nopToolchain.HandlersStep .x86_64 .w1)
        (fun s c => ¬ nopToolchain.Rejects .x86_64 s c) (Globals.empty, .empty) s ∧
      s.2.handlers.map (fun x => x.handler.opcode) = [[0x90]] ∧
      nopToolchain.callHandlers .x86_64 .w1 s (.emulate [0x90] false) = .ok r ∧
      r.result = true ∧
      nopToolchain.Traceless .x86_64 .w1 s (.emulate [0x90] false) r := by
  have hnop : ∀ s, ¬ nopToolchain.Rejects .x86_64 s (.emulate [0x90] false) :=
    fun s h => absurd h.2.2 (by decide)
  have hreadonly : ∀ s, ¬ nopToolchain.Rejects .x86_64 s (.emulate [0x06] true) :=
    fun s h => Bool.noConfusion h.1
  have hrun : Run (nopToolchain.HandlersStep .x86_64 .w1)
      (fun s c => ¬ nopToolchain.Rejects .x86_64 s c) (Globals.empty, .empty) _ :=
    .tail (.tail (.tail .refl (hnop _) ⟨_, rfl, rfl⟩) (hnop _) ⟨_, rfl, rfl⟩) (hreadonly _)
      ⟨_, rfl, rfl⟩
  exact ⟨_, _, hrun, rfl, rfl, rfl, (run_traceless_iff hrun _ rfl).mpr (hnop _)⟩

/-- 64 bit の mode に無い `0x06` を二度 `emulate` すると、二度目は実装の無い handler を実行する。 -/
theorem nopToolchain_not_traceless : ∃ r r',
    nopToolchain.callHandlers .x86_64 .w1 (Globals.empty, .empty) (.emulate [0x06] false) = .ok r ∧
      r.result = false ∧
      nopToolchain.emulateHandlers .x86_64 .w1 [0x06] false (r.globals, r.handlers) = .ok r' ∧
      r'.interpreted = some (blank [0x06]) ∧ (blank [0x06]).handler.impl = 0 ∧
      ¬ nopToolchain.Traceless .x86_64 .w1 (Globals.empty, .empty) (.emulate [0x06] false) r := by
  refine ⟨_, _, rfl, rfl, rfl, rfl, rfl, fun h => ?_⟩
  have hsame := h.unchanged ⟨rfl, rfl, rfl⟩
  exact absurd (congrArg (fun s => s.handlers.length) hsame) (by decide)

/-! ## cache の無い engine -/

/-- cache は答えを変えない。`emulate` は、五つの集合を cache 無しで使う `Toolchain.emulate` と同じである。 -/
theorem emulate_eq_emulateHandlers (engine : OpcodeEngine) (caches : Nat → Option Bytes)
    (readonly : Bool) (bytes : Bytes) :
    tc.emulate readonly arch bytes (g, engine)
      = (fun r => ((r.globals, Function.update engine (.ofLength bytes.length) r.handlers.handlers),
          r.result)) <$> tc.emulateHandlers arch (.ofLength bytes.length) (opcodeKey bytes) readonly
            (g, ⟨engine (.ofLength bytes.length), caches⟩) := by
  cases hfind : (engine (.ofLength bytes.length)).find (opcodeKey bytes) with
  | none =>
    simp only [emulate, emulateHandlers, hfind,
      cached_eq_none (s := (g, ⟨engine (.ofLength bytes.length), caches⟩)) hfind]
    cases readonly with
    | true => simp [Emulated.result]
    | false =>
      rw [if_neg Bool.false_ne_true, if_neg Bool.false_ne_true]
      split
      · rfl
      · cases tc.init arch (opcodeKey bytes) (tc.decode arch (opcodeKey bytes)) g with
        | error fault => rfl
        | ok p => rfl
  | some x =>
    simp only [emulate, emulateHandlers, hfind]
    split
    · next y hy =>
      have hxy := find_of_cached (s := (g, ⟨engine (.ofLength bytes.length), caches⟩)) hy
      cases hfind.symm.trans hxy
      simp [Emulated.result]
    · simp [Emulated.result, OpcodeHandlers.store]

end Toolchain

end AetherVM
