import AetherVM.Engine.Vm
import AetherVM.Infra.Mem

/-!
# memory の intrinsic（`src/Intrinsic.cpp`）

lift した命令は `__remill_read_memory_N` と `__remill_write_memory_N` で guest の memory を読み書きする。
どちらも `AccessMemory` の返す参照を使う。

* 読むときは `AccessMemory(addr, nullptr)` の指す値を返す。
* 書くときは `AccessMemory(addr, &in) = in` である。C++17 の代入は右辺を先に評価するので、
  `AccessMemory` が引数 `in` に書いた callback の値は、代入される値に入らない。

callback は host の関数で、guest の memory を書き換えてもよい。そこで callback の状態は `σ × Mem` とする。
debugger への知らせは memory を変えないので書かない。
-/

namespace AetherVM

open Infra

/-- `MAKE_RW_MEMORY` の四つの幅。 -/
inductive MemoryWidth where
  | w8
  | w16
  | w32
  | w64
deriving DecidableEq, Repr

/-- `sizeof(T)`。 -/
def MemoryWidth.bytes : MemoryWidth → Nat
  | .w8 => 1
  | .w16 => 2
  | .w32 => 4
  | .w64 => 8

theorem MemoryWidth.pow_bytes_dvd (w : MemoryWidth) : 256 ^ w.bytes ∣ 2 ^ 64 := by
  cases w <;> decide

/-- intrinsic の読み書きするもの。`rvalue` は `CPU.rvalue`、`param` は引数 `in` の置き場所である。 -/
structure IntrinsicState (σ : Type) where
  world : σ
  mem : Mem
  rvalue : UInt64
  param : Nat

/-- `AccessMemory` の返す参照。 -/
inductive MemoryRef where
  | guest (addr : UInt64)
  | rvalue
deriving DecidableEq, Repr

namespace Intrinsic

variable {σ : Type} (callbacks : List (EventCallback (σ × Mem))) (pc : Nat) (w : MemoryWidth)
  (addr : UInt64) (s : IntrinsicState σ)

/-! ## 参照の読み書き -/

def refLoad : MemoryRef → Nat
  | .guest addr => s.mem.loadLE addr.toNat w.bytes
  | .rvalue => s.rvalue.toNat % 256 ^ w.bytes

def refStore (value : Nat) : MemoryRef → IntrinsicState σ
  | .guest addr => { s with mem := s.mem.storeLE addr.toNat w.bytes value }
  | .rvalue =>
    { s with rvalue := s.rvalue - s.rvalue % UInt64.ofNat (256 ^ w.bytes) + UInt64.ofNat value }

/-- 組み込みの代入。C++17 では右辺の値を読み終えてから、左辺を評価する。 -/
def assign (left : IntrinsicState σ → MemoryRef × IntrinsicState σ)
    (right : IntrinsicState σ → Nat) : IntrinsicState σ :=
  let value := right s
  let (ref, s) := left s
  refStore w s value ref

/-! ## `AccessMemory` -/

/-- memory の event に callback の残した値。 -/
def eventValue (ev : Event) : Nat :=
  match ev.body with
  | .memory _ _ value => value
  | _ => 0

/-- 書き込みの event を callback に届けた結果。 -/
def writeAnswer (value : Nat) : Handled (σ × Mem) :=
  handleEvent callbacks 0 (s.world, s.mem) ⟨.memWrite, pc, .memory addr.toNat w.bytes value⟩

/-- 読み出しの event を callback に届けた結果。 -/
def readAnswer : Handled (σ × Mem) :=
  handleEvent callbacks 0 (s.world, s.mem)
    ⟨.memRead, pc, .memory addr.toNat w.bytes (s.mem.loadLE addr.toNat w.bytes)⟩

/-- `AccessMemory`。`write` は `inptr` が `nullptr` でないことである。 -/
def accessMemory (write : Bool) : MemoryRef × IntrinsicState σ :=
  if callbacks.isEmpty then (.guest addr, s)
  else if write then
    let h := writeAnswer callbacks pc w addr s s.param
    let s := { s with world := h.world.1, mem := h.world.2 }
    if h.result = .processed then
      (.guest addr, { s with param := eventValue h.event % 256 ^ w.bytes })
    else (.guest addr, s)
  else
    let h := readAnswer callbacks pc w addr s
    let s := { s with world := h.world.1, mem := h.world.2 }
    if h.result = .processed then
      (.rvalue, { s with rvalue := UInt64.ofNat (eventValue h.event) })
    else (.guest addr, s)

/-- `__remill_read_memory_N`。 -/
def readMemory : Nat × IntrinsicState σ :=
  let (ref, s) := accessMemory callbacks pc w addr s false
  (refLoad w s ref, s)

/-- `__remill_write_memory_N`。 -/
def writeMemory (value : Nat) : IntrinsicState σ :=
  assign w { s with param := value } (fun s => accessMemory callbacks pc w addr s true)
    fun s => s.param

/-! ## 読み書きの結果 -/

variable {callbacks pc w addr s} {value : Nat}

/-- callback が無ければ、event の答えは `Continue` で、何も変わらない。 -/
theorem handleEvent_of_isEmpty {ε : Type} {cbs : List (EventCallback ε)} (h : cbs.isEmpty = true)
    (x : ε) (ev : Event) : handleEvent cbs 0 x ev = ⟨.continue, ev, x, []⟩ := by
  rw [List.isEmpty_iff.mp h]
  rfl

/-- 書き込みの参照は、いつも guest の memory である。引数の置き場所のほかは、callback の残したものになる。 -/
theorem accessMemory_write (callbacks : List (EventCallback (σ × Mem))) (pc : Nat)
    (w : MemoryWidth) (addr : UInt64) (s : IntrinsicState σ) :
    ∃ param, accessMemory callbacks pc w addr s true =
    (.guest addr, { s with
      world := (writeAnswer callbacks pc w addr s s.param).world.1
      mem := (writeAnswer callbacks pc w addr s s.param).world.2
      param := param }) := by
  unfold accessMemory
  split
  · next hempty =>
    refine ⟨s.param, ?_⟩
    rw [writeAnswer, handleEvent_of_isEmpty hempty]
  · rw [if_pos rfl]
    dsimp only
    split
    · exact ⟨_, rfl⟩
    · exact ⟨s.param, rfl⟩

/-- `Processed` なら、読み出しの参照は callback の値を入れた `CPU.rvalue` である。 -/
theorem accessMemory_read_processed
    (h : (readAnswer callbacks pc w addr s).result = .processed) :
    accessMemory callbacks pc w addr s false = (.rvalue, { s with
      world := (readAnswer callbacks pc w addr s).world.1
      mem := (readAnswer callbacks pc w addr s).world.2
      rvalue := UInt64.ofNat (eventValue (readAnswer callbacks pc w addr s).event) }) := by
  unfold accessMemory
  split
  · next hempty =>
    rw [readAnswer, handleEvent_of_isEmpty hempty] at h
    cases h
  · rw [if_neg Bool.false_ne_true]
    exact if_pos h

/-- `Processed` でなければ、guest の memory である。 -/
theorem accessMemory_read_memory (h : (readAnswer callbacks pc w addr s).result ≠ .processed) :
    accessMemory callbacks pc w addr s false = (.guest addr, { s with
      world := (readAnswer callbacks pc w addr s).world.1
      mem := (readAnswer callbacks pc w addr s).world.2 }) := by
  unfold accessMemory
  split
  · next hempty => rw [readAnswer, handleEvent_of_isEmpty hempty]
  · rw [if_neg Bool.false_ne_true]
    exact if_neg h

/-- 書き込みの後の memory は、callback の残した memory に guest の値を書いたものである。 -/
theorem writeMemory_mem : (writeMemory callbacks pc w addr s value).mem =
    (writeAnswer callbacks pc w addr s value).world.2.storeLE addr.toNat w.bytes value := by
  obtain ⟨param, h⟩ := accessMemory_write callbacks pc w addr { s with param := value }
  show (let (ref, s) := accessMemory callbacks pc w addr { s with param := value } true
    refStore w s value ref).mem = _
  rw [h]
  rfl

/-- 読み出す値は、`Processed` なら callback の値で、そうでなければ memory の値である。 -/
theorem readMemory_value : (readMemory callbacks pc w addr s).1 =
    if (readAnswer callbacks pc w addr s).result = .processed then
      eventValue (readAnswer callbacks pc w addr s).event % 256 ^ w.bytes
    else (readAnswer callbacks pc w addr s).world.2.loadLE addr.toNat w.bytes := by
  unfold readMemory
  by_cases hproc : (readAnswer callbacks pc w addr s).result = .processed
  · rw [accessMemory_read_processed hproc, if_pos hproc]
    show (UInt64.ofNat _).toNat % 256 ^ w.bytes = _
    rw [UInt64.toNat_ofNat', Nat.mod_mod_of_dvd _ w.pow_bytes_dvd]
  · rw [accessMemory_read_memory hproc, if_neg hproc]
    rfl

/-- 読み出しは memory を変えない。callback の変えたものだけが変わる。 -/
theorem readMemory_mem : (readMemory callbacks pc w addr s).2.mem =
    (readAnswer callbacks pc w addr s).world.2 := by
  unfold readMemory
  by_cases hproc : (readAnswer callbacks pc w addr s).result = .processed
  · rw [accessMemory_read_processed hproc]
  · rw [accessMemory_read_memory hproc]

/-! ## 書き換えが効くこと -/

/--
event への答えが memory の読み書きに効くこと。`Processed` なら、書く値も読む値も callback の残した値を
幅に切ったもので、そうでなければ guest の値と memory の値である。callback と書いた範囲のほかは memory を変えない。
-/
structure Honours (callbacks : List (EventCallback (σ × Mem))) (pc : Nat) (w : MemoryWidth)
    (addr : UInt64) (s : IntrinsicState σ) (value : Nat) : Prop where
  write : (writeMemory callbacks pc w addr s value).mem.loadLE addr.toNat w.bytes =
    if (writeAnswer callbacks pc w addr s value).result = .processed then
      eventValue (writeAnswer callbacks pc w addr s value).event % 256 ^ w.bytes
    else value
  outside : ∀ a, a < addr.toNat ∨ addr.toNat + w.bytes ≤ a →
    (writeMemory callbacks pc w addr s value).mem a =
      (writeAnswer callbacks pc w addr s value).world.2 a
  read : (readMemory callbacks pc w addr s).1 =
    if (readAnswer callbacks pc w addr s).result = .processed then
      eventValue (readAnswer callbacks pc w addr s).event % 256 ^ w.bytes
    else (readAnswer callbacks pc w addr s).world.2.loadLE addr.toNat w.bytes
  kept : (readMemory callbacks pc w addr s).2.mem = (readAnswer callbacks pc w addr s).world.2

/--
答えが効くのは、書き込みの event の答えが `Processed` でないか、callback の残した値が幅に切ると guest の値に
等しいときに限る。
-/
theorem honours_iff (callbacks : List (EventCallback (σ × Mem))) (pc : Nat) (w : MemoryWidth)
    (addr : UInt64) (s : IntrinsicState σ) (value : BitVec (8 * w.bytes)) :
    Honours callbacks pc w addr s value.toNat ↔
      (writeAnswer callbacks pc w addr s value.toNat).result ≠ .processed ∨
        eventValue (writeAnswer callbacks pc w addr s value.toNat).event % 256 ^ w.bytes =
          value.toNat := by
  have hvalue : value.toNat < 256 ^ w.bytes := by
    rw [show 256 = 2 ^ 8 from rfl, ← Nat.pow_mul]
    exact value.isLt
  -- 右辺は先に読まれるので、memory にはいつも guest の値が入る
  have hstored : (writeMemory callbacks pc w addr s value.toNat).mem.loadLE addr.toNat w.bytes =
      value.toNat := by
    rw [writeMemory_mem, Mem.loadLE_storeLE _ _ hvalue]
  constructor
  · intro h
    by_cases hproc : (writeAnswer callbacks pc w addr s value.toNat).result = .processed
    · have hwrite := h.write
      rw [hstored, if_pos hproc] at hwrite
      exact .inr hwrite.symm
    · exact .inl hproc
  · intro h
    refine ⟨?_, fun a ha => ?_, readMemory_value, readMemory_mem⟩
    · rw [hstored]
      split
      · next hproc => exact (h.resolve_left (not_not_intro hproc)).symm
      · rfl
    · rw [writeMemory_mem, Mem.storeLE_outside ha]

/-- `*addr` に 1 を書く guest と、書く値を 2 にして `Processed` を返す callback。memory には 1 が入る。 -/
theorem sampleOverride_not_honours : ¬ Honours
    [fun (w : Unit × Mem) _ => (.processed, ⟨[], 2⟩, w)] 0x1000 .w32 0x2000
    ⟨(), fun _ => 0, 0, 0⟩ 1 := by
  intro h
  have hwrite := h.write
  rw [writeMemory_mem, Mem.loadLE_storeLE _ _ (by decide)] at hwrite
  revert hwrite
  decide

/-! ## 実行の一歩との対応 -/

/-- guest の memory に触れない callback。 -/
def keepMemory (callback : EventCallback σ) : EventCallback (σ × Mem) := fun (w, m) ev =>
  let (result, edit, w) := callback w ev
  (result, edit, (w, m))

/-- memory に触れない callback だけなら、event の答えは同じで、memory は変わらない。 -/
theorem handleEvent_keepMemory (cbs : List (EventCallback σ)) (i : Nat) (x : σ) (m : Mem)
    (ev : Event) : handleEvent (cbs.map keepMemory) i (x, m) ev =
      let h := handleEvent cbs i x ev
      ⟨h.result, h.event, (h.world, m), h.log⟩ := by
  induction cbs generalizing i x ev with
  | nil => rfl
  | cons callback rest ih =>
    simp only [List.map_cons, handleEvent, keepMemory, ih]
    split
    · rfl
    · rfl

theorem body_edit {mem size v : Nat} {ev : Event} (h : ev.body = .memory mem size v)
    (e : EventEdit) : (ev.edit e).body = .memory mem size e.value := by
  unfold Event.edit
  rw [h]

/-- memory の event は、callback を経ても memory の event である。 -/
theorem body_handleEvent (cbs : List (EventCallback σ)) (i : Nat) (x : σ) {mem size v : Nat}
    {ev : Event} (h : ev.body = .memory mem size v) :
    ∃ v', (handleEvent cbs i x ev).event.body = .memory mem size v' := by
  induction cbs generalizing i x ev v with
  | nil => exact ⟨v, h⟩
  | cons callback rest ih =>
    unfold handleEvent
    dsimp only
    split
    · exact ih _ _ (body_edit h _)
    · exact ⟨_, body_edit h _⟩

section Exec

variable {γ : Type} {e : Engine σ γ} {x : Vm σ γ} {p : Orchestrator.Slot}
  {guest : γ}

/-- guest の memory を byte の並びとして見たもの。 -/
structure MemoryView (e : Engine σ γ) where
  view : γ → Mem
  load : ∀ g addr n, e.load g addr n = (view g).loadLE addr n
  store : ∀ g addr n value, view (e.store g addr n value) = (view g).storeLE addr n value

/-- 実行の一歩の書き込みは、この intrinsic の書き込みである。 -/
theorem execCode_writeMemory (g : MemoryView e) (rvalue : UInt64) (param value : Nat)
    (k : γ → GuestCode γ) :
    let x' := x.execCode e p (.writeMemory guest addr.toNat w.bytes value k)
    let s' := writeMemory (e.callbacks.map keepMemory) (e.pc guest) w addr
      ⟨x.world, g.view guest, rvalue, param⟩ value
    g.view x'.guest = s'.mem ∧ x'.control = .code p (k x'.guest) := by
  refine ⟨?_, rfl⟩
  rw [writeMemory_mem, writeAnswer, handleEvent_keepMemory]
  exact g.store _ _ _ _

/-- 実行の一歩の読み出しは、この intrinsic の読み出しである。 -/
theorem execCode_readMemory (g : MemoryView e) (rvalue : UInt64) (param : Nat)
    (k : Nat → GuestCode γ) :
    let x' := x.execCode e p (.readMemory guest addr.toNat w.bytes k)
    let r := readMemory (e.callbacks.map keepMemory) (e.pc guest) w addr
      ⟨x.world, g.view guest, rvalue, param⟩
    x'.control = .code p (k r.1) ∧ g.view x'.guest = r.2.mem := by
  have hload := g.load guest addr.toNat w.bytes
  refine ⟨?_, ?_⟩
  · rw [readMemory_value, readAnswer, handleEvent_keepMemory, ← hload]
    have hevent : (⟨.memRead, e.pc guest, .memory addr.toNat w.bytes
        (e.load guest addr.toNat w.bytes)⟩ : Event).body = .memory addr.toNat w.bytes
          (e.load guest addr.toNat w.bytes) := rfl
    obtain ⟨v, hbody⟩ := body_handleEvent e.callbacks 0 x.world hevent
    show Control.code p (k (Vm.answeredValue _ _ _ _)) = _
    unfold Vm.answeredValue eventValue
    rw [hbody]
    generalize (handleEvent e.callbacks 0 x.world ⟨.memRead, e.pc guest,
      .memory addr.toNat w.bytes (e.load guest addr.toNat w.bytes)⟩).result = result
    cases result
    · rfl
    · rfl
    · rfl
  · rw [readMemory_mem, readAnswer, handleEvent_keepMemory]
    rfl

end Exec

end Intrinsic

end AetherVM
