import Mathlib.Tactic.Ring
import AetherVM.Infra.Run

/-!
# guest の memory（`src/Memory.h`、`src/Memory.cpp`）

guest の memory は 3 GiB を予約し、`commit` で少しずつ使えるようにする。`m_offset` は、先頭からここまでが
commit 済みであるという印として `valid` や `guestAvailable` が使う。`commit` は `m_offset` を
`vmaddr` と関係なく進め、しかも `page_commit` の前に進める。和は 64 bit で計算する。
-/

namespace AetherVM

open Infra

/-- `commit` の引数と、`page_commit` が成功するかどうか。 -/
structure CommitCall where
  vmaddr : UInt64
  size : UInt64
  read : Bool
  write : Bool
  success : Bool
deriving DecidableEq, Repr

/-- `GuestMemory`。`committed` は、`page_commit` の成功した範囲の始まりと大きさである。 -/
structure GuestMemory where
  basePointer : UInt64
  offset : UInt64
  committed : List (UInt64 × UInt64)
deriving DecidableEq, Repr

namespace GuestMemory

def guestSize : UInt64 := 3 * 1024 * 1024 * 1024

/-- 構築子。`page_alloc` の返す address は任意である。 -/
def new (basePointer : UInt64) : GuestMemory := ⟨basePointer, 0, []⟩

variable (m : GuestMemory)

def guestAvailable : UInt64 := m.basePointer + m.offset

/-- `commit` が、空きが無いとみなして何もしないこと。 -/
def Rejects (c : CommitCall) : Prop :=
  guestSize ≤ m.offset + c.size ∨ guestSize ≤ c.vmaddr - m.basePointer + c.size

instance (c : CommitCall) : Decidable (m.Rejects c) :=
  inferInstanceAs (Decidable (_ ∨ _))

/-- `GuestMemory::commit`。返り値と、呼んだ後の状態である。 -/
def commit (c : CommitCall) : Bool × GuestMemory :=
  if m.Rejects c then (false, m)
  else
    (c.success, { m with
      offset := m.offset + c.size
      committed := if c.success then (c.vmaddr, c.size) :: m.committed else m.committed })

/-- `addr` の byte が commit 済みであること。差は 64 bit で計算する。 -/
def Committed (addr : UInt64) : Prop := ∃ r ∈ m.committed, addr - r.1 < r.2

/-- 先頭から `m_offset` までの byte がすべて commit 済みで、`m_offset` が予約を越えないこと。 -/
structure Accounted : Prop where
  prefixCommitted : ∀ addr, addr - m.basePointer < m.offset → m.Committed addr
  offset_le : m.offset ≤ guestSize

/-- 一度の呼び出しが守るべきこと。 -/
structure StepAccounted (c : CommitCall) : Prop where
  accounted : (m.commit c).2.Accounted
  mono : m.offset ≤ (m.commit c).2.offset
  unchanged : (m.commit c).1 = false → (m.commit c).2.offset = m.offset

/--
呼び出しの条件。空きが無いとみなされるか、大きさが 0 であるか、次に空いている address から、64 bit を
越えない大きさを、`page_commit` に成功して取るかである。
-/
def Ok (c : CommitCall) : Prop :=
  m.Rejects c ∨ c.size = 0 ∨
    c.vmaddr = m.guestAvailable ∧ m.offset.toNat + c.size.toNat < 2 ^ 64 ∧ c.success = true

instance (c : CommitCall) : Decidable (m.Ok c) := inferInstanceAs (Decidable (_ ∨ _ ∨ _))

/-! ## 一度の呼び出し -/

variable {m} {c : CommitCall}

theorem guestSize_toNat : guestSize.toNat = 3221225472 := rfl

/-- commit 済みの byte が、ちょうど先頭から `m_offset` までであること。 -/
structure Exact (m : GuestMemory) : Prop where
  iff : ∀ addr, m.Committed addr ↔ addr - m.basePointer < m.offset
  offset_lt : m.offset < guestSize

theorem Exact.accounted (h : m.Exact) : m.Accounted where
  prefixCommitted := fun addr => (h.iff addr).mpr
  offset_le := UInt64.le_of_lt h.offset_lt

theorem exact_new (basePointer : UInt64) : (new basePointer).Exact where
  iff := fun addr => by
    refine iff_of_false ?_ (UInt64.not_lt_zero)
    rintro ⟨r, hr, -⟩
    exact absurd hr List.not_mem_nil
  offset_lt := show (0 : UInt64) < guestSize by decide

theorem commit_of_rejects (h : m.Rejects c) : m.commit c = (false, m) := if_pos h

theorem commit_of_not_rejects (h : ¬ m.Rejects c) : m.commit c = (c.success, { m with
    offset := m.offset + c.size
    committed := if c.success then (c.vmaddr, c.size) :: m.committed else m.committed }) := if_neg h

/-- 通った呼び出しでは、どちらの和も予約より小さい。 -/
theorem lt_of_not_rejects (h : ¬ m.Rejects c) :
    (m.offset.toNat + c.size.toNat) % 2 ^ 64 < 3221225472 ∧
      ((c.vmaddr - m.basePointer).toNat + c.size.toNat) % 2 ^ 64 < 3221225472 := by
  obtain ⟨h1, h2⟩ := not_or.mp h
  rw [UInt64.not_le, UInt64.lt_iff_toNat_lt, UInt64.toNat_add, guestSize_toNat] at h1 h2
  exact ⟨h1, h2⟩

theorem committed_commit (h : ¬ m.Rejects c) (addr : UInt64) :
    (m.commit c).2.Committed addr ↔
      (c.success = true ∧ addr - c.vmaddr < c.size) ∨ m.Committed addr := by
  rw [commit_of_not_rejects h]
  unfold Committed
  cases c.success with
  | false => simp
  | true => simp

/-- 次に空いている address から取った範囲は、先頭からの範囲にちょうど続く。 -/
theorem sub_lt_append_iff {base offset size : UInt64}
    (hwrap : offset.toNat + size.toNat < 2 ^ 64) (addr : UInt64) :
    addr - (base + offset) < size ∨ addr - base < offset ↔ addr - base < offset + size := by
  have haddr : addr - (base + offset) = (addr - base) - offset := by grind
  rw [haddr]
  generalize addr - base = d
  have hd := d.toNat_lt
  simp only [UInt64.lt_iff_toNat_lt, UInt64.toNat_sub, UInt64.toNat_add]
  omega

theorem Exact.commit (h : m.Exact) (hok : m.Ok c) : (m.commit c).2.Exact := by
  by_cases hrej : m.Rejects c
  · rw [commit_of_rejects hrej]
    exact h
  have hlt := (lt_of_not_rejects hrej).1
  have hoff : (m.commit c).2.offset = m.offset + c.size := by rw [commit_of_not_rejects hrej]
  have hbase : (m.commit c).2.basePointer = m.basePointer := by rw [commit_of_not_rejects hrej]
  refine ⟨fun addr => ?_, ?_⟩
  · rw [committed_commit hrej, h.iff, hoff, hbase]
    rcases hok.resolve_left hrej with hsize | ⟨hvm, hwrap, hsuccess⟩
    · rw [hsize, UInt64.add_zero]
      exact or_iff_right fun hc => UInt64.not_lt_zero hc.2
    · rw [hvm, hsuccess, guestAvailable, ← sub_lt_append_iff hwrap addr]
      simp
  · rw [hoff, UInt64.lt_iff_toNat_lt, UInt64.toNat_add, guestSize_toNat]
    exact hlt

/-- 条件を満たす呼び出しは、守るべきことを守る。 -/
theorem Exact.stepAccounted (h : m.Exact) (hok : m.Ok c) : m.StepAccounted c := by
  refine ⟨(h.commit hok).accounted, ?_, ?_⟩
  · by_cases hrej : m.Rejects c
    · rw [commit_of_rejects hrej]
      exact UInt64.le_refl _
    rw [commit_of_not_rejects hrej]
    show m.offset ≤ m.offset + c.size
    rcases hok.resolve_left hrej with hsize | ⟨-, hwrap, -⟩
    · rw [hsize, UInt64.add_zero]
      exact UInt64.le_refl _
    · rw [UInt64.le_iff_toNat_le, UInt64.toNat_add, Nat.mod_eq_of_lt hwrap]
      exact Nat.le_add_right _ _
  · intro hfalse
    by_cases hrej : m.Rejects c
    · rw [commit_of_rejects hrej]
    rw [commit_of_not_rejects hrej] at hfalse ⊢
    show m.offset + c.size = m.offset
    rcases hok.resolve_left hrej with hsize | ⟨-, -, hsuccess⟩
    · rw [hsize, UInt64.add_zero]
    · have hfalse : c.success = false := hfalse
      rw [hsuccess] at hfalse
      cases hfalse

/-- 大きさ `size` の範囲が `[offset, offset + size)` を覆うなら、始まりは `offset` である。 -/
theorem eq_of_covers {v offset size : UInt64} (hsize : size ≠ 0)
    (hlt : offset.toNat + size.toNat < 3221225472)
    (hcover : ∀ d : UInt64, d < offset + size → d - v < size ∨ d < offset) : v = offset := by
  have hpos : 0 < size.toNat := Nat.pos_of_ne_zero fun h0 => hsize (UInt64.toNat_inj.mp h0)
  have hv := v.toNat_lt
  -- 覆うべき範囲の最初と最後の byte を見る
  have hfirst := hcover offset
  have hlast := hcover (offset + size - 1)
  simp only [UInt64.lt_iff_toNat_lt, UInt64.toNat_sub, UInt64.toNat_add, UInt64.reduceToNat]
    at hfirst hlast
  apply UInt64.toNat_inj.mp
  omega

/-- 守るべきことを守る呼び出しは、条件を満たす。 -/
theorem Exact.ok_of_stepAccounted (h : m.Exact) (hstep : m.StepAccounted c) : m.Ok c := by
  by_cases hrej : m.Rejects c
  · exact .inl hrej
  by_cases hsize : c.size = 0
  · exact .inr (.inl hsize)
  obtain ⟨haccounted, hmono, hunchanged⟩ := hstep
  have hlt := (lt_of_not_rejects hrej).1
  have hpos : 0 < c.size.toNat := Nat.pos_of_ne_zero fun h0 => hsize (UInt64.toNat_inj.mp h0)
  have hcommit := commit_of_not_rejects hrej
  -- offset が減らないことから、足し算は折り返さない
  have hwrap : m.offset.toNat + c.size.toNat < 2 ^ 64 := by
    rw [hcommit] at hmono
    have hmono : m.offset ≤ m.offset + c.size := hmono
    rw [UInt64.le_iff_toNat_le, UInt64.toNat_add] at hmono
    have hc := c.size.toNat_lt
    omega
  rw [Nat.mod_eq_of_lt hwrap] at hlt
  -- 失敗なら offset は変わらないはずだが、code は成否を見ずに進める
  have hsuccess : c.success = true := by
    cases hs : c.success with
    | true => rfl
    | false =>
      rw [hcommit, hs] at hunchanged
      have heq : (m.offset + c.size).toNat = m.offset.toNat :=
        congrArg UInt64.toNat (hunchanged rfl)
      rw [UInt64.toNat_add, Nat.mod_eq_of_lt hwrap] at heq
      omega
  refine .inr (.inr ⟨?_, hwrap, hsuccess⟩)
  -- 数えた範囲はすべて commit 済みなので、今回の範囲は前の終わりから始まる
  have hv : c.vmaddr - m.basePointer = m.offset := by
    refine eq_of_covers hsize hlt fun d hd => ?_
    have hbase : (m.commit c).2.basePointer = m.basePointer := by rw [hcommit]
    have hoff : (m.commit c).2.offset = m.offset + c.size := by rw [hcommit]
    have hcommitted := haccounted.prefixCommitted (d + m.basePointer)
      (by rw [hbase, hoff, UInt64.add_sub_cancel]; exact hd)
    rw [committed_commit hrej, h.iff, UInt64.add_sub_cancel] at hcommitted
    refine hcommitted.imp_left fun hc => ?_
    have heq : d + m.basePointer - c.vmaddr = d - (c.vmaddr - m.basePointer) := by grind
    rw [← heq]
    exact hc.2
  rw [guestAvailable, ← hv, UInt64.add_comm, UInt64.sub_add_cancel]

/--
条件を満たす呼び出しだけで着く状態では、先頭から `m_offset` までが commit 済みで、`m_offset` は予約を
越えない。そこからの呼び出しがそれを保ち、`m_offset` を減らさず、失敗なら変えないのは、条件を満たす
ときに限る。
-/
theorem run_accounted {basePointer : UInt64}
    (h : Run (fun m c m' => (m.commit c).2 = m') Ok (new basePointer) m) :
    m.Accounted ∧ ∀ c, m.StepAccounted c ↔ m.Ok c := by
  have hexact : m.Exact := h.invariant (exact_new basePointer) fun m c m' hm hok hs => by
    rw [← hs]
    exact hm.commit hok
  exact ⟨hexact.accounted, fun c => ⟨hexact.ok_of_stepAccounted, hexact.stepAccounted⟩⟩

/-! ## 例 -/

/-- 次に空いている address から一 page ずつ二度取る。 -/
theorem sampleCommits_accounted : ∃ m : GuestMemory,
    Run (fun m c m' => (m.commit c).2 = m') Ok (new 0x10000) m ∧ m.offset = 0x2000 ∧
      m.Accounted := by
  have hrun : Run (fun m c m' => (GuestMemory.commit m c).2 = m') Ok (new 0x10000)
      ⟨0x10000, 0x2000, [(0x11000, 0x1000), (0x10000, 0x1000)]⟩ :=
    .tail (i := ⟨0x11000, 0x1000, true, true, true⟩)
      (.tail (i := ⟨0x10000, 0x1000, true, true, true⟩) .refl (by decide) rfl) (by decide) rfl
  exact ⟨_, hrun, rfl, (run_accounted hrun).1⟩

/-- image の base が 0 でない binary の commit。`m_offset` は進むが、先頭の byte は commit されない。 -/
theorem sampleImage_not_accounted :
    ¬ ((new 0x10000).commit ⟨0x10000 + 0x400000, 0x1000, true, true, true⟩).2.Accounted := by
  intro h
  obtain ⟨r, hr, hlt⟩ := h.prefixCommitted 0x10000 (by decide)
  rw [List.mem_singleton.mp hr] at hlt
  exact absurd hlt (by decide)

end GuestMemory

end AetherVM
