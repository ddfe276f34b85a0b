import AetherVM.Engine.OptIn
import AetherVM.Orchestrator.Lookup

/-!
# block の event の釣り合い（`src/Orchestrator.cpp` の `encode`、`src/Event.cpp`）

`encode` は `block_after` の slot を、次の block を始めるときに、前の block の後ろに足す。

* 分岐・呼び出し・復帰で終わる block では、制御を移す slot が先にあるので、`block_after` に着かない。
* 関数の最後の block には、`block_after` の slot が無い。

参照される命令の前で切れた block だけが、前後の event を一つずつ起こす。
-/

namespace AetherVM

open Infra

namespace Orchestrator

/-- 実行すると block を離れる slot の関数。`abort` するものは含まない。 -/
def EventFunc.leaves : EventFunc → Bool
  | .jumpInterpret | .callInterpret | .finishFunction | .finishEmulation => true
  | _ => false

def Instruction.leaves (x : Instruction) : Bool :=
  match x.handler with
  | .func f => f.leaves
  | .entry _ => false

/-- block の前と後。 -/
inductive BlockSide where
  | before
  | after
deriving DecidableEq, Repr

def BlockSide.func : BlockSide → EventFunc
  | before => .blockBefore
  | after => .blockAfter

def BlockSide.type : BlockSide → EventType
  | before => .blockBefore
  | after => .blockAfter

/-- slot が block の前か後の event のものであること。 -/
def Instruction.notifies (x : Instruction) (side : BlockSide) : Bool :=
  decide (x.handler = .func side.func)

def slotCount (side : BlockSide) (xs : List Instruction) : Nat := xs.countP (·.notifies side)

/--
block の slot の列で、前後の event が釣り合うこと。前の slot は一つだけ先頭にあり、後の slot は一つだけ、
block を離れるどの slot よりも前にある。関数の最初の block では、関数の event が先頭の前に来る。
-/
structure Balanced (xs : List Instruction) : Prop where
  before_once : slotCount .before xs = 1
  before_first : ∀ pre x post, xs = pre ++ x :: post → x.notifies .before = true →
    ∀ y ∈ pre, y.handler = .func .funcBefore
  after_once : slotCount .after xs = 1
  after_before_leaving : ∀ pre x post, xs = pre ++ x :: post → x.leaves = true →
    slotCount .after pre = 1

/-- 関数の `k` 番目の block が、次の block の先頭へ進んで終わること。 -/
def FallsThrough (segs : List Segment) (k : Nat) (s : Segment) : Prop :=
  k + 1 < segs.length ∧ ∀ p ∈ s.insns, endsBlock p.2 = false

/-! ## slot の列 -/

section Slots

variable {cfg : EventConfig} {arch : ArchType} {lifted : Bytes → Option UInt64} {side : BlockSide}
  {xs ys : List Instruction}

theorem slotCount_append : slotCount side (xs ++ ys) = slotCount side xs + slotCount side ys :=
  List.countP_append

theorem slotCount_eq_zero (h : ∀ x ∈ xs, x.notifies side = false) : slotCount side xs = 0 := by
  unfold slotCount
  rw [List.countP_eq_zero]
  intro x hx
  rw [h x hx]
  exact Bool.false_ne_true

theorem notifies_of_leaves {x : Instruction} (h : x.leaves = true) :
    x.notifies side = false := by
  unfold Instruction.leaves at h
  split at h
  · next f hf =>
    simp only [Instruction.notifies, hf, HandlerRef.func.injEq, decide_eq_false_iff_not]
    rintro rfl
    cases side <;> cases h
  · cases h

/-- block の前後の event でも、block を離れる slot でもないこと。 -/
def Instruction.plain (x : Instruction) : Prop :=
  x.leaves = false ∧ ∀ side, x.notifies side = false

/-- 命令の前の event の次には、飛ばしてよい slot がある。 -/
def Guarded : List Instruction → Prop
  | [] => True
  | x :: rest => (x.handler = .func .insnBefore → ∃ y ∈ rest.head?, y.plain) ∧ Guarded rest

theorem guarded_append (hx : Guarded xs) (hy : Guarded ys) : Guarded (xs ++ ys) := by
  induction xs with
  | nil => exact hy
  | cons x rest ih =>
    refine ⟨fun h => ?_, ih hx.2⟩
    obtain ⟨y, hmem, hplain⟩ := hx.1 h
    cases rest with
    | nil => cases hmem
    | cons z rest => exact ⟨y, hmem, hplain⟩

theorem guarded_of_forall (h : ∀ x ∈ xs, x.handler ≠ .func .insnBefore) : Guarded xs := by
  induction xs with
  | nil => trivial
  | cons x rest ih =>
    refine ⟨fun hx => absurd hx (h x List.mem_cons_self), ih fun y hy => ?_⟩
    exact h y (List.mem_cons_of_mem _ hy)

theorem Guarded.next {i : Nat} {x : Instruction} (h : Guarded xs) (hi : xs[i]? = some x)
    (hx : x.handler = .func .insnBefore) : ∃ y, xs[i + 1]? = some y ∧ y.plain := by
  induction xs generalizing i with
  | nil => cases hi
  | cons z rest ih =>
    cases i with
    | zero =>
      cases hi
      obtain ⟨y, hy, hplain⟩ := h.1 hx
      rw [Option.mem_def, List.head?_eq_getElem?] at hy
      exact ⟨y, hy, hplain⟩
    | succ i => exact ih h.2 hi

/-! ## 命令一つの slot -/

theorem mem_setupEvent {f : EventFunc} {x : Instruction} (h : x ∈ setupEvent cfg f) :
    x = .ofEvent f := by
  unfold setupEvent at h
  split at h
  all_goals first
    | (split at h
       · exact List.mem_singleton.mp h
       · cases h)
    | cases h

theorem setupEvent_side (hblock : cfg.block = true) (side : BlockSide) :
    setupEvent cfg side.func = [.ofEvent side.func] := by
  cases side <;> exact if_pos hblock

theorem plain_ofEvent {f : EventFunc} (hleaves : f.leaves = false)
    (hside : ∀ side : BlockSide, f ≠ side.func) : (Instruction.ofEvent f).plain := by
  refine ⟨hleaves, fun side => decide_eq_false fun h => ?_⟩
  cases h
  exact hside side rfl

theorem plain_realSlot (i : Insn) : (realSlot lifted i).plain := by
  unfold realSlot
  split
  · exact ⟨rfl, fun side => by cases side <;> rfl⟩
  · exact ⟨rfl, fun side => by cases side <;> rfl⟩

theorem mem_beforeSlots {x : Instruction} (h : x ∈ beforeSlots cfg) :
    x = .ofEvent .insnBefore ∨ x = .ofEvent .debugging := by
  rcases List.mem_append.mp h with h | h
  · exact .inl (mem_setupEvent h)
  · split at h
    · exact .inr (List.mem_singleton.mp h)
    · cases h

/-- 命令の後の slot は、event のものか、block を終わらせる命令の離れる slot である。 -/
theorem mem_afterSlots {i : Insn} {x : Instruction} (h : x ∈ afterSlots cfg arch i) :
    x.plain ∧ x.handler ≠ .func .insnBefore ∨ x.leaves = true ∧ endsBlock i = true := by
  have hplain : ∀ f : EventFunc, x = .ofEvent f → f.leaves = false →
      (∀ side : BlockSide, f ≠ side.func) → f ≠ .insnBefore →
      x.plain ∧ x.handler ≠ .func .insnBefore ∨ x.leaves = true ∧ endsBlock i = true := by
    rintro f rfl hleaves hside hne
    exact .inl ⟨plain_ofEvent hleaves hside, fun h => hne (HandlerRef.func.inj h)⟩
  rcases List.mem_append.mp h with h | h
  · split at h
    · split at h
      · exact hplain .syscallInterpret (List.mem_singleton.mp h) rfl
          (fun side => by cases side <;> nofun) nofun
      · cases h
    · split at h
      · exact hplain .interruptInterpret (List.mem_singleton.mp h) rfl
          (fun side => by cases side <;> nofun) nofun
      · cases h
    · exact hplain .insnAfter (mem_setupEvent h) rfl (fun side => by cases side <;> nofun) nofun
  · unfold endsBlock
    split at h
    · rw [List.mem_singleton.mp h]
      exact .inr ⟨rfl, rfl⟩
    · rw [List.mem_singleton.mp h]
      exact .inr ⟨rfl, rfl⟩
    · rw [List.mem_singleton.mp h]
      exact .inr ⟨rfl, rfl⟩
    · rcases List.mem_append.mp h with h | h
      · exact (hplain .funcAfter (mem_setupEvent h) rfl (fun side => by cases side <;> nofun)
          nofun).imp_right fun h => ⟨h.1, rfl⟩
      · rw [List.mem_singleton.mp h]
        exact .inr ⟨rfl, rfl⟩
    · cases h

theorem notifies_insnSlots {i : Insn} {x : Instruction} (h : x ∈ insnSlots cfg arch lifted i) :
    x.notifies side = false := by
  rcases List.mem_append.mp h with h | h
  · rcases mem_beforeSlots h with rfl | rfl
    · cases side <;> rfl
    · cases side <;> rfl
  · rcases List.mem_cons.mp h with rfl | h
    · exact (plain_realSlot i).2 side
    · rcases mem_afterSlots h with ⟨hplain, -⟩ | ⟨hleaves, -⟩
      · exact hplain.2 side
      · exact notifies_of_leaves hleaves

theorem leaves_insnSlots_iff {i : Insn} :
    (∃ x ∈ insnSlots cfg arch lifted i, x.leaves = true) ↔ endsBlock i = true := by
  constructor
  · rintro ⟨x, hx, hleaves⟩
    rcases List.mem_append.mp hx with hx | hx
    · rcases mem_beforeSlots hx with rfl | rfl <;> cases hleaves
    · rcases List.mem_cons.mp hx with rfl | hx
      · rw [(plain_realSlot i).1] at hleaves
        cases hleaves
      · rcases mem_afterSlots hx with ⟨hplain, -⟩ | ⟨-, hends⟩
        · rw [hplain.1] at hleaves
          cases hleaves
        · exact hends
  · intro hends
    have hafter : ∃ x ∈ afterSlots cfg arch i, x.leaves = true := by
      unfold endsBlock at hends
      split at hends
      · next htype => exact ⟨.ofEvent .jumpInterpret, by simp [afterSlots, htype], rfl⟩
      · next htype => exact ⟨.ofEvent .jumpInterpret, by simp [afterSlots, htype], rfl⟩
      · next htype => exact ⟨.ofEvent .callInterpret, by simp [afterSlots, htype], rfl⟩
      · next htype => exact ⟨.ofEvent .finishFunction, by simp [afterSlots, htype], rfl⟩
      · cases hends
    obtain ⟨x, hx, hleaves⟩ := hafter
    exact ⟨x, List.mem_append_right _ (List.mem_cons_of_mem _ hx), hleaves⟩

theorem guarded_insnSlots (i : Insn) : Guarded (insnSlots cfg arch lifted i) := by
  have hreal : Guarded (realSlot lifted i :: afterSlots cfg arch i) := by
    refine ⟨fun h => ?_, guarded_of_forall fun x hx h => ?_⟩
    · unfold realSlot at h
      split at h <;> cases h
    · rcases mem_afterSlots hx with ⟨-, hne⟩ | ⟨hleaves, -⟩
      · exact hne h
      · rw [Instruction.leaves, h] at hleaves
        cases hleaves
  have hdebug : (Instruction.ofEvent .debugging).plain :=
    plain_ofEvent rfl fun side => by cases side <;> nofun
  unfold insnSlots beforeSlots setupEvent
  cases cfg.insn with
  | false =>
    cases cfg.debug with
    | false => exact hreal
    | true => exact ⟨nofun, hreal⟩
  | true =>
    cases cfg.debug with
    | false => exact ⟨fun _ => ⟨_, rfl, plain_realSlot i⟩, hreal⟩
    | true => exact ⟨fun _ => ⟨_, rfl, hdebug⟩, nofun, hreal⟩

end Slots

/-! ## block の slot -/

/-- block の前後の slot の形。`follows` は、関数の中に次の block があることである。 -/
structure Segment.Framed (s : Segment) (follows : Prop) : Prop where
  pre : ∃ head, (∀ x ∈ head, x = .ofEvent .funcBefore) ∧ s.pre = head ++ [.ofEvent .blockBefore]
  post : follows → s.post = [.ofEvent .blockAfter]
  last : ¬ follows → ∀ x ∈ s.post, x = .ofEvent .finishEmulation

/-- 最後の block の後ろに足す slot。 -/
def Binary.fin (bin : Binary) : List Instruction :=
  if bin.functions.length = 1 then [.ofEvent .finishEmulation] else []

/-- block の命令の slot。 -/
def Segment.body (cfg : EventConfig) (arch : ArchType) (lifted : Bytes → Option UInt64)
    (s : Segment) : List Instruction := s.insns.flatMap fun p => insnSlots cfg arch lifted p.2

section Segments

variable {cfg : EventConfig} {arch : ArchType} {lifted : Bytes → Option UInt64} {s : Segment}
  {follows : Prop} {side : BlockSide} {addr addend k : Nat} {fin : List Instruction}

theorem segmentInsns_length_pos (insns : List Insn) (first newbb : Bool) (cur : Segment) :
    0 < (segmentInsns cfg addr addend fin insns first newbb cur).length := by
  induction insns generalizing first newbb cur with
  | nil => exact Nat.zero_lt_one
  | cons i rest ih =>
    rw [segmentInsns]
    split
    · exact Nat.succ_pos _
    · exact ih _ _ _

/-- 最後でない segment は、後の event の slot で閉じる。 -/
theorem segmentInsns_frame (insns : List Insn) (first newbb : Bool) (cur : Segment) (k : Nat)
    (hk : (segmentInsns cfg addr addend fin insns first newbb cur)[k]? = some s) :
    s.pre = (if k = 0 then cur.pre else setupEvent cfg .blockBefore) ∧
      s.post = if k + 1 < (segmentInsns cfg addr addend fin insns first newbb cur).length
        then setupEvent cfg .blockAfter else fin := by
  induction insns generalizing first newbb cur k with
  | nil =>
    cases k with
    | zero => cases hk; exact ⟨rfl, rfl⟩
    | succ k => cases hk
  | cons i rest ih =>
    rw [segmentInsns] at hk ⊢
    split at hk
    · next hsplit =>
      rw [if_pos hsplit, List.length_cons]
      cases k with
      | zero =>
        cases hk
        refine ⟨rfl, (if_pos ?_).symm⟩
        exact Nat.succ_lt_succ (segmentInsns_length_pos _ _ _ _)
      | succ k =>
        obtain ⟨hpre, hpost⟩ := ih _ _ _ k hk
        refine ⟨?_, ?_⟩
        · rw [hpre, if_neg (Nat.succ_ne_zero k)]
          exact ite_self _
        · rw [hpost]
          simp only [Nat.add_lt_add_iff_right]
    · next hsplit =>
      rw [if_neg hsplit]
      exact ih _ _ _ k hk

theorem segmentFunc_framed (hblock : cfg.block = true)
    (hfin : ∀ x ∈ fin, x = .ofEvent .finishEmulation) {f : Func}
    (hk : (segmentFunc cfg addend fin f)[k]? = some s) :
    s.Framed (k + 1 < (segmentFunc cfg addend fin f).length) := by
  obtain ⟨hpre, hpost⟩ := segmentInsns_frame _ _ _ _ k hk
  have hbefore : setupEvent cfg .blockBefore = [.ofEvent .blockBefore] :=
    setupEvent_side hblock .before
  have hafter : setupEvent cfg .blockAfter = [.ofEvent .blockAfter] :=
    setupEvent_side hblock .after
  refine ⟨?_, fun h => ?_, fun h => ?_⟩
  · rw [hbefore] at hpre
    split at hpre
    · exact ⟨_, fun x hx => mem_setupEvent hx, hpre⟩
    · exact ⟨[], nofun, hpre⟩
  · rw [hpost, ← hafter]
    exact if_pos h
  · rw [hpost]
    exact (if_neg h).symm ▸ hfin

namespace Segment.Framed

variable (h : s.Framed follows)

include h

theorem notifies_pre {x : Instruction} (hx : x ∈ s.pre) : x.notifies .after = false := by
  obtain ⟨head, hhead, hpre⟩ := h.pre
  rw [hpre, List.mem_append, List.mem_singleton] at hx
  rcases hx with hx | rfl
  · rw [hhead x hx]
    rfl
  · rfl

theorem leaves_pre {x : Instruction} (hx : x ∈ s.pre) : x.leaves = false := by
  obtain ⟨head, hhead, hpre⟩ := h.pre
  rw [hpre, List.mem_append, List.mem_singleton] at hx
  rcases hx with hx | rfl
  · rw [hhead x hx]
    rfl
  · rfl

theorem before_pre : slotCount .before s.pre = 1 := by
  obtain ⟨head, hhead, hpre⟩ := h.pre
  rw [hpre, slotCount_append, slotCount_eq_zero fun x hx => by rw [hhead x hx]; rfl]
  rfl

theorem notifies_post {x : Instruction} (hx : x ∈ s.post) : x.notifies .before = false := by
  by_cases hfollows : follows
  · rw [h.post hfollows, List.mem_singleton] at hx
    rw [hx]
    rfl
  · rw [h.last hfollows x hx]
    rfl

theorem leaves_post (hfollows : follows) {x : Instruction} (hx : x ∈ s.post) :
    x.leaves = false := by
  rw [h.post hfollows, List.mem_singleton] at hx
  rw [hx]
  rfl

theorem notifies_last (hlast : ¬ follows) {x : Instruction} (hx : x ∈ s.post) :
    x.notifies .after = false := by
  rw [h.last hlast x hx]
  rfl

end Segment.Framed

theorem Segment.slots_eq : s.slots cfg arch lifted = s.pre ++ (s.body cfg arch lifted ++ s.post) :=
  List.append_assoc _ _ _

theorem notifies_body {x : Instruction} (hx : x ∈ s.body cfg arch lifted) :
    x.notifies side = false := by
  obtain ⟨p, -, hx⟩ := List.mem_flatMap.mp hx
  exact notifies_insnSlots hx

theorem leaves_body_iff : (∃ x ∈ s.body cfg arch lifted, x.leaves = true) ↔
    ∃ p ∈ s.insns, endsBlock p.2 = true := by
  constructor
  · rintro ⟨x, hx, hleaves⟩
    obtain ⟨p, hp, hx⟩ := List.mem_flatMap.mp hx
    exact ⟨p, hp, leaves_insnSlots_iff.mp ⟨x, hx, hleaves⟩⟩
  · rintro ⟨p, hp, hends⟩
    obtain ⟨x, hx, hleaves⟩ := leaves_insnSlots_iff.mpr hends
    exact ⟨x, List.mem_flatMap.mpr ⟨p, hp, hx⟩, hleaves⟩

/-- 命令が block を終わらせなければ、命令の slot は block を離れない。 -/
theorem leaves_body (hends : ∀ p ∈ s.insns, endsBlock p.2 = false) {x : Instruction}
    (hx : x ∈ s.body cfg arch lifted) : x.leaves = false := by
  rw [← Bool.not_eq_true]
  intro hleaves
  obtain ⟨p, hp, hp'⟩ := leaves_body_iff.mp ⟨x, hx, hleaves⟩
  rw [hends p hp] at hp'
  cases hp'

theorem guarded_slots (h : s.Framed follows) : Guarded (s.slots cfg arch lifted) := by
  rw [Segment.slots_eq]
  refine guarded_append (guarded_of_forall fun x hx heq => ?_) (guarded_append ?_ ?_)
  · obtain ⟨head, hhead, hpre⟩ := h.pre
    rw [hpre, List.mem_append, List.mem_singleton] at hx
    rcases hx with hx | rfl
    · rw [hhead x hx] at heq
      cases heq
    · cases heq
  · unfold Segment.body
    induction s.insns with
    | nil => trivial
    | cons p rest ih => exact guarded_append (guarded_insnSlots p.2) ih
  · refine guarded_of_forall fun x hx heq => ?_
    by_cases hfollows : follows
    · rw [h.post hfollows, List.mem_singleton] at hx
      rw [hx] at heq
      cases heq
    · rw [h.last hfollows x hx] at heq
      cases heq

/-- 次の block の先頭へ進む block は、block を離れる slot を持たない。 -/
theorem leaves_slots (h : s.Framed follows) (hfollows : follows)
    (hends : ∀ p ∈ s.insns, endsBlock p.2 = false) {x : Instruction}
    (hx : x ∈ s.slots cfg arch lifted) : x.leaves = false := by
  rw [Segment.slots_eq, List.mem_append, List.mem_append] at hx
  rcases hx with hx | hx | hx
  · exact h.leaves_pre hx
  · exact leaves_body hends hx
  · exact h.leaves_post hfollows hx

theorem slotCount_before (h : s.Framed follows) :
    slotCount .before (s.slots cfg arch lifted) = 1 := by
  rw [Segment.slots_eq, slotCount_append, slotCount_append, h.before_pre,
    slotCount_eq_zero fun x hx => notifies_body hx,
    slotCount_eq_zero fun x hx => h.notifies_post hx]

theorem slotCount_after (h : s.Framed follows) (hfollows : follows) :
    slotCount .after (s.slots cfg arch lifted) = 1 := by
  rw [Segment.slots_eq, slotCount_append, slotCount_append, h.post hfollows,
    slotCount_eq_zero fun x hx => h.notifies_pre hx,
    slotCount_eq_zero fun x hx => notifies_body hx]
  rfl

theorem slotCount_last (h : s.Framed follows) (hlast : ¬ follows) :
    slotCount .after (s.slots cfg arch lifted) = 0 := by
  rw [Segment.slots_eq, slotCount_append, slotCount_append,
    slotCount_eq_zero fun x hx => h.notifies_pre hx,
    slotCount_eq_zero fun x hx => notifies_body hx,
    slotCount_eq_zero fun x hx => h.notifies_last hlast hx]

/-- block を離れる slot は、前の event の slot より後、後の event の slot より前にある。 -/
theorem leaves_index (h : s.Framed follows) {i : Nat} {x : Instruction}
    (hx : (s.slots cfg arch lifted)[i]? = some x) (hleaves : x.leaves = true) :
    s.pre.length ≤ i ∧ (follows → i ≤ s.pre.length + (s.body cfg arch lifted).length) := by
  have hpre : s.pre.length ≤ i := by
    by_contra hlt
    rw [Segment.slots_eq, List.getElem?_append_left (Nat.lt_of_not_le hlt)] at hx
    rw [h.leaves_pre (List.mem_of_getElem? hx)] at hleaves
    cases hleaves
  refine ⟨hpre, fun hfollows => ?_⟩
  by_contra hlt
  rw [Segment.slots_eq, List.getElem?_append_right hpre,
    List.getElem?_append_right (by omega)] at hx
  rw [h.leaves_post hfollows (List.mem_of_getElem? hx)] at hleaves
  cases hleaves

theorem slotCount_before_take (h : s.Framed follows) {i : Nat} (hpre : s.pre.length ≤ i) :
    slotCount .before ((s.slots cfg arch lifted).take i) = 1 := by
  have hrest : ∀ x ∈ (s.body cfg arch lifted ++ s.post).take (i - s.pre.length),
      x.notifies .before = false := by
    intro x hx
    rcases List.mem_append.mp (List.mem_of_mem_take hx) with hx | hx
    · exact notifies_body hx
    · exact h.notifies_post hx
  rw [Segment.slots_eq, List.take_append, List.take_of_length_le hpre, slotCount_append,
    h.before_pre, slotCount_eq_zero hrest]

/-- 後の event の slot は、命令の slot より後にしかない。 -/
theorem slotCount_after_take (h : s.Framed follows) {i : Nat}
    (hi : follows → i ≤ s.pre.length + (s.body cfg arch lifted).length) :
    slotCount .after ((s.slots cfg arch lifted).take i) = 0 := by
  have hfront : ∀ x ∈ s.pre ++ s.body cfg arch lifted, x.notifies .after = false := by
    intro x hx
    rcases List.mem_append.mp hx with hx | hx
    · exact h.notifies_pre hx
    · exact notifies_body hx
  refine slotCount_eq_zero fun x hx => ?_
  rw [Segment.slots_eq, ← List.append_assoc] at hx
  by_cases hfollows : follows
  · rw [List.take_append_of_le_length (by rw [List.length_append]; exact hi hfollows)] at hx
    exact hfront x (List.mem_of_mem_take hx)
  · rcases List.mem_append.mp (List.mem_of_mem_take hx) with hx | hx
    · exact hfront x hx
    · exact h.notifies_last hfollows hx

/-- slot の列で event が釣り合うのは、block が次の block の先頭へ進んで終わるときに限る。 -/
theorem balanced_iff (h : s.Framed follows) : Balanced (s.slots cfg arch lifted) ↔
    follows ∧ ∀ p ∈ s.insns, endsBlock p.2 = false := by
  constructor
  · intro hbal
    have hfollows : follows := by
      by_contra hlast
      have hafter := hbal.after_once
      rw [slotCount_last h hlast] at hafter
      cases hafter
    refine ⟨hfollows, fun p hp => ?_⟩
    rw [← Bool.not_eq_true]
    intro hends
    obtain ⟨x, hx, hleaves⟩ : ∃ x ∈ s.body cfg arch lifted, x.leaves = true :=
      leaves_body_iff.mpr ⟨p, hp, hends⟩
    have hmem : x ∈ s.slots cfg arch lifted := by
      rw [Segment.slots_eq]
      exact List.mem_append_right _ (List.mem_append_left _ hx)
    obtain ⟨pre, post, hsplit⟩ := List.append_of_mem hmem
    have hone := hbal.after_before_leaving pre x post hsplit hleaves
    have hget : (s.slots cfg arch lifted)[pre.length]? = some x := by simp [hsplit]
    have hzero := slotCount_after_take h (leaves_index h hget hleaves).2
    rw [hsplit, List.take_left] at hzero
    rw [hzero] at hone
    cases hone
  · rintro ⟨hfollows, hends⟩
    refine ⟨slotCount_before h, fun pre x post hsplit hx => ?_, slotCount_after h hfollows,
      fun pre x post hsplit hleaves => ?_⟩
    · obtain ⟨head, hhead, hpre⟩ := h.pre
      have hnot : ∀ y : Instruction, y.notifies .before = false → y ≠ x := by
        rintro y hy rfl
        rw [hx] at hy
        cases hy
      have heq : head ++ .ofEvent .blockBefore :: (s.body cfg arch lifted ++ s.post)
          = pre ++ x :: post := by
        rw [← hsplit, Segment.slots_eq, hpre, List.append_assoc, List.singleton_append]
      have hunique := (List.append_cons_inj_of_notMem
        (fun hmem => hnot x (by rw [hhead x hmem]; rfl) rfl)
        (fun hmem => ?_)).mp heq
      · rw [← hunique.1]
        intro y hy
        rw [hhead y hy]
        rfl
      · rcases List.mem_append.mp hmem with hmem | hmem
        · exact hnot x (notifies_body hmem) rfl
        · exact hnot x (h.notifies_post hmem) rfl
    · have hmem : x ∈ s.slots cfg arch lifted := by
        rw [hsplit]
        exact List.mem_append_right _ List.mem_cons_self
      rw [leaves_slots h hfollows hends hmem] at hleaves
      cases hleaves

/--
先頭から `i` 番目の slot の前まで進み、そこで block を離れるか、最後まで進んだとき、通った slot のうち、
前の event のものはいつも一つで、後の event のものは次の block の先頭へ進むときだけ一つである。
-/
theorem slotCount_take (h : s.Framed follows) {i : Nat}
    (hstay : ∀ x ∈ (s.slots cfg arch lifted).take i, x.leaves = false)
    (hend : i = (s.slots cfg arch lifted).length ∨
      ∃ x, (s.slots cfg arch lifted)[i]? = some x ∧ x.leaves = true) :
    slotCount .before ((s.slots cfg arch lifted).take i) = 1 ∧
      (slotCount .after ((s.slots cfg arch lifted).take i) = 1 ↔
        follows ∧ ∀ p ∈ s.insns, endsBlock p.2 = false) := by
  have hpre : s.pre.length ≤ i := by
    rcases hend with rfl | ⟨x, hx, hleaves⟩
    · rw [Segment.slots_eq, List.length_append]
      omega
    · exact (leaves_index h hx hleaves).1
  refine ⟨slotCount_before_take h hpre, ?_⟩
  constructor
  · intro hone
    have hpassed : ¬ (follows → i ≤ s.pre.length + (s.body cfg arch lifted).length) := by
      intro hi
      rw [slotCount_after_take h hi] at hone
      cases hone
    obtain ⟨hfollows, hlt⟩ := Classical.not_imp.mp hpassed
    refine ⟨hfollows, fun p hp => ?_⟩
    rw [← Bool.not_eq_true]
    intro hends
    obtain ⟨y, hy, hleaves⟩ : ∃ y ∈ s.body cfg arch lifted, y.leaves = true :=
      leaves_body_iff.mpr ⟨p, hp, hends⟩
    -- 命令の slot はすべて通ったので、離れる slot は無い
    have hmem : y ∈ (s.slots cfg arch lifted).take i := by
      rw [Segment.slots_eq, ← List.append_assoc, List.take_append,
        List.take_of_length_le (by rw [List.length_append]; omega)]
      exact List.mem_append_left _ (List.mem_append_right _ hy)
    rw [hstay y hmem] at hleaves
    cases hleaves
  · rintro ⟨hfollows, hends⟩
    rcases hend with rfl | ⟨x, hx, hleaves⟩
    · rw [List.take_length]
      exact slotCount_after h hfollows
    · rw [leaves_slots h hfollows hends (List.mem_of_getElem? hx)] at hleaves
      cases hleaves

end Segments

end Orchestrator

open Orchestrator

/-! ## 届いた event の数 -/

/-- 最初の callback に届いた、block の前か後の event の数。 -/
def deliveries (side : BlockSide) (log : List Action) : Nat :=
  log.countP fun a => match a with
    | .delivered 0 type _ => type = side.type
    | _ => false

variable {σ γ : Type}

section Deliveries

variable {side : BlockSide} {log new : List Action}

theorem deliveries_append :
    deliveries side (log ++ new) = deliveries side log + deliveries side new :=
  List.countP_append

theorem deliveries_handleEvent_succ {cbs : List (EventCallback σ)} {i : Nat} {w : σ} {ev : Event} :
    deliveries side (handleEvent cbs (i + 1) w ev).log = 0 := by
  induction cbs generalizing i w ev with
  | nil => rfl
  | cons callback rest ih =>
    unfold handleEvent
    dsimp only
    split
    · exact (List.countP_cons_of_neg Bool.false_ne_true).trans ih
    · rfl

/-- callback があれば、event は最初の callback に一度だけ届く。 -/
theorem deliveries_handleEvent {cbs : List (EventCallback σ)} (hne : cbs ≠ []) {w : σ}
    {ev : Event} : deliveries side (handleEvent cbs 0 w ev).log
      = if ev.type = side.type then 1 else 0 := by
  cases cbs with
  | nil => exact absurd rfl hne
  | cons callback rest =>
    unfold handleEvent
    dsimp only
    have hcons : ∀ (result : EventResult) (log : List Action), deliveries side log = 0 →
        deliveries side (.delivered 0 ev.type result :: log)
          = if ev.type = side.type then 1 else 0 := by
      intro result log hlog
      unfold deliveries at hlog ⊢
      rw [List.countP_cons, hlog, Nat.zero_add]
      simp only [decide_eq_true_eq]
    split
    · exact hcons _ _ deliveries_handleEvent_succ
    · exact hcons _ _ rfl

end Deliveries

namespace Vm

variable {e : Engine σ γ} {s s' : Vm σ γ} {side : BlockSide} {p : Slot} {f : EventFunc}

/-- event を一つ起こしたときに増える数。 -/
theorem deliveries_raise (hne : e.callbacks ≠ []) (ev : Event) :
    deliveries side (s.raise e ev).2.2.log
      = deliveries side s.log + if ev.type = side.type then 1 else 0 :=
  deliveries_append.trans (congrArg _ (deliveries_handleEvent hne))

theorem deliveries_raise_of_ne (hne : e.callbacks ≠ []) {ev : Event} (h : ev.type ≠ side.type) :
    deliveries side (s.raise e ev).2.2.log = deliveries side s.log := by
  rw [deliveries_raise hne, if_neg h, Nat.add_zero]

theorem deliveries_execSyscall (hne : e.callbacks ≠ []) (guest : γ) :
    deliveries side (s.execSyscall e guest).log = deliveries side s.log := by
  have hbefore : EventType.syscallBefore ≠ side.type := by cases side <;> nofun
  have hafter : EventType.syscallAfter ≠ side.type := by cases side <;> nofun
  unfold execSyscall
  dsimp only
  split
  · exact deliveries_raise_of_ne hne hbefore
  · refine (deliveries_raise_of_ne hne hafter).trans ?_
    show deliveries side (_ ++ [Action.syscall]) = _
    rw [deliveries_append, deliveries_raise_of_ne hne hbefore]
    rfl

/-! ## 一つの slot -/

theorem deliveries_execFunc (hne : e.callbacks ≠ []) (hs : s.execFunc e p f = some s') :
    deliveries side s'.log = deliveries side s.log + if f = side.func then 1 else 0 := by
  have hnotify : ∀ type, deliveries side (s.runtimeEvent e type).2.log
      = deliveries side s.log + if type = side.type then 1 else 0 := fun _ => deliveries_raise hne _
  have hsame : f ≠ side.func → s'.log = s.log →
      deliveries side s'.log = deliveries side s.log + if f = side.func then 1 else 0 := by
    intro hf hlog
    rw [hlog, if_neg hf, Nat.add_zero]
  cases f with
  | funcBefore => cases hs; cases side <;> exact hnotify .funcBefore
  | funcAfter => cases hs; cases side <;> exact hnotify .funcAfter
  | insnAfter => cases hs; cases side <;> exact hnotify .insnAfter
  | blockBefore => cases hs; cases side <;> exact hnotify .blockBefore
  | blockAfter => cases hs; cases side <;> exact hnotify .blockAfter
  | insnBefore =>
    cases hs
    rw [(log_execInsnBefore p).1]
    cases side <;> exact hnotify .insnBefore
  | debugging => cases hs; exact hsame (by cases side <;> nofun) rfl
  | syscallInterpret =>
    cases hs
    rw [if_neg (by cases side <;> nofun)]
    exact deliveries_execSyscall hne _
  | interruptInterpret =>
    cases hs
    cases side <;> exact deliveries_raise hne _
  | jumpInterpret => exact hsame (by cases side <;> nofun) (jump_eq hs).1
  | callInterpret => exact hsame (by cases side <;> nofun) (jump_eq hs).1
  | finishFunction =>
    refine hsame (by cases side <;> nofun) ?_
    rcases execFunc_finishFunction hs with rfl | hs
    · rfl
    · exact (jump_eq hs).1
  | finishEmulation => cases hs; exact hsame (by cases side <;> nofun) rfl
  | terminateExecution => cases hs; exact hsame (by cases side <;> nofun) rfl

/-- 離れない slot は、次へ進むか、命令の前の event で一つ飛ばすか、そこで終わる。 -/
theorem control_execFunc (hleaves : f.leaves = false) (hs : s.execFunc e p f = some s') :
    s'.control = next p ∨
      f = .insnBefore ∧ s'.control = .slot { p with index := p.index + 2 } ∨
      s'.control = .finished ∨ s'.control = .aborted := by
  cases f with
  | insnBefore =>
    cases hs
    unfold execInsnBefore
    split
    · exact .inr (.inl ⟨rfl, rfl⟩)
    · exact .inr (.inr (.inl rfl))
    · exact .inl rfl
  | interruptInterpret => cases hs; exact .inr (.inr (.inr rfl))
  | terminateExecution => cases hs; exact .inr (.inr (.inr rfl))
  | jumpInterpret => cases hleaves
  | callInterpret => cases hleaves
  | finishFunction => cases hleaves
  | finishEmulation => cases hleaves
  | _ => cases hs; exact .inl rfl

theorem deliveries_execCode (hne : e.callbacks ≠ []) (p : Slot) (h : GuestCode γ) :
    deliveries side (s.execCode e p h).log = deliveries side s.log := by
  have hread : EventType.memRead ≠ side.type := by cases side <;> nofun
  have hwrite : EventType.memWrite ≠ side.type := by cases side <;> nofun
  have htrap : EventType.trapHit ≠ side.type := by cases side <;> nofun
  cases h with
  | ret guest => rfl
  | readMemory guest addr size k => exact deliveries_raise_of_ne hne hread
  | writeMemory guest addr size value k => exact deliveries_raise_of_ne hne hwrite
  | hyperCall guest name k =>
    cases name with
    | x86SysCall => exact deliveries_execSyscall hne guest
    | aarch64Breakpoint => exact deliveries_raise_of_ne hne htrap
    | other => rfl

theorem control_execCode (p : Slot) (h : GuestCode γ) :
    (s.execCode e p h).control = next p ∨ (∃ h', (s.execCode e p h).control = .code p h') ∨
      (s.execCode e p h).control = .aborted := by
  cases h with
  | ret guest => exact .inl rfl
  | readMemory guest addr size k => exact .inr (.inl ⟨_, rfl⟩)
  | writeMemory guest addr size value k => exact .inr (.inl ⟨_, rfl⟩)
  | hyperCall guest name k =>
    cases name with
    | x86SysCall => exact .inr (.inl ⟨_, rfl⟩)
    | aarch64Breakpoint => exact .inr (.inr rfl)
    | other => exact .inr (.inr rfl)

/-! ## block の実行 -/

/-- slot の列の中の区間。 -/
structure Window where
  bin : Nat
  start : Nat
  slots : List Instruction

/-- 区間の `i` 番目の slot。 -/
def Window.slot (w : Window) (i : Nat) : Slot := ⟨w.bin, ((w.start + i : Nat) : Int)⟩

/-- 区間の slot が、実行中の列に置かれていること。 -/
def Window.Placed (w : Window) (s : Vm σ γ) : Prop :=
  ∃ bb, s.blocks[w.bin]? = some bb ∧
    ∀ i, i < w.slots.length → bb.rthandlers[w.start + i]? = w.slots[i]?

/-- 区間の中を実行していて、まだ離れる slot に着いていないこと。 -/
def Inside (w : Window) (s : Vm σ γ) : Prop :=
  ∃ i x, w.slots[i]? = some x ∧ (s.control = .slot (w.slot i) ∧ x.leaves = false ∨
    ∃ h, s.control = .code (w.slot i) h)

/-- 区間の中だけの実行。 -/
def InsideRun (e : Engine σ γ) (w : Window) : Vm σ γ → Vm σ γ → Prop :=
  Run (fun s (_ : Unit) s' => s.exec e = some s') (fun s _ => Inside w s)

/-- 区間の実行が終わるまで。離れる slot を実行するか、最後の slot の次へ進む。 -/
inductive Completes (e : Engine σ γ) (w : Window) (s : Vm σ γ) : Vm σ γ → Prop
  | left {s₁ s' : Vm σ γ} {i : Nat} {x : Instruction} (hrun : InsideRun e w s s₁)
      (hi : s₁.control = .slot (w.slot i)) (hx : w.slots[i]? = some x) (hleaves : x.leaves = true)
      (hs : s₁.exec e = some s') : Completes e w s s'
  | ended {s' : Vm σ γ} (hrun : InsideRun e w s s')
      (hi : s'.control = .slot (w.slot w.slots.length)) : Completes e w s s'

/-- 先頭から `i` 番目の slot の前まで進んだ状態。通った slot はどれも離れず、その数だけ event が届いている。 -/
structure Passed (w : Window) (s₀ s : Vm σ γ) (i : Nat) : Prop where
  le : i ≤ w.slots.length
  stays : ∀ x ∈ w.slots.take i, x.leaves = false
  delivered : ∀ side, deliveries side s.log
    = deliveries side s₀.log + slotCount side (w.slots.take i)

/-- 区間の実行の途中の状態。 -/
structure Midway (w : Window) (s₀ s : Vm σ γ) : Prop where
  blocks : s.blocks = s₀.blocks
  passed : (∃ i, s.control = .slot (w.slot i) ∧ Passed w s₀ s i) ∨
    (∃ i h, s.control = .code (w.slot i) h ∧ Passed w s₀ s (i + 1)) ∨
    s.control = .finished ∨ s.control = .aborted

variable {w : Window} {s₀ : Vm σ γ} {i : Nat} {x : Instruction}

theorem Passed.advance (h : Passed w s₀ s i) (hx : w.slots[i]? = some x)
    (hleaves : x.leaves = false) (hlog : ∀ side, deliveries side s'.log
      = deliveries side s.log + if x.notifies side = true then 1 else 0) :
    Passed w s₀ s' (i + 1) := by
  obtain ⟨hlt, hget⟩ := List.getElem?_eq_some_iff.mp hx
  have htake : w.slots.take (i + 1) = w.slots.take i ++ [x] := by
    rw [List.take_add_one, hx]
    rfl
  refine ⟨hlt, fun y hy => ?_, fun side => ?_⟩
  · rw [htake, List.mem_append, List.mem_singleton] at hy
    rcases hy with hy | rfl
    · exact h.stays y hy
    · exact hleaves
  · rw [hlog, h.delivered, htake, slotCount_append, Nat.add_assoc]
    congr 2
    unfold slotCount
    rw [List.countP_singleton]

theorem Window.Placed.slotAt (h : w.Placed s) (hx : w.slots[i]? = some x) :
    s.slotAt (w.slot i) = some x := by
  obtain ⟨bb, hbb, hslots⟩ := h
  obtain ⟨hlt, -⟩ := List.getElem?_eq_some_iff.mp hx
  have hneg : ¬ (((w.start + i : Nat) : Int) < 0) := by omega
  simp only [Vm.slotAt, Window.slot, hbb, Option.bind_eq_bind, Option.bind_some, if_neg hneg,
    Int.toNat_natCast, hslots i hlt, hx]

theorem Window.slot_inj {j : Nat} (h : w.slot i = w.slot j) : i = j := by
  have hindex : ((w.start + i : Nat) : Int) = (w.start + j : Nat) := congrArg Slot.index h
  omega

theorem Passed.congr (h : Passed w s₀ s i)
    (hlog : ∀ side, deliveries side s'.log = deliveries side s.log) : Passed w s₀ s' i :=
  ⟨h.le, h.stays, fun side => (hlog side).trans (h.delivered side)⟩

/-- host の関数の slot を一つ進む。 -/
theorem Passed.execFunc (hne : e.callbacks ≠ []) (hguard : Guarded w.slots)
    (h : Passed w s₀ s i) (hx : w.slots[i]? = some x) (hf : x.handler = .func f)
    (hleaves : x.leaves = false) (hs : s.execFunc e (w.slot i) f = some s') :
    (∃ i, s'.control = .slot (w.slot i) ∧ Passed w s₀ s' i) ∨
      s'.control = .finished ∨ s'.control = .aborted := by
  have hnotifies : ∀ side : BlockSide, x.notifies side = true ↔ f = side.func := by
    intro side
    rw [Instruction.notifies, hf, decide_eq_true_eq, HandlerRef.func.injEq]
  have hnext : Passed w s₀ s' (i + 1) := by
    refine h.advance hx hleaves fun side => ?_
    rw [deliveries_execFunc hne hs]
    exact congrArg _ (if_congr (hnotifies side).symm rfl rfl)
  have hleaves' : f.leaves = false := by rwa [Instruction.leaves, hf] at hleaves
  rcases control_execFunc hleaves' hs with hc | ⟨rfl, hc⟩ | hc
  · exact .inl ⟨i + 1, hc, hnext⟩
  · -- `Processed` は次の slot を飛ばす。飛ばされる slot は block の event でも離れる slot でもない
    obtain ⟨y, hy, hplain⟩ := hguard.next hx hf
    refine .inl ⟨i + 1 + 1, hc, hnext.advance hy hplain.1 fun side => ?_⟩
    rw [hplain.2 side]
    rfl
  · exact .inr hc

theorem Midway.at_slot (h : Midway w s₀ s) (hi : s.control = .slot (w.slot i)) :
    Passed w s₀ s i := by
  rcases h.passed with ⟨j, hj, hpassed⟩ | ⟨j, code, hj, -⟩ | hc | hc
  · rw [hi, Control.slot.injEq] at hj
    exact Window.slot_inj hj ▸ hpassed
  all_goals simp_all

/-- 区間の中の一歩。 -/
theorem Midway.exec (hne : e.callbacks ≠ []) (hguard : Guarded w.slots) (hplaced : w.Placed s₀)
    (h : Midway w s₀ s) (hin : Inside w s) (hs : s.exec e = some s') : Midway w s₀ s' := by
  refine ⟨(exec_blocks hs).trans h.blocks, ?_⟩
  obtain ⟨i, x, hx, ⟨hi, hleaves⟩ | ⟨code, hi⟩⟩ := hin
  · have hpassed := h.at_slot hi
    have hslot : s.slotAt (w.slot i) = some x := by
      have hplaced : w.Placed s := by rwa [Window.Placed, h.blocks]
      exact hplaced.slotAt hx
    rcases exec_cases hs with ⟨p, y, f, hp, hy, hf, hs⟩ | ⟨p, y, entry, hp, hy, hentry, rfl⟩ |
      ⟨p, code, hp, rfl⟩
    · rw [hi, Control.slot.injEq] at hp
      subst hp
      rw [hslot, Option.some.injEq] at hy
      subst hy
      rcases hpassed.execFunc hne hguard hx hf hleaves hs with hnext | hc
      · exact .inl hnext
      · exact .inr (.inr hc)
    · rw [hi, Control.slot.injEq] at hp
      subst hp
      rw [hslot, Option.some.injEq] at hy
      subst hy
      refine .inr (.inl ⟨i, _, rfl, hpassed.advance hx hleaves fun side => ?_⟩)
      rw [deliveries_append, Instruction.notifies, hentry]
      rfl
    · rw [hi] at hp
      cases hp
  · have hpassed : Passed w s₀ s (i + 1) := by
      rcases h.passed with ⟨j, hj, -⟩ | ⟨j, code', hj, hpassed⟩ | hc | hc
      · simp_all
      · rw [hi, Control.code.injEq] at hj
        exact Window.slot_inj hj.1 ▸ hpassed
      all_goals simp_all
    rcases exec_cases hs with ⟨p, y, f, hp, -⟩ | ⟨p, y, entry, hp, -⟩ | ⟨p, code', hp, rfl⟩
    · rw [hi] at hp
      cases hp
    · rw [hi] at hp
      cases hp
    · rw [hi, Control.code.injEq] at hp
      obtain ⟨rfl, rfl⟩ := hp
      have hsame := hpassed.congr fun _ => deliveries_execCode hne (w.slot i) code
      rcases control_execCode (e := e) (s := s) (w.slot i) code with hc | ⟨code', hc⟩ | hc
      · exact .inl ⟨i + 1, hc, hsame⟩
      · exact .inr (.inl ⟨i, code', hc, hsame⟩)
      · exact .inr (.inr (.inr hc))

theorem InsideRun.midway {s₁ : Vm σ γ} (hne : e.callbacks ≠ []) (hguard : Guarded w.slots)
    (hplaced : w.Placed s₀) (hstart : s₀.control = .slot (w.slot 0)) (hrun : InsideRun e w s₀ s₁) :
    Midway w s₀ s₁ := by
  refine hrun.invariant (p := Midway w s₀) ⟨rfl, .inl ⟨0, hstart, Nat.zero_le _, nofun, ?_⟩⟩ ?_
  · exact fun side => rfl
  · exact fun s _ s' hmid hin hs => hmid.exec hne hguard hplaced hin hs

/-- 実行が終わるまでに通った slot の数だけ、event が届いている。 -/
theorem Completes.delivered (hne : e.callbacks ≠ []) (hguard : Guarded w.slots)
    (hplaced : w.Placed s₀) (hstart : s₀.control = .slot (w.slot 0))
    (h : Completes e w s₀ s') : ∃ i, (∀ x ∈ w.slots.take i, x.leaves = false) ∧
      (i = w.slots.length ∨ ∃ x, w.slots[i]? = some x ∧ x.leaves = true) ∧
      ∀ side, deliveries side s'.log
        = deliveries side s₀.log + slotCount side (w.slots.take i) := by
  cases h with
  | @left s₁ _ i x hrun hi hx hleaves hs =>
    have hmid := hrun.midway hne hguard hplaced hstart
    have hpassed := hmid.at_slot hi
    have hslot : s₁.slotAt (w.slot i) = some x := by
      have hplaced : w.Placed s₁ := by rwa [Window.Placed, hmid.blocks]
      exact hplaced.slotAt hx
    refine ⟨i, hpassed.stays, .inr ⟨x, hx, hleaves⟩, fun side => ?_⟩
    rw [← hpassed.delivered]
    obtain ⟨p, y, f, hp, hy, hf, hs⟩ | ⟨p, y, entry, hp, hy, hentry, -⟩ | ⟨p, code, hp, -⟩ :=
      exec_cases hs
    · rw [hi, Control.slot.injEq] at hp
      subst hp
      rw [hslot, Option.some.injEq] at hy
      subst hy
      have hnot : x.notifies side = false := notifies_of_leaves hleaves
      rw [Instruction.notifies, hf, decide_eq_false_iff_not, HandlerRef.func.injEq] at hnot
      rw [deliveries_execFunc hne hs, if_neg hnot, Nat.add_zero]
    · rw [hi, Control.slot.injEq] at hp
      subst hp
      rw [hslot, Option.some.injEq] at hy
      subst hy
      rw [Instruction.leaves, hentry] at hleaves
      cases hleaves
    · rw [hi] at hp
      cases hp
  | ended hrun hi =>
    have hpassed := (hrun.midway hne hguard hplaced hstart).at_slot hi
    exact ⟨_, hpassed.stays, .inl rfl, hpassed.delivered⟩

/-! ## binary の block -/

/-- binary の `b` 番目の block が、関数 `f` の `k` 番目の block `seg` であること。 -/
structure IsBlock (cfg : Orchestrator.EventConfig) (bin : Orchestrator.Binary) (addend : Nat)
    (f : Func) (k b : Nat) (seg : Segment) : Prop where
  located : ∃ fs gs, bin.functions = fs ++ f :: gs ∧
    b = (fs.flatMap (segmentFunc cfg addend bin.fin)).length + k
  segment : (segmentFunc cfg addend bin.fin f)[k]? = some seg

variable {cfg : Orchestrator.EventConfig} {bin : Orchestrator.Binary} {addend k b : Nat}
  {func : Func} {seg : Segment}

theorem IsBlock.getElem? (h : IsBlock cfg bin addend func k b seg) :
    (bin.segments cfg addend)[b]? = some seg := by
  obtain ⟨fs, gs, hfs, rfl⟩ := h.located
  obtain ⟨hlt, -⟩ := List.getElem?_eq_some_iff.mp h.segment
  show (bin.functions.flatMap (segmentFunc cfg addend bin.fin))[_]? = _
  rw [hfs, List.flatMap_append, List.flatMap_cons,
    List.getElem?_append_right (Nat.le_add_right _ _), Nat.add_sub_cancel_left,
    List.getElem?_append_left hlt, h.segment]

/-- binary のどの block も、どれかの関数の block である。 -/
theorem exists_isBlock (hb : (bin.segments cfg addend)[b]? = some seg) :
    ∃ func k, IsBlock cfg bin addend func k b seg := by
  have hsplit : ∀ (fs gs : List Func) (b : Nat),
      (gs.flatMap (segmentFunc cfg addend bin.fin))[b]? = some seg → bin.functions = fs ++ gs →
      ∃ func k, IsBlock cfg bin addend func k
        ((fs.flatMap (segmentFunc cfg addend bin.fin)).length + b) seg := by
    intro fs gs
    induction gs generalizing fs with
    | nil => exact fun b hb => by cases hb
    | cons g gs ih =>
      intro b hb hfs
      rw [List.flatMap_cons] at hb
      by_cases hlt : b < (segmentFunc cfg addend bin.fin g).length
      · rw [List.getElem?_append_left hlt] at hb
        exact ⟨g, b, ⟨fs, gs, hfs, rfl⟩, hb⟩
      · rw [List.getElem?_append_right (Nat.le_of_not_lt hlt)] at hb
        obtain ⟨func, k, h⟩ := ih (fs ++ [g]) _ hb (by rw [hfs, List.append_assoc]; rfl)
        rw [List.flatMap_append, List.flatMap_singleton, List.length_append, Nat.add_assoc,
          Nat.add_sub_cancel' (Nat.le_of_not_lt hlt)] at h
        exact ⟨func, k, h⟩
  have h := hsplit [] bin.functions b hb rfl
  rwa [List.flatMap_nil, List.length_nil, Nat.zero_add] at h

/-- `b` 番目の block の slot の区間。`n` は binary の番号である。 -/
def blockWindow (cfg : Orchestrator.EventConfig) (lifted : Bytes → Option UInt64)
    (bin : Orchestrator.Binary) (addend n b : Nat) (seg : Segment) : Window :=
  ⟨n, blockStart cfg bin.arch lifted (bin.segments cfg addend) b, seg.slots cfg bin.arch lifted⟩

theorem IsBlock.framed (hblock : cfg.block = true) (h : IsBlock cfg bin addend func k b seg) :
    seg.Framed (k + 1 < (segmentFunc cfg addend bin.fin func).length) := by
  refine segmentFunc_framed hblock (fun x hx => ?_) h.segment
  unfold Binary.fin at hx
  split at hx
  · exact List.mem_singleton.mp hx
  · cases hx

theorem IsBlock.placed {lifted : Bytes → Option UInt64} {n : Nat}
    (h : IsBlock cfg bin addend func k b seg)
    (hn : s.blocks[n]? = some (encode cfg lifted bin addend)) :
    (blockWindow cfg lifted bin addend n b seg).Placed s := by
  refine ⟨_, hn, fun i hi => ?_⟩
  rw [encode_eq]
  exact blocksOf_rthandlers h.getElem? hi

/--
block の event が釣り合うのは、その block が次の block の先頭へ進んで終わるときに限る。実行が終わるごとに、
前の event はいつも一度届き、後の event はそのときに限って一度届く。
-/
theorem blockEvents_iff (hblock : e.cfg.block = true) (hne : e.callbacks ≠ [])
    (h : IsBlock e.cfg.orchestrator bin addend func k b seg) (lifted : Bytes → Option UInt64) :
    (Balanced (seg.slots e.cfg.orchestrator bin.arch lifted) ↔
      FallsThrough (segmentFunc e.cfg.orchestrator addend bin.fin func) k seg) ∧
    ∀ (n : Nat) (s s' : Vm σ γ),
      s.blocks[n]? = some (encode e.cfg.orchestrator lifted bin addend) →
      s.control = .slot ((blockWindow e.cfg.orchestrator lifted bin addend n b seg).slot 0) →
      Completes e (blockWindow e.cfg.orchestrator lifted bin addend n b seg) s s' →
      deliveries .before s'.log = deliveries .before s.log + 1 ∧
        (deliveries .after s'.log = deliveries .after s.log + 1 ↔
          FallsThrough (segmentFunc e.cfg.orchestrator addend bin.fin func) k seg) := by
  have hframed := h.framed hblock
  refine ⟨balanced_iff hframed, fun n s s' hn hstart hdone => ?_⟩
  obtain ⟨i, hstay, hend, hlog⟩ :=
    hdone.delivered hne (guarded_slots hframed) (h.placed hn) hstart
  obtain ⟨hbefore, hafter⟩ := slotCount_take hframed hstay hend
  refine ⟨?_, ?_⟩
  · rw [hlog, ← hbefore]
    rfl
  · rw [hlog, Nat.add_left_cancel_iff]
    exact hafter

/-! ## 例 -/

/-- 参照される `RET` の前に `NOP` のある関数。block は二つになる。 -/
def nopRet : Func :=
  ⟨0x1000, 0x1008, [⟨0, 4, .other, false, [0x1f, 0x20, 0x03, 0xd5]⟩,
    ⟨4, 4, .ret, true, [0xc0, 0x03, 0x5f, 0xd6]⟩]⟩

def nopRetText : LoadedBinary where
  sections := [(0x1000, [0x1f, 0x20, 0x03, 0xd5, 0xc0, 0x03, 0x5f, 0xd6], true)]
  binary := ⟨.arm64, [nopRet]⟩

/-- block の event だけを望む engine。`NOP` は次へ進み、`RET` は戻り先へ進む。 -/
def blockEngine : Engine Unit Nat :=
  { sampleEngine ⟨false, false, false, true, false, false, false, false, false⟩ with
    code := fun _ pc => .ret (if pc = 0x1000 then 0x1004 else 0) }

/-- `nopRetText` の block。 -/
def nopRetSegment (b : Nat) : Segment :=
  ((nopRetText.binary.segments blockEngine.cfg.orchestrator 0)[b]?).getD ⟨0, [], [], []⟩

def nopRetWindow (b : Nat) : Window :=
  blockWindow blockEngine.cfg.orchestrator (fun _ => some 0x5000) nopRetText.binary 0 0 b
    (nopRetSegment b)

/-- lift して、関数の先頭から `n` 歩だけ実行した状態。 -/
def nopRetAt (n : Nat) : Option (Vm Unit Nat) :=
  runTrace (step blockEngine) (fun _ _ => True)
    (.orchBinary nopRetText 0 :: .startVM 0x1000 :: List.replicate n .exec) (init () [] 0)

theorem nopRet_isBlock : IsBlock blockEngine.cfg.orchestrator nopRetText.binary 0 nopRet 0 0
    (nopRetSegment 0) := ⟨⟨[], [], rfl, rfl⟩, rfl⟩

/-- 参照される `RET` の前で切れた block では、前後の event が一度ずつ届く。 -/
theorem nopRet_balanced : Balanced (nopRetWindow 0).slots ∧ ∃ s s', nopRetAt 0 = some s ∧
    Completes blockEngine (nopRetWindow 0) s s' ∧
    deliveries .before s'.log = deliveries .before s.log + 1 ∧
    deliveries .after s'.log = deliveries .after s.log + 1 := by
  have hfalls : FallsThrough (segmentFunc blockEngine.cfg.orchestrator 0 nopRetText.binary.fin
      nopRet) 0 (nopRetSegment 0) := ⟨by decide, by decide⟩
  obtain ⟨hslots, hruns⟩ := blockEvents_iff (e := blockEngine) rfl (List.cons_ne_nil _ _)
    nopRet_isBlock fun _ => some 0x5000
  have hdone : ∃ s s', nopRetAt 0 = some s ∧
      s.blocks[0]? = some (encode blockEngine.cfg.orchestrator (fun _ => some 0x5000)
        nopRetText.binary 0) ∧
      s.control = .slot ((nopRetWindow 0).slot 0) ∧ Completes blockEngine (nopRetWindow 0) s s' :=
    ⟨_, _, rfl, rfl, rfl, .ended (.tail (i := ()) (.tail (i := ()) (.tail (i := ()) (.tail (i := ())
      .refl ⟨0, _, rfl, .inl ⟨rfl, rfl⟩⟩ rfl) ⟨1, _, rfl, .inl ⟨rfl, rfl⟩⟩ rfl)
      ⟨1, _, rfl, .inr ⟨_, rfl⟩⟩ rfl) ⟨2, _, rfl, .inl ⟨rfl, rfl⟩⟩ rfl) rfl⟩
  obtain ⟨s, s', hs, hn, hstart, hdone⟩ := hdone
  obtain ⟨hbefore, hafter⟩ := hruns 0 s s' hn hstart hdone
  exact ⟨hslots.mpr hfalls, s, s', hs, hdone, hbefore, hafter.mpr hfalls⟩

/-- `RET` で終わる block では、後の event が届かない。 -/
theorem nopRet_not_balanced : ¬ Balanced (nopRetWindow 1).slots ∧ ∃ s s', nopRetAt 4 = some s ∧
    Completes blockEngine (nopRetWindow 1) s s' ∧
    deliveries .before s'.log = deliveries .before s.log + 1 ∧
    deliveries .after s'.log = deliveries .after s.log := by
  refine ⟨fun h => absurd h.after_once (by decide), _, _, rfl, .left (i := 2) (.tail (i := ())
    (.tail (i := ()) (.tail (i := ()) .refl ⟨0, _, rfl, .inl ⟨rfl, rfl⟩⟩ rfl)
      ⟨1, _, rfl, .inl ⟨rfl, rfl⟩⟩ rfl) ⟨1, _, rfl, .inr ⟨_, rfl⟩⟩ rfl) rfl rfl rfl rfl, ?_, ?_⟩
  · decide
  · decide

end Vm

end AetherVM
