import Mathlib.Data.List.Nodup
import Mathlib.Logic.Function.Basic

/-!
# 値を写して戻す loop

対の列 `(o, m)` を順に見て、`m` の元の値を退避してから `o` の値を `m` に写し、あとで `m` の値を `o` に写して `m` を
元に戻す。写す元と写す先に同じ場所が無ければ、対を一度に写すのと同じになる。同じ場所があれば、そうならない。
-/

namespace AetherVM.Infra

variable {κ V : Type} [DecidableEq κ]

/-- `o` の値を `m` に写す。`m` の元の値を順に返す。 -/
def copyIn : List (κ × κ) → (κ → V) → (κ → V) × List V
  | [], R => (R, [])
  | (o, m) :: rest, R =>
    let r := copyIn rest (Function.update R m (R o))
    (r.1, R m :: r.2)

/-- `m` の値を `o` に写し、`m` を退避した値に戻す。 -/
def copyOut : List (κ × κ) → List V → (κ → V) → (κ → V)
  | (o, m) :: rest, s :: saves, R =>
    copyOut rest saves (Function.update (Function.update R o (R m)) m s)
  | _, _, R => R

/-- 対を一度に写した状態。 -/
def entry (l : List (κ × κ)) (R : κ → V) (r : κ) : V :=
  match l.find? fun p => p.2 = r with
  | some p => R p.1
  | none => R r

/-- 写す元と写す先に同じ場所が無いこと。 -/
def Apart (l : List (κ × κ)) : Prop := ∀ p ∈ l, p.1 ∉ l.map Prod.snd

instance (l : List (κ × κ)) : Decidable (Apart l) :=
  inferInstanceAs (Decidable (∀ p ∈ l, p.1 ∉ l.map Prod.snd))

variable {l l₁ l₂ : List (κ × κ)} {R : κ → V} {p : κ × κ} {o m r : κ}

/-! ## 一度に写した状態 -/

theorem entry_of_notMem (h : r ∉ l.map Prod.snd) : entry l R r = R r := by
  have hfind : l.find? (fun p => p.2 = r) = none :=
    List.find?_eq_none.mpr fun p hp heq => h (List.mem_map.mpr ⟨p, hp, by simpa using heq⟩)
  rw [entry, hfind]

theorem entry_of_mem (hnodup : (l.map Prod.snd).Nodup) (hp : p ∈ l) : entry l R p.2 = R p.1 := by
  cases hfind : l.find? fun q => q.2 = p.2 with
  | none =>
    have hne := List.find?_eq_none.mp hfind p hp
    simp at hne
  | some q =>
    have hq : q.2 = p.2 := by simpa using List.find?_some hfind
    have heq : q = p := List.inj_on_of_nodup_map hnodup (List.mem_of_find?_eq_some hfind) hp hq
    rw [entry, hfind, heq]

theorem entry_cons (h : m ∉ l.map Prod.snd) (ho : ∀ p ∈ l, p.1 ≠ m) :
    entry l (Function.update R m (R o)) = entry ((o, m) :: l) R := by
  funext r
  by_cases hr : m = r
  · subst hr
    rw [entry_of_notMem h, Function.update_self]
    simp [entry]
  · have hcons : entry ((o, m) :: l) R r = entry l R r := by simp [entry, hr]
    rw [hcons]
    cases hfind : l.find? fun p => p.2 = r with
    | none => simp only [entry, hfind, Function.update_of_ne (Ne.symm hr)]
    | some q =>
      have hq : q.1 ≠ m := ho q (List.mem_of_find?_eq_some hfind)
      simp only [entry, hfind, Function.update_of_ne hq]

/-! ## 写す loop -/

omit [DecidableEq κ] in
theorem apart_cons (h : Apart ((o, m) :: l)) : Apart l ∧ (∀ p ∈ l, p.1 ≠ m) ∧ o ≠ m ∧
    o ∉ l.map Prod.snd := by
  have hhead := h _ List.mem_cons_self
  simp only [List.map_cons, List.mem_cons, not_or] at hhead
  refine ⟨fun p hp => ?_, fun p hp => ?_, hhead.1, hhead.2⟩
  · have := h p (List.mem_cons_of_mem _ hp)
    simp only [List.map_cons, List.mem_cons, not_or] at this
    exact this.2
  · have := h p (List.mem_cons_of_mem _ hp)
    simp only [List.map_cons, List.mem_cons, not_or] at this
    exact this.1

/-- 写す元と写す先が分かれていれば、順に写しても一度に写したのと同じである。 -/
theorem copyIn_of_apart (hnodup : (l.map Prod.snd).Nodup) (h : Apart l) :
    copyIn l R = (entry l R, l.map fun p => R p.2) := by
  induction l generalizing R with
  | nil =>
    have hentry : entry [] R = R := funext fun r => by simp [entry]
    rw [hentry]
    rfl
  | cons p rest ih =>
    obtain ⟨o, m⟩ := p
    obtain ⟨hrest, hm, -, -⟩ := apart_cons h
    rw [List.map_cons, List.nodup_cons] at hnodup
    obtain ⟨hnot, hnodup⟩ := hnodup
    have hsaves : rest.map (fun q => Function.update R m (R o) q.2) = rest.map fun q => R q.2 := by
      refine List.map_congr_left fun q hq => ?_
      have hq : q.2 ≠ m := fun heq => hnot (List.mem_map.mpr ⟨q, hq, heq⟩)
      exact Function.update_of_ne hq _ _
    rw [copyIn, ih hnodup hrest, entry_cons hnot hm, hsaves, List.map_cons]

/-- どの対にも現れない場所は変わらない。 -/
theorem copyOut_of_notMem {saves : List V} (ho : r ∉ l.map Prod.fst) (hm : r ∉ l.map Prod.snd) :
    copyOut l saves R r = R r := by
  induction l generalizing R saves with
  | nil => simp [copyOut]
  | cons p rest ih =>
    obtain ⟨o, m⟩ := p
    simp only [List.map_cons, List.mem_cons, not_or] at ho hm
    cases saves with
    | nil => rfl
    | cons s saves =>
      rw [copyOut, ih ho.2 hm.2, Function.update_of_ne hm.1, Function.update_of_ne ho.1]

theorem copyOut_append {s : κ × κ → V} {saves : List V} :
    copyOut (l₁ ++ l₂) (l₁.map s ++ saves) R = copyOut l₂ saves (copyOut l₁ (l₁.map s) R) := by
  induction l₁ generalizing R with
  | nil => simp [copyOut]
  | cons p rest ih => simp only [List.cons_append, List.map_cons, copyOut, ih]

/-- 最後に触れた対で写す先だった場所は、退避した値に戻る。 -/
theorem copyOut_restored {s : κ × κ → V} (ho : m ∉ l₂.map Prod.fst) (hm : m ∉ l₂.map Prod.snd) :
    copyOut (l₁ ++ (o, m) :: l₂) ((l₁ ++ (o, m) :: l₂).map s) R m = s (o, m) := by
  rw [List.map_append, List.map_cons, copyOut_append, copyOut, copyOut_of_notMem ho hm,
    Function.update_self]

/-- 写す元と写す先が分かれていれば、写す元には写した先の値が入る。 -/
theorem copyOut_original {s : κ × κ → V} (hfst : (l.map Prod.fst).Nodup)
    (hsnd : (l.map Prod.snd).Nodup) (h : Apart l) (hp : p ∈ l) :
    copyOut l (l.map s) R p.1 = R p.2 := by
  induction l generalizing R with
  | nil => simp at hp
  | cons q rest ih =>
    obtain ⟨o, m⟩ := q
    obtain ⟨hrest, hm, hom, hosnd⟩ := apart_cons h
    rw [List.map_cons, List.nodup_cons] at hfst hsnd
    rw [List.map_cons, copyOut]
    rcases List.mem_cons.mp hp with rfl | hp
    · rw [copyOut_of_notMem hfst.1 hosnd, Function.update_of_ne hom, Function.update_self]
    · have hpm : p.2 ≠ m := fun heq => hsnd.1 (List.mem_map.mpr ⟨p, hp, heq⟩)
      have hpo : p.2 ≠ o := fun heq => hosnd (List.mem_map.mpr ⟨p, hp, heq⟩)
      rw [ih hfst.2 hsnd.2 hrest hp, Function.update_of_ne hpm, Function.update_of_ne hpo]

/-- 写す先は、退避した値に戻る。 -/
theorem copyOut_mapped {s : κ × κ → V} (hsnd : (l.map Prod.snd).Nodup) (h : Apart l)
    (hp : p ∈ l) : copyOut l (l.map s) R p.2 = s p := by
  obtain ⟨l₁, l₂, rfl⟩ := List.append_of_mem hp
  refine copyOut_restored (fun hmem => ?_) (fun hmem => ?_)
  · obtain ⟨q, hq, heq⟩ := List.mem_map.mp hmem
    refine h q (List.mem_append_right _ (List.mem_cons_of_mem _ hq)) ?_
    rw [heq]
    exact List.mem_map_of_mem hp
  · rw [List.map_append, List.map_cons] at hsnd
    exact (List.nodup_cons.mp (List.nodup_append.mp hsnd).2.1).1 hmem

/--
写す元と写す先が分かれていれば、写した状態から計算した値 `F` が写す元に入り、ほかは元のままになる。`F` は写す先の
ほかを変えない。
-/
theorem copyOut_copyIn {F : κ → V} (hfst : (l.map Prod.fst).Nodup) (hsnd : (l.map Prod.snd).Nodup)
    (h : Apart l) (hF : ∀ r ∉ l.map Prod.snd, F r = entry l R r) :
    (∀ p ∈ l, copyOut l (copyIn l R).2 F p.1 = F p.2) ∧
      ∀ r ∉ l.map Prod.fst, copyOut l (copyIn l R).2 F r = R r := by
  rw [copyIn_of_apart hsnd h]
  refine ⟨fun p hp => copyOut_original hfst hsnd h hp, fun r hr => ?_⟩
  by_cases hmem : r ∈ l.map Prod.snd
  · obtain ⟨p, hp, rfl⟩ := List.mem_map.mp hmem
    exact copyOut_mapped hsnd h hp
  · rw [copyOut_of_notMem hr hmem, hF r hmem, entry_of_notMem hmem]

/-! ## 重なる場所があるとき -/

section Overlap

variable {c d : V}

theorem update_const (m : κ) : Function.update (fun _ => d) m d = fun _ : κ => d :=
  Function.update_eq_self m _

theorem copyIn_const : copyIn l (fun _ : κ => d) = (fun _ => d, l.map fun _ => d) := by
  induction l with
  | nil => rfl
  | cons p rest ih => simp only [copyIn, update_const, ih, List.map_cons]

theorem copyOut_const : copyOut l (l.map fun _ => d) (fun _ : κ => d) = fun _ => d := by
  induction l with
  | nil => rfl
  | cons p rest ih => simp only [List.map_cons, copyOut, update_const, ih]

/-- `m` に触れない対は、`m` にだけ別の値のある状態を変えない。 -/
theorem copyIn_spike (ho : m ∉ l.map Prod.fst) (hm : m ∉ l.map Prod.snd) :
    copyIn (l ++ l₂) (Function.update (fun _ => d) m c) =
      ((copyIn l₂ (Function.update (fun _ => d) m c)).1,
        (l.map fun _ => d) ++ (copyIn l₂ (Function.update (fun _ => d) m c)).2) := by
  induction l with
  | nil => rfl
  | cons p rest ih =>
    simp only [List.map_cons, List.mem_cons, not_or] at ho hm
    have hvalue : ∀ r, m ≠ r → Function.update (fun _ : κ => d) m c r = d :=
      fun r hr => Function.update_of_ne hr.symm _ _
    have hsame : Function.update (Function.update (fun _ => d) m c) p.2 d =
        Function.update (fun _ => d) m c := by
      rw [Function.update_comm hm.1, update_const]
    simp only [List.cons_append, copyIn, hvalue p.1 ho.1, hvalue p.2 hm.1, hsame, ih ho.2 hm.2,
      List.map_cons]

/-- `m` が写す元にあれば、`m` の別の値は消える。 -/
theorem copyOut_spike (ho : m ∈ l.map Prod.fst) (hm : m ∉ l.map Prod.snd) :
    copyOut l (l.map fun _ => d) (Function.update (fun _ => d) m c) = fun _ => d := by
  induction l with
  | nil => simp at ho
  | cons p rest ih =>
    simp only [List.map_cons, List.mem_cons, not_or] at ho hm
    have hvalue : Function.update (fun _ : κ => d) m c p.2 = d :=
      Function.update_of_ne (Ne.symm hm.1) _ _
    rw [List.map_cons, copyOut, hvalue]
    by_cases heq : m = p.1
    · rw [← heq, Function.update_idem, update_const, update_const, copyOut_const]
    · rw [Function.update_comm heq, update_const, Function.update_comm hm.1, update_const]
      exact ih (ho.resolve_left heq) hm.2

/--
写す元にも写す先にもある場所 `m` では、写した先の値が残らないか、写す前の値が届かない。どちらになるかは、対の順で
決まる。
-/
theorem exists_lost (hfst : (l.map Prod.fst).Nodup) (hsnd : (l.map Prod.snd).Nodup)
    (h : ¬ Apart l) (c d : V) :
    ∃ p ∈ l, (∀ F : κ → V, copyOut l (copyIn l fun _ => d).2 F p.1 = d) ∨
      ∃ R : κ → V, R p.1 = c ∧ copyOut l (copyIn l R).2 (copyIn l R).1 p.1 = d := by
  unfold Apart at h
  push Not at h
  obtain ⟨p, hp, hmem⟩ := h
  refine ⟨p, hp, ?_⟩
  obtain ⟨⟨o, m⟩, hq, hm⟩ := List.mem_map.mp hmem
  change m = p.1 at hm
  subst hm
  obtain ⟨l₁, l₂, rfl⟩ := List.append_of_mem hq
  rw [List.map_append, List.map_cons, List.nodup_append, List.nodup_cons] at hfst hsnd
  obtain ⟨-, ⟨hm₂, -⟩, hm₁⟩ := hsnd
  have hsnd₁ : p.1 ∉ l₁.map Prod.snd := fun hin => hm₁ _ hin _ List.mem_cons_self rfl
  by_cases hlater : p.1 ∈ l₂.map Prod.fst
  · -- あとの対が、もう上書きされた `m` から写す
    right
    have hfst₁ : p.1 ∉ l₁.map Prod.fst := fun hin =>
      hfst.2.2 _ hin _ (List.mem_cons_of_mem _ hlater) rfl
    have ho : o ≠ p.1 := fun heq => hfst.2.1.1 (heq ▸ hlater)
    refine ⟨Function.update (fun _ => d) p.1 c, Function.update_self .., ?_⟩
    have hin : copyIn (l₁ ++ (o, p.1) :: l₂) (Function.update (fun _ => d) p.1 c) =
        (fun _ => d, (l₁.map fun _ => d) ++ c :: l₂.map fun _ => d) := by
      rw [copyIn_spike hfst₁ hsnd₁]
      simp only [copyIn, Function.update_of_ne ho, Function.update_self, Function.update_idem,
        update_const, copyIn_const]
    rw [hin, copyOut_append, copyOut_const, copyOut, update_const, copyOut_spike hlater hm₂]
  · -- `m` に触れる最後の対は、退避した値を戻す
    left
    intro F
    rw [copyIn_const]
    exact copyOut_restored hlater hm₂

end Overlap

end AetherVM.Infra
