import Mathlib.Data.Sum.Order
import Mathlib.Logic.Relation

/-!
# 止まるまで回す loop

step は、続けるなら次の状態（`inl`）を、止まるなら結果（`inr`）を返す。`loop` はこれを高々 `fuel` 回
繰り返す。二つの loop の step が一つずつ対応するなら、loop の全体も対応する。
-/

namespace AetherVM.Infra

variable {σ τ ω υ : Type}

/-- 高々 `fuel` 回の step。足りなければ、途中の状態を返す。 -/
def loop (step : σ → σ ⊕ ω) : Nat → σ → σ ⊕ ω
  | 0, s => .inl s
  | fuel + 1, s =>
    match step s with
    | .inl s' => loop step fuel s'
    | .inr o => .inr o

/-- 止まらずに着くこと。 -/
abbrev Reaches (step : σ → σ ⊕ ω) : σ → σ → Prop :=
  Relation.ReflTransGen fun s s' => step s = .inl s'

variable {step : σ → σ ⊕ ω} {step' : τ → τ ⊕ υ}

/--
`R` で結ばれた二つの状態の step が、続くか止まるかを揃え、続くなら `R` を、止まるなら `Q` を保つとする。
そのような step だけで進む限り、二つの loop も同じ回数で対応する。`ok` は、後の側の状態についての条件で、
後の側の run が着くどの状態でも成り立てばよい。
-/
theorem loop_liftRel {R : σ → τ → Prop} {Q : ω → υ → Prop} {ok : τ → Prop}
    (hstep : ∀ s t, R s t → ok t → Sum.LiftRel R Q (step s) (step' t)) :
    ∀ (fuel : Nat) (s : σ) (t : τ), R s t → (∀ t', Reaches step' t t' → ok t') →
      Sum.LiftRel R Q (loop step fuel s) (loop step' fuel t)
  | 0, s, t, hR, _ => .inl hR
  | fuel + 1, s, t, hR, hok => by
    have h := hstep s t hR (hok t .refl)
    rw [loop, loop]
    cases hs : step s with
    | inl s' =>
      cases ht : step' t with
      | inl t' =>
        rw [hs, ht, Sum.liftRel_inl_inl] at h
        exact loop_liftRel hstep fuel s' t' h fun t'' hreach => hok t'' (.head ht hreach)
      | inr o' =>
        rw [hs, ht] at h
        cases h
    | inr o =>
      cases ht : step' t with
      | inl t' =>
        rw [hs, ht] at h
        cases h
      | inr o' =>
        rw [hs, ht, Sum.liftRel_inr_inr] at h
        exact .inr h

/-- 着いた状態からは、その先の loop に続く。 -/
theorem exists_loop_of_reaches {s s' : σ} (h : Reaches step s s') :
    ∃ n, ∀ fuel, loop step (n + fuel) s = loop step fuel s' := by
  induction h using Relation.ReflTransGen.head_induction_on with
  | refl => exact ⟨0, fun fuel => by rw [Nat.zero_add]⟩
  | head hstep _ ih =>
    obtain ⟨n, hn⟩ := ih
    refine ⟨n + 1, fun fuel => ?_⟩
    rw [Nat.add_right_comm, loop, hstep]
    exact hn fuel

/-- 写した状態が一つに決まるなら、写した先の loop は写した結果になる。 -/
theorem map_of_liftRel {f : σ → τ} {g : ω → υ} {x : σ ⊕ ω} {y : τ ⊕ υ} {R : σ → τ → Prop}
    (hR : ∀ s t, R s t → t = f s) (h : Sum.LiftRel R (fun o o' => o' = g o) x y) :
    y = x.map f g := by
  cases h with
  | inl h => rw [hR _ _ h, Sum.map_inl]
  | inr h => rw [h, Sum.map_inr]

/-! ## 着く状態で等しい step -/

section

variable {step step' : σ → σ ⊕ ω} {s₀ : σ}

end

end AetherVM.Infra
