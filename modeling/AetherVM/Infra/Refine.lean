/-!
# 失敗する計算の refinement

`u` を「何が起きてもよい」失敗とする。`y` が `x` を refine するとは、`x` の結果が `u` でない限り
`y` の結果が `x` と同じになることである。順に計算を繋げてもこの関係は保たれる。
-/

namespace AetherVM.Infra

variable {ε α β : Type} {u : ε}

/-- 成功した計算は、途中の値を経て成功している。 -/
theorem ok_of_bind_eq_ok {x : Except ε α} {f : α → Except ε β} {b : β} (h : x >>= f = .ok b) :
    ∃ a, x = .ok a ∧ f a = .ok b := by
  match x, h with
  | .ok a, h => exact ⟨a, rfl, h⟩

/-- 続きは、先の計算の成功した値の上で同じならよい。 -/
theorem bind_congr_of_ok {x : Except ε α} {f g : α → Except ε β}
    (h : ∀ a, x = .ok a → f a = g a) : x >>= f = x >>= g := by
  cases x with
  | error e => rfl
  | ok a => exact h a rfl

/-- `u` で終わらない計算。 -/
def Defined (u : ε) (x : Except ε α) : Prop := x ≠ .error u

theorem Defined.ok (a : α) : Defined u (.ok a) := fun h => by cases h

theorem Defined.bind {x : Except ε α} {f : α → Except ε β} (h : Defined u x)
    (hf : ∀ a, x = .ok a → Defined u (f a)) : Defined u (x >>= f) := by
  cases x with
  | error e => exact fun hc => h (by cases hc; rfl)
  | ok a => exact hf a rfl

/-- `x` が `u` で終わらないなら、`y` は `x` と同じ結果になる。 -/
def Refines (u : ε) (x y : Except ε α) : Prop := Defined u x → y = x

namespace Refines

theorem refl (x : Except ε α) : Refines u x x := fun _ => rfl

theorem of_eq {x y : Except ε α} (h : y = x) : Refines u x y := fun _ => h

theorem bind {x y : Except ε α} {f g : α → Except ε β} (h : Refines u x y)
    (hf : ∀ a, x = .ok a → Refines u (f a) (g a)) : Refines u (x >>= f) (y >>= g) := by
  intro hne
  cases x with
  | error e =>
    have hxy : y = .error e := h fun hc => hne (by cases hc; rfl)
    rw [hxy]
    rfl
  | ok a =>
    have hxy : y = .ok a := h fun hc => by cases hc
    rw [hxy]
    exact hf a rfl hne

end Refines

end AetherVM.Infra
