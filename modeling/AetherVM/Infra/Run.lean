import Mathlib.Logic.Basic

/-!
# 入力を受けて進む run

状態 `σ` が入力 `ι` を一つずつ受けて進む system の run。各 step には、その step の前の状態と入力についての
条件 `ok` を課せる。`ok` を満たす step だけの run について、一歩ごとに保たれる性質は
run の全体で保たれる。
-/

namespace AetherVM.Infra

variable {σ ι : Type}

/-- `s₀` から、`ok` を満たす入力だけで着く状態。 -/
inductive Run (step : σ → ι → σ → Prop) (ok : σ → ι → Prop) (s₀ : σ) : σ → Prop
  | refl : Run step ok s₀ s₀
  | tail {s s' : σ} {i : ι} (h : Run step ok s₀ s) (hok : ok s i) (hs : step s i s') :
      Run step ok s₀ s'

/-- 不変条件の規則。 -/
theorem Run.invariant {step : σ → ι → σ → Prop} {ok : σ → ι → Prop} {s₀ s : σ} {p : σ → Prop}
    (h : Run step ok s₀ s) (h0 : p s₀)
    (hstep : ∀ s i s', p s → ok s i → step s i s' → p s') : p s := by
  induction h with
  | refl => exact h0
  | @tail s s' i _ hok hs ih => exact hstep s i s' ih hok hs

theorem Run.trans {step : σ → ι → σ → Prop} {ok : σ → ι → Prop} {s₀ s s' : σ}
    (h : Run step ok s₀ s) (h' : Run step ok s s') : Run step ok s₀ s' := by
  induction h' with
  | refl => exact h
  | tail _ hok hs ih => exact .tail ih hok hs

/-- 決まった入力の列で進む。`ok` を満たさない入力では止まる。 -/
def runTrace (step : σ → ι → Option σ) (ok : σ → ι → Prop) [∀ s i, Decidable (ok s i)] :
    List ι → σ → Option σ
  | [], s => some s
  | i :: rest, s => if ok s i then (step s i).bind (runTrace step ok rest) else none

theorem Run.of_trace {step : σ → ι → Option σ} {ok : σ → ι → Prop} [∀ s i, Decidable (ok s i)] :
    ∀ (is : List ι) {s s' : σ}, runTrace step ok is s = some s' →
      Run (fun s i s' => step s i = some s') ok s s'
  | [], s, s', h => by
    cases h
    exact .refl
  | i :: rest, s, s', h => by
    unfold runTrace at h
    split at h
    · next hok =>
      obtain ⟨s₁, hs, hrest⟩ := Option.bind_eq_some_iff.mp h
      exact (Run.tail .refl hok hs).trans (of_trace rest hrest)
    · cases h

/-! ## 出力を返す run -/

variable {ε ω τ : Type}

/-- 入力を一つずつ受け、出力を並べて返す。step が失敗すれば、そこで終わる。 -/
def runOutputs (step : σ → ι → Except ε (σ × ω)) : List ι → σ → List ω × Except ε σ
  | [], s => ([], .ok s)
  | i :: rest, s =>
    match step s i with
    | .error e => ([], .error e)
    | .ok (s', o) => (o :: (runOutputs step rest s').1, (runOutputs step rest s').2)

/--
`inv` を満たす状態で、`abs` で写した先の step が元の step と同じ出力をし、写した状態に着くなら、
どの入力の列についても、写した先の run は元の run と同じ出力をし、写した状態に着く。
-/
theorem runOutputs_simulates {step : σ → ι → Except ε (σ × ω)} {step' : τ → ι → Except ε (τ × ω)}
    {abs : σ → τ} {inv : σ → Prop}
    (hstep : ∀ s i, inv s → step' (abs s) i = (fun p => (abs p.1, p.2)) <$> step s i)
    (hinv : ∀ s i p, inv s → step s i = .ok p → inv p.1) :
    ∀ (is : List ι) (s : σ), inv s →
      runOutputs step' is (abs s)
        = ((runOutputs step is s).1, abs <$> (runOutputs step is s).2) ∧
      ∀ s', (runOutputs step is s).2 = .ok s' → inv s'
  | [], s, h => by
    refine ⟨rfl, fun s' hs' => ?_⟩
    obtain rfl := Except.ok.inj hs'
    exact h
  | i :: rest, s, h => by
    have hi := hstep s i h
    cases hs : step s i with
    | error e =>
      rw [hs] at hi
      have hi : step' (abs s) i = .error e := hi
      rw [runOutputs, runOutputs, hi, hs]
      exact ⟨rfl, nofun⟩
    | ok p =>
      rw [hs] at hi
      have hi : step' (abs s) i = .ok (abs p.1, p.2) := hi
      obtain ⟨hrest, hlast⟩ := runOutputs_simulates hstep hinv rest p.1 (hinv s i p h hs)
      rw [runOutputs, runOutputs, hi, hs]
      simp only [hrest]
      exact ⟨trivial, hlast⟩

end AetherVM.Infra
