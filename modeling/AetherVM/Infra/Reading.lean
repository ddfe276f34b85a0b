import AetherVM.Infra.Bytes

/-!
# 読んだ範囲を記録する計算

buffer を読む手続きを、読んだ範囲の列と結果の組で表す。loop は fuel を取り、fuel が尽きれば結果は無い。
`Within n m r` は「`m` は終わって結果 `r` を返し、先頭の `n` byte の外を読まない」ことであり、手続きの形に沿った
規則で示す。

counter は固定幅の整数なので、`2 ^ w` で折り返す。上限が幅に収まる loop だけが終わる。
-/

namespace AetherVM.Infra

variable {ε α β : Type}

/-- 読んだ範囲（offset と長さ）の列と、結果。`none` は fuel が尽きたことを表す。 -/
structure Reading (ε α : Type) where
  log : List (Nat × Nat)
  result : Option (Except ε α)

namespace Reading

/-- 先に読んだ範囲の後ろに、続きの範囲を並べる。 -/
def bind (m : Reading ε α) (f : α → Reading ε β) : Reading ε β :=
  match m.result with
  | none => ⟨m.log, none⟩
  | some (.error e) => ⟨m.log, some (.error e)⟩
  | some (.ok a) => ⟨m.log ++ (f a).log, (f a).result⟩

instance : Monad (Reading ε) where
  pure a := ⟨[], some (.ok a)⟩
  bind := bind

def fail (e : ε) : Reading ε α := ⟨[], some (.error e)⟩

def diverge : Reading ε α := ⟨[], none⟩

/-- `off` から `n` byte を読む。範囲は確かめない。 -/
def read (buf : Bytes) (off n : Nat) : Reading ε Bytes :=
  ⟨[(off, n)], some (.ok ((buf.drop off).take n))⟩

/-- `for (uintw_t i = start; i < n; i += step)`。counter は `modulus` で折り返す。 -/
def forLoop (modulus step n : Nat) (body : Nat → Reading ε α) : Nat → Nat → Reading ε (List α)
  | 0, _ => diverge
  | fuel + 1, i =>
    if i < n then do
      let a ← body i
      let as ← forLoop modulus step n body fuel ((i + step) % modulus)
      pure (a :: as)
    else pure []

end Reading

/-- `m` は `r` を返して終わり、先頭の `n` byte の外を読まない。 -/
structure Within (n : Nat) (m : Reading ε α) (r : Except ε α) : Prop where
  result : m.result = some r
  log : ∀ a ∈ m.log, a.1 + a.2 ≤ n

namespace Within

variable {n : Nat} {m : Reading ε α} {f : α → Reading ε β} {a : α} {r : Except ε β}

theorem pure (a : α) : Within n (Pure.pure a : Reading ε α) (.ok a) :=
  ⟨rfl, fun _ h => absurd h List.not_mem_nil⟩

theorem fail (e : ε) : Within n (Reading.fail e : Reading ε α) (.error e) :=
  ⟨rfl, fun _ h => absurd h List.not_mem_nil⟩

theorem read {buf : Bytes} {off len : Nat} (h : off + len ≤ n) :
    Within n (Reading.read buf off len : Reading ε Bytes) (.ok ((buf.drop off).take len)) := by
  refine ⟨rfl, fun a ha => ?_⟩
  obtain rfl := List.mem_singleton.mp ha
  exact h

theorem bind (hm : Within n m (.ok a)) (hf : Within n (f a) r) : Within n (m >>= f) r := by
  have heq : (m >>= f) = ⟨m.log ++ (f a).log, (f a).result⟩ := by
    change Reading.bind m f = _
    rw [Reading.bind, hm.result]
  rw [heq]
  refine ⟨hf.result, fun x hx => ?_⟩
  rcases List.mem_append.mp hx with hx | hx
  · exact hm.log x hx
  · exact hf.log x hx

theorem bind_error {e : ε} (hm : Within n m (.error e)) : Within n (m >>= f) (.error e) := by
  have heq : (m >>= f) = ⟨m.log, some (.error e)⟩ := by
    change Reading.bind m f = _
    rw [Reading.bind, hm.result]
  rw [heq]
  exact ⟨rfl, hm.log⟩

/--
loop の規則。上限と一歩の和が counter の幅に収まり、どの回の本体も外を読まずに終わるなら、`n - i` より多い fuel で
loop は終わる。
-/
theorem forLoop {modulus step k : Nat} {body : Nat → Reading ε α} {g : Nat → α}
    (hstep : 0 < step) (hmod : k + step ≤ modulus)
    (hbody : ∀ i < k, Within n (body i) (.ok (g i))) : ∀ (fuel i : Nat), k - i < fuel →
    Within n (Reading.forLoop modulus step k body fuel i)
      (.ok ((List.range' i ((k - i + step - 1) / step) step).map g))
  | 0, i, h => absurd h (Nat.not_lt_zero _)
  | fuel + 1, i, h => by
    rw [Reading.forLoop]
    split
    · next hi =>
      have hwrap : (i + step) % modulus = i + step := Nat.mod_eq_of_lt (by omega)
      have hcount : (k - i + step - 1) / step = (k - (i + step) + step - 1) / step + 1 := by
        rw [show k - i + step - 1 = (k - i - 1) + step by omega, Nat.add_div_right _ hstep]
        by_cases hle : step ≤ k - i
        · rw [show k - (i + step) + step - 1 = k - i - 1 by omega]
        · rw [Nat.div_eq_of_lt (a := k - i - 1) (by omega), Nat.div_eq_of_lt (by omega)]
      rw [hwrap, hcount, List.range'_succ, List.map_cons]
      have hrest := forLoop hstep hmod hbody fuel (i + step) (by omega)
      exact (hbody i hi).bind (hrest.bind (pure _))
    · next hi =>
      have hzero : (k - i + step - 1) / step = 0 := Nat.div_eq_of_lt (by omega)
      rw [hzero]
      exact pure _

/-- 一つずつ進む loop。 -/
theorem forLoop_one {modulus k : Nat} {body : Nat → Reading ε α} {g : Nat → α}
    (hmod : k < modulus) (hbody : ∀ i < k, Within n (body i) (.ok (g i))) {fuel i : Nat}
    (h : k - i < fuel) : Within n (Reading.forLoop modulus 1 k body fuel i)
      (.ok ((List.range' i (k - i)).map g)) := by
  have hloop := forLoop Nat.one_pos hmod hbody fuel i h
  rwa [show k - i + 1 - 1 = k - i from rfl, Nat.div_one] at hloop

end Within

end AetherVM.Infra
