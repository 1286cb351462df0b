import Mathlib.Data.List.Basic

/-! Runs of a step function over a list of inputs. -/
namespace Kaos.Lib

variable {σ α : Type*} {next : σ → α → σ} {s : σ} {inputs : List α} {n : ℕ} {a : α}

/-- The state the `n`-th input meets. -/
def stateAt (next : σ → α → σ) (s : σ) (inputs : List α) (n : ℕ) : σ :=
  (inputs.take n).foldl next s

@[simp] theorem stateAt_zero : stateAt next s inputs 0 = s := rfl

theorem stateAt_succ (h : inputs[n]? = some a) :
    stateAt next s inputs (n + 1) = next (stateAt next s inputs n) a := by
  simp [stateAt, List.take_add_one, h]

theorem stateAt_succ_none (h : inputs[n]? = none) :
    stateAt next s inputs (n + 1) = stateAt next s inputs n := by
  simp [stateAt, List.take_add_one, h]

/-- Past the inputs nothing changes, before that an input makes its step. -/
theorem stateAt_step (next : σ → α → σ) (s : σ) (inputs : List α) (n : ℕ) :
    (inputs[n]? = none ∧ stateAt next s inputs (n + 1) = stateAt next s inputs n) ∨
      ∃ a, inputs[n]? = some a ∧
        stateAt next s inputs (n + 1) = next (stateAt next s inputs n) a := by
  cases h : inputs[n]? with
  | none => exact .inl ⟨rfl, stateAt_succ_none h⟩
  | some a => exact .inr ⟨a, rfl, stateAt_succ h⟩

variable {P : σ → Prop}

/-- A predicate that holds at some position and that the steps from there on keep holds later. -/
theorem stateAt_from {m : ℕ} (hmn : m ≤ n) (hm : P (stateAt next s inputs m))
    (hs : ∀ k a, m ≤ k → inputs[k]? = some a → P (stateAt next s inputs k) →
      P (next (stateAt next s inputs k) a)) : P (stateAt next s inputs n) := by
  induction hmn with
  | refl => exact hm
  | @step k hk ih =>
    rcases stateAt_step next s inputs k with ⟨-, h⟩ | ⟨a, ha, h⟩ <;> rw [Nat.succ_eq_add_one, h]
    · exact ih
    · exact hs k a hk ha ih

/-- A predicate that holds at first and that every step keeps holds all along. -/
theorem stateAt_invariant (hs : P s) (hst : ∀ s a, P s → P (next s a)) (n : ℕ) :
    P (stateAt next s inputs n) :=
  stateAt_from (Nat.zero_le n) hs fun _ a _ _ h => hst _ a h

/-- Every step of the run keeps the predicate that relates a state to its position. -/
theorem stateAt_induction {P : ℕ → σ → Prop} (hs : P 0 s) (hstay : ∀ n s, P n s → P (n + 1) s)
    (hst : ∀ n s a, inputs[n]? = some a → P n s → P (n + 1) (next s a)) (n : ℕ) :
    P n (stateAt next s inputs n) := by
  induction n with
  | zero => exact hs
  | succ n ih =>
    rcases stateAt_step next s inputs n with ⟨-, h⟩ | ⟨a, ha, h⟩ <;> rw [h]
    · exact hstay n _ ih
    · exact hst n _ a ha ih

variable {α : Type*} {as : List α}

/-- An entry of a log with one more at its end. -/
theorem getElem?_append_one {a b : α} {i : ℕ}
    (h : (as ++ [a])[i]? = some b) : as[i]? = some b ∨ i = as.length ∧ b = a := by
  rw [List.getElem?_append] at h
  split at h
  · exact .inl h
  rw [List.getElem?_singleton] at h
  split at h
  · cases h
    exact .inr ⟨by omega, rfl⟩
  · cases h

/-- An entry of a list after one has been replaced is another one or the replacement. -/
theorem getElem?_set_cases {i k : ℕ} {new b : α}
    (h : (as.set k new)[i]? = some b) : (i ≠ k ∧ as[i]? = some b) ∨ (i = k ∧ b = new) := by
  by_cases hik : i = k
  · subst hik
    right
    obtain ⟨hlt, heq⟩ := List.getElem?_eq_some_iff.mp h
    rw [List.getElem_set_self] at heq
    exact ⟨rfl, heq.symm⟩
  · left
    rw [List.getElem?_set_ne (Ne.symm hik)] at h
    exact ⟨hik, h⟩

end Kaos.Lib
