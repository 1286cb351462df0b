import Kaos.Lib.OrderedMap

/-! Maps of counts that hold no key whose count has come down to zero. -/
namespace Kaos.Lib.OrderedMap

variable {κ : Type*} [DecidableEq κ] {m : OrderedMap κ ℕ} {k k' : κ} {n : ℕ}

/-- The count of a key, zero where there is none. -/
def tally (m : OrderedMap κ ℕ) (k : κ) : ℕ := (m.get? k).getD 0

def increment (m : OrderedMap κ ℕ) (k : κ) : OrderedMap κ ℕ := m.set k (m.tally k + 1)

def decrement (m : OrderedMap κ ℕ) (k : κ) : OrderedMap κ ℕ :=
  let remaining := (m.get? k).getD 1 - 1
  if remaining > 0 then m.set k remaining else m.delete k

theorem tally_eq (h : (k, n) ∈ m.entries) : m.tally k = n := by
  simp [tally, get?_eq_some.mpr h]

theorem mem_of_tally_pos (h : 0 < m.tally k) : (k, m.tally k) ∈ m.entries := by
  apply get?_eq_some.mp
  cases hk : m.get? k with
  | none => simp [tally, hk] at h
  | some n => simp [tally, hk]

theorem tally_increment : (m.increment k).tally k' = m.tally k' + if k' = k then 1 else 0 := by
  by_cases h : k' = k
  · subst h
    simp [increment, tally, get?_set_self]
  · simp [increment, tally, get?_set_of_ne h, h]

theorem tally_decrement : (m.decrement k).tally k' = m.tally k' - if k' = k then 1 else 0 := by
  unfold decrement
  extract_lets remaining
  by_cases h : k' = k
  · subst h
    rw [if_pos rfl]
    by_cases hn : remaining > 0
    · rw [if_pos hn, tally, get?_set_self]
      cases hk : m.get? k' with
      | none => simp [remaining, hk] at hn
      | some n => simp [remaining, tally, hk]
    rw [if_neg hn, tally, get?_delete_self]
    cases hk : m.get? k' with
    | none => simp [tally, hk]
    | some n =>
      simp only [remaining, hk, Option.getD_some] at hn
      simp only [tally, hk, Option.getD_some, Option.getD_none]
      omega
  rw [if_neg h]
  by_cases hn : remaining > 0
  · simp [hn, tally, get?_set_of_ne h]
  · simp [hn, tally, get?_delete_of_ne h]

end Kaos.Lib.OrderedMap
