import Mathlib.Data.List.DropRight

/-! The last entries of a list, as a bounded log keeps them. -/
namespace Kaos.Lib

open List

variable {α : Type*} {n : ℕ} {xs ys : List α}

theorem rtake_sublist (xs : List α) (n : ℕ) : (xs.rtake n).Sublist xs := drop_sublist _ _

theorem mem_of_mem_rtake {x : α} (h : x ∈ xs.rtake n) : x ∈ xs := (rtake_sublist xs n).mem h

theorem rtake_of_length_le (h : xs.length ≤ n) : xs.rtake n = xs := by
  rw [List.rtake, Nat.sub_eq_zero_of_le h, drop_zero]

theorem length_rtake_le : (xs.rtake n).length ≤ n := by
  rw [List.rtake, length_drop]
  omega

/-- A long enough end hides what is before it. -/
theorem rtake_append_of_le (h : n ≤ ys.length) : (xs ++ ys).rtake n = ys.rtake n := by
  rw [List.rtake, length_append, Nat.add_sub_assoc h, drop_length_add_append, List.rtake]

theorem mem_rtake_of_length_lt {x : α} (h : ys.length < n) : x ∈ (xs ++ x :: ys).rtake n := by
  rw [List.rtake, length_append, length_cons]
  have hle : xs.length + (ys.length + 1) - n ≤ xs.length := by omega
  rw [drop_append_of_le_length hle]
  exact mem_append_right _ (mem_cons_self ..)

/-- Cutting before an append changes nothing of the cut after it. -/
theorem rtake_rtake_append : (xs.rtake n ++ ys).rtake n = (xs ++ ys).rtake n := by
  rcases Nat.le_total xs.length n with h | h
  · rw [rtake_of_length_le h]
  have hs : xs.take (xs.length - n) ++ (xs.rtake n ++ ys) = xs ++ ys := by
    rw [← append_assoc, List.rtake, take_append_drop]
  have hlen : n ≤ (xs.rtake n ++ ys).length := by
    rw [length_append, List.rtake, length_drop]
    omega
  calc (xs.rtake n ++ ys).rtake n
      = (xs.take (xs.length - n) ++ (xs.rtake n ++ ys)).rtake n :=
        (rtake_append_of_le hlen).symm
    _ = (xs ++ ys).rtake n := by rw [hs]

end Kaos.Lib
