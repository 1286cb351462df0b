import Mathlib.Data.List.Nodup

/-! A store of single-use keys: each key is added once and can be taken once. -/
namespace Kaos.Lib

variable {κ : Type*}

/-- One step: at most one key is taken, at most one is added, and others may expire. -/
structure UseStep (keys : List κ) (taken added : Option κ) (keys' : List κ) : Prop where
  mem : ∀ k ∈ taken, k ∈ keys
  gone : keys.Nodup → ∀ k ∈ taken, k ∉ keys'
  sublist : keys'.Sublist (keys ++ added.toList)

/-- A run of the store that never adds a key twice. -/
structure SingleUse (keys : ℕ → List κ) (taken added : ℕ → Option κ) : Prop where
  empty : keys 0 = []
  step : ∀ n, UseStep (keys n) (taken n) (added n) (keys (n + 1))
  fresh : ∀ i j k, k ∈ added i → k ∈ added j → i = j

variable {keys keys' : List κ} {taken added : Option κ} {k : κ}

theorem UseStep.mem_next (h : UseStep keys taken added keys') (hk : k ∈ keys') :
    k ∈ keys ∨ k ∈ added := by
  rcases List.mem_append.mp (h.sublist.mem hk) with hk | hk
  · exact .inl hk
  · exact .inr (Option.mem_toList.mp hk)

namespace SingleUse

variable {keys : ℕ → List κ} {taken added : ℕ → Option κ}

/-- The keys in store are distinct, were added before and have not been taken. -/
theorem invariant (h : SingleUse keys taken added) (n : ℕ) :
    (keys n).Nodup ∧ (∀ k ∈ keys n, ∃ j < n, k ∈ added j) ∧ ∀ i < n, ∀ k ∈ taken i, k ∉ keys n := by
  induction n using Nat.strongRecOn with
  | _ n ih =>
    cases n with
    | zero => simp [h.empty]
    | succ n =>
      obtain ⟨hnd, hadded, htaken⟩ := ih n (Nat.lt_succ_self n)
      have hs := h.step n
      refine ⟨?_, fun k hk => ?_, fun i hi k hk hmem => ?_⟩
      · refine List.Nodup.sublist hs.sublist (List.nodup_append'.mpr ⟨hnd, ?_, ?_⟩)
        · cases added n <;> simp
        intro k hk hnew
        obtain ⟨j, hj, hold⟩ := hadded k hk
        have heq := h.fresh j n k hold (Option.mem_toList.mp hnew)
        omega
      · rcases hs.mem_next hk with hk | hk
        · obtain ⟨j, hj, hold⟩ := hadded k hk
          exact ⟨j, by omega, hold⟩
        · exact ⟨n, by omega, hk⟩
      rcases Nat.lt_succ_iff_lt_or_eq.mp hi with hi | rfl
      · rcases hs.mem_next hmem with hmem | hmem
        · exact htaken i hi k hk hmem
        · -- a key taken at `i` was added before `i`, not now
          obtain ⟨j, hj, hold⟩ := (ih i (by omega)).2.1 k ((h.step i).mem k hk)
          have heq := h.fresh j n k hold hmem
          omega
      · exact hs.gone hnd k hk hmem

theorem taken_once (h : SingleUse keys taken added) {i j : ℕ} (hi : k ∈ taken i)
    (hj : k ∈ taken j) : i = j := by
  rcases Nat.lt_trichotomy i j with hlt | heq | hlt
  · exact absurd ((h.step j).mem k hj) ((h.invariant j).2.2 i hlt k hi)
  · exact heq
  · exact absurd ((h.step i).mem k hi) ((h.invariant i).2.2 j hlt k hj)

end SingleUse

end Kaos.Lib
