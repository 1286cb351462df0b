import Mathlib.Data.List.Basic
import Mathlib.Logic.Function.Basic

/-! Folds whose steps each concern one part of the state. -/
namespace Kaos.Lib

open List

variable {σ α β : Type*} {step : σ → α → σ} {view : σ → β} {own : α → Bool} {s s' : σ}
  {inputs : List α}

/-- A part of the state sees only its own inputs. -/
theorem foldl_view (hframe : ∀ s a, own a = false → view (step s a) = view s)
    (hown : ∀ s s' a, view s = view s' → view (step s a) = view (step s' a))
    (h : view s = view s') : view (inputs.foldl step s) = view ((inputs.filter own).foldl step s') := by
  induction inputs generalizing s s' with
  | nil => exact h
  | cons a inputs ih =>
    rw [foldl_cons]
    cases ha : own a with
    | false =>
      rw [filter_cons_of_neg (by simp [ha])]
      exact ih ((hframe s a ha).trans h)
    | true =>
      rw [filter_cons_of_pos ha, foldl_cons]
      exact ih (hown s s' a h)

section Update

variable {ι ν : Type*} [DecidableEq ι] {key : α → ι} {value : α → ν} {f : ι → ν} {i : ι}
  {inputs : List α} {a : α}

theorem foldl_update_of_not_mem (h : i ∉ inputs.map key) :
    inputs.foldl (fun f a => Function.update f (key a) (value a)) f i = f i := by
  induction inputs generalizing f with
  | nil => rfl
  | cons b inputs ih =>
    rw [map_cons, mem_cons, not_or] at h
    rw [foldl_cons, ih h.2, Function.update_of_ne h.1]

/-- An input whose key no other has decides the value there. -/
theorem foldl_update_of_mem (hnd : (inputs.map key).Nodup) (h : a ∈ inputs) :
    inputs.foldl (fun f a => Function.update f (key a) (value a)) f (key a) = value a := by
  induction inputs generalizing f with
  | nil => cases h
  | cons b inputs ih =>
    rw [map_cons, nodup_cons] at hnd
    rw [foldl_cons]
    rcases mem_cons.mp h with rfl | h
    · rw [foldl_update_of_not_mem hnd.1, Function.update_self]
    · exact ih hnd.2 h

end Update

end Kaos.Lib
