import Mathlib.Order.Basic

/-! Labelled transition relations, their finite traces and the invariant rules. -/
namespace Kaos.Lib

/-- The finite traces of a labelled step relation, with the labels in order. -/
inductive Trace {σ α : Type*} (Step : σ → α → σ → Prop) : σ → List α → σ → Prop
  | refl {s : σ} : Trace Step s [] s
  | stepL {s u t : σ} {a : α} {xs : List α} :
      Step s a u → Trace Step u xs t → Trace Step s (a :: xs) t

variable {σ α : Type*} {Step Step' : σ → α → σ → Prop} {s t u : σ} {a : α} {xs ys : List α}

theorem Trace.single (h : Step s a t) : Trace Step s [a] t := .stepL h .refl

/-- A state predicate every step preserves holds along every trace. -/
theorem Trace.invariant {P : σ → Prop} (hst : ∀ {s a t}, Step s a t → P s → P t)
    (h : Trace Step s xs t) (hs : P s) : P t := by
  induction h with
  | refl => exact hs
  | stepL h _ ih => exact ih (hst h hs)

/-- A run of a partial step function is a trace of its graph. -/
theorem Trace.of_foldlM {next : σ → α → Option σ} (h : xs.foldlM next s = some t) :
    Trace (fun s a t => next s a = some t) s xs t := by
  induction xs generalizing s with
  | nil =>
    cases h
    exact .refl
  | cons a xs ih =>
    rw [List.foldlM_cons] at h
    obtain ⟨u, hu, ht⟩ := Option.bind_eq_some_iff.mp h
    exact .stepL hu (ih ht)

end Kaos.Lib
