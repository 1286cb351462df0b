import Kaos.Lib.EditScript

/-! Deltas: what is retained, deleted and inserted on the way through a list. -/
namespace Kaos.Lib

open List


inductive DeltaOp (α : Type*)
  | retain (count : ℕ)
  | delete (count : ℕ)
  | insert (content : List α)
  deriving DecidableEq

/-- What a delta leaves behind its last operation stays. -/
abbrev Delta (α : Type*) := List (DeltaOp α)

namespace Delta

variable {α : Type*} {d e : Delta α} {op : DeltaOp α} {xs base : List α} {k n pos : ℕ}

def apply : Delta α → List α → List α
  | [], xs => xs
  | .retain count :: d, xs => xs.take count ++ apply d (xs.drop count)
  | .delete count :: d, xs => apply d (xs.drop count)
  | .insert content :: d, xs => content ++ apply d xs

/-- How far into the list a delta reads. -/
def span : Delta α → ℕ
  | [] => 0
  | .retain count :: d => count + span d
  | .delete count :: d => count + span d
  | .insert _ :: d => span d

/-- The insertions and deletions at their positions, for a delta that begins at `pos`. -/
def splicesFrom : ℕ → Delta α → List (Splice α)
  | _, [] => []
  | pos, .retain count :: d => splicesFrom (pos + count) d
  | pos, .delete count :: d => ⟨pos, pos + count, []⟩ :: splicesFrom (pos + count) d
  | pos, .insert content :: d => ⟨pos, pos, content⟩ :: splicesFrom pos d

theorem splicesFrom_spec (hspan : pos + span d ≤ n) :
    Splice.Sequential n (splicesFrom pos d) ∧ ∀ c ∈ splicesFrom pos d, pos ≤ c.baseStart := by
  induction d generalizing pos with
  | nil => exact ⟨⟨by simp [splicesFrom], by simp [splicesFrom], List.Pairwise.nil⟩,
      by simp [splicesFrom]⟩
  | cons op d ih =>
    cases op with rw [span] at hspan
    | retain count =>
      have hspan' : (pos + count) + span d ≤ n := by omega
      obtain ⟨hseq, hst⟩ := ih hspan'
      refine ⟨hseq, ?_⟩
      intro c hc
      have hle := hst c hc
      omega
    | delete count =>
      have hspan' : (pos + count) + span d ≤ n := by omega
      obtain ⟨hseq, hst⟩ := ih hspan'
      refine ⟨hseq.cons (Nat.le_add_right _ _) (by dsimp only; omega) hst, ?_⟩
      intro c hc
      rcases mem_cons.mp hc with rfl | hc
      · exact Nat.le_refl _
      have hle := hst c hc
      omega
    | insert content =>
      obtain ⟨hseq, hst⟩ := ih hspan
      refine ⟨hseq.cons (Nat.le_refl _) (by dsimp only; omega) hst, ?_⟩
      intro c hc
      rcases mem_cons.mp hc with rfl | hc
      · exact Nat.le_refl _
      · exact hst c hc

/-- The splices of a delta do what the delta does. -/
theorem applyFrom_splicesFrom (hspan : pos + span d ≤ base.length) (hk : k ≤ pos) :
    Splice.applyFrom base base.length k (splicesFrom pos d) =
      slice base k pos ++ apply d (base.drop pos) := by
  induction d generalizing pos k with
  | nil =>
    rw [span] at hspan
    rw [splicesFrom, Splice.applyFrom, apply, ← slice_length base pos,
      slice_append_slice hk (by omega)]
  | cons op d ih =>
    cases op with rw [span] at hspan
    | retain count =>
      rw [splicesFrom, ih (by omega) (by omega), apply, drop_drop,
        ← slice_append_slice hk (Nat.le_add_right pos count), append_assoc]
      congr 2
      rw [← take_drop_eq_slice, Nat.add_sub_cancel_left]
    | delete count =>
      rw [splicesFrom, Splice.applyFrom, ih (by dsimp only; omega) (Nat.le_refl _), apply,
        drop_drop, slice_of_le (Nat.le_refl _), append_nil, nil_append]
    | insert content =>
      rw [splicesFrom, Splice.applyFrom, ih hspan (Nat.le_refl _), apply,
        slice_of_le (Nat.le_refl _), nil_append, append_assoc]

/-- One operation on a list that is edited in place, at a cursor. -/
def editStep : ℕ × List α → DeltaOp α → ℕ × List α
  | (cursor, xs), .retain count => (cursor + count, xs)
  | (cursor, xs), .delete count => (cursor, xs.take cursor ++ xs.drop (cursor + count))
  | (cursor, xs), .insert content =>
    (cursor + content.length, xs.take cursor ++ content ++ xs.drop cursor)

/-- Editing in place does what the delta does. -/
theorem foldl_editStep (hspan : span d ≤ xs.length) (done : List α) :
    (d.foldl editStep (done.length, done ++ xs)).2 = done ++ apply d xs := by
  induction d generalizing done xs with
  | nil => rfl
  | cons op d ih =>
    cases op with
    | retain count =>
      rw [span] at hspan
      have hlen : (done ++ xs.take count).length = done.length + count := by
        rw [length_append, length_take]
        omega
      have hs : done ++ xs = (done ++ xs.take count) ++ xs.drop count := by
        rw [append_assoc, take_append_drop]
      rw [foldl_cons, editStep, ← hlen, hs, ih, apply, append_assoc]
      rw [length_drop]
      omega
    | delete count =>
      rw [span] at hspan
      rw [foldl_cons, editStep, take_left', drop_length_add_append, ih, apply]
      · rw [length_drop]
        omega
      · rfl
    | insert content =>
      have hlen : (done ++ content).length = done.length + content.length := length_append
      rw [foldl_cons, editStep, take_left', drop_left', ← hlen, ih hspan, apply,
        append_assoc] <;> rfl

/-- An operation of the same kind as the last one joins it. -/
def push (d : Delta α) (op : DeltaOp α) : Delta α :=
  match d.getLast?, op with
  | some (.retain count), .retain count' => d.dropLast ++ [.retain (count + count')]
  | some (.delete count), .delete count' => d.dropLast ++ [.delete (count + count')]
  | some (.insert content), .insert content' => d.dropLast ++ [.insert (content ++ content')]
  | _, _ => d ++ [op]

theorem apply_append_congr (h : ∀ xs, apply d xs = apply e xs) (first : Delta α) (xs : List α) :
    apply (first ++ d) xs = apply (first ++ e) xs := by
  induction first generalizing xs with
  | nil => exact h xs
  | cons op first ih => cases op <;> simp [apply, ih]

theorem apply_push (d : Delta α) (op : DeltaOp α) (e : Delta α) (xs : List α) :
    apply (push d op ++ e) xs = apply (d ++ op :: e) xs := by
  rcases eq_nil_or_concat d with rfl | ⟨first, last, rfl⟩
  · rfl
  unfold push
  rw [concat_eq_append, getLast?_append, getLast?_singleton, Option.some_or,
    dropLast_concat, append_assoc]
  cases last <;> cases op <;> simp only [append_assoc, singleton_append] <;> try rfl
  · apply apply_append_congr
    intro ys
    simp [apply, take_add, drop_drop]
  · apply apply_append_congr
    intro ys
    simp [apply, drop_drop]
  apply apply_append_congr
  intro ys
  simp [apply]

theorem span_append (d e : Delta α) : span (d ++ e) = span d + span e := by
  induction d with
  | nil => simp [span]
  | cons op d ih => cases op <;> simp [span, ih, Nat.add_assoc]

theorem span_push (d : Delta α) (op : DeltaOp α) : span (push d op) = span (d ++ [op]) := by
  rcases eq_nil_or_concat d with rfl | ⟨first, last, rfl⟩
  · rfl
  unfold push
  rw [concat_eq_append, getLast?_append, getLast?_singleton, Option.some_or,
    dropLast_concat, append_assoc]
  cases last <;> cases op <;> simp [span_append, span]

/-- A segment of an edit script as an operation. -/
def ofSegment : EditOp × List α → DeltaOp α
  | (.equal, xs) => .retain xs.length
  | (.delete, xs) => .delete xs.length
  | (.insert, xs) => .insert xs

/-- The operations of a script lead from its source to its target. -/
theorem ofScript_spec (script : EditScript α) :
    span (List.map ofSegment script) = (EditScript.source script).length ∧
      ∀ rest, apply (List.map ofSegment script) (EditScript.source script ++ rest) =
        EditScript.target script ++ rest := by
  induction script with
  | nil => exact ⟨rfl, fun rest => rfl⟩
  | cons segment script ih =>
    obtain ⟨op, xs⟩ := segment
    cases op with
    | equal | delete | insert => exact ⟨by simp [ofSegment, span, EditScript.source, ih.1],
        fun rest => by simp [ofSegment, apply, EditScript.source, EditScript.target, ih.2]⟩

end Delta

end Kaos.Lib
