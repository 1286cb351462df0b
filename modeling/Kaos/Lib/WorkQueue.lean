import Mathlib.Data.List.Infix
import Mathlib.Order.Basic

/-! A queue of at most one item, and the workers that have taken items from it. -/
namespace Kaos.Lib

/-- Items are numbered as they are queued, and a worker keeps the number of its item. -/
structure WorkQueue where
  length : ℕ
  queued : Option ℕ
  owners : List ℕ

namespace WorkQueue

variable {q q' q'' : WorkQueue}

/-- New items are queued, workers start, and the queued item may be dropped; no other item is
queued again. -/
structure Grows (q q' : WorkQueue) : Prop where
  length : q.length ≤ q'.length
  queued : ∀ id, q'.queued = some id → q.queued = some id ∨ q.length ≤ id
  owners : q.owners <+: q'.owners
  owned : ∀ id ∈ q'.owners, id ∈ q.owners ∨ id < q'.length

theorem Grows.refl (q : WorkQueue) : q.Grows q :=
  ⟨Nat.le_refl _, fun _ h => .inl h, List.prefix_refl _, fun _ h => .inl h⟩

/-- No worker starts. -/
theorem Grows.of_owners (hlen : q.length ≤ q'.length)
    (hq : ∀ id, q'.queued = some id → q.queued = some id ∨ q.length ≤ id)
    (hown : q'.owners = q.owners) : q.Grows q' := by
  refine ⟨hlen, hq, ?_, ?_⟩
  · rw [hown]
  intro id h
  rw [hown] at h
  exact .inl h

/-- A new item is queued. -/
theorem Grows.of_push (hlen : q'.length = q.length + 1) (hq : q'.queued = some q.length)
    (hown : q'.owners = q.owners) : q.Grows q' := by
  refine .of_owners (by omega) ?_ hown
  intro id hid
  exact .inr (Option.some.inj (hq.symm.trans hid)).le

theorem Grows.trans (h : q.Grows q') (h' : q'.Grows q'') : q.Grows q'' := by
  refine ⟨h.length.trans h'.length, ?_, h.owners.trans h'.owners, ?_⟩ <;> intro id hid
  · rcases h'.queued id hid with hq' | hnew
    · exact h.queued id hq'
    · exact .inr (h.length.trans hnew)
  rcases h'.owned id hid with hq' | hlt
  · exact (h.owned id hq').imp_right fun hlt => hlt.trans_le h'.length
  · exact .inr hlt

/-- Every worker's item exists. -/
def Owned (q : WorkQueue) : Prop := ∀ id ∈ q.owners, id < q.length

theorem Owned.grows (hq : q.Owned) (h : q.Grows q') : q'.Owned := by
  intro id hid
  rcases h.owned id hid with hold | hlt
  · exact (hq id hold).trans_le h.length
  · exact hlt

/-- An item that has left the queue does not come back. -/
theorem Grows.not_queued {id : ℕ} (h : q.Grows q') (hn : q.queued = none)
    (hid : id < q.length) : q'.queued ≠ some id := by
  intro hqueued
  rcases h.queued id hqueued with hq | hnew
  · rw [hn] at hq
    cases hq
  · omega

theorem Grows.owner {i : ℕ} (h : q.Grows q') (hi : i < q.owners.length) :
    q'.owners[i]? = q.owners[i]? := by
  obtain ⟨rest, hr⟩ := h.owners
  rw [← hr, List.getElem?_append_left hi]

/-- A worker that has an item of an emptied queue never sees it queued again. -/
theorem Grows.owner_not_queued {i id : ℕ} (h : q.Grows q') (hq : q.Owned)
    (hn : q.queued = none) (hi : i < q.owners.length) (hid : q'.owners[i]? = some id) :
    id < q.length ∧ q'.queued ≠ some id := by
  rw [h.owner hi] at hid
  have hlt := hq id (List.mem_of_getElem? hid)
  exact ⟨hlt, h.not_queued hn hlt⟩

theorem grows_of_le {q : ℕ → WorkQueue} (h : ∀ n, (q n).Grows (q (n + 1))) {m n : ℕ}
    (hmn : m ≤ n) : (q m).Grows (q n) := by
  induction hmn with
  | refl => exact .refl (q m)
  | step _ ih => exact ih.trans (h _)

end WorkQueue

end Kaos.Lib
