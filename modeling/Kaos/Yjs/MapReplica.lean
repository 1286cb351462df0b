import Kaos.Yjs.YMap

/-! Replicas of a shared map that have only deleted keys from it, and what is left once all of them
have heard of one another. What is relied on is that a deletion hides the item it names wherever and
in whatever order both arrive. -/
namespace Kaos.Yjs

open Kaos.Lib List

/-- The item of each key that a replica knows, and the keys whose items it has deleted. -/
structure MapReplica (κ ν : Type*) where
  items : κ → Option ν
  deletes : κ → Bool

namespace MapReplica

variable {κ ν : Type*}

def merge (a b : MapReplica κ ν) : MapReplica κ ν where
  items k := (a.items k).or (b.items k)
  deletes k := a.deletes k || b.deletes k

def mergeAll : List (MapReplica κ ν) → MapReplica κ ν
  | [] => ⟨fun _ => none, fun _ => false⟩
  | replica :: replicas => replica.merge (mergeAll replicas)

def live (replica : MapReplica κ ν) (k : κ) : Option ν :=
  if replica.deletes k then none else replica.items k

/-- A map before and after some of its keys were deleted. -/
def ofDeletion [DecidableEq κ] (before after : YMap κ ν) : MapReplica κ ν where
  items := before.get?
  deletes k := (before.get? k).isSome && (after.get? k).isNone

/-- Replicas know the same item of a key. -/
def Consistent (replicas : List (MapReplica κ ν)) : Prop :=
  ∀ a ∈ replicas, ∀ b ∈ replicas, ∀ k v w, a.items k = some v → b.items k = some w → v = w

variable {replica : MapReplica κ ν} {replicas : List (MapReplica κ ν)} {k : κ} {v : ν}

theorem deletes_mergeAll : (mergeAll replicas).deletes k = false ↔
    ∀ replica ∈ replicas, replica.deletes k = false := by
  induction replicas with
  | nil => simp [mergeAll]
  | cons replica replicas ih => rw [mergeAll, merge, Bool.or_eq_false_iff, ih, forall_mem_cons]

theorem items_mergeAll (h : Consistent replicas) : (mergeAll replicas).items k = some v ↔
    ∃ replica ∈ replicas, replica.items k = some v := by
  induction replicas with
  | nil => simp [mergeAll]
  | cons replica replicas ih =>
    have hr := ih fun a ha b hb =>
      h a (mem_cons_of_mem _ ha) b (mem_cons_of_mem _ hb)
    rw [mergeAll, merge, Option.or_eq_some_iff, hr]
    constructor
    · rintro (hf | ⟨-, other, hmem, hi⟩)
      · exact ⟨replica, mem_cons_self, hf⟩
      · exact ⟨other, mem_cons_of_mem _ hmem, hi⟩
    rintro ⟨other, hmem, hi⟩
    cases hf : replica.items k with
    | some w =>
      exact .inl (congrArg some (h replica mem_cons_self other hmem k w v hf hi))
    | none =>
      rcases mem_cons.mp hmem with rfl | hmem
      · rw [hf] at hi
        cases hi
      · exact .inr ⟨rfl, other, hmem, hi⟩

/-- In whichever order the replicas are merged, a key is live if one of them knows its item and none
has deleted it. -/
theorem live_mergeAll (h : Consistent replicas) : (mergeAll replicas).live k = some v ↔
    (∃ replica ∈ replicas, replica.items k = some v) ∧
      ∀ replica ∈ replicas, replica.deletes k = false := by
  rw [← items_mergeAll h, ← deletes_mergeAll, live]
  cases (mergeAll replicas).deletes k <;> simp

end MapReplica

end Kaos.Yjs
