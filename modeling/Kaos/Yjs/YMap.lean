import Kaos.Lib.OrderedMap

/-! The shared maps of a Yjs document, read in the order in which their keys first came. What is relied
on is that `get` returns what was last set or nothing once it was deleted, and that `forEach` visits
each key that has a value once, in the order of the slots. -/
namespace Kaos.Yjs

open Kaos.Lib List OrderedMap

/-- A key keeps its slot when its value is deleted. -/
structure YMap (κ ν : Type*) where
  slots : OrderedMap κ (Option ν)

namespace YMap

variable {κ ν : Type*}

def empty : YMap κ ν := ⟨.empty⟩

/-- What `forEach` visits. -/
def entries (m : YMap κ ν) : List (κ × ν) :=
  m.slots.entries.filterMap fun slot => slot.2.map (slot.1, ·)

/-- No key is visited twice. -/
theorem nodup_keys (m : YMap κ ν) : (m.entries.map Prod.fst).Nodup := by
  refine m.slots.nodup.sublist ?_
  rw [entries]
  induction m.slots.entries with
  | nil => exact .refl _
  | cons slot slots ih =>
    obtain ⟨k, w⟩ := slot
    cases w with
    | none => exact ih.cons _
    | some v => exact ih.cons_cons _

variable [DecidableEq κ]

instance [DecidableEq ν] : DecidableEq (YMap κ ν) := fun m m' =>
  decidable_of_iff (m.slots = m'.slots) ⟨fun h => by cases m; cases m'; simpa using h, congrArg _⟩

def get? (m : YMap κ ν) (k : κ) : Option ν := (m.slots.get? k).join

/-- Set a value, or delete it with `none`. -/
def put (m : YMap κ ν) (k : κ) (v : Option ν) : YMap κ ν :=
  if v = none ∧ k ∉ m.slots.keys then m else ⟨m.slots.set k v⟩

def set (m : YMap κ ν) (k : κ) (v : ν) : YMap κ ν := m.put k (some v)

def delete (m : YMap κ ν) (k : κ) : YMap κ ν := m.put k none

/-- What `forEach` visits, as a map. -/
def live (m : YMap κ ν) : OrderedMap κ ν := ⟨m.entries, m.nodup_keys⟩

variable {m m' : YMap κ ν} {k k' : κ} {v : ν} {w : Option ν}

theorem mem_entries : (k, v) ∈ m.entries ↔ m.get? k = some v := by
  rw [get?, Option.join_eq_some_iff, get?_eq_some, entries, mem_filterMap]
  constructor
  · rintro ⟨⟨k', w⟩, hmem, hslot⟩
    obtain ⟨v', rfl, heq⟩ := Option.map_eq_some_iff.mp hslot
    obtain ⟨rfl, rfl⟩ := Prod.mk.inj heq
    exact hmem
  · exact fun hmem => ⟨(k, some v), hmem, rfl⟩

theorem get?_put_of_ne (h : k' ≠ k) : (m.put k w).get? k' = m.get? k' := by
  unfold put
  split
  · rfl
  · exact congrArg Option.join (get?_set_of_ne h)

theorem get?_put_self : (m.put k w).get? k = w := by
  unfold put
  split
  · next h =>
    rw [h.1, get?, get?_eq_none.mpr h.2]
    rfl
  rw [get?, get?_set_self]
  rfl

theorem get?_put : (m.put k w).get? k' = if k' = k then w else m.get? k' := by
  split
  · next h => rw [h, get?_put_self]
  · next h => exact get?_put_of_ne h

@[simp] theorem get?_set : (m.set k v).get? k' = if k' = k then some v else m.get? k' := get?_put

@[simp] theorem get?_delete : (m.delete k).get? k' = if k' = k then none else m.get? k' := get?_put

@[simp] theorem get?_empty : (empty : YMap κ ν).get? k = none := rfl

/-- Deleting some keys in turn. -/
theorem get?_foldl_delete {ks : List κ} :
    (ks.foldl delete m).get? k = if k ∈ ks then none else m.get? k := by
  induction ks generalizing m with
  | nil => simp
  | cons k' ks ih =>
    rw [foldl_cons, ih, get?_delete]
    by_cases hks : k ∈ ks <;> by_cases hk : k = k' <;> simp [hks, hk]

theorem mem_live : (k, v) ∈ m.live.entries ↔ m.get? k = some v := mem_entries

@[simp] theorem get?_live : m.live.get? k = m.get? k := by
  refine Option.ext fun v => ?_
  rw [get?_eq_some, mem_live]

theorem get?_of_not_slot (h : k ∉ m.slots.keys) : m.get? k = none := by
  rw [get?, get?_eq_none.mpr h]
  rfl

/-- Keys keep their slots; new ones come after them. -/
def Extends (m m' : YMap κ ν) : Prop := ∃ added, m'.slots.keys = m.slots.keys ++ added

omit [DecidableEq κ] in
theorem Extends.refl (m : YMap κ ν) : m.Extends m := ⟨[], (append_nil _).symm⟩

omit [DecidableEq κ] in
theorem Extends.trans {m m' m'' : YMap κ ν} (h : m.Extends m') (h' : m'.Extends m'') :
    m.Extends m'' := by
  obtain ⟨added, hadded⟩ := h
  obtain ⟨added', hadded'⟩ := h'
  exact ⟨added ++ added', by rw [hadded', hadded, append_assoc]⟩

theorem extends_put (m : YMap κ ν) (k : κ) (w : Option ν) : m.Extends (m.put k w) := by
  unfold put
  split
  · exact .refl m
  by_cases hk : k ∈ m.slots.keys
  · exact ⟨[], by rw [keys_set_of_mem hk, append_nil]⟩
  refine ⟨[k], ?_⟩
  simp only [OrderedMap.keys, entries_set_of_not_mem hk, map_append, map_cons, map_nil]

/-- What is read of the entries, in the order of the slots. -/
theorem filterMap_entries {α : Type*} (m : YMap κ ν) (read : κ → ν → Option α) :
    m.entries.filterMap (fun entry => read entry.1 entry.2) =
      m.slots.keys.filterMap fun k => (m.get? k).bind (read k) := by
  have hslot : ∀ slot ∈ m.slots.entries, m.get? slot.1 = slot.2 := by
    intro slot hmem
    rw [get?, get?_eq_some.mpr hmem]
    rfl
  rw [entries, OrderedMap.keys, filterMap_filterMap, filterMap_map]
  apply filterMap_congr
  intro slot hmem
  rw [Function.comp_apply, hslot slot hmem]
  cases slot.2 <;> rfl

/-- Keys that read the same, with new ones after the old, leave what is read as it was. -/
theorem filterMap_entries_congr {α : Type*} (read : κ → ν → Option α) (h : m.Extends m')
    (hr : ∀ k, (m'.get? k).bind (read k) = (m.get? k).bind (read k)) :
    m'.entries.filterMap (fun entry => read entry.1 entry.2) =
      m.entries.filterMap fun entry => read entry.1 entry.2 := by
  obtain ⟨added, hk⟩ := h
  have hnd := m'.slots.nodup
  rw [← OrderedMap.keys, hk] at hnd
  have hn : (added.filterMap fun k => (m'.get? k).bind (read k)) = [] := by
    rw [filterMap_eq_nil_iff]
    intro k hmem
    have hnew : k ∉ m.slots.keys := fun hold => (nodup_append.mp hnd).2.2 k hold k hmem rfl
    rw [hr, get?_of_not_slot hnew]
    rfl
  rw [filterMap_entries, filterMap_entries, hk, filterMap_append, hn, append_nil]
  apply filterMap_congr
  intro k _
  exact hr k

end YMap

end Kaos.Yjs
