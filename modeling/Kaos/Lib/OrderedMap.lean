import Mathlib.Data.List.Nodup
import Mathlib.Data.List.Forall2

/-! Maps that remember the order in which their keys were first set, as in JavaScript. -/
namespace Kaos.Lib

open List

/-- Entries in insertion order, one for each key. -/
structure OrderedMap (κ ν : Type*) where
  entries : List (κ × ν)
  nodup : (entries.map Prod.fst).Nodup

namespace OrderedMap

variable {κ ν : Type*}

def empty : OrderedMap κ ν := ⟨[], List.nodup_nil⟩

def keys (m : OrderedMap κ ν) : List κ := m.entries.map Prod.fst

def values (m : OrderedMap κ ν) : List ν := m.entries.map Prod.snd

def size (m : OrderedMap κ ν) : ℕ := m.entries.length

@[ext] theorem ext {m m' : OrderedMap κ ν} (h : m.entries = m'.entries) : m = m' := by
  cases m
  cases m'
  simpa using h

theorem mem_keys {m : OrderedMap κ ν} {k : κ} : k ∈ m.keys ↔ ∃ v, (k, v) ∈ m.entries := by
  simp [keys]

variable [DecidableEq κ]

instance [DecidableEq ν] : DecidableEq (OrderedMap κ ν) := fun m m' =>
  decidable_of_iff (m.entries = m'.entries) ⟨ext, congrArg _⟩

def get? (m : OrderedMap κ ν) (k : κ) : Option ν :=
  (m.entries.find? fun entry => entry.1 = k).map Prod.snd

theorem map_fst_replace (entries : List (κ × ν)) (k : κ) (v : ν) :
    (entries.map fun entry => if entry.1 = k then (k, v) else entry).map Prod.fst =
      entries.map Prod.fst := by
  rw [map_map]
  refine map_congr_left fun entry _ => ?_
  by_cases h : entry.1 = k <;> simp [h]

/-- A key that is present keeps its place; a new one goes last. -/
def set (m : OrderedMap κ ν) (k : κ) (v : ν) : OrderedMap κ ν :=
  if h : k ∈ m.keys then
    ⟨m.entries.map fun entry => if entry.1 = k then (k, v) else entry, by
      rw [map_fst_replace]
      exact m.nodup⟩
  else
    ⟨m.entries ++ [(k, v)], by
      rw [List.map_append, List.map_cons, List.map_nil, List.nodup_append_comm]
      exact List.nodup_cons.mpr ⟨h, m.nodup⟩⟩

def delete (m : OrderedMap κ ν) (k : κ) : OrderedMap κ ν :=
  ⟨m.entries.filter fun entry => entry.1 ≠ k, m.nodup.sublist (List.filter_sublist.map Prod.fst)⟩

/-- The entries whose keys pass a test. -/
def filterKeys (m : OrderedMap κ ν) (p : κ → Bool) : OrderedMap κ ν :=
  ⟨m.entries.filter fun entry => p entry.1, m.nodup.sublist (List.filter_sublist.map Prod.fst)⟩

/-- Every value updated in its place. -/
def mapValues (m : OrderedMap κ ν) (f : κ → ν → ν) : OrderedMap κ ν :=
  ⟨m.entries.map fun entry => (entry.1, f entry.1 entry.2), by
    rw [List.map_map]
    exact m.nodup⟩

/-- Every entry of a list set in turn. -/
def setAll (m : OrderedMap κ ν) (entries : List (κ × ν)) : OrderedMap κ ν :=
  entries.foldl (fun m entry => m.set entry.1 entry.2) m

variable {m : OrderedMap κ ν} {k k' : κ} {v : ν}

@[simp] theorem get?_empty : (empty : OrderedMap κ ν).get? k = none := rfl

/-- A lookup finds exactly the entries. -/
theorem get?_eq_some : m.get? k = some v ↔ (k, v) ∈ m.entries := by
  obtain ⟨entries, hnd⟩ := m
  change (entries.find? _).map _ = _ ↔ _ ∈ entries
  induction entries with
  | nil => simp
  | cons entry entries ih =>
    rw [map_cons, nodup_cons] at hnd
    by_cases h : entry.1 = k
    · subst h
      have hout : (entry.1, v) ∉ entries := fun hmem => hnd.1 (mem_map.mpr ⟨_, hmem, rfl⟩)
      simp [hout, Prod.ext_iff, eq_comm]
    rw [find?_cons_of_neg (by simpa using h), ih hnd.2]
    have hne : (k, v) ≠ entry := fun heq => h (by rw [← heq])
    simp [hne]

theorem get?_eq_none : m.get? k = none ↔ k ∉ m.keys := by
  rw [mem_keys, Option.eq_none_iff_forall_ne_some]
  simp only [ne_eq, get?_eq_some, not_exists]

variable {entry : κ × ν}

theorem eq_or_mem_of_mem_set (h : entry ∈ (m.set k v).entries) :
    entry = (k, v) ∨ entry ∈ m.entries := by
  unfold set at h
  split at h
  · obtain ⟨entry', hmem, heq⟩ := mem_map.mp h
    split at heq
    · exact .inl heq.symm
    · exact .inr (heq ▸ hmem)
  rcases mem_append.mp h with h | h
  · exact .inr h
  · exact .inl (mem_singleton.mp h)

theorem mem_set_self : (k, v) ∈ (m.set k v).entries := by
  unfold set
  split
  · next h =>
    obtain ⟨v', hmem⟩ := mem_keys.mp h
    exact mem_map.mpr ⟨(k, v'), hmem, if_pos rfl⟩
  · exact mem_append_right _ (mem_singleton_self _)

theorem mem_set_of_ne (h : entry ∈ m.entries) (hk : entry.1 ≠ k) : entry ∈ (m.set k v).entries := by
  unfold set
  split
  · exact mem_map.mpr ⟨entry, h, if_neg hk⟩
  · exact mem_append_left _ h

theorem get?_set_self : (m.set k v).get? k = some v := get?_eq_some.mpr mem_set_self

theorem get?_set_of_ne (hk : k' ≠ k) : (m.set k v).get? k' = m.get? k' := by
  refine Option.ext fun w => ?_
  simp only [get?_eq_some]
  constructor
  · intro h
    rcases eq_or_mem_of_mem_set h with heq | h
    · exact absurd (congrArg Prod.fst heq) hk
    · exact h
  · exact fun h => mem_set_of_ne h hk

theorem get?_delete_of_ne (hk : k' ≠ k) : (m.delete k).get? k' = m.get? k' := by
  refine Option.ext fun w => ?_
  simp [get?_eq_some, delete, hk]

theorem get?_delete_self : (m.delete k).get? k = none := by
  simp [get?_eq_none, keys, delete]

theorem get?_set : (m.set k v).get? k' = if k' = k then some v else m.get? k' := by
  split
  · next h => rw [h, get?_set_self]
  · next h => exact get?_set_of_ne h

theorem get?_delete : (m.delete k).get? k' = if k' = k then none else m.get? k' := by
  split
  · next h => rw [h, get?_delete_self]
  · next h => exact get?_delete_of_ne h

/-- Deleting some keys in turn. -/
theorem get?_mapValues {f : κ → ν → ν} : (m.mapValues f).get? k = (m.get? k).map (f k) := by
  cases h : m.get? k with
  | none =>
    rw [get?_eq_none] at h
    refine get?_eq_none.mpr ?_
    simpa [keys, mapValues] using h
  | some v =>
    rw [get?_eq_some] at h
    exact get?_eq_some.mpr (mem_map_of_mem (f := fun entry => (entry.1, f entry.1 entry.2)) h)

variable {ks : List κ}

theorem get?_foldl_delete : (ks.foldl delete m).get? k = if k ∈ ks then none else m.get? k := by
  induction ks generalizing m with
  | nil => simp
  | cons k' ks ih =>
    rw [foldl_cons, ih, get?_delete]
    by_cases hks : k ∈ ks <;> by_cases hk : k = k' <;> simp [hks, hk]

theorem mem_keys_foldl_delete : k ∈ (ks.foldl delete m).keys ↔ k ∈ m.keys ∧ k ∉ ks := by
  rw [← not_iff_not, ← get?_eq_none, get?_foldl_delete, not_and_not_right]
  split
  · next h => simp [h]
  · next h => simp [h, get?_eq_none]

theorem mem_of_mem_delete (h : entry ∈ (m.delete k).entries) :
    entry ∈ m.entries := mem_of_mem_filter h

theorem entries_set_of_not_mem (h : k ∉ m.keys) : (m.set k v).entries = m.entries ++ [(k, v)] := by
  simp [set, h]

theorem keys_set_of_mem (h : k ∈ m.keys) : (m.set k v).keys = m.keys := by
  unfold set
  rw [dif_pos h]
  exact map_fst_replace _ _ _

/-- The only entry of a key. -/
theorem filter_entries_key (m : OrderedMap κ ν) (k : κ) :
    m.entries.filter (fun entry => entry.1 = k) = ((m.get? k).map fun v => (k, v)).toList := by
  obtain ⟨entries, hnd⟩ := m
  simp only [get?]
  induction entries with
  | nil => rfl
  | cons entry entries ih =>
    rw [map_cons, nodup_cons] at hnd
    by_cases h : entry.1 = k
    · subst h
      have hr : entries.filter (fun other => other.1 = entry.1) = [] := by
        rw [filter_eq_nil_iff]
        intro other hmem
        simp only [decide_eq_true_eq]
        exact fun heq => hnd.1 (heq ▸ mem_map_of_mem hmem)
      simp [hr]
    · rw [filter_cons_of_neg (by simpa using h), find?_cons_of_neg (by simpa using h)]
      exact ih hnd.2

/-- Setting distinct new keys appends their entries. -/
theorem entries_setAll {entries : List (κ × ν)} (hnew : ∀ entry ∈ entries, entry.1 ∉ m.keys)
    (hnd : (entries.map Prod.fst).Nodup) :
    (m.setAll entries).entries = m.entries ++ entries := by
  induction entries generalizing m with
  | nil => simp [setAll]
  | cons entry entries ih =>
    rw [map_cons, nodup_cons] at hnd
    have hk : entry.1 ∉ m.keys := hnew entry mem_cons_self
    have hset := entries_set_of_not_mem (v := entry.2) hk
    change ((m.set entry.1 entry.2).setAll entries).entries = _
    rw [ih ?_ hnd.2, hset, append_assoc]
    · rfl
    intro entry' hmem
    have hne : entry'.1 ≠ entry.1 := fun heq => hnd.1 (heq ▸ mem_map_of_mem hmem)
    simp only [keys, hset, map_append, mem_append, not_or]
    exact ⟨hnew entry' (mem_cons_of_mem _ hmem), by simpa using hne⟩

/-- Setting keys to what a function gives them. -/
theorem get?_setAll_map {f : κ → ν} [Decidable (k ∈ ks)] :
    (m.setAll (ks.map fun k => (k, f k))).get? k = if k ∈ ks then some (f k) else m.get? k := by
  have hset : (k ∈ ks → (m.setAll (ks.map fun k => (k, f k))).get? k = some (f k)) ∧
      (k ∉ ks → (m.setAll (ks.map fun k => (k, f k))).get? k = m.get? k) := by
    induction ks generalizing m with
    | nil => exact ⟨fun h => absurd h not_mem_nil, fun _ => rfl⟩
    | cons k' ks ih =>
      obtain ⟨hin, hout⟩ := ih (m := m.set k' (f k'))
      have hcons : m.setAll ((k' :: ks).map fun k => (k, f k)) =
          (m.set k' (f k')).setAll (ks.map fun k => (k, f k)) := rfl
      rw [hcons]
      constructor <;> intro h
      · by_cases hks : k ∈ ks
        · exact hin hks
        · rw [hout hks, (mem_cons.mp h).resolve_right hks, get?_set_self]
      rw [mem_cons, not_or] at h
      rw [hout h.2, get?_set_of_ne h.1]
  split
  · next h => exact hset.1 h
  · next h => exact hset.2 h

section Push

variable {α : Type*} {lists : OrderedMap κ (List ν)}

/-- One more value for a key. -/
def push (lists : OrderedMap κ (List ν)) (k : κ) (v : ν) : OrderedMap κ (List ν) :=
  lists.set k (((lists.get? k).getD []) ++ [v])

theorem getD_get?_push : ((lists.push k v).get? k').getD [] =
    (lists.get? k').getD [] ++ if k' = k then [v] else [] := by
  rw [push, get?_set]
  split
  · next h => rw [h, Option.getD_some]
  · rw [append_nil]

theorem get?_push_ne_nil (h : ∀ k, lists.get? k ≠ some []) : (lists.push k v).get? k' ≠ some [] := by
  rw [push, get?_set]
  split
  · simp
  · exact h k'

/-- What has been pushed for a key, in order. -/
theorem getD_get?_foldl_push (key : α → κ) (value : α → ν) (as : List α)
    (lists : OrderedMap κ (List ν)) :
    ((as.foldl (fun lists a => lists.push (key a) (value a)) lists).get? k).getD [] =
      (lists.get? k).getD [] ++ as.filterMap fun a => if key a = k then some (value a) else none := by
  induction as generalizing lists with
  | nil => simp
  | cons a as ih =>
    rw [foldl_cons, ih, getD_get?_push, filterMap_cons]
    by_cases h : key a = k
    · simp [h]
    · simp [h, Ne.symm h]

theorem get?_foldl_push_ne_nil (key : α → κ) (value : α → ν) (as : List α)
    (lists : OrderedMap κ (List ν)) (h : ∀ k, lists.get? k ≠ some []) :
    (as.foldl (fun lists a => lists.push (key a) (value a)) lists).get? k ≠ some [] := by
  induction as generalizing lists with
  | nil => exact h k
  | cons a as ih => exact ih _ fun k' => get?_push_ne_nil h

end Push

end OrderedMap

end Kaos.Lib
