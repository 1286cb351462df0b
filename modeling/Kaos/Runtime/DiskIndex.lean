import Kaos.Lib.KeyedFold
import Kaos.Lib.Moves
import Kaos.Runtime.ClosedFileReconcile

/-! The index of disk baselines, over a reconciliation and over a batch of renames. -/
namespace Kaos.Runtime

open Kaos.Lib OrderedMap List Option

variable {η : Type*}

/-- Paths of Markdown files, so none names what every object inherits. -/
abbrev DiskIndex (η : Type*) := OrderedMap JsString (DiskIndexEntry η)

structure UpdateIndexOptions (η : Type*) where
  excludePaths : List JsString
  settledHashes : OrderedMap JsString η
  settledAtMs : ℕ

namespace DiskIndex

/-- The loop's body. -/
def updateEntry (index : DiskIndex η) (options : UpdateIndexOptions η) (newIndex : DiskIndex η)
    (stat : JsString × ℕ × ℕ) : DiskIndex η :=
  let entry := Runtime.updateIndex (index.get? stat.1) (some stat.2) (stat.1 ∈ options.excludePaths)
    (options.settledHashes.get? stat.1) options.settledAtMs
  match entry with
  | none => newIndex
  | some entry => newIndex.set stat.1 entry

def updateIndex (index : DiskIndex η) (allStats : OrderedMap JsString (ℕ × ℕ))
    (options : UpdateIndexOptions η) : DiskIndex η :=
  allStats.entries.foldl (index.updateEntry options) .empty

def moveIndexEntries (index : DiskIndex η) (renames : OrderedMap JsString JsString) : DiskIndex η :=
  index.moveAll renames.entries

variable {index : DiskIndex η} {allStats : OrderedMap JsString (ℕ × ℕ)}
  {options : UpdateIndexOptions η} {renames : OrderedMap JsString JsString} {path : JsString}

/-- What the loop over the stats leaves at one path. -/
theorem get?_updateIndex : (index.updateIndex allStats options).get? path =
    Runtime.updateIndex (index.get? path) (allStats.get? path) (path ∈ options.excludePaths)
      (options.settledHashes.get? path) options.settledAtMs := by
  have ho : ∀ newIndex stat, decide (stat.1 = path) = false →
      (index.updateEntry options newIndex stat).get? path = newIndex.get? path := by
    intro newIndex stat hown
    have hne : path ≠ stat.1 := fun he => by simp [he] at hown
    unfold updateEntry
    dsimp only
    split
    · rfl
    · exact get?_set_of_ne hne
  have hs : ∀ newIndex newIndex' stat, newIndex.get? path = newIndex'.get? path →
      (index.updateEntry options newIndex stat).get? path =
        (index.updateEntry options newIndex' stat).get? path := by
    intro newIndex newIndex' stat h
    unfold updateEntry
    dsimp only
    split
    · exact h
    · simp only [get?_set, h]
  refine (foldl_view ho hs rfl).trans ?_
  rw [filter_entries_key]
  cases allStats.get? path with
  | none => rfl
  | some stat =>
    simp only [map_some, toList_some, foldl_cons, foldl_nil, updateEntry]
    cases Runtime.updateIndex (index.get? path) (some stat) _ _ options.settledAtMs with
    | none => rfl
    | some entry => exact get?_set_self

/-- Excluded paths keep their entries, and the other paths with a stat get theirs from it. -/
structure Advances (index : DiskIndex η) (allStats : OrderedMap JsString (ℕ × ℕ))
    (options : UpdateIndexOptions η) : Prop where
  excluded : ∀ path ∈ options.excludePaths,
    (index.updateIndex allStats options).get? path = index.get? path
  fresh : ∀ path ∉ options.excludePaths, ∀ mtime size, allStats.get? path = some (mtime, size) →
    (index.updateIndex allStats options).get? path = some
      { mtime, size
        contentHash := match options.settledHashes.get? path with
          | some hash => some hash
          | none => (index.get? path).bind (·.contentHash)
        settledAtMs := match options.settledHashes.get? path with
          | some _ => some options.settledAtMs
          | none => (index.get? path).bind (·.settledAtMs) }

theorem advances_iff : index.Advances allStats options ↔
    ∀ path ∈ options.excludePaths, index.get? path ≠ none → allStats.get? path ≠ none := by
  constructor
  · intro h path hexc he hs
    have hk := h.excluded path hexc
    rw [get?_updateIndex, hs] at hk
    exact he hk.symm
  intro h
  constructor
  · intro path hexc
    rw [get?_updateIndex]
    cases hs : allStats.get? path with
    | none => exact (not_not.mp fun he => h path hexc he hs).symm
    | some stat => simp [Runtime.updateIndex, hexc]
  · intro path hinc mtime size hs
    rw [get?_updateIndex, hs]
    cases options.settledHashes.get? path <;> simp [Runtime.updateIndex, hinc]

/-- All renames are made at once: an entry is where its path is afterwards. -/
structure MovesAtOnce (index : DiskIndex η) (renames : OrderedMap JsString JsString) : Prop where
  moved : ∀ rename ∈ renames.entries,
    (index.moveIndexEntries renames).get? rename.2 = index.get? rename.1
  left : ∀ path ∈ renames.keys, path ∉ renames.values →
    (index.moveIndexEntries renames).get? path = none
  kept : ∀ path ∉ renames.keys, path ∉ renames.values →
    (index.moveIndexEntries renames).get? path = index.get? path
  noneLost : ∀ path entry, index.get? path = some entry →
    (index.moveIndexEntries renames).get? ((renames.get? path).getD path) = some entry

/-- A path that is renamed onto and not itself renamed has no other entry. -/
def TargetsFree (index : DiskIndex η) (renames : OrderedMap JsString JsString) : Prop :=
  ∀ rename ∈ renames.entries, rename.2 ∉ renames.keys → index.get? rename.2 ≠ none →
    index.get? rename.2 = index.get? rename.1

theorem MovesAtOnce.targetsFree (h : index.MovesAtOnce renames) : index.TargetsFree renames := by
  intro rename hmem hkey he
  obtain ⟨entry, he⟩ := ne_none_iff_exists'.mp he
  have hlost := h.noneLost _ _ he
  rw [get?_eq_none.mpr hkey, getD_none] at hlost
  rw [he, ← h.moved rename hmem, hlost]

theorem moved_of_inOrder (hinj : renames.values.Nodup) (h : index.InOrder renames.entries)
    (hf : index.TargetsFree renames) {rename : JsString × JsString}
    (hmem : rename ∈ renames.entries) :
    (index.moveIndexEntries renames).get? rename.2 = index.get? rename.1 := by
  cases hen : index.get? rename.1 with
  | some entry => exact get?_moveAll_new h renames.nodup hinj hmem hen
  | none =>
    have hnew : ∀ rename' ∈ renames.entries, rename'.2 = rename.2 →
        index.get? rename'.1 = none := by
      intro rename' hmem' he
      rw [inj_on_of_nodup_map hinj hmem' hmem he, hen]
    have huns := get?_moveAll_of_unsought h renames.nodup hnew
    by_cases hkey : rename.2 ∈ renames.keys
    · exact huns.1 hkey
    refine (huns.2 hkey).trans (not_not.mp fun hne => ?_)
    exact hne ((hf rename hmem hkey hne).trans hen)

theorem movesAtOnce_of_inOrder (hinj : renames.values.Nodup)
    (h : index.InOrder renames.entries) (hf : index.TargetsFree renames) :
    index.MovesAtOnce renames := by
  have hm := fun rename (hmem : rename ∈ renames.entries) =>
    moved_of_inOrder hinj h hf hmem
  have huns := fun path (hv : path ∉ renames.values) =>
    get?_moveAll_of_unsought h renames.nodup fun rename hmem (he : _ = path) =>
      absurd (mem_map.mpr ⟨rename, hmem, he⟩) hv
  refine ⟨hm, fun path hkey hv => (huns path hv).1 hkey,
    fun path hkey hv => (huns path hv).2 hkey, fun path entry hen => ?_⟩
  cases hnew : renames.get? path with
  | some newPath => exact (hm _ (get?_eq_some.mp hnew)).trans hen
  | none =>
    have hkey : path ∉ renames.keys := get?_eq_none.mp hnew
    by_cases hv : path ∈ renames.values
    · obtain ⟨rename, hmem, rfl⟩ := mem_map.mp hv
      have hne : index.get? rename.2 ≠ none := by simp [hen]
      exact (hm rename hmem).trans ((hf rename hmem hkey hne).symm.trans hen)
    · exact ((huns path hv).2 hkey).trans hen

/-- An update keeps the entries of exactly the excluded paths it has a stat for; a batch of renames
moves them together exactly if none goes onto a path that is renamed later or has one of its own. -/
theorem baselines_survive_iff (index : DiskIndex η) (allStats : OrderedMap JsString (ℕ × ℕ))
    (options : UpdateIndexOptions η) (renames : OrderedMap JsString JsString)
    (hinjective : renames.values.Nodup) :
    (index.Advances allStats options ↔
      ∀ path ∈ options.excludePaths, index.get? path ≠ none → allStats.get? path ≠ none) ∧
    (index.MovesAtOnce renames ↔ index.InOrder renames.entries ∧ index.TargetsFree renames) :=
  ⟨advances_iff,
    fun h => ⟨OrderedMap.inOrder_of_moved renames.nodup hinjective h.moved, h.targetsFree⟩,
    fun h => movesAtOnce_of_inOrder hinjective h.1 h.2⟩

section Example

def pairIndex : DiskIndex ℕ :=
  ⟨[(js "a.md", ⟨1, 1, some 1, none⟩), (js "b.md", ⟨2, 2, some 2, none⟩)], by decide⟩

/-- A swap through a third name, as the batch has it. -/
def swapRenames : OrderedMap JsString JsString :=
  ⟨[(js "b.md", js "a.md"), (js "a.md", js "b.md")], by decide⟩

theorem baselines_survive_iff_pair :
    (pairIndex.Advances .empty ⟨[js "c.md"], .empty, 0⟩ ↔ ∀ path ∈ [js "c.md"],
      pairIndex.get? path ≠ none → (OrderedMap.empty (ν := ℕ × ℕ)).get? path ≠ none) ∧
    (pairIndex.MovesAtOnce swapRenames ↔
      pairIndex.InOrder swapRenames.entries ∧ pairIndex.TargetsFree swapRenames) :=
  baselines_survive_iff pairIndex .empty ⟨[js "c.md"], .empty, 0⟩ swapRenames (by decide)

/-- Without a stat `a.md` loses its entry though it is excluded, and after the swap one entry is
left of the two. -/
theorem baselines_lost : ¬ pairIndex.Advances .empty ⟨[js "a.md"], .empty, 0⟩ ∧
    ¬ pairIndex.MovesAtOnce swapRenames := by
  constructor
  · intro h
    have hk := congrArg Option.isSome (h.excluded (js "a.md") (by decide))
    revert hk
    decide
  intro h
  have hm := congrArg Option.isSome (h.moved (js "b.md", js "a.md") (by decide))
  revert hm
  decide

end Example

end DiskIndex

end Kaos.Runtime
