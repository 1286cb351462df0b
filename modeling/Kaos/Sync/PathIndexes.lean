import Kaos.Lib.KeyedFold
import Kaos.Sync.VaultDoc

/-! The path indexes that are built from the metadata, and what a scan of the metadata says. -/
namespace Kaos.Sync

open Kaos.Lib Kaos.Yjs List OrderedMap Option

/-- `deletedPathIndex` is a set. -/
structure PathIndexes where
  pathIndex : OrderedMap JsString JsString := .empty
  deletedPathIndex : List JsString := []
  activePathCollisions : OrderedMap JsString (List JsString) := .empty

section Indexes

variable (normalizePath : JsString → JsString)

/-- One entry of the metadata, with the indexes and the active files by path so far. -/
def scanEntry (acc : PathIndexes × OrderedMap JsString (List JsString))
    (entry : JsString × MetaValue) : PathIndexes × OrderedMap JsString (List JsString) :=
  match getMetaPath entry.2 with
  | none => acc
  | some path =>
    let path := normalizePath path
    if isFileMetaDeletedValue entry.2 then
      if (acc.1.pathIndex.get? path).isNone then
        ({ acc.1 with deletedPathIndex := acc.1.deletedPathIndex.insert path }, acc.2)
      else acc
    else (acc.1, acc.2.push path entry.1)

/-- One path with its active files. -/
def placePath (indexes : PathIndexes) (bucket : JsString × List JsString) : PathIndexes :=
  let fileIds := bucket.2.mergeSort JsString.le
  let indexes := { indexes with
    deletedPathIndex := indexes.deletedPathIndex.filter (· ≠ bucket.1) }
  if fileIds.length = 1 then
    { indexes with pathIndex := indexes.pathIndex.set bucket.1 (fileIds.headD []) }
  else { indexes with
    activePathCollisions := indexes.activePathCollisions.set bucket.1 fileIds }

def computePathIndexes (metaMap : SharedMeta) : PathIndexes :=
  let scanned := metaMap.entries.foldl (scanEntry normalizePath) ({}, .empty)
  scanned.2.entries.foldl placePath scanned.1

/-- The path of an entry, and whether it is deleted. -/
def pathState (value : MetaValue) : Option (JsString × Bool) :=
  (getMetaPath value).map fun path => (normalizePath path, isFileMetaDeletedValue value)

/-- A file that is active at a path. -/
def activeAt (path : JsString) (entry : JsString × MetaValue) : Option JsString :=
  if pathState normalizePath entry.2 = some (path, false) then some entry.1 else none

/-- The files that a scan finds active at a path. -/
def activeFileIds (metaMap : SharedMeta) (path : JsString) : List JsString :=
  metaMap.entries.filterMap (activeAt normalizePath path)

/-- A scan finds a deleted entry of a path. -/
def HasTombstone (metaMap : SharedMeta) (path : JsString) : Prop :=
  ∃ entry ∈ metaMap.entries, pathState normalizePath entry.2 = some (path, true)

/-- The indexes say what a scan of the metadata says. -/
structure Indexed (metaMap : SharedMeta) (indexes : PathIndexes) : Prop where
  single : ∀ path fileId, indexes.pathIndex.get? path = some fileId ↔
    activeFileIds normalizePath metaMap path = [fileId]
  collided : ∀ path fileIds, indexes.activePathCollisions.get? path = some fileIds ↔
    1 < (activeFileIds normalizePath metaMap path).length ∧
      fileIds = (activeFileIds normalizePath metaMap path).mergeSort JsString.le
  deleted : ∀ path, path ∈ indexes.deletedPathIndex ↔
    activeFileIds normalizePath metaMap path = [] ∧ HasTombstone normalizePath metaMap path

/-- What the scan of a list of entries adds to what was found before. -/
structure Scanned (entries : List (JsString × MetaValue))
    (acc after : PathIndexes × OrderedMap JsString (List JsString)) : Prop where
  pathIndex : after.1.pathIndex = .empty
  collisions : after.1.activePathCollisions = acc.1.activePathCollisions
  active : ∀ path, (after.2.get? path).getD [] =
    (acc.2.get? path).getD [] ++ entries.filterMap (activeAt normalizePath path)
  buckets : (∀ path, acc.2.get? path ≠ some []) → ∀ path, after.2.get? path ≠ some []
  deleted : ∀ path, path ∈ after.1.deletedPathIndex ↔ path ∈ acc.1.deletedPathIndex ∨
    ∃ entry ∈ entries, pathState normalizePath entry.2 = some (path, true)

end Indexes

section Lemmas

variable {norm : JsString → JsString} {metaMap metaMap' : SharedMeta}
  {indexes : PathIndexes} {acc : PathIndexes × OrderedMap JsString (List JsString)}
  {entry : JsString × MetaValue} {entries : List (JsString × MetaValue)} {path fileId : JsString}
  {fileIds : List JsString} {value : MetaValue}
  {bucket : JsString × List JsString} {buckets : List (JsString × List JsString)}

/-- The three ways in which an entry is scanned, while no path is in the index yet. -/
theorem scanEntry_cases (norm : JsString → JsString) (entry : JsString × MetaValue)
    (he : acc.1.pathIndex = .empty) :
    (pathState norm entry.2 = none ∧ scanEntry norm acc entry = acc) ∨
    (∃ path, pathState norm entry.2 = some (path, true) ∧
      scanEntry norm acc entry =
        ({ acc.1 with deletedPathIndex := acc.1.deletedPathIndex.insert path }, acc.2)) ∨
    (∃ path, pathState norm entry.2 = some (path, false) ∧
      scanEntry norm acc entry = (acc.1, acc.2.push path entry.1)) := by
  unfold scanEntry pathState
  cases hp : getMetaPath entry.2 with
  | none => exact .inl ⟨rfl, rfl⟩
  | some path =>
    right
    cases hdel : isFileMetaDeletedValue entry.2 with
    | true =>
      left
      exact ⟨norm path, rfl, by simp [he]⟩
    | false =>
      right
      exact ⟨norm path, rfl, by simp⟩

theorem scanned_foldl (norm : JsString → JsString)
    (entries : List (JsString × MetaValue)) (he : acc.1.pathIndex = .empty) :
    Scanned norm entries acc (entries.foldl (scanEntry norm) acc) := by
  induction entries generalizing acc with
  | nil => exact ⟨he, rfl, by simp, fun h => h, by simp⟩
  | cons entry entries ih =>
    rw [foldl_cons]
    rcases scanEntry_cases norm entry he with
      ⟨hst, heq⟩ | ⟨path, hst, heq⟩ | ⟨path, hst, heq⟩
    · rw [heq]
      obtain ⟨hix, hcol, hact, hbuc, hdel⟩ := ih he
      refine ⟨hix, hcol, ?_, hbuc, ?_⟩ <;> intro path
      · rw [hact, filterMap_cons, activeAt, hst]
        simp
      rw [hdel]
      simp [hst]
    · rw [heq]
      obtain ⟨hix, hcol, hact, hbuc, hdel⟩ := @ih
        ({ acc.1 with deletedPathIndex := acc.1.deletedPathIndex.insert path }, acc.2) he
      refine ⟨hix, hcol, ?_, hbuc, ?_⟩ <;> intro path'
      · rw [hact, filterMap_cons, activeAt, hst]
        simp
      rw [hdel]
      simp only [mem_insert_iff, mem_cons, exists_eq_or_imp, hst, Option.some.injEq,
        Prod.mk.injEq, and_true]
      tauto
    rw [heq]
    obtain ⟨hix, hcol, hact, hbuc, hdel⟩ := @ih (acc.1, acc.2.push path entry.1)
      he
    refine ⟨hix, hcol, ?_, ?_, ?_⟩
    · intro path'
      rw [hact, filterMap_cons, activeAt, hst, getD_get?_push]
      by_cases h : path' = path
      · subst h
        simp
      · simp [h, Ne.symm h]
    · intro hold
      apply hbuc
      exact fun path' => get?_push_ne_nil hold
    intro path'
    rw [hdel]
    simp [hst]

/-- What the indexes say of one path. -/
def PathIndexes.at (indexes : PathIndexes) (path : JsString) :
    Option JsString × Option (List JsString) × Prop :=
  (indexes.pathIndex.get? path, indexes.activePathCollisions.get? path,
    path ∈ indexes.deletedPathIndex)

/-- A path with one file goes to the index, one with several to the collisions. -/
theorem placePath_at : (placePath indexes bucket).at path =
    if bucket.1 = path then
      if bucket.2.length = 1 then
        (some (bucket.2.headD []), indexes.activePathCollisions.get? path, False)
      else (indexes.pathIndex.get? path, some (bucket.2.mergeSort JsString.le), False)
    else indexes.at path := by
  unfold placePath PathIndexes.at
  by_cases h : bucket.1 = path
  · subst h
    by_cases hone : bucket.2.length = 1
    · obtain ⟨fileId, hfil⟩ := length_eq_one_iff.mp hone
      simp [hfil, get?_set_self]
    · simp [hone, get?_set_self]
  · by_cases hone : bucket.2.length = 1 <;> simp [h, hone, get?_set_of_ne (Ne.symm h), Ne.symm h]

theorem placed_foldl (active : OrderedMap JsString (List JsString)) :
    (active.entries.foldl placePath indexes).at path =
      match active.get? path with
      | some fileIds => (placePath indexes (path, fileIds)).at path
      | none => indexes.at path := by
  have hframe : ∀ indexes bucket,
      decide (bucket.1 = path) = false → (placePath indexes bucket).at path = indexes.at path := by
    intro indexes bucket hown
    rw [placePath_at, if_neg (of_decide_eq_false hown)]
  have hcongr : ∀ indexes indexes' bucket,
      indexes.at path = indexes'.at path →
        (placePath indexes bucket).at path = (placePath indexes' bucket).at path := by
    intro indexes indexes' bucket h
    have hs : indexes.pathIndex.get? path = indexes'.pathIndex.get? path := congrArg Prod.fst h
    have hcol : indexes.activePathCollisions.get? path =
        indexes'.activePathCollisions.get? path := congrArg (fun view => view.2.1) h
    rw [placePath_at, placePath_at, h, hs, hcol]
  rw [foldl_view hframe hcongr rfl, filter_entries_key]
  cases active.get? path <;> rfl

theorem activeFileIds_eq : activeFileIds norm metaMap path =
    metaMap.entries.filterMap (activeAt norm path) := rfl

/-- The path state of a file. -/
def stateOf (normalizePath : JsString → JsString) (metaMap : SharedMeta) (fileId : JsString) :
    Option (JsString × Bool) :=
  (metaMap.get? fileId).bind (pathState normalizePath)

theorem stateOf_eq_some {state : JsString × Bool} :
    stateOf norm metaMap fileId = some state ↔
      ∃ value, metaMap.get? fileId = some value ∧ pathState norm value = some state :=
  bind_eq_some_iff

theorem mem_activeFileIds : fileId ∈ activeFileIds norm metaMap path ↔
    stateOf norm metaMap fileId = some (path, false) := by
  rw [stateOf_eq_some, activeFileIds_eq, mem_filterMap]
  unfold activeAt
  constructor
  · rintro ⟨entry, hmem, he⟩
    split at he
    · next hst =>
      cases he
      exact ⟨entry.2, YMap.mem_entries.mp hmem, hst⟩
    · cases he
  · rintro ⟨value, hget, hst⟩
    exact ⟨(fileId, value), YMap.mem_entries.mpr hget, if_pos hst⟩

theorem hasTombstone_iff : HasTombstone norm metaMap path ↔
    ∃ fileId, stateOf norm metaMap fileId = some (path, true) := by
  simp only [stateOf_eq_some, HasTombstone]
  constructor
  · rintro ⟨entry, hmem, hst⟩
    exact ⟨entry.1, entry.2, YMap.mem_entries.mp hmem, hst⟩
  rintro ⟨fileId, value, hget, hst⟩
  exact ⟨(fileId, value), YMap.mem_entries.mpr hget, hst⟩

theorem nodup_activeFileIds : (activeFileIds norm metaMap path).Nodup := by
  refine metaMap.nodup_keys.sublist ?_
  rw [activeFileIds_eq]
  induction metaMap.entries with
  | nil => exact .refl _
  | cons entry entries ih =>
    rw [filterMap_cons, map_cons, activeAt]
    split
    · next hn => exact ih.cons _
    · next hs =>
      split at hs
      · cases hs
        exact ih.cons_cons _
      · cases hs

/-- The indexes that are built say what the scan says. -/
theorem indexed_computePathIndexes : Indexed norm metaMap (computePathIndexes norm metaMap) := by
  have hscan := @scanned_foldl ({}, .empty) norm metaMap.entries rfl
  have hat : ∀ path, (computePathIndexes norm metaMap).at path =
      if (activeFileIds norm metaMap path).length = 0 then
        (none, none, HasTombstone norm metaMap path)
      else if (activeFileIds norm metaMap path).length = 1 then
        ((activeFileIds norm metaMap path).head?, none, False)
      else (none, some ((activeFileIds norm metaMap path).mergeSort JsString.le), False) := by
    intro path
    have hact := hscan.active path
    have hbuc := hscan.buckets (by simp) path
    rw [get?_empty, getD_none, nil_append, ← activeFileIds_eq] at hact
    rw [computePathIndexes, placed_foldl]
    cases hget : (metaMap.entries.foldl (scanEntry norm) ({}, .empty)).2.get? path with
    | none =>
      rw [hget, getD_none] at hact
      rw [← hact]
      have hdel : (path ∈ (metaMap.entries.foldl (scanEntry norm)
          ({}, .empty)).1.deletedPathIndex) = HasTombstone norm metaMap path := by
        rw [hscan.deleted]
        simp [HasTombstone]
      simp only [PathIndexes.at, hscan.pathIndex, hscan.collisions, get?_empty, hdel]
      rfl
    | some fileIds =>
      rw [hget, getD_some] at hact
      rw [← hact]
      have hn : ∀ path, (metaMap.entries.foldl (scanEntry norm)
          ({}, .empty)).1.pathIndex.get? path = none ∧ (metaMap.entries.foldl
            (scanEntry norm) ({}, .empty)).1.activePathCollisions.get? path = none := by
        intro path
        rw [hscan.pathIndex, hscan.collisions]
        exact ⟨rfl, rfl⟩
      simp only [placePath_at, if_true, (hn path).1, (hn path).2]
      rcases fileIds with _ | ⟨fileId, _ | ⟨fileId', rest⟩⟩
      · exact absurd hget hbuc
      · rfl
      · simp
  constructor
  · intro path fileId
    have h := congrArg Prod.fst (hat path)
    simp only [PathIndexes.at] at h
    rw [h]
    rcases activeFileIds norm metaMap path with _ | ⟨fileId, _ | ⟨fileId', rest⟩⟩ <;> simp
  · intro path fileIds
    have h := congrArg (fun view => view.2.1) (hat path)
    simp only [PathIndexes.at] at h
    rw [h]
    rcases activeFileIds norm metaMap path with _ | ⟨fileId, _ | ⟨fileId', rest⟩⟩
    · simp
    · simp
    · simp [eq_comm]
  intro path
  have h : (path ∈ (computePathIndexes norm metaMap).deletedPathIndex) = _ :=
    congrArg (fun view => view.2.2) (hat path)
  rw [h]
  rcases activeFileIds norm metaMap path with _ | ⟨fileId, _ | ⟨fileId', rest⟩⟩ <;> simp

/-- The path of an entry and whether it is deleted, as the decoder reads them. -/
theorem pathState_eq : pathState norm value =
    (decodeFileMeta value).map fun decoded => (norm decoded.path, decoded.isDeleted) := by
  unfold pathState
  cases hd : decodeFileMeta value with
  | none =>
    rw [decodeFileMeta_eq_none.mp hd]
    rfl
  | some decoded =>
    obtain ⟨hp, hdel, -⟩ := read_of_decodeFileMeta hd
    rw [hp, hdel]
    rfl

/-- What the indexes are built from. -/
def pathStates (normalizePath : JsString → JsString) (metaMap : SharedMeta) :
    List (JsString × JsString × Bool) :=
  metaMap.entries.filterMap fun entry =>
    (fun fileId value => (pathState normalizePath value).map (fileId, ·)) entry.1 entry.2

theorem computePathIndexes_congr (h : pathStates norm metaMap = pathStates norm metaMap') :
    computePathIndexes norm metaMap = computePathIndexes norm metaMap' := by
  -- a scan sees no more of an entry than its path state
  have hscan : ∀ (entries : List (JsString × MetaValue))
      (acc : PathIndexes × OrderedMap JsString (List JsString)),
      entries.foldl (scanEntry norm) acc =
        (entries.filterMap fun entry =>
          (pathState norm entry.2).map (entry.1, ·)).foldl (fun acc state =>
            if state.2.2 then
              if (acc.1.pathIndex.get? state.2.1).isNone then
                ({ acc.1 with deletedPathIndex := acc.1.deletedPathIndex.insert state.2.1 }, acc.2)
              else acc
            else (acc.1, acc.2.push state.2.1 state.1))
          acc := by
    intro entries
    induction entries with
    | nil =>
      intro acc
      rfl
    | cons entry entries ih =>
      intro acc
      rw [foldl_cons, ih, filterMap_cons, scanEntry, pathState]
      cases getMetaPath entry.2 with
      | none => rfl
      | some path => rfl
  unfold computePathIndexes
  rw [hscan, hscan]
  unfold pathStates at h
  rw [h]

end Lemmas

end Kaos.Sync
