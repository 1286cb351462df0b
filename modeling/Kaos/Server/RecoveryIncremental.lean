import Kaos.Server.RecoveryEntries

/-! The snapshot of the dirty files against the scan of all files. -/
namespace Kaos.Server

open Kaos.Lib Kaos.Yjs List Option OrderedMap JsString

variable {platform P : RecoveryPlatform} {old new : FileDoc} {dirty : List JsString} {x : JsString}
  {entry : InternalStateEntry} {previous : Option RecoveryStateEntry} {change : FileHistoryEntry}
  {previousByFileId : EntryMap} {current : List InternalStateEntry}

theorem mem_sortedIds {ids : List JsString} : x ∈ sortedIds ids ↔ x ∈ ids := by
  rw [sortedIds, (perm_insertionSort _ _).mem_iff, mem_dedup]

theorem nodup_sortedIds (ids : List JsString) : (sortedIds ids).Nodup := by
  rw [sortedIds, (perm_insertionSort _ _).nodup_iff]
  exact nodup_dedup ids

/-- Sorting by code units forgets how a set of ids came about. -/
theorem sortedIds_congr {ids ids' : List JsString} (h : ∀ x, x ∈ ids ↔ x ∈ ids') :
    sortedIds ids = sortedIds ids' := by
  have : Std.Total fun s t : JsString => JsString.le s t = true := ⟨le_total⟩
  have : IsTrans JsString fun s t => JsString.le s t = true := ⟨fun _ _ _ => le_trans⟩
  have hperm : (sortedIds ids).Perm (sortedIds ids') := by
    refine (perm_ext_iff_of_nodup (nodup_sortedIds _) (nodup_sortedIds _)).mpr fun x => ?_
    rw [mem_sortedIds, mem_sortedIds, h]
  exact hperm.eq_of_pairwise (fun _ _ _ _ => le_antisymm)
    (pairwise_insertionSort _ _) (pairwise_insertionSort _ _)

theorem fileId_of_buildChangeEntry (h : buildChangeEntry entry previous = some change) :
    change.fileId = entry.fileId := by
  unfold buildChangeEntry at h
  cases previous with
  | none => exact (some.inj h) ▸ rfl
  | some previous =>
    dsimp only at h
    split_ifs at h <;> exact (some.inj h) ▸ rfl

/-- An entry is no change of what it was. -/
theorem buildChangeEntry_self :
    buildChangeEntry entry (some entry.toRecoveryStateEntry) = none := by
  simp [buildChangeEntry]

theorem fileIds_entryChanges :
    ((entryChanges previousByFileId current).map (·.fileId)).Sublist (current.map (·.fileId)) := by
  induction current with
  | nil => exact .slnil
  | cons entry current ih =>
    rw [entryChanges, filterMap_cons]
    split
    · exact ih.cons _
    · next hch =>
      rw [map_cons, map_cons, fileId_of_buildChangeEntry hch]
      exact ih.cons_cons _

variable {entries : EntryMap}

theorem get?_foldl_set_of_not_mem (h : x ∉ current.map (·.fileId)) :
    (current.foldl (fun persisted entry => persisted.set entry.fileId entry.toRecoveryStateEntry)
      entries).get? x = entries.get? x := by
  induction current generalizing entries with
  | nil => rfl
  | cons entry current ih =>
    rw [map_cons, mem_cons, not_or] at h
    rw [foldl_cons, ih h.2, get?_set_of_ne h.1]

theorem get?_foldl_set_of_mem (hnd : (current.map (·.fileId)).Nodup) (h : entry ∈ current) :
    (current.foldl (fun persisted entry => persisted.set entry.fileId entry.toRecoveryStateEntry)
      entries).get? entry.fileId = some entry.toRecoveryStateEntry := by
  induction current generalizing entries with
  | nil => cases h
  | cons first current ih =>
    rw [map_cons, nodup_cons] at hnd
    rw [foldl_cons]
    rcases mem_cons.mp h with rfl | h
    · rw [get?_foldl_set_of_not_mem hnd.1, get?_set_self]
    · exact ih hnd.2 h

/-- The entries of a whole document. -/
def scanDoc (platform : RecoveryPlatform) (doc : FileDoc) (fileIds : Option (List JsString)) :
    List InternalStateEntry :=
  buildRecoveryStateSelection platform doc (readText doc) fileIds

/-- The latest state that a snapshot of a document leaves. -/
def latestStateOf (platform : RecoveryPlatform) (doc : FileDoc) (manifestId createdAt : JsString) :
    RecoveryLatestState :=
  let entries := (scanDoc platform doc none).map (·.toRecoveryStateEntry)
  { manifestId, createdAt, stateHash := stateHash platform entries, entries }

/-- The index written beside a latest state. -/
def indexOf (latest : RecoveryLatestState) : RecoveryIndexSnapshot :=
  ⟨some latest.manifestId, some latest.stateHash, latest.entries⟩

/-- The dirty set misses no file whose recovery entry differs between two documents. -/
def Covers (platform : RecoveryPlatform) (old new : FileDoc) (dirty : List JsString) : Prop :=
  ∀ x, fileEntry platform old (readText old) x ≠ fileEntry platform new (readText new) x → x ∈ dirty

/-- The same decision, and for an upload the same changes, contents and state. -/
def SameOutcome : SnapshotDecision → SnapshotDecision → Prop
  | .noop .., .noop .. => True
  | .upload p, .upload q =>
    p.changedEntries.Perm q.changedEntries ∧ p.contentHashes = q.contentHashes ∧
      p.persistedState = q.persistedState ∧ p.stateHash = q.stateHash
  | _, _ => False

section Previous

variable (platform P old)

/-- The entries of the earlier document by file. -/
def previousOf : EntryMap :=
  entriesByFileId (·.fileId) ((scanDoc platform old none).map (·.toRecoveryStateEntry))

theorem nodup_previous :
    (((scanDoc P old none).map (·.toRecoveryStateEntry)).map (·.fileId)).Nodup := by
  rw [List.map_map]
  exact nodup_buildRecoveryStateSelection

theorem get?_previousOf : (previousOf P old).get? x =
    (fileEntry P old (readText old) x).map (·.toRecoveryStateEntry) := by
  refine Option.ext fun e => ?_
  rw [previousOf, get?_entriesByFileId (nodup_previous P old), map_eq_some_iff]
  constructor
  · rintro ⟨hmem, rfl⟩
    obtain ⟨entry, he, rfl⟩ := mem_map.mp hmem
    exact ⟨entry, (mem_buildRecoveryStateSelection.mp he).2, rfl⟩
  rintro ⟨entry, he, rfl⟩
  have hid := fileId_of_fileEntry he
  refine ⟨mem_map.mpr ⟨entry, mem_buildRecoveryStateSelection.mpr ⟨rfl, ?_⟩, rfl⟩, hid⟩
  rw [hid]
  exact he

end Previous

section

variable {doc : FileDoc} {fileIds : Option (List JsString)}

theorem nodup_scanDoc :
    ((scanDoc P doc fileIds).map (·.fileId)).Nodup := nodup_buildRecoveryStateSelection

theorem mem_scanDoc :
    entry ∈ scanDoc P doc fileIds ↔ selects fileIds entry.fileId = true ∧
      fileEntry P doc (readText doc) entry.fileId = some entry :=
  mem_buildRecoveryStateSelection

theorem get?_scanDoc :
    (entriesByFileId (·.fileId) (scanDoc P doc fileIds)).get? x =
      if selects fileIds x then fileEntry P doc (readText doc) x else none := by
  refine Option.ext fun entry => ?_
  rw [get?_entriesByFileId nodup_scanDoc, mem_scanDoc]
  constructor
  · rintro ⟨⟨hall, he⟩, rfl⟩
    rwa [if_pos hall]
  intro h
  split at h
  · next hall =>
    have hid := fileId_of_fileEntry h
    exact ⟨⟨hid ▸ hall, hid ▸ h⟩, hid⟩
  · cases h

end

/-- The changes between two documents, however they are found. -/
def IsChange (platform : RecoveryPlatform) (old new : FileDoc) (change : FileHistoryEntry) : Prop :=
  (∃ entry, fileEntry platform new (readText new) entry.fileId = some entry ∧
    buildChangeEntry entry ((previousOf platform old).get? entry.fileId) = some change) ∨
  ∃ previous, (previousOf platform old).get? previous.fileId = some previous ∧
    fileEntry platform new (readText new) previous.fileId = none ∧
    buildDeletionEntry previous = change

/-- A file outside the dirty set is as it was. -/
theorem Covers.eq (h : Covers P old new dirty) (hx : x ∉ dirty) :
    (previousOf P old).get? x =
      (fileEntry P new (readText new) x).map (·.toRecoveryStateEntry) := by
  have heq : fileEntry P old (readText old) x = fileEntry P new (readText new) x :=
    not_not.mp fun hne => hx (h x hne)
  rw [get?_previousOf, heq]

theorem mem_dirty_of_change (h : Covers P old new dirty)
    (he : fileEntry P new (readText new) entry.fileId = some entry)
    (hch : buildChangeEntry entry ((previousOf P old).get? entry.fileId) =
      some change) : entry.fileId ∈ dirty := by
  by_contra hx
  rw [h.eq hx, he, map_some, buildChangeEntry_self] at hch
  cases hch

variable {previous : RecoveryStateEntry}

theorem mem_dirty_of_removed (h : Covers P old new dirty)
    (hp : (previousOf P old).get? x = some previous)
    (hn : fileEntry P new (readText new) x = none) : x ∈ dirty := by
  by_contra hx
  rw [h.eq hx, hn] at hp
  cases hp

section Plans

variable (platform P old new dirty) (manifestId createdAt : JsString)

/-- What the trusted branch computes from the index of the earlier document. -/
def incrementalOf : SnapshotPlan :=
  incrementalPlan platform (indexOf (latestStateOf platform old manifestId createdAt))
    (scanDoc platform new (some (sortedIds dirty))) dirty

/-- What the full scan computes from its latest state. -/
def fullOf : SnapshotPlan :=
  fullPlan (some (latestStateOf platform old manifestId createdAt)) (scanDoc platform new none)
    dirty

/-- The dirty files that are gone. -/
def removedOf : List JsString :=
  (sortedIds dirty).filter fun fileId =>
    ((entriesByFileId (·.fileId) (scanDoc platform new (some (sortedIds dirty)))).get?
      fileId).isNone ∧ ((previousOf platform old).get? fileId).isSome

theorem changes_incrementalOf : (incrementalOf P old new dirty manifestId createdAt).changes =
    entryChanges (previousOf P old) (scanDoc P new (some (sortedIds dirty))) ++
      (removedOf P old new dirty).filterMap fun fileId =>
        ((previousOf P old).get? fileId).map buildDeletionEntry := rfl

theorem changes_fullOf : (fullOf P old new dirty manifestId createdAt).changes =
    entryChanges (previousOf P old) (scanDoc P new none) ++
      ((previousOf P old).values.filter fun previous =>
        ((entriesByFileId (·.fileId) (scanDoc P new none)).get?
          previous.fileId).isNone).map buildDeletionEntry := rfl

theorem changedCurrentEntries_incrementalOf :
    (incrementalOf P old new dirty manifestId createdAt).changedCurrentEntries =
      changedCurrentEntries (incrementalOf P old new dirty manifestId createdAt).changes
        (entriesByFileId (·.fileId) (scanDoc P new (some (sortedIds dirty)))) := rfl

theorem changedCurrentEntries_fullOf :
    (fullOf P old new dirty manifestId createdAt).changedCurrentEntries =
      changedCurrentEntries (fullOf P old new dirty manifestId createdAt).changes
        (entriesByFileId (·.fileId) (scanDoc P new none)) := rfl

/-- The entries by file after the dirty ones were set and the removed ones deleted. -/
def persistedOf : EntryMap :=
  (removedOf platform old new dirty).foldl OrderedMap.delete
    ((scanDoc platform new (some (sortedIds dirty))).foldl
      (fun persisted entry => persisted.set entry.fileId entry.toRecoveryStateEntry)
      (previousOf platform old))

theorem persistedState_incrementalOf :
    (incrementalOf P old new dirty manifestId createdAt).persistedState =
      sortByFileId P (·.fileId) (persistedOf P old new dirty).values := rfl

theorem persistedState_fullOf :
    (fullOf P old new dirty manifestId createdAt).persistedState =
      (scanDoc P new none).map (·.toRecoveryStateEntry) := rfl

end Plans

theorem selects_sortedIds : selects (some (sortedIds dirty)) x = true ↔ x ∈ dirty := by
  rw [selects, all_some, contains_iff_mem, mem_sortedIds]

theorem mem_removedOf : x ∈ removedOf P old new dirty ↔ x ∈ dirty ∧
    fileEntry P new (readText new) x = none ∧ ((previousOf P old).get? x).isSome = true := by
  rw [removedOf, mem_filter, mem_sortedIds, get?_scanDoc, decide_eq_true_eq]
  constructor <;> rintro ⟨hx, hn, hs⟩
  · rw [if_pos (selects_sortedIds.mpr hx), isNone_iff_eq_none] at hn
    exact ⟨hx, hn, hs⟩
  rw [if_pos (selects_sortedIds.mpr hx), hn]
  exact ⟨hx, rfl, hs⟩

theorem fileId_of_previousOf
    (h : (previousOf P old).get? x = some previous) : previous.fileId = x :=
  ((get?_entriesByFileId (nodup_previous P old)).mp h).2

variable {manifestId createdAt : JsString}

theorem mem_changes_incrementalOf (h : Covers P old new dirty) :
    change ∈ (incrementalOf P old new dirty manifestId createdAt).changes ↔
      IsChange P old new change := by
  rw [changes_incrementalOf, mem_append, entryChanges, mem_filterMap, mem_filterMap]
  constructor
  · rintro (⟨entry, hmem, hch⟩ | ⟨x, hx, hd⟩)
    · exact .inl ⟨entry, (mem_scanDoc.mp hmem).2, hch⟩
    obtain ⟨previous, hp, hch⟩ := map_eq_some_iff.mp hd
    obtain rfl := fileId_of_previousOf hp
    exact .inr ⟨previous, hp, (mem_removedOf.mp hx).2.1, hch⟩
  rintro (⟨entry, he, hch⟩ | ⟨previous, hp, hn, hd⟩)
  · have hx := mem_dirty_of_change h he hch
    exact .inl ⟨entry, mem_scanDoc.mpr ⟨selects_sortedIds.mpr hx, he⟩, hch⟩
  have hx := mem_dirty_of_removed h hp hn
  refine .inr ⟨previous.fileId, mem_removedOf.mpr ⟨hx, hn, ?_⟩, ?_⟩
  · rw [hp, isSome_some]
  · rw [hp, map_some, hd]

theorem mem_changes_fullOf :
    change ∈ (fullOf P old new dirty manifestId createdAt).changes ↔ IsChange P old new change := by
  rw [changes_fullOf, List.mem_append, entryChanges, List.mem_filterMap, List.mem_map]
  constructor
  · rintro (⟨entry, hmem, hch⟩ | ⟨previous, hmem, hd⟩)
    · exact .inl ⟨entry, (mem_scanDoc.mp hmem).2, hch⟩
    obtain ⟨hmem, hn⟩ := List.mem_filter.mp hmem
    rw [get?_scanDoc, Option.isNone_iff_eq_none] at hn
    refine .inr ⟨previous, ?_, hn, hd⟩
    rw [previousOf, values_entriesByFileId (nodup_previous P old)] at hmem
    exact (get?_entriesByFileId (nodup_previous P old)).mpr ⟨hmem, rfl⟩
  rintro (⟨entry, he, hch⟩ | ⟨previous, hp, hn, hd⟩)
  · exact .inl ⟨entry, mem_scanDoc.mpr ⟨rfl, he⟩, hch⟩
  refine .inr ⟨previous, List.mem_filter.mpr ⟨?_, ?_⟩, hd⟩
  · rw [previousOf, values_entriesByFileId (nodup_previous P old)]
    exact ((get?_entriesByFileId (nodup_previous P old)).mp hp).1
  rw [get?_scanDoc, Option.isNone_iff_eq_none]
  exact hn

theorem fileIds_removed {l : List JsString}
    (h : ∀ x ∈ l, ∀ previous, (previousOf P old).get? x = some previous →
      previous.fileId = x) (hs : ∀ x ∈ l, ((previousOf P old).get? x).isSome = true) :
    (l.filterMap fun x => ((previousOf P old).get? x).map buildDeletionEntry).map
      (·.fileId) = l := by
  induction l with
  | nil => rfl
  | cons x l ih =>
    obtain ⟨previous, hp⟩ := isSome_iff_exists.mp (hs x mem_cons_self)
    have hid := h x mem_cons_self previous hp
    rw [filterMap_cons, hp, map_some, map_cons,
      ih (fun x hx => h x (mem_cons_of_mem _ hx)) (fun x hx => hs x (mem_cons_of_mem _ hx))]
    exact congrArg (· :: l) hid

variable {doc : FileDoc}

theorem mem_fileIds_scanDoc {fileIds : Option (List JsString)}
    (h : x ∈ (scanDoc P doc fileIds).map (·.fileId)) : fileEntry P doc (readText doc) x ≠ none := by
  obtain ⟨entry, hmem, rfl⟩ := mem_map.mp h
  rw [(mem_scanDoc.mp hmem).2]
  simp

theorem nodup_changes_incrementalOf :
    ((incrementalOf P old new dirty manifestId createdAt).changes.map (·.fileId)).Nodup := by
  rw [changes_incrementalOf, map_append, fileIds_removed
    (fun x _ previous => fileId_of_previousOf) (fun x hx => (mem_removedOf.mp hx).2.2)]
  refine nodup_append.mpr ⟨nodup_scanDoc.sublist fileIds_entryChanges,
    (nodup_sortedIds dirty).filter _, fun x hx y hy heq => ?_⟩
  subst heq
  exact mem_fileIds_scanDoc (fileIds_entryChanges.subset hx) (mem_removedOf.mp hy).2.1

theorem nodup_changes_fullOf :
    ((fullOf P old new dirty manifestId createdAt).changes.map (·.fileId)).Nodup := by
  rw [changes_fullOf, map_append]
  refine nodup_append.mpr ⟨nodup_scanDoc.sublist fileIds_entryChanges, ?_, fun x hx y hy heq => ?_⟩
  · rw [List.map_map, previousOf, values_entriesByFileId (nodup_previous P old)]
    exact (nodup_previous P old).sublist (filter_sublist.map _)
  subst heq
  obtain ⟨change, hch, rfl⟩ := mem_map.mp hy
  obtain ⟨previous, hp, rfl⟩ := mem_map.mp hch
  have hn := (mem_filter.mp hp).2
  rw [get?_scanDoc, isNone_iff_eq_none] at hn
  exact mem_fileIds_scanDoc (fileIds_entryChanges.subset hx) hn

theorem perm_changes (manifestId createdAt : JsString) (h : Covers P old new dirty) :
    (incrementalOf P old new dirty manifestId createdAt).changes.Perm
      (fullOf P old new dirty manifestId createdAt).changes :=
  (perm_ext_iff_of_nodup nodup_changes_incrementalOf.of_map
    nodup_changes_fullOf.of_map).mpr fun _ =>
      (mem_changes_incrementalOf h).trans mem_changes_fullOf.symm

/-- A change that is no deletion finds its current entry in either selection. -/
theorem mem_changedCurrentEntries (h : Covers P old new dirty) :
    entry ∈ (incrementalOf P old new dirty manifestId createdAt).changedCurrentEntries ↔
      entry ∈ (fullOf P old new dirty manifestId createdAt).changedCurrentEntries := by
  have hl : ∀ change, IsChange P old new change → change.kind ≠ .deleted →
      (entriesByFileId (·.fileId) (scanDoc P new (some (sortedIds dirty)))).get? change.fileId =
      (entriesByFileId (·.fileId) (scanDoc P new none)).get? change.fileId := by
    intro change hch hk
    rw [get?_scanDoc, get?_scanDoc]
    rcases hch with ⟨entry, he, hch⟩ | ⟨previous, -, -, rfl⟩
    · rw [fileId_of_buildChangeEntry hch,
        if_pos (selects_sortedIds.mpr (mem_dirty_of_change h he hch))]
      rfl
    · exact absurd rfl hk
  rw [changedCurrentEntries_incrementalOf, changedCurrentEntries_fullOf]
  simp only [changedCurrentEntries, mem_filter, mem_filterMap, decide_eq_true_eq,
    mem_changes_incrementalOf h, mem_changes_fullOf]
  refine and_congr_left' (exists_congr fun change => ?_)
  constructor <;> rintro ⟨⟨hch, hk⟩, hget⟩
  · exact ⟨⟨hch, hk⟩, hl change hch hk.1 ▸ hget⟩
  · exact ⟨⟨hch, hk⟩, (hl change hch hk.1).symm ▸ hget⟩

/-- The contents an upload needs, by hash. -/
def uniqueContents (entries : List InternalStateEntry) (unique : OrderedMap JsString JsString) :
    OrderedMap JsString JsString :=
  entries.foldl (fun unique entry =>
    match entry.contentHash, entry.content with
    | some hash, some content => if hash = [] then unique else unique.set hash content
    | _, _ => unique) unique

theorem mem_keys_set {m : OrderedMap JsString JsString} {hash content : JsString} :
    x ∈ (m.set hash content).keys ↔ x = hash ∨ x ∈ m.keys := by
  rw [← not_iff_not, not_or, ← get?_eq_none, ← get?_eq_none, get?_set]
  split
  · next h => simp [h]
  · next h => simp [h]

theorem mem_keys_uniqueContents {unique : OrderedMap JsString JsString} {hash : JsString} :
    hash ∈ (uniqueContents current unique).keys ↔ hash ∈ unique.keys ∨ hash ≠ [] ∧
      ∃ entry ∈ current, entry.contentHash = some hash ∧ entry.content.isSome = true := by
  induction current generalizing unique with
  | nil => simp [uniqueContents]
  | cons entry current ih =>
    rw [uniqueContents, foldl_cons, ← uniqueContents, ih]
    cases hh : entry.contentHash with
    | none => simp [hh]
    | some hash' =>
      cases hc : entry.content with
      | none => simp [hc]
      | some content =>
        dsimp only
        split
        · next he => grind
        · next he =>
          simp only [mem_keys_set, exists_mem_cons_iff, hh, hc, Option.some.injEq,
            isSome_some, and_true]
          grind

theorem hashes_buildContentQueue :
    (buildContentQueue current).map (·.hash) = sortedIds (uniqueContents current .empty).keys := by
  rw [buildContentQueue, List.map_map]
  exact List.map_id _

theorem keyedById_of_get? {m : EntryMap}
    (h : ∀ x, m.get? x = (fileEntry P doc (readText doc) x).map (·.toRecoveryStateEntry)) :
    KeyedById m := by
  intro x e he
  rw [h] at he
  obtain ⟨entry, hen, rfl⟩ := map_eq_some_iff.mp he
  exact fileId_of_fileEntry hen

/-- Dirty files are read anew, the others were already so. -/
theorem get?_persistedOf (h : Covers P old new dirty) :
    (persistedOf P old new dirty).get? x =
      (fileEntry P new (readText new) x).map (·.toRecoveryStateEntry) := by
  rw [persistedOf, get?_foldl_delete]
  by_cases hx : x ∈ dirty
  · cases he : fileEntry P new (readText new) x with
    | some entry =>
      obtain rfl := fileId_of_fileEntry he
      have hmem : entry ∈ scanDoc P new (some (sortedIds dirty)) :=
        mem_scanDoc.mpr ⟨selects_sortedIds.mpr hx, he⟩
      have hk : entry.fileId ∉ removedOf P old new dirty := by
        rw [mem_removedOf, he]
        simp
      rw [if_neg hk, get?_foldl_set_of_mem nodup_scanDoc hmem]
      rfl
    | none =>
      have hout : x ∉ (scanDoc P new (some (sortedIds dirty))).map (·.fileId) :=
        fun hmem => mem_fileIds_scanDoc hmem he
      rw [get?_foldl_set_of_not_mem hout]
      split
      · rfl
      · next hk =>
        rw [mem_removedOf, not_and, not_and] at hk
        simpa using hk hx he
  have hk : x ∉ removedOf P old new dirty := fun hmem => hx (mem_removedOf.mp hmem).1
  have hout : x ∉ (scanDoc P new (some (sortedIds dirty))).map (·.fileId) := by
    intro hmem
    obtain ⟨entry, he, rfl⟩ := mem_map.mp hmem
    exact hx (selects_sortedIds.mp (mem_scanDoc.mp he).1)
  rw [if_neg hk, get?_foldl_set_of_not_mem hout, h.eq hx]

theorem persistedState_eq (manifestId createdAt : JsString) (hle : P.TotalOrder)
    (h : Covers P old new dirty) :
    (incrementalOf P old new dirty manifestId createdAt).persistedState =
      (fullOf P old new dirty manifestId createdAt).persistedState := by
  have hkeyed := keyedById_of_get? fun x => get?_persistedOf (x := x) h
  rw [persistedState_incrementalOf, persistedState_fullOf]
  refine eq_of_sorted hle ?_ (nodup_previous P new) (fun e => ?_) (sorted_sortByFileId hle) ?_
  · rw [(perm_sortByFileId.map _).nodup_iff]
    exact hkeyed.nodup
  · rw [perm_sortByFileId.mem_iff, hkeyed.mem_values, get?_persistedOf h,
      ← get?_previousOf P new, previousOf,
      get?_entriesByFileId (nodup_previous P new)]
    exact and_iff_left rfl
  rw [pairwise_map]
  exact sorted_sortByFileId hle

/-- A snapshot of the dirty files decides, records and uploads what a scan of all files would. -/
theorem incremental_snapshot_eq_full (hle : platform.TotalOrder) (h : Covers platform old new dirty)
    (options : SnapshotOptions) (crdtSchemaVersion : Option ℕ) (manifestId createdAt : JsString) :
    SameOutcome
      (decideSnapshot platform options crdtSchemaVersion
        (incrementalOf platform old new dirty manifestId createdAt))
      (decideSnapshot platform options crdtSchemaVersion
        (fullOf platform old new dirty manifestId createdAt)) := by
  have hperm := perm_changes manifestId createdAt h
  have hst := persistedState_eq manifestId createdAt hle h
  have hhas : (buildContentQueue (incrementalOf platform old new dirty manifestId
      createdAt).changedCurrentEntries).map (·.hash) =
      (buildContentQueue (fullOf platform old new dirty manifestId
        createdAt).changedCurrentEntries).map (·.hash) := by
    rw [hashes_buildContentQueue, hashes_buildContentQueue]
    refine sortedIds_congr fun hash => ?_
    rw [mem_keys_uniqueContents, mem_keys_uniqueContents]
    simp only [mem_changedCurrentEntries h]
  have hnil : (incrementalOf platform old new dirty manifestId createdAt).changes = [] ↔
      (fullOf platform old new dirty manifestId createdAt).changes = [] := by
    constructor <;> intro hnil
    · exact (hnil ▸ hperm).nil_eq.symm
    · exact (hnil ▸ hperm).eq_nil
  unfold decideSnapshot
  by_cases hnoop : (fullOf platform old new dirty manifestId createdAt).changes = [] ∧
      truthy (fullOf platform old new dirty manifestId createdAt).previousManifestId
  · rw [if_pos ⟨hnil.mpr hnoop.1, hnoop.2⟩, if_pos hnoop]
    trivial
  rw [if_neg fun h => hnoop ⟨hnil.mp h.1, h.2⟩, if_neg hnoop]
  refine ⟨hperm.map _, ?_, hst, congrArg (stateHash platform) hst⟩
  exact hhas

section Example

/-- The text of one note, the path of another, and whether a third is deleted. -/
def vaultNotes (content path : JsString) (deleted : Bool) : FileDoc where
  schemaVersion := some 2
  fileMeta := ((YMap.empty.put (js "a") (some (.flat ⟨some (js "a.md"), false, none, none, none⟩))).put
    (js "b") (some (.flat ⟨some path, false, none, none, none⟩))).put
    (js "c") (some (.flat ⟨some (js "c.md"), deleted, none, none, none⟩))
  idToText := YMap.empty.put (js "a") (some (some content))
  pathToId := .empty

theorem covers_vaultNotes (content content' path path' : JsString) (deleted deleted' : Bool) :
    Covers asciiPlatform (vaultNotes content path deleted) (vaultNotes content' path' deleted')
      [js "a", js "b", js "c"] := by
  intro x hne
  by_contra hx
  simp only [mem_cons, not_mem_nil, or_false, not_or] at hx
  have hn : ∀ content path deleted, fileEntry asciiPlatform (vaultNotes content path deleted)
      (readText (vaultNotes content path deleted)) x = none := by
    intro content path deleted
    have hget : (vaultNotes content path deleted).fileMeta.get? x = none := by
      rw [vaultNotes, YMap.get?_put_of_ne hx.2.2, YMap.get?_put_of_ne hx.2.1,
        YMap.get?_put_of_ne hx.1]
      rfl
    have hdoc : docEntry (vaultNotes content path deleted) x = none := by
      rw [docEntry, hget]
      rfl
    rw [fileEntry, hdoc, map_none]
  exact hne ((hn content path deleted).trans (hn content' path' deleted').symm)

def noteOptions : SnapshotOptions := ⟨none, none, none, 1767225600000, fun _ => 0⟩

/-- One note is edited, one is renamed and one is deleted. -/
theorem incremental_snapshot_eq_full_edit : SameOutcome
    (decideSnapshot asciiPlatform noteOptions none
      (incrementalOf asciiPlatform (vaultNotes (js "one") (js "b.md") false)
        (vaultNotes (js "two") (js "d.md") true) [js "a", js "b", js "c"]
        (js "m1-00000000") (js "2026-01-01T00:00:00.000Z")))
    (decideSnapshot asciiPlatform noteOptions none
      (fullOf asciiPlatform (vaultNotes (js "one") (js "b.md") false)
        (vaultNotes (js "two") (js "d.md") true) [js "a", js "b", js "c"]
        (js "m1-00000000") (js "2026-01-01T00:00:00.000Z"))) :=
  incremental_snapshot_eq_full asciiPlatform_totalOrder (covers_vaultNotes _ _ _ _ _ _) noteOptions none
    _ _

end Example

end Kaos.Server
