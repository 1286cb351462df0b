import Kaos.Lib.JsString
import Kaos.Lib.OrderedMap

/-! File metadata and the semantic changes between two states of it. -/
namespace Kaos.Sync

open Kaos.Lib List OrderedMap

inductive FileMetaShape
  | flat
  | nested
  deriving DecidableEq

/-- `deleted` is `true` or missing. -/
structure DecodedFileMeta where
  shape : FileMetaShape
  path : JsString
  deletedAt : Option ℚ := none
  deleted : Bool := false
  mtime : Option ℚ := none
  device : Option JsString := none
  deriving DecidableEq

/-- A value of the metadata map: a nested `Y.Map`, or anything else. -/
inductive MetaValue
  | nested (fields : Record)
  | plain (value : Json)

/-- A deletion without a time of its own has the time at which it is seen. -/
inductive MetaSemanticChange
  | added (fileId : JsString) (next : DecodedFileMeta)
  | removed (fileId : JsString) (previous : DecodedFileMeta)
  | pathChanged (fileId previousPath nextPath : JsString) (wasDeleted isDeleted : Bool)
  | deleted (fileId path : JsString) (deletedAt : Option ℚ)
  | revived (fileId path : JsString)
  | mtimeChanged (fileId path : JsString)
  | deviceChanged (fileId path : JsString)
  | invalid (fileId : JsString)
  deriving DecidableEq

def MetaSemanticChange.fileId : MetaSemanticChange → JsString
  | .added fileId _ | .removed fileId _ | .pathChanged fileId _ _ _ _ | .deleted fileId _ _
  | .revived fileId _ | .mtimeChanged fileId _ | .deviceChanged fileId _ | .invalid fileId => fileId

/-- A finite number; an infinite one is dropped. -/
def readFinite : Json → Option ℚ
  | .num value => value
  | _ => none

def decodeFields (shape : FileMetaShape) (fields : Record) : Option DecodedFileMeta :=
  match fields "path" with
  | .str path =>
    if path.length = 0 then none
    else some {
      shape, path
      deletedAt := readFinite (fields "deletedAt")
      deleted := match fields "deleted" with
        | .bool true => true
        | _ => false
      mtime := readFinite (fields "mtime")
      device := match fields "device" with
        | .str device => some device
        | _ => none }
  | _ => none

def decodeFileMeta : MetaValue → Option DecodedFileMeta
  | .nested fields => decodeFields .nested fields
  | .plain value => (asRecord value).bind (decodeFields .flat)

abbrev MetaMap := OrderedMap JsString MetaValue

abbrev MetaSnapshot := OrderedMap JsString DecodedFileMeta

theorem map_fst_decode_sublist (entries : List (JsString × MetaValue)) :
    ((entries.filterMap fun entry => (decodeFileMeta entry.2).map fun decoded =>
      (entry.1, decoded)).map Prod.fst).Sublist (entries.map Prod.fst) := by
  induction entries with
  | nil => exact List.Sublist.refl _
  | cons entry entries ih =>
    rw [filterMap_cons]
    cases decodeFileMeta entry.2 with
    | none => exact ih.cons _
    | some decoded => exact ih.cons_cons _

/-- The entries that can be decoded. -/
def buildMetaSnapshot (metaMap : MetaMap) : MetaSnapshot :=
  ⟨metaMap.entries.filterMap fun entry => (decodeFileMeta entry.2).map fun decoded =>
    (entry.1, decoded), metaMap.nodup.sublist (map_fst_decode_sublist metaMap.entries)⟩

def DecodedFileMeta.isDeleted (decoded : DecodedFileMeta) : Bool :=
  decoded.deleted || decoded.deletedAt.isSome

/-- The change of an entry that is there before and after: the first that applies. -/
def modifiedChanges (fileId : JsString) (prev curr : DecodedFileMeta) : List MetaSemanticChange :=
  if prev.isDeleted && !curr.isDeleted then [.revived fileId curr.path]
  else if !prev.isDeleted && curr.isDeleted then [.deleted fileId curr.path curr.deletedAt]
  else if prev.path ≠ curr.path then
    [.pathChanged fileId prev.path curr.path prev.isDeleted curr.isDeleted]
  else if prev.mtime ≠ curr.mtime then [.mtimeChanged fileId curr.path]
  else if prev.device ≠ curr.device then [.deviceChanged fileId curr.path]
  else []

def addedOrModifiedChanges (fileId : JsString) (prev : Option DecodedFileMeta)
    (curr : DecodedFileMeta) : List MetaSemanticChange :=
  match prev with
  | none => [.added fileId curr]
  | some prev => modifiedChanges fileId prev curr

def computeMetaSemanticChanges (previous current : MetaSnapshot) : List MetaSemanticChange :=
  (previous.entries.filter fun entry => (current.get? entry.1).isNone).map
      (fun entry => .removed entry.1 entry.2) ++
    current.entries.flatMap fun entry =>
      addedOrModifiedChanges entry.1 (previous.get? entry.1) entry.2

/-- The changes of the affected files, and the snapshot with them. -/
def computeIncrementalMetaChanges (metaMap : MetaMap) :
    MetaSnapshot → List JsString → List MetaSemanticChange × MetaSnapshot
  | snapshot, [] => ([], snapshot)
  | snapshot, fileId :: affected =>
    match (metaMap.get? fileId).bind decodeFileMeta with
    | none =>
      match snapshot.get? fileId with
      | some prev =>
        let rest := computeIncrementalMetaChanges metaMap (snapshot.delete fileId) affected
        (.removed fileId prev :: rest.1, rest.2)
      | none =>
        let rest := computeIncrementalMetaChanges metaMap snapshot affected
        (.invalid fileId :: rest.1, rest.2)
    | some curr =>
      let rest := computeIncrementalMetaChanges metaMap (snapshot.set fileId curr) affected
      (addedOrModifiedChanges fileId (snapshot.get? fileId) curr ++ rest.1, rest.2)

/-- The changes that a file's metadata before and after call for. -/
def expectedChanges (fileId : JsString) :
    Option DecodedFileMeta → Option DecodedFileMeta → List MetaSemanticChange
  | prev, some curr => addedOrModifiedChanges fileId prev curr
  | some prev, none => [.removed fileId prev]
  | none, none => []

section Lemmas

variable {metaMap : MetaMap} {previous current snapshot : MetaSnapshot} {fileId : JsString}
  {affected : List JsString} {change : MetaSemanticChange} {prev curr : DecodedFileMeta}

theorem get?_buildMetaSnapshot : (buildMetaSnapshot metaMap).get? fileId =
    (metaMap.get? fileId).bind decodeFileMeta := by
  refine Option.ext fun decoded => ?_
  rw [get?_eq_some, Option.bind_eq_some_iff]
  simp only [buildMetaSnapshot, mem_filterMap, Option.map_eq_some_iff, get?_eq_some]
  constructor
  · rintro ⟨entry, hmem, decoded', hd, heq⟩
    cases heq
    exact ⟨entry.2, hmem, hd⟩
  rintro ⟨value, hmem, hd⟩
  exact ⟨(fileId, value), hmem, decoded, hd, rfl⟩

theorem modifiedChanges_self (fileId : JsString) (curr : DecodedFileMeta) :
    modifiedChanges fileId curr curr = [] := by
  simp [modifiedChanges]

theorem fileId_of_mem_modifiedChanges (h : change ∈ modifiedChanges fileId prev curr) :
    change.fileId = fileId := by
  unfold modifiedChanges at h
  split_ifs at h <;> simp_all [MetaSemanticChange.fileId]

theorem fileId_of_mem_addedOrModified {prev : Option DecodedFileMeta}
    (h : change ∈ addedOrModifiedChanges fileId prev curr) : change.fileId = fileId := by
  cases prev with
  | none =>
    rw [addedOrModifiedChanges, mem_singleton] at h
    rw [h]
    rfl
  | some prev => exact fileId_of_mem_modifiedChanges h

/-- Of the changes that each entry of a list has, those of one file are the changes of its own
entries. -/
theorem filter_flatMap_fileId {entries : List (JsString × DecodedFileMeta)}
    {g : JsString × DecodedFileMeta → List MetaSemanticChange}
    (hg : ∀ entry, ∀ change ∈ g entry, change.fileId = entry.1) :
    (entries.flatMap g).filter (fun change => change.fileId = fileId) =
      (entries.filter fun entry => entry.1 = fileId).flatMap g := by
  induction entries with
  | nil => rfl
  | cons entry entries ih =>
    rw [flatMap_cons, filter_append, ih]
    by_cases h : entry.1 = fileId
    · have hown : (g entry).filter (fun change => change.fileId = fileId) = g entry := by
        rw [filter_eq_self]
        intro change hmem
        rw [decide_eq_true_eq, hg entry change hmem, h]
      rw [hown, filter_cons_of_pos (by simpa using h), flatMap_cons]
    have hn : (g entry).filter (fun change => change.fileId = fileId) = [] := by
      rw [filter_eq_nil_iff]
      intro change hmem
      rw [decide_eq_true_eq, hg entry change hmem]
      exact h
    rw [hn, filter_cons_of_neg (by simpa using h), nil_append]

/-- The changes of one file in a full comparison. -/
theorem filter_computeMetaSemanticChanges :
    (computeMetaSemanticChanges previous current).filter (fun change => change.fileId = fileId) =
      expectedChanges fileId (previous.get? fileId) (current.get? fileId) := by
  have hrem : ((previous.entries.filter fun entry => (current.get? entry.1).isNone).map
        (fun entry => MetaSemanticChange.removed entry.1 entry.2)).filter
          (fun change => change.fileId = fileId) =
      ((previous.entries.filter fun entry => entry.1 = fileId).filter fun entry =>
        (current.get? entry.1).isNone).map
          (fun entry => MetaSemanticChange.removed entry.1 entry.2) := by
    rw [filter_map, filter_filter, filter_filter]
    congr 1
    apply filter_congr
    intro entry _
    exact Bool.and_comm _ _
  rw [computeMetaSemanticChanges, filter_append, hrem, filter_flatMap_fileId,
    filter_entries_key, filter_entries_key]
  · cases hp : previous.get? fileId with
    | none =>
      cases hcurr : current.get? fileId with
      | none => rfl
      | some curr => simp [expectedChanges, hp]
    | some prev =>
      cases hcurr : current.get? fileId with
      | none => simp [expectedChanges, hcurr]
      | some curr => simp [expectedChanges, hcurr, hp]
  · intro entry change hmem
    exact fileId_of_mem_addedOrModified hmem

theorem filter_own {g : List MetaSemanticChange} (hg : ∀ change ∈ g, change.fileId = fileId) :
    g.filter (fun change => change.fileId = fileId) = g := by
  rw [filter_eq_self]
  intro change hmem
  rw [decide_eq_true_eq, hg change hmem]

theorem filter_other {other : JsString} {g : List MetaSemanticChange}
    (hg : ∀ change ∈ g, change.fileId = other) (hne : other ≠ fileId) :
    g.filter (fun change => change.fileId = fileId) = [] := by
  rw [filter_eq_nil_iff]
  intro change hmem
  rw [decide_eq_true_eq, hg change hmem]
  exact hne

/-- One step over the affected files: the changes of the first, and the snapshot with it. -/
theorem computeIncremental_cons (metaMap : MetaMap) (snapshot : MetaSnapshot) (fileId : JsString)
    (affected : List JsString) : ∃ changes next,
      computeIncrementalMetaChanges metaMap snapshot (fileId :: affected) =
        (changes ++ (computeIncrementalMetaChanges metaMap next affected).1,
          (computeIncrementalMetaChanges metaMap next affected).2) ∧
      (∀ change ∈ changes, change.fileId = fileId) ∧
      next.get? fileId = (buildMetaSnapshot metaMap).get? fileId ∧
      (∀ other, other ≠ fileId → next.get? other = snapshot.get? other) ∧
      changes = if snapshot.get? fileId = none ∧ (buildMetaSnapshot metaMap).get? fileId = none
        then [.invalid fileId]
        else expectedChanges fileId (snapshot.get? fileId)
          ((buildMetaSnapshot metaMap).get? fileId) := by
  rw [computeIncrementalMetaChanges, get?_buildMetaSnapshot]
  cases hcurr : (metaMap.get? fileId).bind decodeFileMeta with
  | none =>
    cases hp : snapshot.get? fileId with
    | none =>
      refine ⟨[.invalid fileId], snapshot, rfl, ?_, hp, fun _ _ => rfl, by simp⟩
      intro change hmem
      rw [mem_singleton.mp hmem]
      rfl
    | some prev =>
      refine ⟨[.removed fileId prev], snapshot.delete fileId, rfl, ?_,
        get?_delete_self, fun other hne => get?_delete_of_ne hne,
        by simp [expectedChanges]⟩
      intro change hmem
      rw [mem_singleton.mp hmem]
      rfl
  | some curr =>
    exact ⟨_, snapshot.set fileId curr, rfl, fun change => fileId_of_mem_addedOrModified,
      get?_set_self, fun other hne => get?_set_of_ne hne,
      by simp [expectedChanges]⟩

/-- The changes of one file in an incremental comparison. -/
theorem filter_computeIncremental (hnd : affected.Nodup) :
    (computeIncrementalMetaChanges metaMap snapshot affected).1.filter
        (fun change => change.fileId = fileId) =
      if fileId ∉ affected then []
      else if snapshot.get? fileId = none ∧ (buildMetaSnapshot metaMap).get? fileId = none then
        [.invalid fileId]
      else expectedChanges fileId (snapshot.get? fileId)
        ((buildMetaSnapshot metaMap).get? fileId) := by
  induction affected generalizing snapshot with
  | nil => rfl
  | cons other affected ih =>
    rw [nodup_cons] at hnd
    obtain ⟨changes, next, heq, hown, -, ho, hchan⟩ :=
      computeIncremental_cons metaMap snapshot other affected
    rw [heq]
    simp only [filter_append, ih hnd.2]
    by_cases h : other = fileId
    · subst h
      rw [filter_own hown, if_pos hnd.1, append_nil, if_neg (not_not.mpr mem_cons_self), hchan]
    have hmem : fileId ∈ other :: affected ↔ fileId ∈ affected := by
      rw [mem_cons]
      exact ⟨fun hor => hor.resolve_left (Ne.symm h), .inr⟩
    rw [filter_other hown h, nil_append, ho fileId (Ne.symm h)]
    simp only [hmem]

/-- If only affected files have changed, the snapshot is that of the map afterwards. -/
theorem get?_computeIncremental
    (hs : fileId ∉ affected → snapshot.get? fileId = (buildMetaSnapshot metaMap).get? fileId) :
    (computeIncrementalMetaChanges metaMap snapshot affected).2.get? fileId =
      (buildMetaSnapshot metaMap).get? fileId := by
  induction affected generalizing snapshot with
  | nil => exact hs not_mem_nil
  | cons other affected ih =>
    obtain ⟨changes, next, heq, -, hsf, ho, -⟩ :=
      computeIncremental_cons metaMap snapshot other affected
    rw [heq]
    apply ih
    intro hnot
    by_cases h : fileId = other
    · subst h
      exact hsf
    rw [ho fileId h]
    exact hs fun hmem => (mem_cons.mp hmem).elim h hnot

end Lemmas

end Kaos.Sync
