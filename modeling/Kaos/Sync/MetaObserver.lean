import Kaos.Lib.KeyedFold
import Kaos.Sync.FileMeta

/-! What the disk mirror makes of the semantic changes of a remote transaction. -/
namespace Kaos.Sync

open Kaos.Lib OrderedMap List

/-- The files of the disk, each with its path. -/
abbrev FilePaths := List (JsString × JsString)

section Observer

variable (normalizePath norm : JsString → JsString)

/-- `!next.deletedAt && !next.deleted`; a zero is no date here. -/
def DecodedFileMeta.isLive (decoded : DecodedFileMeta) : Bool :=
  (decoded.deletedAt.getD 0 = 0) && !decoded.deleted

/-- A path is taken off for a file, renamed, or created for it. -/
def followChange (files : FilePaths) : MetaSemanticChange → FilePaths
  | .deleted fileId path _ => files.filter fun file => file ≠ (fileId, normalizePath path)
  | .revived fileId path => files.insert (fileId, normalizePath path)
  | .pathChanged fileId previousPath nextPath _ isDeleted =>
    if isDeleted then files
    else (files.filter fun file => file ≠ (fileId, normalizePath previousPath)).insert
      (fileId, normalizePath nextPath)
  | .added fileId next =>
    if next.isLive then files.insert (fileId, normalizePath next.path) else files
  | .removed _ _ | .mtimeChanged _ _ | .deviceChanged _ _ | .invalid _ => files

def followChanges (files : FilePaths) (changes : List MetaSemanticChange) : FilePaths :=
  changes.foldl (followChange normalizePath) files

/-- The active files of a snapshot with their paths. -/
def activePaths (snapshot : MetaSnapshot) : FilePaths :=
  snapshot.entries.filterMap fun entry =>
    if entry.2.isDeleted then none else some (entry.1, normalizePath entry.2.path)

/-- The changes lead each file that is still there to where it is now. -/
def Follows (previous current : MetaSnapshot) (changes : List MetaSemanticChange) : Prop :=
  ∀ fileId ∈ current.keys, ∀ path,
    (fileId, path) ∈ followChanges normalizePath (activePaths normalizePath previous) changes ↔
      (fileId, path) ∈ activePaths normalizePath current

/-- No file is moved and deleted at once, and no new one is deleted at the time zero. -/
structure Separate (previous current : MetaSnapshot) : Prop where
  deleted : ∀ fileId prev curr, previous.get? fileId = some prev →
    current.get? fileId = some curr → prev.isDeleted = false → curr.isDeleted = true →
      normalizePath prev.path = normalizePath curr.path
  added : ∀ fileId curr, previous.get? fileId = none → current.get? fileId = some curr →
    curr.isDeleted = true → curr.isLive = false

end Observer

section Lemmas

variable {normalizePath norm : JsString → JsString} {previous current snapshot : MetaSnapshot}
  {files : FilePaths} {fileId path : JsString} {changes : List MetaSemanticChange}
  {change : MetaSemanticChange} {prev curr : DecodedFileMeta}

theorem mem_activePaths : (fileId, path) ∈ activePaths norm snapshot ↔
    ∃ decoded, snapshot.get? fileId = some decoded ∧ decoded.isDeleted = false ∧
      norm decoded.path = path := by
  simp only [activePaths, mem_filterMap, get?_eq_some]
  constructor
  · rintro ⟨entry, hmem, he⟩
    split at he
    · cases he
    · next hact =>
      rw [Option.some.injEq, Prod.mk.injEq] at he
      obtain ⟨rfl, hp⟩ := he
      exact ⟨entry.2, hmem, by simpa using hact, hp⟩
  · rintro ⟨decoded, hmem, hact, rfl⟩
    exact ⟨(fileId, decoded), hmem, by simp [hact]⟩

/-- What a change does to the pairs of file and path. -/
theorem mem_followChange : (fileId, path) ∈ followChange norm files change ↔
    match change with
    | .deleted id old _ => (fileId, path) ∈ files ∧ ¬ (fileId = id ∧ path = norm old)
    | .revived id new => (fileId = id ∧ path = norm new) ∨ (fileId, path) ∈ files
    | .pathChanged id old new _ isDeleted =>
      if isDeleted then (fileId, path) ∈ files
      else (fileId = id ∧ path = norm new) ∨
        ((fileId, path) ∈ files ∧ ¬ (fileId = id ∧ path = norm old))
    | .added id next =>
      (next.isLive = true ∧ fileId = id ∧ path = norm next.path) ∨ (fileId, path) ∈ files
    | _ => (fileId, path) ∈ files := by
  cases change with
  | deleted id old deletedAt => simp [followChange, imp_iff_not_or]
  | revived id new => simp [followChange]
  | pathChanged id old new wasDeleted isDeleted =>
    cases isDeleted <;> simp [followChange, imp_iff_not_or]
  | added id next => cases h : next.isLive <;> simp [followChange, h]
  | removed id previous => rfl
  | mtimeChanged id path => rfl
  | deviceChanged id path => rfl
  | invalid id => rfl

/-- The paths of one file. -/
def pathsOf (fileId : JsString) (files : FilePaths) : Set JsString :=
  { path | (fileId, path) ∈ files }

/-- A change of one file moves no other. -/
theorem pathsOf_followChange_of_ne (files : FilePaths) (h : change.fileId ≠ fileId) :
    pathsOf fileId (followChange norm files change) = pathsOf fileId files := by
  have hne : ∀ P : Prop, ¬ (fileId = change.fileId ∧ P) := fun P hand => h hand.1.symm
  ext path
  rw [pathsOf, Set.mem_ofPred_eq, pathsOf, Set.mem_ofPred_eq, mem_followChange]
  cases change with
  | deleted id old deletedAt => exact and_iff_left (hne _)
  | revived id new => exact or_iff_right (hne _)
  | pathChanged id old new wasDeleted isDeleted =>
    cases isDeleted with
    | true => exact Iff.rfl
    | false => exact (or_iff_right (hne _)).trans (and_iff_left (hne _))
  | added id next => exact or_iff_right fun hand => hne _ hand.2
  | removed id previous | mtimeChanged id path | deviceChanged id path | invalid id => exact Iff.rfl

theorem pathsOf_followChange_congr {files' : FilePaths}
    (h : pathsOf fileId files = pathsOf fileId files') (change : MetaSemanticChange) :
    pathsOf fileId (followChange norm files change) =
      pathsOf fileId (followChange norm files' change) := by
  have hmem : ∀ path, (fileId, path) ∈ files ↔ (fileId, path) ∈ files' := fun path =>
    Set.ext_iff.mp h path
  ext path
  simp only [pathsOf, Set.mem_ofPred_eq, mem_followChange, hmem]

/-- Only its own changes lead a file. -/
theorem pathsOf_followChanges (files : FilePaths) (changes : List MetaSemanticChange) :
    pathsOf fileId (followChanges norm files changes) =
      pathsOf fileId (followChanges norm files
        (changes.filter fun change => change.fileId = fileId)) := by
  apply foldl_view
  · intro files change hne
    exact pathsOf_followChange_of_ne files (of_decide_eq_false hne)
  · intro files files' change h
    exact pathsOf_followChange_congr h change
  · rfl

theorem mem_activePaths_of_get? (h : snapshot.get? fileId = some curr) :
    (fileId, path) ∈ activePaths norm snapshot ↔
      curr.isDeleted = false ∧ norm curr.path = path := by
  rw [mem_activePaths, h]
  simp

theorem not_mem_activePaths (h : snapshot.get? fileId = none) :
    (fileId, path) ∉ activePaths norm snapshot := by
  rw [mem_activePaths, h]
  simp

theorem isLive_of_active (h : curr.isDeleted = false) : curr.isLive = true := by
  simp only [DecodedFileMeta.isDeleted, Bool.or_eq_false_iff, Option.isSome_eq_false_iff,
    Option.isNone_iff_eq_none] at h
  simp [DecodedFileMeta.isLive, h.1, h.2]

/-- A new file is created at its path, unless it comes deleted at the time zero. -/
theorem followChanges_added (hcurr : current.get? fileId = some curr)
    (hp : previous.get? fileId = none) :
    (∀ path, (fileId, path) ∈ followChanges norm (activePaths norm previous)
        [.added fileId curr] ↔ (fileId, path) ∈ activePaths norm current) ↔
      (curr.isDeleted = true → curr.isLive = false) := by
  simp only [followChanges, foldl_cons, foldl_nil, mem_followChange,
    mem_activePaths_of_get? hcurr, not_mem_activePaths hp, or_false, true_and]
  constructor
  · intro h hdel
    by_contra hl
    rw [Bool.not_eq_false] at hl
    obtain ⟨hact, -⟩ := (h _).mp ⟨hl, rfl⟩
    rw [hdel] at hact
    cases hact
  intro h path
  constructor
  · rintro ⟨hl, rfl⟩
    refine ⟨?_, rfl⟩
    by_contra hdel
    rw [Bool.not_eq_false] at hdel
    rw [h hdel] at hl
    cases hl
  · rintro ⟨hact, rfl⟩
    exact ⟨isLive_of_active hact, rfl⟩

/-- A file that was there before is led to where it is, unless it was moved and deleted at once. -/
theorem followChanges_modified (hcurr : current.get? fileId = some curr)
    (hpr : previous.get? fileId = some prev) :
    (∀ path, (fileId, path) ∈ followChanges norm (activePaths norm previous)
        (modifiedChanges fileId prev curr) ↔
        (fileId, path) ∈ activePaths norm current) ↔
      (prev.isDeleted = false → curr.isDeleted = true → norm prev.path = norm curr.path) := by
  have hb : ∀ path, (fileId, path) ∈ activePaths norm previous ↔
      prev.isDeleted = false ∧ norm prev.path = path := fun path =>
    mem_activePaths_of_get? hpr
  have ha : ∀ path, (fileId, path) ∈ activePaths norm current ↔
      curr.isDeleted = false ∧ norm curr.path = path := fun path =>
    mem_activePaths_of_get? hcurr
  simp only [ha]
  unfold modifiedChanges
  cases hp : prev.isDeleted with
  | true =>
    cases hc : curr.isDeleted with
    | true =>
      -- nothing is there before or after
      simp only [Bool.not_true, Bool.and_false, Bool.false_and, Bool.false_eq_true, if_false,
        false_imp_iff, iff_true, reduceCtorEq, false_and, iff_false]
      intro path
      split_ifs <;> simp [followChanges, mem_followChange, hb, hp]
    | false => simp [followChanges, mem_followChange, hb, hp, eq_comm]
  | false =>
    cases hc : curr.isDeleted with
    | true =>
      simp only [Bool.not_false, Bool.not_true, Bool.and_self, Bool.false_eq_true, if_false,
        if_true, followChanges, foldl_cons, foldl_nil, mem_followChange,
        hb, hp, true_and, true_imp_iff, reduceCtorEq, false_and, iff_false, not_and, not_not]
      exact ⟨fun h => h _ rfl, fun h path hpa => hpa ▸ h⟩
    | false =>
      simp only [Bool.not_false, Bool.and_false, Bool.false_and, Bool.false_eq_true, if_false,
        true_and, false_imp_iff, imp_true_iff, iff_true]
      intro path
      split_ifs with hpa hmtime hdev
      · simp only [followChanges, foldl_cons, foldl_nil, mem_followChange, hb, hp,
          true_and, Bool.false_eq_true, if_false]
        constructor
        · rintro (h | ⟨h, hne⟩)
          · exact h.symm
          · exact absurd h.symm hne
        · exact fun h => .inl h.symm
      · rw [not_not] at hpa
        simp [followChanges, mem_followChange, hb, hp, hpa]
      · rw [not_not] at hpa
        simp [followChanges, mem_followChange, hb, hp, hpa]
      rw [not_not] at hpa
      simp [followChanges, hb, hp, hpa]

/-- Changes that are, for each file that is there, those its metadata call for, lead every file to
where it is if and only if none needs two changes. -/
theorem follows_iff (hchan : ∀ fileId curr, current.get? fileId = some curr →
    changes.filter (fun change => change.fileId = fileId) =
      expectedChanges fileId (previous.get? fileId) (some curr)) :
    Follows norm previous current changes ↔ Separate norm previous current := by
  have hone : ∀ fileId curr, current.get? fileId = some curr →
      ((∀ path, (fileId, path) ∈ followChanges norm (activePaths norm previous)
          changes ↔ (fileId, path) ∈ activePaths norm current) ↔
        (∀ prev, previous.get? fileId = some prev → prev.isDeleted = false →
          curr.isDeleted = true → norm prev.path = norm curr.path) ∧
        (previous.get? fileId = none → curr.isDeleted = true → curr.isLive = false)) := by
    intro fileId curr hcurr
    have hown : ∀ path, (fileId, path) ∈ followChanges norm
          (activePaths norm previous) changes ↔
        (fileId, path) ∈ followChanges norm (activePaths norm previous)
          (expectedChanges fileId (previous.get? fileId) (some curr)) := by
      intro path
      rw [← hchan fileId curr hcurr]
      exact Set.ext_iff.mp (pathsOf_followChanges _ changes) path
    simp only [hown]
    cases hp : previous.get? fileId with
    | none =>
      refine (followChanges_added hcurr hp).trans ?_
      simp
    | some prev =>
      refine (followChanges_modified hcurr hp).trans ?_
      simp
  constructor
  · intro h
    constructor
    · intro fileId prev curr hp hcurr
      have hkey : fileId ∈ current.keys := mem_keys.mpr ⟨curr, get?_eq_some.mp hcurr⟩
      exact ((hone fileId curr hcurr).mp (h fileId hkey)).1 prev hp
    intro fileId curr hp hcurr
    have hkey : fileId ∈ current.keys := mem_keys.mpr ⟨curr, get?_eq_some.mp hcurr⟩
    exact ((hone fileId curr hcurr).mp (h fileId hkey)).2 hp
  intro h fileId hkey
  obtain ⟨curr, hmem⟩ := mem_keys.mp hkey
  have hcurr := get?_eq_some.mpr hmem
  refine (hone fileId curr hcurr).mpr ⟨?_, ?_⟩
  · intro prev hp
    exact h.deleted fileId prev curr hp hcurr
  intro hp
  exact h.added fileId curr hp hcurr

end Lemmas

section Observation

variable {metaMap : MetaMap} {previous : MetaSnapshot} {affected : List JsString}

/-- Both comparisons, the full one of any two snapshots and the one of the affected files, carry
every path change of exactly the transactions in which no file needs two changes. -/
theorem follows_iff_separate (normalizePath : JsString → JsString) (hnodup : affected.Nodup)
    (haffected : ∀ fileId, fileId ∉ affected →
      previous.get? fileId = (buildMetaSnapshot metaMap).get? fileId) :
    (∀ current, Follows normalizePath previous current
        (computeMetaSemanticChanges previous current) ↔
      Separate normalizePath previous current) ∧
    (Follows normalizePath previous (buildMetaSnapshot metaMap)
        (computeIncrementalMetaChanges metaMap previous affected).1 ↔
      Separate normalizePath previous (buildMetaSnapshot metaMap)) := by
  constructor
  · intro current
    apply follows_iff
    intro fileId curr hcurr
    rw [filter_computeMetaSemanticChanges, hcurr]
  apply follows_iff
  intro fileId curr hcurr
  rw [filter_computeIncremental hnodup]
  split
  · next hnot =>
    rw [haffected fileId hnot, hcurr]
    exact (modifiedChanges_self fileId curr).symm
  · rw [hcurr, if_neg (by simp)]

end Observation

/-- One file is renamed, another deleted, a third comes in. -/
def sampleMetaMap : MetaMap :=
  ⟨[(js "f", .nested fun key => if key = "path" then .str (js "c") else .undefined),
    (js "g", .nested fun key => if key = "path" then .str (js "b")
      else if key = "deletedAt" then .num (some 7) else .undefined),
    (js "h", .plain (.obj fun key => if key = "path" then .str (js "d") else .undefined))],
    by decide⟩

def sampleSnapshot : MetaSnapshot :=
  ⟨[(js "f", { shape := .nested, path := js "a" }), (js "g", { shape := .flat, path := js "b" })],
    by decide⟩

theorem sample_followed : Follows id sampleSnapshot (buildMetaSnapshot sampleMetaMap)
    (computeIncrementalMetaChanges sampleMetaMap sampleSnapshot [js "h", js "f", js "g"]).1 := by
  have hc : (buildMetaSnapshot sampleMetaMap).entries =
      [(js "f", { shape := .nested, path := js "c" }),
        (js "g", { shape := .nested, path := js "b", deletedAt := some 7 }),
        (js "h", { shape := .flat, path := js "d" })] := by decide
  refine (follows_iff_separate id (by decide) ?_).2.mpr ⟨?_, ?_⟩
  · intro fileId hnot
    simp only [mem_cons, not_mem_nil, or_false, not_or] at hnot
    have hb : sampleSnapshot.get? fileId = none := by
      simp [OrderedMap.get?_eq_none, OrderedMap.keys, sampleSnapshot, hnot]
    have ha : (buildMetaSnapshot sampleMetaMap).get? fileId = none := by
      simp [OrderedMap.get?_eq_none, OrderedMap.keys, hc, hnot]
    rw [hb, ha]
  · intro fileId prev curr hp hcurr _ hdel
    rw [OrderedMap.get?_eq_some, hc] at hcurr
    simp only [mem_cons, not_mem_nil, or_false, Prod.mk.injEq] at hcurr
    rcases hcurr with ⟨-, rfl⟩ | ⟨rfl, rfl⟩ | ⟨-, rfl⟩
    · cases hdel
    · rw [OrderedMap.get?_eq_some] at hp
      simp only [sampleSnapshot, mem_cons, not_mem_nil, or_false, Prod.mk.injEq] at hp
      rcases hp with ⟨ho, -⟩ | ⟨-, rfl⟩
      · exact absurd ho (by decide)
      · rfl
    · cases hdel
  intro fileId curr hp hcurr hdel
  rw [OrderedMap.get?_eq_some, hc] at hcurr
  simp only [mem_cons, not_mem_nil, or_false, Prod.mk.injEq] at hcurr
  rcases hcurr with ⟨-, rfl⟩ | ⟨rfl, rfl⟩ | ⟨-, rfl⟩
  · cases hdel
  · rw [OrderedMap.get?_eq_none] at hp
    exact absurd (by decide) hp
  · cases hdel

/-- A file that is renamed and deleted in one transaction stays at its old path. -/
theorem renamed_and_deleted_stays : ¬ Follows id
    ⟨[(js "f", { shape := .nested, path := js "a" })], by decide⟩
    ⟨[(js "f", { shape := .nested, path := js "b", deletedAt := some 7 })], by decide⟩
    (computeMetaSemanticChanges ⟨[(js "f", { shape := .nested, path := js "a" })], by decide⟩
      ⟨[(js "f", { shape := .nested, path := js "b", deletedAt := some 7 })], by decide⟩) := by
  intro h
  have hstays := h (js "f") (by decide) (js "a")
  revert hstays
  decide

end Kaos.Sync
