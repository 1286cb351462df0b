import Kaos.Sync.PathLookup

/-! A batch of renames, applied one after another, against all of them at once. -/
namespace Kaos.Sync

open Kaos.Lib Kaos.Paths Kaos.Yjs VaultSync MarkdownPathRetirement List YMap
open Option (map_some some_ne_none)

section Moves

variable (paths : NormalizePath)

/-- Renames between normalized paths, no two to the same, each to a path that is free or that the
batch itself vacates. -/
structure IsBatch (doc : VaultDoc) (batch : OrderedMap JsString JsString) : Prop where
  normalized : ∀ rename ∈ batch.entries,
    paths.normalize rename.1 = rename.1 ∧ paths.normalize rename.2 = rename.2
  injective : batch.values.Nodup
  free : ∀ rename ∈ batch.entries, rename.2 ∈ batch.keys ∨
    (∀ fileId, ¬ FoundAt paths doc rename.2 fileId) ∧ doc.pathToBlob.get? rename.2 = none

/-- All renames of a batch at once. -/
structure RenamedTogether (batch : OrderedMap JsString JsString) (doc doc' : VaultDoc) : Prop where
  files : ∀ rename ∈ batch.entries, ∀ fileId, FoundAt paths doc rename.1 fileId →
    ∀ path, paths.normalize path = path → (FoundAt paths doc' path fileId ↔ path = rename.2)
  otherFiles : ∀ path, paths.normalize path = path → path ∉ batch.keys → path ∉ batch.values →
    ∀ fileId, FoundAt paths doc' path fileId ↔ FoundAt paths doc path fileId
  entries : ∀ fileId, (∀ rename ∈ batch.entries, ¬ FoundAt paths doc rename.1 fileId ∧
    stateOf paths.normalize doc.metaMap fileId ≠ some (rename.2, true)) →
      doc'.metaMap.get? fileId = doc.metaMap.get? fileId
  texts : doc'.idToText = doc.idToText
  retired : ∀ rename ∈ batch.entries, rename.1 ∉ batch.values →
    (∃ fileId, FoundAt paths doc rename.1 fileId) →
      (computeRetirementIndex paths.normalize doc'.markdownPathRetirements).get?
        rename.1 ≠ none
  refs : ∀ rename ∈ batch.entries,
    doc'.pathToBlob.get? rename.2 = cloneBlobRef (doc.pathToBlob.get? rename.1)
  tombstones : ∀ rename ∈ batch.entries, rename.1 ∉ batch.values →
    ∀ ref, doc.pathToBlob.get? rename.1 = some ref → doc'.pathToBlob.get? rename.1 = none ∧
      (doc'.blobTombstones.get? rename.1).bind BlobTombstone.deletedRef = cloneBlobRef (some ref)
  otherRefs : ∀ path, path ∉ batch.keys → path ∉ batch.values →
    doc'.pathToBlob.get? path = doc.pathToBlob.get? path ∧
      doc'.blobTombstones.get? path = doc.blobTombstones.get? path

/-- No file is found at the source of a rename and elsewhere, no two files are found there, and
nothing is moved to a path whose own rename comes later, as far as that is looked up in the document
itself: in the legacy map, and among the attachments. -/
structure BatchInOrder (batch : OrderedMap JsString JsString) (doc : VaultDoc) : Prop where
  own : ∀ rename ∈ batch.entries, ∀ fileId, FoundAt paths doc rename.1 fileId →
    ∀ path, paths.normalize path = path → FoundAt paths doc path fileId → path = rename.1
  single : ∀ rename ∈ batch.entries, rename.1 ≠ rename.2 → ∀ fileId fileId',
    FoundAt paths doc rename.1 fileId → FoundAt paths doc rename.1 fileId' → fileId = fileId'
  legacy : doc.usesV2PathModel = false → batch.entries.Pairwise fun earlier later =>
    earlier.2 = later.1 → ∀ fileId, ¬ FoundAt paths doc earlier.1 fileId
  refs : batch.entries.Pairwise fun earlier later =>
    earlier.2 = later.1 → doc.pathToBlob.get? earlier.1 = none

end Moves

section Blobs

variable {now : ℚ} {device : Option JsString} {txn : Txn} {rename : JsString × JsString}
  {path : JsString} {ref : BlobRef}

/-- What one rename does to the attachments. -/
theorem renameBlob_none (h : txn.doc.pathToBlob.get? rename.1 = none) :
    txn.renameBlob now device rename.1 rename.2 = txn := by
  unfold Txn.renameBlob
  rw [h]
  rfl

theorem renameBlob_some (h : txn.doc.pathToBlob.get? rename.1 = some ref)
    (hf : txn.doc.pathToBlob.get? rename.2 = none ∨ rename.2 = rename.1) :
    txn.renameBlob now device rename.1 rename.2 =
      (txn.tombstoneBlob now rename.1 device
        { ref with priorHashes := getBlobRefPriorHashes ref }).placeBlob rename.2
          { ref with priorHashes := getBlobRefPriorHashes ref } := by
  unfold Txn.renameBlob
  rw [h, cloneBlobRef, map_some]
  rcases hf with hn | hs
  · rw [hn]
    simp [cloneBlobRef]
  rw [hs, h]
  simp [cloneBlobRef, sameBlobRef]

/-- After its own rename there is nothing at a path, nor where nothing was, unless something is moved
there. -/
theorem get?_renameBlob_none (h : path = rename.1 ∨ txn.doc.pathToBlob.get? path = none)
    (hne : rename.2 ≠ path) :
    (txn.renameBlob now device rename.1 rename.2).doc.pathToBlob.get? path = none := by
  unfold Txn.renameBlob
  cases hget : txn.doc.pathToBlob.get? rename.1 with
  | none =>
    rcases h with rfl | h
    · exact hget
    · exact h
  | some ref =>
    rw [cloneBlobRef, map_some]
    dsimp only
    have hg : (txn.tombstoneBlob now rename.1 device
        { ref with priorHashes := getBlobRefPriorHashes ref }).doc.pathToBlob.get? path = none := by
      refine get?_put.trans ?_
      split
      · rfl
      · next ho => exact h.resolve_left ho
    split
    · exact hg
    · exact (get?_put_of_ne (Ne.symm hne)).trans hg

end Blobs

section Files

variable {norm : JsString → JsString} {now : ℚ} {device : Option JsString} {txn : Txn}
  {path fileId fileId' oldPath newPath operationId : JsString}

theorem foldl_deleteRetirement (fileIds : List JsString) (txn : Txn) :
    (fileIds.foldl (fun txn fileId => txn.deleteRetirement fileId) txn).doc = { txn.doc with
      markdownPathRetirements := fileIds.foldl YMap.delete txn.doc.markdownPathRetirements } := by
  induction fileIds generalizing txn with
  | nil => rfl
  | cons fileId fileIds ih => exact ih (txn.deleteRetirement fileId)

theorem foldl_deleteMeta (fileIds : List JsString) (txn : Txn) :
    (fileIds.foldl (fun txn fileId => txn.putMeta fileId none) txn).doc = { txn.doc with
      metaMap := fileIds.foldl YMap.delete txn.doc.metaMap } := by
  induction fileIds generalizing txn with
  | nil => rfl
  | cons fileId fileIds ih => exact ih (txn.putMeta fileId none)

theorem mem_getMarkdownTombstoneIds {metaMap : SharedMeta} :
    fileId ∈ getMarkdownTombstoneIds norm metaMap path ↔
      stateOf norm metaMap fileId = some (path, true) := by
  rw [stateOf_eq_some, getMarkdownTombstoneIds, mem_filterMap]
  constructor
  · rintro ⟨entry, hmem, he⟩
    split at he
    · next hst =>
      cases he
      exact ⟨entry.2, mem_entries.mp hmem, hst⟩
    · cases he
  · rintro ⟨value, hget, hst⟩
    exact ⟨(fileId, value), mem_entries.mpr hget, if_pos hst⟩

/-- What is cleared for a path. -/
theorem clearTombstones_doc (txn : Txn) (path keepFileId : JsString) :
    (txn.clearMarkdownTombstonesForPath norm path keepFileId).doc = { txn.doc with
      markdownPathRetirements := ((txn.doc.markdownPathRetirements.entries.filter
        fun entry => retires (norm path) entry.2).map Prod.fst).foldl YMap.delete
          txn.doc.markdownPathRetirements
      metaMap := ((getMarkdownTombstoneIds norm txn.doc.metaMap
        (norm path)).filter (· ≠ keepFileId)).foldl YMap.delete txn.doc.metaMap } := by
  unfold Txn.clearMarkdownTombstonesForPath
  rw [foldl_deleteMeta, ← foldl_map (f := Prod.fst) (g := fun txn fileId =>
    Txn.deleteRetirement txn fileId), foldl_deleteRetirement]

/-- One file is moved, and what stood for deleted files at its new path is cleared. -/
structure FileMoved (normalizePath : JsString → JsString) (fileId oldPath newPath : JsString)
    (doc doc' : VaultDoc) : Prop where
  version : doc'.schemaVersion = doc.schemaVersion
  texts : doc'.idToText = doc.idToText
  legacy : doc.usesV2PathModel = false → ∀ path, doc'.pathToId.get? path =
    if path = newPath then some fileId else if path = oldPath then none else doc.pathToId.get? path
  moved : stateOf normalizePath doc'.metaMap fileId = some (newPath, false)
  others : ∀ other, other ≠ fileId → doc'.metaMap.get? other =
    if stateOf normalizePath doc.metaMap other = some (newPath, true) then none
    else doc.metaMap.get? other
  retired : oldPath ≠ newPath → ∃ operationId movedAt, doc'.markdownPathRetirements.get? fileId =
    some (MarkdownPathRetirement.mk fileId oldPath operationId newPath movedAt).toJson
  retirements : ∀ other raw, other ≠ fileId → doc.markdownPathRetirements.get? other = some raw →
    retires newPath raw = false → doc'.markdownPathRetirements.get? other = some raw

/-- What comes before the clearing. -/
def Txn.remap (txn : Txn) (now : ℚ) (fileId oldPath newPath operationId : JsString) : Txn :=
  let txn := if oldPath ≠ newPath then
      txn.setRetirement { fileId, oldPath, operationId, movedTo := newPath, movedAt := now }
    else txn
  if txn.doc.usesV2PathModel then txn
  else (txn.deletePathToId oldPath).setPathToId newPath fileId

theorem usesV2PathModel_remap_step (txn : Txn) (retirement : MarkdownPathRetirement) :
    (txn.setRetirement retirement).doc.usesV2PathModel = txn.doc.usesV2PathModel := rfl

/-- It leaves all but the legacy map and one retirement. -/
theorem remap_doc (txn : Txn) (now : ℚ) (fileId oldPath newPath operationId : JsString) :
    (txn.remap now fileId oldPath newPath operationId).doc = { txn.doc with
      markdownPathRetirements := if oldPath ≠ newPath then
          txn.doc.markdownPathRetirements.set fileId
            { fileId, oldPath, operationId, movedTo := newPath, movedAt := now :
              MarkdownPathRetirement }.toJson
        else txn.doc.markdownPathRetirements
      pathToId := if txn.doc.usesV2PathModel then txn.doc.pathToId
        else (txn.doc.pathToId.delete oldPath).set newPath fileId } := by
  unfold Txn.remap
  dsimp only
  by_cases hs : oldPath = newPath
  · rw [if_neg (not_not.mpr hs), if_neg (not_not.mpr hs)]
    split <;> rfl
  rw [if_pos hs, if_pos hs, usesV2PathModel_remap_step]
  split <;> rfl

theorem renameFile_eq (hnew : norm newPath = newPath) :
    txn.renameFile norm now device fileId oldPath newPath operationId =
      ((txn.remap now fileId oldPath newPath operationId).clearMarkdownTombstonesForPath
        norm newPath fileId).setMetaActive now fileId newPath device := by
  unfold Txn.renameFile Txn.remap
  rw [hnew]

/-- The attachments are left alone. -/
theorem blobs_renameFile (hnew : norm newPath = newPath) :
    (txn.renameFile norm now device fileId oldPath newPath operationId).doc.pathToBlob =
        txn.doc.pathToBlob ∧
      (txn.renameFile norm now device fileId oldPath newPath
        operationId).doc.blobTombstones = txn.doc.blobTombstones := by
  have hact : ∀ cleared : Txn,
      (cleared.setMetaActive now fileId newPath device).doc.pathToBlob = cleared.doc.pathToBlob ∧
        (cleared.setMetaActive now fileId newPath device).doc.blobTombstones =
          cleared.doc.blobTombstones := fun _ => ⟨rfl, rfl⟩
  rw [renameFile_eq hnew, (hact _).1, (hact _).2, clearTombstones_doc, remap_doc]
  exact ⟨rfl, rfl⟩

/-- One file is moved. -/
theorem fileMoved_renameFile (hnew : norm newPath = newPath) (hne : newPath ≠ []) :
    FileMoved norm fileId oldPath newPath txn.doc
      (txn.renameFile norm now device fileId oldPath newPath operationId).doc := by
  have hdoc := remap_doc txn now fileId oldPath newPath operationId
  have hc := @clearTombstones_doc norm
    (txn.remap now fileId oldPath newPath operationId) newPath fileId
  rw [renameFile_eq hnew]
  rw [hdoc, hnew] at hc
  generalize (txn.remap now fileId oldPath newPath operationId).clearMarkdownTombstonesForPath
    norm newPath fileId = cleared at hc
  have hact : (cleared.setMetaActive now fileId newPath device).doc = { cleared.doc with
      metaMap := cleared.doc.metaMap.put fileId
        (some (activeEntry now cleared.doc.metaMap fileId newPath device)) } := rfl
  rw [hact, hc]
  refine ⟨rfl, rfl, ?_, ?_, ?_, ?_, ?_⟩
  · intro hleg path
    simp only [hleg, Bool.false_eq_true, if_false, get?_set, get?_delete]
  · rw [stateOf, get?_put_self, Option.bind_some, pathState_eq,
      decodeFileMeta_activeEntry hne, ← hnew]
    simp [DecodedFileMeta.isDeleted, hnew]
  · intro other ho
    rw [get?_put_of_ne ho, get?_foldl_delete]
    simp only [mem_filter, mem_getMarkdownTombstoneIds, decide_eq_true_eq, ho, ne_eq,
      not_false_eq_true, and_true]
  · intro hdif
    refine ⟨operationId, now, ?_⟩
    rw [if_pos hdif, get?_foldl_delete, if_neg, get?_set, if_pos rfl]
    rw [mem_map]
    rintro ⟨entry, hmem, heq⟩
    rw [mem_filter] at hmem
    have hget := (mem_entries (k := entry.1)).mp hmem.1
    rw [heq, get?_set, if_pos rfl, Option.some.injEq] at hget
    have hret := hmem.2
    rw [← hget] at hret
    simp only [retires, asRecord, toJson] at hret
    exact hdif (by simpa using hret)
  intro other raw ho hget hret
  have hset : (if oldPath ≠ newPath then txn.doc.markdownPathRetirements.set fileId
      { fileId, oldPath, operationId, movedTo := newPath, movedAt := now :
        MarkdownPathRetirement }.toJson else txn.doc.markdownPathRetirements).get? other =
      some raw := by
    split
    · rw [get?_set, if_neg ho, hget]
    · exact hget
  rw [get?_foldl_delete, if_neg]
  · exact hset
  rw [mem_map]
  rintro ⟨entry, hmem, heq⟩
  rw [mem_filter] at hmem
  have he := (mem_entries (k := entry.1)).mp hmem.1
  rw [heq, hset, Option.some.injEq] at he
  rw [← he, hret] at hmem
  cases hmem.2

end Files

section Run

variable {paths : NormalizePath} {now : ℚ} {device : Option JsString} {ids : ℕ → JsString}
  {doc : VaultDoc} {acc : VaultSync × Txn × ℕ} {rename : JsString × JsString}
  {done : List (JsString × JsString)} {path fileId : JsString}

/-- The client in the middle of a batch. -/
def viewOf (acc : VaultSync × Txn × ℕ) : VaultSync := { acc.1 with doc := acc.2.1.doc }

/-- The indexes of a client name a file of the path exactly if it was the only one before. -/
def Sees (paths : NormalizePath) (doc : VaultDoc) (sync : VaultSync) (path : JsString) : Prop :=
  ∀ fileId, (sync.ensurePathIndexes paths.normalize).indexes.pathIndex.get? path = some fileId ↔
    activeFileIds paths.normalize doc.metaMap path = [fileId]

/-- Renaming an attachment leaves the files alone. -/
theorem renameBlob_doc (txn : Txn) (now : ℚ) (device : Option JsString)
    (oldPath newPath : JsString) :
    ∃ pathToBlob blobTombstones, (txn.renameBlob now device oldPath newPath).doc =
      { txn.doc with pathToBlob, blobTombstones } := by
  unfold Txn.renameBlob
  split
  · exact ⟨_, _, rfl⟩
  dsimp only
  split <;> exact ⟨_, _, rfl⟩

/-- One rename of a batch: nothing is found, or a file is found and moved. -/
theorem renameInBatch_files (hnew : paths.normalize rename.2 = rename.2) :
    (renameInBatch paths.normalize now device ids acc rename).1 =
        ((viewOf acc).getFileId paths.normalize rename.1).2 ∧
      ((((viewOf acc).getFileId paths.normalize rename.1).1 = none ∧
        ∃ pathToBlob blobTombstones,
          (renameInBatch paths.normalize now device ids acc rename).2.1.doc =
            { acc.2.1.doc with pathToBlob, blobTombstones }) ∨
      ∃ fileId, ((viewOf acc).getFileId paths.normalize rename.1).1 = some fileId ∧
        FileMoved paths.normalize fileId rename.1 rename.2 acc.2.1.doc
          (renameInBatch paths.normalize now device ids acc rename).2.1.doc) := by
  have hne : rename.2 ≠ [] := by
    rw [← hnew]
    exact paths.normalize_ne_nil _
  unfold renameInBatch
  rw [← viewOf]
  dsimp only
  cases ((viewOf acc).getFileId paths.normalize rename.1).1 with
  | none => exact ⟨rfl, .inl ⟨rfl, renameBlob_doc _ _ _ _ _⟩⟩
  | some fileId =>
    refine ⟨rfl, .inr ⟨fileId, rfl, ?_⟩⟩
    have hm := @fileMoved_renameFile paths.normalize now device acc.2.1 fileId rename.1 rename.2
      (ids acc.2.2) hnew hne
    obtain ⟨pathToBlob, blobTombstones, hdoc⟩ := renameBlob_doc (acc.2.1.renameFile paths.normalize
      now device fileId rename.1 rename.2 (ids acc.2.2)) now device rename.1 rename.2
    rw [hdoc]
    generalize (acc.2.1.renameFile paths.normalize now device fileId rename.1 rename.2
      (ids acc.2.2)).doc = moved at hm
    exact ⟨hm.version, hm.texts, hm.legacy, hm.moved, hm.others, hm.retired, hm.retirements⟩

/-- What the renames so far have made of the files of a document. -/
structure Applied (paths : NormalizePath) (doc : VaultDoc) (done : List (JsString × JsString))
    (doc' : VaultDoc) : Prop where
  version : doc'.schemaVersion = doc.schemaVersion
  texts : doc'.idToText = doc.idToText
  mapped : doc.usesV2PathModel = false → ∀ rename ∈ done, ∀ fileId,
    FileAt paths doc rename.1 fileId → doc'.pathToId.get? rename.2 = some fileId
  unmapped : doc.usesV2PathModel = false → ∀ rename ∈ done, ∀ fileId,
    FileAt paths doc rename.1 fileId → (∀ other ∈ done, ∀ otherId,
      FileAt paths doc other.1 otherId → other.2 ≠ rename.1) → doc'.pathToId.get? rename.1 = none
  kept : doc.usesV2PathModel = false → ∀ path, (∀ rename ∈ done, ∀ fileId,
    FileAt paths doc rename.1 fileId → path ≠ rename.1 ∧ path ≠ rename.2) →
      doc'.pathToId.get? path = doc.pathToId.get? path
  moved : ∀ rename ∈ done, ∀ fileId, FileAt paths doc rename.1 fileId →
    stateOf paths.normalize doc'.metaMap fileId = some (rename.2, false)
  still : ∀ fileId, (∀ rename ∈ done, ¬ FileAt paths doc rename.1 fileId) →
    doc'.metaMap.get? fileId = doc.metaMap.get? fileId ∨
      doc'.metaMap.get? fileId = none ∧ ∃ rename ∈ done,
        stateOf paths.normalize doc.metaMap fileId = some (rename.2, true)
  retired : ∀ rename ∈ done, ∀ fileId, FileAt paths doc rename.1 fileId → rename.1 ≠ rename.2 →
    (∀ other ∈ done, other.2 ≠ rename.1) → ∃ operationId movedAt,
      doc'.markdownPathRetirements.get? fileId =
        some (MarkdownPathRetirement.mk fileId rename.1 operationId rename.2 movedAt).toJson

/-- The client still sees the files of the paths that the renames so far have left alone. -/
def Seeing (paths : NormalizePath) (doc : VaultDoc) (done : List (JsString × JsString))
    (sync : VaultSync) : Prop :=
  ∀ path, path ∉ done.map Prod.fst → (doc.usesV2PathModel = false →
    doc.legacyId path = none ∧ ∀ rename ∈ done, ∀ fileId,
      FileAt paths doc rename.1 fileId → rename.2 ≠ path) → Sees paths doc sync path

/-- Before the first rename. -/
theorem applied_nil (doc : VaultDoc) : Applied paths doc [] doc := by
  refine ⟨rfl, rfl, ?_, ?_, fun _ _ _ => rfl, ?_, fun _ _ => .inl rfl, ?_⟩
  · nofun
  · nofun
  · nofun
  · nofun

variable {doc' : VaultDoc}

theorem usesV2_of_version (h : doc'.schemaVersion = doc.schemaVersion) :
    doc'.usesV2PathModel = doc.usesV2PathModel := by
  unfold VaultDoc.usesV2PathModel VaultDoc.storedSchemaVersion
  rw [h]

theorem Applied.usesV2 (h : Applied paths doc done doc') :
    doc'.usesV2PathModel = doc.usesV2PathModel := usesV2_of_version h.version

theorem legacyId_of_v2 (hv2 : doc.usesV2PathModel = true) : doc.legacyId path = none :=
  if_pos hv2

theorem legacyId_of_legacy (hleg : doc.usesV2PathModel = false) :
    doc.legacyId path = doc.pathToId.get? path := by
  rw [VaultDoc.legacyId, hleg, if_neg Bool.false_ne_true]

/-- The lookup of the next source finds what it would have found before the batch. -/
theorem Applied.found (h : Applied paths doc done acc.2.1.doc)
    (hsees : Seeing paths doc done (viewOf acc)) (hold : paths.normalize rename.1 = rename.1)
    (hsrc : rename.1 ∉ done.map Prod.fst)
    (horder : doc.usesV2PathModel = false → ∀ earlier ∈ done, ∀ fileId,
      FileAt paths doc earlier.1 fileId → earlier.2 ≠ rename.1) (fileId : JsString) :
    ((viewOf acc).getFileId paths.normalize rename.1).1 = some fileId ↔
      FileAt paths doc rename.1 fileId := by
  have hdoc : (viewOf acc).doc = acc.2.1.doc := rfl
  unfold getFileId
  dsimp only
  rw [hdoc, h.usesV2, hold]
  cases hv2 : doc.usesV2PathModel with
  | true =>
    rw [fileAt_of_none (legacyId_of_v2 hv2)]
    refine hsees rename.1 hsrc ?_ fileId
    intro hleg
    rw [hv2] at hleg
    cases hleg
  | false =>
    have hk : acc.2.1.doc.pathToId.get? rename.1 = doc.pathToId.get? rename.1 := by
      apply h.kept hv2
      intro earlier hmem other ho
      refine ⟨fun heq => hsrc (mem_map.mpr ⟨earlier, hmem, heq.symm⟩), fun heq => ?_⟩
      exact horder hv2 earlier hmem other ho heq.symm
    rw [hk]
    cases hleg : doc.pathToId.get? rename.1 with
    | some legacy =>
      rw [fileAt_of_legacy ((legacyId_of_legacy hv2).trans hleg)]
      exact ⟨fun heq => (Option.some.inj heq).symm, fun heq => congrArg some heq.symm⟩
    | none =>
      have hn := (legacyId_of_legacy hv2).trans hleg
      rw [fileAt_of_none hn]
      exact hsees rename.1 hsrc (fun hleg' => ⟨hn, horder hleg'⟩) fileId

/-- A file that is found where a rename starts is found nowhere else. -/
def Own (paths : NormalizePath) (doc : VaultDoc) (renames : List (JsString × JsString)) : Prop :=
  ∀ rename ∈ renames, ∀ fileId, FoundAt paths doc rename.1 fileId →
    ∀ path, paths.normalize path = path → FoundAt paths doc path fileId → path = rename.1

/-- Nothing is moved to a path whose own rename comes later, where that matters. -/
def LegacyOrder (paths : NormalizePath) (doc : VaultDoc) (renames : List (JsString × JsString)) :
    Prop :=
  doc.usesV2PathModel = false → renames.Pairwise fun earlier later =>
    earlier.2 = later.1 → ∀ fileId, ¬ FileAt paths doc earlier.1 fileId

variable {renames : List (JsString × JsString)}

/-- Without the legacy map a file is found only where it is active. -/
theorem own_of_v2 (hv2 : doc.usesV2PathModel = true) : Own paths doc renames := by
  intro rename _ fileId hf path _ ho
  rw [foundAt_of_none (legacyId_of_v2 hv2)] at hf ho
  rw [hf, Option.some.injEq, Prod.mk.injEq] at ho
  exact ho.1.symm

theorem legacyOrder_of_v2 (hv2 : doc.usesV2PathModel = true) : LegacyOrder paths doc renames := by
  intro hleg
  rw [hv2] at hleg
  cases hleg

/-- Renames between normalized paths with distinct sources and distinct targets. -/
structure Distinct (paths : NormalizePath) (renames : List (JsString × JsString)) : Prop where
  normalized : ∀ rename ∈ renames,
    paths.normalize rename.1 = rename.1 ∧ paths.normalize rename.2 = rename.2
  sources : (renames.map Prod.fst).Nodup
  targets : (renames.map Prod.snd).Nodup

variable (hdistinct : Distinct paths (done ++ [rename])) (hown : Own paths doc (done ++ [rename]))
  (horder : LegacyOrder paths doc (done ++ [rename]))

include hdistinct in
theorem Distinct.last : rename.1 ∉ done.map Prod.fst ∧ rename.2 ∉ done.map Prod.snd := by
  have hsour := hdistinct.sources
  have ht := hdistinct.targets
  rw [map_append, nodup_append] at hsour ht
  constructor <;> intro hmem
  · exact hsour.2.2 _ hmem rename.1 (mem_singleton_self _) rfl
  · exact ht.2.2 _ hmem rename.2 (mem_singleton_self _) rfl

include horder in
theorem LegacyOrder.last (hleg : doc.usesV2PathModel = false) {earlier : JsString × JsString}
    (hmem : earlier ∈ done) (hf : FileAt paths doc earlier.1 fileId) : earlier.2 ≠ rename.1 := by
  intro heq
  exact (pairwise_append.mp (horder hleg)).2.2 earlier hmem rename
    (mem_singleton_self _) heq fileId hf

include hdistinct hown in
/-- Different renames move different files. -/
theorem Own.other {earlier : JsString × JsString} (hmem : earlier ∈ done) {other : JsString}
    (hearlier : FileAt paths doc earlier.1 other) (hf : FileAt paths doc rename.1 fileId) :
    other ≠ fileId := by
  rintro rfl
  have hl : rename ∈ done ++ [rename] := mem_append_right _ (mem_singleton_self _)
  have hs := hown rename hl other hf.foundAt earlier.1
    (hdistinct.normalized earlier (mem_append_left _ hmem)).1 hearlier.foundAt
  exact hdistinct.last.1 (mem_map.mpr ⟨earlier, hmem, hs⟩)

include hown in
/-- The indexes that are built in the middle of the batch still name the files of other paths. -/
theorem activeFileIds_applied {metaMap : SharedMeta}
    (hm : ∀ earlier ∈ done ++ [rename], ∀ fileId, FileAt paths doc earlier.1 fileId →
      stateOf paths.normalize metaMap fileId = some (earlier.2, false))
    (hs : ∀ fileId, (∀ earlier ∈ done ++ [rename], ¬ FileAt paths doc earlier.1 fileId) →
      metaMap.get? fileId = doc.metaMap.get? fileId ∨ metaMap.get? fileId = none ∧
        ∃ earlier ∈ done ++ [rename],
          stateOf paths.normalize doc.metaMap fileId = some (earlier.2, true))
    (hp : path ∉ (done ++ [rename]).map Prod.fst) (hleg : doc.legacyId path = none)
    (ht : ∀ earlier ∈ done ++ [rename], ∀ fileId, FileAt paths doc earlier.1 fileId →
      earlier.2 ≠ path) : activeFileIds paths.normalize metaMap path = [fileId] ↔
        activeFileIds paths.normalize doc.metaMap path = [fileId] := by
  rw [eq_singleton_iff nodup_activeFileIds, eq_singleton_iff nodup_activeFileIds]
  refine forall_congr' fun other => ?_
  rw [mem_activeFileIds, mem_activeFileIds]
  have hsa : stateOf paths.normalize metaMap other = some (path, false) ↔
      stateOf paths.normalize doc.metaMap other = some (path, false) := by
    by_cases hf : ∃ earlier ∈ done ++ [rename], FileAt paths doc earlier.1 other
    · obtain ⟨earlier, hmem, hf⟩ := hf
      rw [hm earlier hmem other hf, Option.some.injEq, Prod.mk.injEq]
      constructor <;> intro h
      · exact absurd h.1 (ht earlier hmem other hf)
      have hact := mem_activeFileIds.mpr h
      have hsrc := hown earlier hmem other hf.foundAt path (normalize_of_mem hact)
        ((foundAt_of_none hleg).mpr h)
      exact absurd (mem_map.mpr ⟨earlier, hmem, hsrc.symm⟩) hp
    push Not at hf
    rcases hs other hf with hget | ⟨hn, earlier, -, hdel⟩
    · rw [stateOf, hget, ← stateOf]
    rw [stateOf, hn, hdel, Option.some.injEq, Prod.mk.injEq]
    exact ⟨fun h => (nomatch h), fun h => (nomatch h.2)⟩
  rw [hsa]

/-- A rename of which no file is found. -/
theorem Applied.next_none {doc'' : VaultDoc} (h : Applied paths doc done doc')
    (hn : ∀ fileId, ¬ FileAt paths doc rename.1 fileId)
    {pathToBlob : YMap JsString BlobRef} {blobTombstones : YMap JsString BlobTombstone}
    (hdoc : doc'' = { doc' with pathToBlob, blobTombstones }) :
    Applied paths doc (done ++ [rename]) doc'' := by
  have hall : ∀ {earlier : JsString × JsString} {fileId : JsString}, earlier ∈ done ++ [rename] →
      FileAt paths doc earlier.1 fileId → earlier ∈ done := by
    intro earlier fileId hmem hf
    rcases mem_append.mp hmem with hmem | hmem
    · exact hmem
    rw [mem_singleton.mp hmem] at hf
    exact absurd hf (hn fileId)
  have hd : ∀ {earlier : JsString × JsString}, earlier ∈ done → earlier ∈ done ++ [rename] :=
    fun hmem => mem_append_left _ hmem
  constructor
  · rw [hdoc]
    exact h.version
  · rw [hdoc]
    exact h.texts
  · intro hleg earlier hmem fileId hf
    rw [hdoc]
    exact h.mapped hleg earlier (hall hmem hf) fileId hf
  · intro hleg earlier hmem fileId hf ho
    rw [hdoc]
    exact h.unmapped hleg earlier (hall hmem hf) fileId hf
      fun other hot => ho other (hd hot)
  · intro hleg path hp
    rw [hdoc]
    exact h.kept hleg path fun earlier hmem => hp earlier (hd hmem)
  · intro earlier hmem fileId hf
    rw [hdoc]
    exact h.moved earlier (hall hmem hf) fileId hf
  · intro fileId hnot
    rw [hdoc]
    rcases h.still fileId fun earlier hmem => hnot earlier (hd hmem) with
      hs | ⟨hg, earlier, hmem, hdel⟩
    · exact .inl hs
    · exact .inr ⟨hg, earlier, hd hmem, hdel⟩
  intro earlier hmem fileId hf hne ho
  rw [hdoc]
  exact h.retired earlier (hall hmem hf) fileId hf hne
    fun other hot => ho other (hd hot)

include hdistinct hown horder in
/-- A rename of which a file is found. -/
theorem Applied.next_some {doc'' : VaultDoc} (h : Applied paths doc done doc')
    (hf : FileAt paths doc rename.1 fileId)
    (hfil : FileMoved paths.normalize fileId rename.1 rename.2 doc' doc'') :
    Applied paths doc (done ++ [rename]) doc'' := by
  have hlas : rename ∈ done ++ [rename] := mem_append_right _ (mem_singleton_self _)
  have hd : ∀ {earlier : JsString × JsString}, earlier ∈ done → earlier ∈ done ++ [rename] :=
    fun hmem => mem_append_left _ hmem
  have hs : ∀ {earlier : JsString × JsString}, earlier ∈ done ++ [rename] →
      earlier ∈ done ∨ earlier = rename := by
    intro earlier hmem
    rcases mem_append.mp hmem with hmem | hmem
    · exact .inl hmem
    · exact .inr (mem_singleton.mp hmem)
  have hmodel : doc.usesV2PathModel = false → doc'.usesV2PathModel = false :=
    fun hleg => h.usesV2.trans hleg
  have htarget : ∀ {earlier : JsString × JsString}, earlier ∈ done → earlier.2 ≠ rename.2 :=
    fun hmem heq => hdistinct.last.2 (mem_map.mpr ⟨_, hmem, heq⟩)
  have honly : ∀ {other : JsString}, FileAt paths doc rename.1 other → other = fileId :=
    fun hot => (fileAt_iff.mp hf).2 _ hot.foundAt
  refine ⟨hfil.version.trans h.version, hfil.texts.trans h.texts, ?_, ?_, ?_, ?_, ?_, ?_⟩
  · intro hleg earlier hmem other hot
    rw [hfil.legacy (hmodel hleg)]
    rcases hs hmem with hmem | rfl
    · rw [if_neg (htarget hmem), if_neg (horder.last hleg hmem hot)]
      exact h.mapped hleg earlier hmem other hot
    · rw [if_pos rfl, honly hot]
  · intro hleg earlier hmem other hot ho
    rw [hfil.legacy (hmodel hleg), if_neg (Ne.symm (ho rename hlas fileId hf))]
    rcases hs hmem with hmem | rfl
    · split
      · rfl
      exact h.unmapped hleg earlier hmem other hot
        fun later hl => ho later (hd hl)
    · exact if_pos rfl
  · intro hleg path hp
    obtain ⟨hsrc, htarget'⟩ := hp rename hlas fileId hf
    rw [hfil.legacy (hmodel hleg), if_neg htarget', if_neg hsrc]
    exact h.kept hleg path fun earlier hmem => hp earlier (hd hmem)
  · intro earlier hmem other hot
    rcases hs hmem with hmem | rfl
    · have hb := h.moved earlier hmem other hot
      rw [stateOf, hfil.others other (hown.other hdistinct hmem hot hf), if_neg]
      · exact hb
      rw [hb, Option.some.injEq, Prod.mk.injEq]
      intro heq
      cases heq.2
    · rw [honly hot]
      exact hfil.moved
  · intro other hnot
    have hne : other ≠ fileId := by
      rintro rfl
      exact hnot rename hlas hf
    rw [hfil.others other hne]
    rcases h.still other fun earlier hmem => hnot earlier (hd hmem) with
      hsa | ⟨hg, earlier, hmem, hdel⟩
    · split
      · next hdel =>
        right
        rw [stateOf, hsa, ← stateOf] at hdel
        exact ⟨rfl, rename, hlas, hdel⟩
      · exact .inl hsa
    · right
      refine ⟨?_, earlier, hd hmem, hdel⟩
      rw [hg, ite_self]
  intro earlier hmem other hot hne ho
  rcases hs hmem with hmem | rfl
  · obtain ⟨operationId, movedAt, hget⟩ := h.retired earlier hmem other hot hne
      fun later hl => ho later (hd hl)
    refine ⟨operationId, movedAt, hfil.retirements other _
      (hown.other hdistinct hmem hot hf) hget ?_⟩
    simp [retires, asRecord, toJson, Ne.symm (ho rename hlas)]
  · rw [honly hot]
    exact hfil.retired hne

theorem ensurePathIndexes_clean (sync : VaultSync) :
    (sync.ensurePathIndexes paths.normalize).pathIndexesDirty = false := by
  unfold ensurePathIndexes
  cases h : sync.pathIndexesDirty with
  | true => rfl
  | false => exact h

variable {sync : VaultSync}

theorem ensurePathIndexes_of_clean (h : sync.pathIndexesDirty = false) :
    sync.ensurePathIndexes paths.normalize = sync := by
  rw [ensurePathIndexes, h, if_neg Bool.false_ne_true]

include hown in
/-- After a rename the client sees what it has seen before, in its old indexes or in new ones. -/
theorem seeing_next (hb : Seeing paths doc done (viewOf acc)) {acc' : VaultSync × Txn × ℕ}
    (happlied : Applied paths doc (done ++ [rename]) acc'.2.1.doc)
    (hmodel : acc.2.1.doc.usesV2PathModel = doc.usesV2PathModel)
    (hsync : acc'.1 = ((viewOf acc).getFileId paths.normalize rename.1).2) :
    Seeing paths doc (done ++ [rename]) (viewOf acc') := by
  intro path hp hleg fileId
  have hold : Sees paths doc (viewOf acc) path := by
    refine hb path (fun hmem => hp ?_) ?_
    · rw [map_append]
      exact mem_append_left _ hmem
    intro hv1
    exact ⟨(hleg hv1).1, fun earlier hmem =>
      (hleg hv1).2 earlier (mem_append_left _ hmem)⟩
  -- indexes that are clean stay as they are
  have hca : ∀ sync : VaultSync, acc'.1 = sync → sync.pathIndexesDirty = false →
      sync.indexes = ((viewOf acc).ensurePathIndexes paths.normalize).indexes →
      ((((viewOf acc').ensurePathIndexes paths.normalize).indexes.pathIndex.get? path =
        some fileId) ↔ activeFileIds paths.normalize doc.metaMap path = [fileId]) := by
    intro sync heq hc hind
    have hview : (viewOf acc').pathIndexesDirty = false := by
      rw [viewOf, heq]
      exact hc
    have hs : (viewOf acc').indexes = ((viewOf acc).ensurePathIndexes paths.normalize).indexes := by
      rw [viewOf, heq]
      exact hind
    rw [ensurePathIndexes_of_clean hview, hs]
    exact hold fileId
  rcases getFileId_snd paths.normalize (viewOf acc) rename.1 with heq | heq <;> rw [heq] at hsync
  · cases hdirty : (viewOf acc).pathIndexesDirty with
    | false =>
      refine hca _ hsync hdirty ?_
      rw [ensurePathIndexes_of_clean hdirty]
    | true =>
      cases hv2 : doc.usesV2PathModel with
      | true =>
        have hens : ((viewOf acc).getFileId paths.normalize rename.1).2 =
            (viewOf acc).ensurePathIndexes paths.normalize := by
          have hview : (viewOf acc).doc.usesV2PathModel = true := hmodel.trans hv2
          unfold getFileId
          rw [hview, if_pos rfl]
        have hc := @ensurePathIndexes_clean paths (viewOf acc)
        rw [← hens, heq, hdirty] at hc
        cases hc
      | false =>
        have hview : (viewOf acc').pathIndexesDirty = true := by
          rw [viewOf, hsync]
          exact hdirty
        rw [ensurePathIndexes, if_pos hview]
        refine (indexed_computePathIndexes.single path fileId).trans ?_
        exact activeFileIds_applied hown happlied.moved happlied.still hp (hleg hv2).1
          (hleg hv2).2
  · exact hca _ hsync (ensurePathIndexes_clean _) rfl

theorem Distinct.before {rest : List (JsString × JsString)} (h : Distinct paths (done ++ rest)) :
    Distinct paths done := by
  obtain ⟨hnorm, hsour, ht⟩ := h
  rw [map_append, nodup_append] at hsour ht
  exact ⟨fun earlier hmem => hnorm earlier (mem_append_left _ hmem), hsour.1, ht.1⟩

theorem LegacyOrder.before (h : LegacyOrder paths doc (done ++ [rename])) :
    LegacyOrder paths doc done :=
  fun hleg => (pairwise_append.mp (h hleg)).1

/-- All the renames of a list, one after another. -/
theorem applied_run (hfr : CacheFresh paths.normalize sync)
    (renames : List (JsString × JsString)) (hdistinct : Distinct paths renames)
    (hown : Own paths sync.doc renames) (horder : LegacyOrder paths sync.doc renames) :
    Applied paths sync.doc renames (renames.foldl (renameInBatch paths.normalize now device ids)
        (sync, { doc := sync.doc }, 0)).2.1.doc ∧
      Seeing paths sync.doc renames (viewOf (renames.foldl
        (renameInBatch paths.normalize now device ids) (sync, { doc := sync.doc }, 0))) := by
  induction renames using List.reverseRecOn with
  | nil => exact ⟨applied_nil _, fun path _ _ fileId => hfr.indexed.single path fileId⟩
  | append_singleton done rename ih =>
    obtain ⟨happlied, hseeing⟩ := ih hdistinct.before
      (fun earlier hmem => hown earlier (mem_append_left _ hmem)) horder.before
    rw [foldl_append, foldl_cons, foldl_nil]
    generalize done.foldl (renameInBatch paths.normalize now device ids)
      (sync, { doc := sync.doc }, 0) = acc at happlied hseeing
    obtain ⟨hold, hnew⟩ := hdistinct.normalized rename (mem_append_right _ (mem_singleton_self _))
    have hf := happlied.found hseeing hold hdistinct.last.1 fun hleg earlier hmem fileId =>
      horder.last hleg hmem
    obtain ⟨hsync, hdoc⟩ := @renameInBatch_files paths now device ids acc rename hnew
    have hnx : Applied paths sync.doc (done ++ [rename])
        (renameInBatch paths.normalize now device ids acc rename).2.1.doc := by
      rcases hdoc with ⟨hn, pathToBlob, blobTombstones, hdoc⟩ | ⟨fileId, hs, hm⟩
      · refine happlied.next_none ?_ hdoc
        intro fileId hfi
        rw [(hf fileId).mpr hfi] at hn
        cases hn
      · exact happlied.next_some hdistinct hown horder ((hf fileId).mp hs) hm
    exact ⟨hnx, seeing_next hown hseeing hnx happlied.usesV2 hsync⟩

/-- What the renames so far have made of the attachments of a document. -/
structure BlobsApplied (doc : VaultDoc) (done : List (JsString × JsString)) (doc' : VaultDoc) :
    Prop where
  placed : ∀ rename ∈ done, ∀ ref, doc.pathToBlob.get? rename.1 = some ref →
    doc'.pathToBlob.get? rename.2 = cloneBlobRef (some ref)
  taken : ∀ rename ∈ done, ∀ ref, doc.pathToBlob.get? rename.1 = some ref →
    (∀ other ∈ done, doc.pathToBlob.get? other.1 ≠ none → other.2 ≠ rename.1) →
      doc'.pathToBlob.get? rename.1 = none ∧
      (doc'.blobTombstones.get? rename.1).bind BlobTombstone.deletedRef = cloneBlobRef (some ref)
  kept : ∀ path, (∀ rename ∈ done, doc.pathToBlob.get? rename.1 ≠ none →
    path ≠ rename.1 ∧ path ≠ rename.2) →
      doc'.pathToBlob.get? path = doc.pathToBlob.get? path ∧
        doc'.blobTombstones.get? path = doc.blobTombstones.get? path

/-- Renaming an attachment looks at nothing but the attachments. -/
theorem renameBlob_congr {txn txn' : Txn} (hrefs : txn.doc.pathToBlob = txn'.doc.pathToBlob)
    (htom : txn.doc.blobTombstones = txn'.doc.blobTombstones) (oldPath newPath : JsString) :
    (txn.renameBlob now device oldPath newPath).doc.pathToBlob =
        (txn'.renameBlob now device oldPath newPath).doc.pathToBlob ∧
      (txn.renameBlob now device oldPath newPath).doc.blobTombstones =
        (txn'.renameBlob now device oldPath newPath).doc.blobTombstones := by
  unfold Txn.renameBlob
  rw [hrefs]
  cases cloneBlobRef (txn'.doc.pathToBlob.get? oldPath) with
  | none => exact ⟨hrefs, htom⟩
  | some ref =>
    dsimp only
    split
    · simp only [Txn.tombstoneBlob, hrefs, htom, and_self]
    · simp only [Txn.tombstoneBlob, Txn.placeBlob, hrefs, htom, and_self]

theorem blobs_renameInBatch (hnew : paths.normalize rename.2 = rename.2) :
    (renameInBatch paths.normalize now device ids acc rename).2.1.doc.pathToBlob =
        (acc.2.1.renameBlob now device rename.1 rename.2).doc.pathToBlob ∧
      (renameInBatch paths.normalize now device ids acc rename).2.1.doc.blobTombstones =
        (acc.2.1.renameBlob now device rename.1 rename.2).doc.blobTombstones := by
  unfold renameInBatch
  rw [← viewOf]
  dsimp only
  cases ((viewOf acc).getFileId paths.normalize rename.1).1 with
  | none => exact ⟨rfl, rfl⟩
  | some fileId =>
    obtain ⟨hrefs, htom⟩ := @blobs_renameFile paths.normalize now device acc.2.1 fileId
      rename.1 rename.2 (ids acc.2.2) hnew
    dsimp only
    exact renameBlob_congr hrefs htom rename.1 rename.2

include hdistinct in
/-- One more rename, to a path at which no attachment is any more. -/
theorem BlobsApplied.next {doc'' : VaultDoc} {txn : Txn} (h : BlobsApplied doc done doc')
    (htxn : txn.doc.pathToBlob = doc'.pathToBlob ∧ txn.doc.blobTombstones = doc'.blobTombstones)
    (hdoc : doc''.pathToBlob = (txn.renameBlob now device rename.1 rename.2).doc.pathToBlob ∧
      doc''.blobTombstones = (txn.renameBlob now device rename.1 rename.2).doc.blobTombstones)
    (horder : ∀ earlier ∈ done, earlier.2 = rename.1 → doc.pathToBlob.get? earlier.1 = none)
    (hfree : rename.2 = rename.1 ∨ rename.2 ∈ done.map Prod.fst ∨
      doc.pathToBlob.get? rename.2 = none ∨ doc.pathToBlob.get? rename.1 = none) :
    BlobsApplied doc (done ++ [rename]) doc'' := by
  have hsrc : txn.doc.pathToBlob.get? rename.1 = doc.pathToBlob.get? rename.1 := by
    rw [htxn.1]
    refine (h.kept rename.1 ?_).1
    intro earlier hmem href
    refine ⟨fun heq => hdistinct.last.1 (mem_map.mpr ⟨earlier, hmem, heq.symm⟩), ?_⟩
    exact fun heq => href (horder earlier hmem heq.symm)
  have hs : ∀ {earlier : JsString × JsString}, earlier ∈ done ++ [rename] →
      earlier ∈ done ∨ earlier = rename := by
    intro earlier hmem
    rcases mem_append.mp hmem with hmem | hmem
    · exact .inl hmem
    · exact .inr (mem_singleton.mp hmem)
  have hlas : rename ∈ done ++ [rename] := mem_append_right _ (mem_singleton_self _)
  have htarget : ∀ {earlier : JsString × JsString}, earlier ∈ done → earlier.2 ≠ rename.2 :=
    fun hmem heq => hdistinct.last.2 (mem_map.mpr ⟨_, hmem, heq⟩)
  cases href : doc.pathToBlob.get? rename.1 with
  | none =>
    rw [renameBlob_none (hsrc.trans href)] at hdoc
    rw [htxn.1, htxn.2] at hdoc
    constructor
    · intro earlier hmem ref hget
      rcases hs hmem with hmem | rfl
      · rw [hdoc.1]
        exact h.placed earlier hmem ref hget
      rw [href] at hget
      cases hget
    · intro earlier hmem ref hget ho
      rcases hs hmem with hmem | rfl
      · rw [hdoc.1, hdoc.2]
        exact h.taken earlier hmem ref hget fun other hot =>
          ho other (mem_append_left _ hot)
      rw [href] at hget
      cases hget
    · intro path hp
      rw [hdoc.1, hdoc.2]
      exact h.kept path fun earlier hmem => hp earlier (mem_append_left _ hmem)
  | some ref =>
    have hdes : txn.doc.pathToBlob.get? rename.2 = none ∨ rename.2 = rename.1 := by
      rcases hfree with hsf | hmem | hn | hn
      · exact .inr hsf
      · obtain ⟨earlier, hmem, heq⟩ := mem_map.mp hmem
        left
        rw [htxn.1, ← heq]
        cases hget : doc.pathToBlob.get? earlier.1 with
        | some other =>
          exact (h.taken earlier hmem other hget fun later hl _ =>
            heq ▸ htarget hl).1
        | none =>
          rw [← hget]
          refine (h.kept earlier.1 ?_).1
          intro later hl hso
          refine ⟨?_, heq ▸ Ne.symm (htarget hl)⟩
          intro hsa
          rw [← hsa] at hso
          exact hso hget
      · left
        rw [htxn.1, ← hn]
        refine (h.kept rename.2 ?_).1
        intro later hl hso
        refine ⟨?_, Ne.symm (htarget hl)⟩
        intro hsa
        rw [← hsa] at hso
        exact hso hn
      · rw [href] at hn
        cases hn
    rw [renameBlob_some (hsrc.trans href) hdes] at hdoc
    have hrefs : ∀ path, doc''.pathToBlob.get? path =
        if path = rename.2 then cloneBlobRef (some ref)
        else if path = rename.1 then none else doc'.pathToBlob.get? path := by
      intro path
      rw [hdoc.1, ← htxn.1]
      simp only [Txn.placeBlob, Txn.tombstoneBlob, get?_set, get?_delete]
      rfl
    have htom : ∀ path, path ≠ rename.2 → doc''.blobTombstones.get? path =
        if path = rename.1 then
          some { deletedAt := now, device, deletedRef := cloneBlobRef (some ref) }
        else doc'.blobTombstones.get? path := by
      intro path hne
      rw [hdoc.2, ← htxn.2]
      simp only [Txn.placeBlob, Txn.tombstoneBlob, get?_set, get?_delete, if_neg hne]
      rfl
    constructor
    · intro earlier hmem other hget
      rw [hrefs]
      rcases hs hmem with hmem | rfl
      · rw [if_neg (htarget hmem), if_neg]
        · exact h.placed earlier hmem other hget
        intro heq
        rw [horder earlier hmem heq] at hget
        cases hget
      · rw [if_pos rfl, ← hget, href]
    · intro earlier hmem other hget ho
      have hne := Ne.symm (ho rename hlas (by rw [href]; exact some_ne_none _))
      rw [hrefs, htom _ hne, if_neg hne]
      rcases hs hmem with hmem | rfl
      · have hsa : earlier.1 ≠ rename.1 :=
          fun heq => hdistinct.last.1 (mem_map.mpr ⟨earlier, hmem, heq⟩)
        rw [if_neg hsa, if_neg hsa]
        exact h.taken earlier hmem other hget fun later hl =>
          ho later (mem_append_left _ hl)
      · rw [if_pos rfl, if_pos rfl, ← hget, href]
        exact ⟨rfl, rfl⟩
    intro path hp
    obtain ⟨hsour, htar⟩ := hp rename hlas (by rw [href]; exact some_ne_none _)
    rw [hrefs, htom _ htar, if_neg htar, if_neg hsour, if_neg hsour]
    exact h.kept path fun earlier hmem => hp earlier (mem_append_left _ hmem)

/-- All the attachments of a list of renames, each to a path that is free or vacated before. -/
theorem blobs_run (renames : List (JsString × JsString))
    (hdistinct : Distinct paths renames) (horder : renames.Pairwise fun earlier later =>
      earlier.2 = later.1 → sync.doc.pathToBlob.get? earlier.1 = none)
    (hf : ∀ rename ∈ renames, rename.2 ∈ renames.map Prod.fst ∨
      sync.doc.pathToBlob.get? rename.2 = none) : BlobsApplied sync.doc renames (renames.foldl
      (renameInBatch paths.normalize now device ids) (sync, { doc := sync.doc }, 0)).2.1.doc := by
  have hprefix : ∀ done rest, renames = done ++ rest → BlobsApplied sync.doc done (done.foldl
      (renameInBatch paths.normalize now device ids)
      (sync, { doc := sync.doc }, 0)).2.1.doc := by
    intro done
    induction done using List.reverseRecOn with
    | nil =>
      intro rest _
      refine ⟨?_, ?_, fun _ _ => ⟨rfl, rfl⟩⟩
      · nofun
      · nofun
    | append_singleton done rename ih =>
      intro rest heq
      have hb := ih ([rename] ++ rest) (by rw [heq, append_assoc])
      subst heq
      have hdistinct' : Distinct paths (done ++ [rename]) := hdistinct.before
      have hlas : rename ∈ done ++ [rename] := mem_append_right _ (mem_singleton_self _)
      rw [pairwise_append, pairwise_append] at horder
      obtain ⟨⟨-, -, hearlier⟩, -, hl⟩ := horder
      rw [foldl_append, foldl_cons, foldl_nil]
      refine hb.next hdistinct' ⟨rfl, rfl⟩
        (blobs_renameInBatch (hdistinct'.normalized rename hlas).2) ?_ ?_
      · exact fun earlier hmem => hearlier earlier hmem rename (mem_singleton_self _)
      rcases hf rename (mem_append_left _ hlas) with hmem | hn
      · obtain ⟨source, hsrc, heq⟩ := mem_map.mp hmem
        rcases mem_append.mp hsrc with hsrc | hsrc
        · rcases mem_append.mp hsrc with hsrc | hsrc
          · exact .inr (.inl (mem_map.mpr ⟨source, hsrc, heq⟩))
          rw [mem_singleton.mp hsrc] at heq
          exact .inl heq.symm
        · exact .inr (.inr (.inr (hl rename hlas source hsrc heq.symm)))
      · exact .inr (.inr (.inl hn))
  exact hprefix renames [] (append_nil _).symm

end Run

section Outcome

variable {paths : NormalizePath} {doc doc' : VaultDoc} {renames : List (JsString × JsString)}
  {rename : JsString × JsString} {path fileId : JsString}

/-- A path that no file is moved from or to. -/
def Untouched (paths : NormalizePath) (doc : VaultDoc) (renames : List (JsString × JsString))
    (path : JsString) : Prop :=
  ∀ rename ∈ renames, ∀ fileId, FileAt paths doc rename.1 fileId → path ≠ rename.1 ∧ path ≠ rename.2

variable (happlied : Applied paths doc renames doc') (hdistinct : Distinct paths renames)
  (hown : Own paths doc renames)

include happlied in
theorem legacyId_untouched (hp : Untouched paths doc renames path) :
    doc'.legacyId path = doc.legacyId path := by
  unfold VaultDoc.legacyId
  rw [happlied.usesV2]
  cases hv2 : doc.usesV2PathModel with
  | true => rfl
  | false => exact happlied.kept hv2 path hp

include happlied in
/-- What the legacy map says of a path: that a file has come to it, that its own has left it, or
what it said before. -/
theorem legacyId_applied (path : JsString) :
    (∃ rename ∈ renames, ∃ fileId, FileAt paths doc rename.1 fileId ∧ rename.2 = path ∧
      (doc.usesV2PathModel = true ∧ doc'.legacyId path = none ∨ doc'.legacyId path = some fileId)) ∨
    doc'.legacyId path = none ∨ Untouched paths doc renames path := by
  by_cases htarget : ∃ rename ∈ renames, ∃ fileId, FileAt paths doc rename.1 fileId ∧
      rename.2 = path
  · obtain ⟨rename, hmem, fileId, hf, rfl⟩ := htarget
    refine .inl ⟨rename, hmem, fileId, hf, rfl, ?_⟩
    cases hv2 : doc.usesV2PathModel with
    | true => exact .inl ⟨rfl, legacyId_of_v2 (happlied.usesV2.trans hv2)⟩
    | false =>
      right
      rw [legacyId_of_legacy (happlied.usesV2.trans hv2)]
      exact happlied.mapped hv2 rename hmem fileId hf
  right
  push Not at htarget
  by_cases hsrc : ∃ rename ∈ renames, ∃ fileId, FileAt paths doc rename.1 fileId ∧ rename.1 = path
  · obtain ⟨rename, hmem, fileId, hf, rfl⟩ := hsrc
    left
    cases hv2 : doc.usesV2PathModel with
    | true => exact legacyId_of_v2 (happlied.usesV2.trans hv2)
    | false =>
      rw [legacyId_of_legacy (happlied.usesV2.trans hv2)]
      exact happlied.unmapped hv2 rename hmem fileId hf htarget
  right
  push Not at hsrc
  intro rename hmem fileId hf
  exact ⟨Ne.symm (hsrc rename hmem fileId hf), Ne.symm (htarget rename hmem fileId hf)⟩

include hdistinct in
theorem Distinct.source_eq {other : JsString × JsString} (hmem : rename ∈ renames)
    (ho : other ∈ renames) (heq : rename.1 = other.1) : rename = other :=
  inj_on_of_nodup_map hdistinct.sources hmem ho heq

include hdistinct in
theorem Distinct.target_eq {other : JsString × JsString} (hmem : rename ∈ renames)
    (ho : other ∈ renames) (heq : rename.2 = other.2) : rename = other :=
  inj_on_of_nodup_map hdistinct.targets hmem ho heq

include happlied hdistinct hown in
/-- A file that is moved is found at its new path and nowhere else. -/
theorem foundAt_moved (hmem : rename ∈ renames) (hf : FileAt paths doc rename.1 fileId)
    (hp : paths.normalize path = path) : FoundAt paths doc' path fileId ↔ path = rename.2 := by
  have hst := happlied.moved rename hmem fileId hf
  constructor
  · intro hfd
    cases hleg : doc'.legacyId path with
    | none =>
      rw [foundAt_of_none hleg, hst, Option.some.injEq, Prod.mk.injEq] at hfd
      exact hfd.1.symm
    | some legacy =>
      rw [foundAt_of_legacy hleg] at hfd
      subst hfd
      rcases legacyId_applied happlied path with
        ⟨other, ho, otherId, hoth, rfl, ⟨-, hn⟩ | hs⟩ | hn | hunt
      · rw [hleg] at hn
        cases hn
      · rw [hleg, Option.some.injEq] at hs
        subst hs
        have hsrc := hown rename hmem fileId hf.foundAt other.1
          (hdistinct.normalized other ho).1 hoth.foundAt
        rw [hdistinct.source_eq ho hmem hsrc]
      · rw [hleg] at hn
        cases hn
      rw [legacyId_untouched happlied hunt] at hleg
      have hsrc := hown rename hmem fileId hf.foundAt path hp
        ((foundAt_of_legacy hleg).mpr rfl)
      exact absurd hsrc (hunt rename hmem fileId hf).1
  rintro rfl
  cases hleg : doc'.legacyId rename.2 with
  | none => exact (foundAt_of_none hleg).mpr hst
  | some legacy =>
    rw [foundAt_of_legacy hleg]
    rcases legacyId_applied happlied rename.2 with
      ⟨other, ho, otherId, hoth, htarget, ⟨-, hn⟩ | hs⟩ | hn | hunt
    · rw [hleg] at hn
      cases hn
    · rw [hleg, Option.some.injEq] at hs
      rw [hdistinct.target_eq ho hmem htarget] at hoth
      rw [hs]
      exact (fileAt_iff.mp hoth).2 fileId hf.foundAt
    · rw [hleg] at hn
      cases hn
    · exact absurd rfl (hunt rename hmem fileId hf).2

include happlied in
/-- A file that is not moved stays active where it is. -/
theorem stateOf_still (hnot : ∀ rename ∈ renames, ¬ FileAt paths doc rename.1 fileId) :
    stateOf paths.normalize doc'.metaMap fileId = some (path, false) ↔
      stateOf paths.normalize doc.metaMap fileId = some (path, false) := by
  rcases happlied.still fileId hnot with hs | ⟨hg, earlier, -, hdel⟩
  · rw [stateOf, hs, ← stateOf]
  rw [stateOf, hg, hdel, Option.some.injEq, Prod.mk.injEq]
  exact ⟨fun h => (nomatch h), fun h => (nomatch h.2)⟩

include happlied hown in
/-- Where no file is moved from or to, the files are those of before. -/
theorem foundAt_untouched (hp : paths.normalize path = path)
    (hunt : Untouched paths doc renames path) :
    FoundAt paths doc' path fileId ↔ FoundAt paths doc path fileId := by
  have hs := legacyId_untouched happlied hunt
  cases hleg : doc.legacyId path with
  | some legacy => rw [foundAt_of_legacy (hs.trans hleg), foundAt_of_legacy hleg]
  | none =>
    rw [foundAt_of_none (hs.trans hleg), foundAt_of_none hleg]
    by_cases hf : ∃ rename ∈ renames, FileAt paths doc rename.1 fileId
    · obtain ⟨rename, hmem, hf⟩ := hf
      obtain ⟨hsrc, htarget⟩ := hunt rename hmem fileId hf
      rw [happlied.moved rename hmem fileId hf, Option.some.injEq, Prod.mk.injEq]
      constructor <;> intro h
      · exact absurd h.1.symm htarget
      exact absurd (hown rename hmem fileId hf.foundAt path hp ((foundAt_of_none hleg).mpr h)) hsrc
    · push Not at hf
      exact stateOf_still happlied hf

include happlied hown in
/-- Of several files that are found at one path none is found elsewhere after the batch. -/
theorem several_stay (hmem : rename ∈ renames) (hnor : paths.normalize rename.1 = rename.1)
    {otherId : JsString} (hne : otherId ≠ fileId) (hf : FoundAt paths doc rename.1 fileId)
    (ho : FoundAt paths doc rename.1 otherId) (hp : paths.normalize path = path)
    (hf' : FoundAt paths doc' path fileId) : path = rename.1 := by
  have hn : doc.legacyId rename.1 = none := by
    cases hleg : doc.legacyId rename.1 with
    | none => rfl
    | some legacy =>
      rw [foundAt_of_legacy hleg] at hf ho
      exact absurd (ho.trans hf.symm) hne
  have hnot : ∀ other ∈ renames, ¬ FileAt paths doc other.1 fileId := by
    intro other hoth hfi
    have hsrc := hown other hoth fileId hfi.foundAt rename.1 hnor hf
    rw [← hsrc] at hfi
    exact hne ((fileAt_iff.mp hfi).2 otherId ho)
  cases hleg : doc'.legacyId path with
  | none =>
    rw [foundAt_of_none hleg, stateOf_still happlied hnot, (foundAt_of_none hn).mp hf,
      Option.some.injEq, Prod.mk.injEq] at hf'
    exact hf'.1.symm
  | some legacy =>
    rw [foundAt_of_legacy hleg] at hf'
    subst hf'
    rcases legacyId_applied happlied path with
      ⟨other, hoth, only, hfi, -, ⟨-, hg⟩ | hs⟩ | hg | hst
    · rw [hleg] at hg
      cases hg
    · rw [hleg, Option.some.injEq] at hs
      subst hs
      exact absurd hfi (hnot other hoth)
    · rw [hleg] at hg
      cases hg
    rw [legacyId_untouched happlied hst] at hleg
    exact hown rename hmem fileId hf path hp ((foundAt_of_legacy hleg).mpr rfl)

include happlied hdistinct hown in
/-- Several files that are found at one path stay there when the path is renamed to itself. -/
theorem foundAt_stays (hmem : rename ∈ renames) (hs : rename.1 = rename.2) {otherId : JsString}
    (hne : otherId ≠ fileId) (hfd : FoundAt paths doc rename.1 fileId)
    (ho : FoundAt paths doc rename.1 otherId) (hp : paths.normalize path = path) :
    FoundAt paths doc' path fileId ↔ path = rename.1 := by
  have hsev : ∀ only, ¬ FileAt paths doc rename.1 only := by
    intro only hf
    have honly := (fileAt_iff.mp hf).2
    exact hne ((honly otherId ho).trans (honly fileId hfd).symm)
  have hunt : Untouched paths doc renames rename.1 := by
    intro other hoth only hf
    constructor <;> intro heq
    · rw [← heq] at hf
      exact hsev only hf
    rw [← hdistinct.target_eq hmem hoth (hs.symm.trans heq)] at hf
    exact hsev only hf
  constructor
  · exact several_stay happlied hown hmem (hdistinct.normalized rename hmem).1 hne hfd ho hp
  · rintro rfl
    exact (foundAt_untouched happlied hown hp hunt).mpr hfd

end Outcome

section Retired

variable {norm : JsString → JsString} {index : RetirementIndex} {path : JsString}

theorem noteRetirement_keeps (hix : index.get? path ≠ none) (entry : JsString × Json) :
    (noteRetirement norm index entry).get? path ≠ none := by
  have hset : ∀ other retirement, (index.set other retirement).get? path ≠ none := by
    intro other retirement
    rw [OrderedMap.get?_set]
    split
    · exact some_ne_none _
    · exact hix
  unfold noteRetirement
  split
  · exact hix
  dsimp only
  split
  · exact hset _ _
  split
  · exact hset _ _
  · exact hix

theorem noteRetirement_notes {entry : JsString × Json} {retirement : MarkdownPathRetirement}
    (hr : readRetirement entry.1 entry.2 = some retirement) :
    (noteRetirement norm index entry).get? (norm retirement.oldPath) ≠ none := by
  unfold noteRetirement
  rw [hr]
  dsimp only
  split
  · rw [OrderedMap.get?_set_self]
    exact some_ne_none _
  · next existing he =>
    split
    · rw [OrderedMap.get?_set_self]
      exact some_ne_none _
    rw [he]
    exact some_ne_none _

/-- A retirement is indexed, whatever else retires its path. -/
theorem retirementIndex_ne_none {retirements : YMap JsString Json}
    {retirement : MarkdownPathRetirement}
    (hget : retirements.get? retirement.fileId = some retirement.toJson) :
    (computeRetirementIndex norm retirements).get?
      (norm retirement.oldPath) ≠ none := by
  have hr : readRetirement retirement.fileId retirement.toJson = some retirement := by
    simp [readRetirement, toJson, asRecord, readFinite]
  have hk : ∀ (entries : List (JsString × Json)) (index : RetirementIndex),
      index.get? (norm retirement.oldPath) ≠ none →
        (entries.foldl (noteRetirement norm) index).get?
          (norm retirement.oldPath) ≠ none := by
    intro entries
    induction entries with
    | nil => exact fun _ hix => hix
    | cons entry entries ih => exact fun _ hix => ih _ (noteRetirement_keeps hix entry)
  obtain ⟨before, after, he⟩ := append_of_mem (mem_entries.mpr hget)
  rw [computeRetirementIndex, he, foldl_append, foldl_cons]
  exact hk after _ (noteRetirement_notes hr)

end Retired

section Together

variable {paths : NormalizePath} {now : ℚ} {device : Option JsString} {ids : ℕ → JsString}
  {sync : VaultSync} {batch : OrderedMap JsString JsString} {rename : JsString × JsString}
  {doc doc' : VaultDoc} {path fileId : JsString}

theorem applyRenameBatch_doc :
    (sync.applyRenameBatch paths.normalize now ids batch device).doc = (batch.entries.foldl
      (renameInBatch paths.normalize now device ids)
      (sync, { doc := sync.doc }, 0)).2.1.doc := by
  unfold applyRenameBatch
  split
  · next hs =>
    rw [eq_nil_of_length_eq_zero hs]
    rfl
  · rfl

theorem applyReconcileRenameBatch_eq :
    sync.applyReconcileRenameBatch paths.normalize now ids batch device =
      sync.applyRenameBatch paths.normalize now ids batch device := by
  unfold applyReconcileRenameBatch
  split
  · next hs => rw [applyRenameBatch, if_pos hs]
  · rfl

theorem mem_keys_of_mem (hmem : rename ∈ batch.entries) : rename.1 ∈ batch.keys :=
  mem_map.mpr ⟨rename, hmem, rfl⟩

theorem mem_values_of_mem (hmem : rename ∈ batch.entries) : rename.2 ∈ batch.values :=
  mem_map.mpr ⟨rename, hmem, rfl⟩

theorem IsBatch.distinct (h : IsBatch paths doc batch) : Distinct paths batch.entries :=
  ⟨h.normalized, batch.nodup, h.injective⟩

theorem BatchInOrder.legacyOrder (h : BatchInOrder paths batch doc) :
    LegacyOrder paths doc batch.entries := by
  intro hleg
  refine (h.legacy hleg).imp ?_
  intro earlier later hn heq fileId hf
  exact hn heq fileId hf.foundAt

/-- The only file at the source of a rename is the one that `getFileId` finds. -/
theorem BatchInOrder.fileAt (h : BatchInOrder paths batch doc) (hmem : rename ∈ batch.entries)
    (hne : rename.1 ≠ rename.2) (hf : FoundAt paths doc rename.1 fileId) :
    FileAt paths doc rename.1 fileId :=
  fileAt_iff.mpr ⟨hf, fun other ho => h.single rename hmem hne other fileId ho hf⟩

/-- Where nothing leaves and nothing arrives, no file is moved. -/
theorem untouched_of_not_mem (hk : path ∉ batch.keys) (hv : path ∉ batch.values) :
    Untouched paths doc batch.entries path := by
  intro rename hmem fileId _
  constructor <;> rintro rfl
  · exact hk (mem_keys_of_mem hmem)
  · exact hv (mem_values_of_mem hmem)

/-- Renames in order come out as one. -/
theorem together_of_applied (hbatch : IsBatch paths doc batch)
    (horder : BatchInOrder paths batch doc) (happlied : Applied paths doc batch.entries doc')
    (hblobs : BlobsApplied doc batch.entries doc') : RenamedTogether paths batch doc doc' := by
  have hdistinct := hbatch.distinct
  have ht : ∀ rename ∈ batch.entries, rename.1 ∉ batch.values → ∀ other ∈ batch.entries,
      other.2 ≠ rename.1 := by
    intro rename _ hv other hot heq
    exact hv (heq ▸ mem_values_of_mem hot)
  refine ⟨?_, ?_, ?_, happlied.texts, ?_, ?_, ?_, ?_⟩
  · intro rename hmem fileId hf path hp
    by_cases hfi : FileAt paths doc rename.1 fileId
    · exact foundAt_moved happlied hdistinct horder.own hmem hfi hp
    have hsf : rename.1 = rename.2 := by
      by_contra hne
      exact hfi (horder.fileAt hmem hne hf)
    rw [fileAt_iff, not_and] at hfi
    have ho := hfi hf
    push Not at ho
    obtain ⟨other, hot, hne⟩ := ho
    rw [← hsf]
    exact foundAt_stays happlied hdistinct horder.own hmem hsf hne hf hot hp
  · intro path hp hk hv fileId
    exact foundAt_untouched happlied horder.own hp (untouched_of_not_mem hk hv)
  · intro fileId hot
    have hnot : ∀ rename ∈ batch.entries, ¬ FileAt paths doc rename.1 fileId :=
      fun rename hmem hfi => (hot rename hmem).1 hfi.foundAt
    rcases happlied.still fileId hnot with hsa | ⟨-, rename, hmem, hdel⟩
    · exact hsa
    · exact absurd hdel (hot rename hmem).2
  · rintro rename hmem hv ⟨fileId, hf⟩
    have hne : rename.1 ≠ rename.2 := by
      intro heq
      rw [heq] at hv
      exact hv (mem_values_of_mem hmem)
    obtain ⟨operationId, movedAt, hget⟩ := happlied.retired rename hmem fileId
      (horder.fileAt hmem hne hf) hne (ht rename hmem hv)
    have hix := @retirementIndex_ne_none paths.normalize _
      { fileId, oldPath := rename.1, operationId, movedTo := rename.2, movedAt } hget
    rwa [(hbatch.normalized rename hmem).1] at hix
  · intro rename hmem
    cases href : doc.pathToBlob.get? rename.1 with
    | some ref => exact hblobs.placed rename hmem ref href
    | none =>
      have ho : ∀ other ∈ batch.entries, doc.pathToBlob.get? other.1 ≠ none →
          other.2 ≠ rename.2 := by
        intro other hot hs heq
        rw [hdistinct.target_eq hot hmem heq] at hs
        exact hs href
      by_cases hl : ∃ other ∈ batch.entries, other.1 = rename.2 ∧ doc.pathToBlob.get? other.1 ≠ none
      · obtain ⟨other, hot, heq, hs⟩ := hl
        obtain ⟨ref, hget⟩ := Option.ne_none_iff_exists'.mp hs
        rw [← heq] at ho ⊢
        exact (hblobs.taken other hot ref hget ho).1
      push Not at hl
      rw [(hblobs.kept rename.2 ?_).1]
      · rcases hbatch.free rename hmem with hkey | ⟨-, hfr⟩
        · obtain ⟨other, hot, heq⟩ := mem_map.mp hkey
          rw [← heq]
          exact hl other hot heq
        · exact hfr
      · intro other hot hs
        exact ⟨fun heq => hs (hl other hot heq.symm), Ne.symm (ho other hot hs)⟩
  · intro rename hmem hv ref hget
    exact hblobs.taken rename hmem ref hget fun other hot _ =>
      ht rename hmem hv other hot
  intro path hk hv
  refine hblobs.kept path fun rename hmem _ => ⟨?_, ?_⟩ <;> rintro rfl
  · exact hk (mem_keys_of_mem hmem)
  · exact hv (mem_values_of_mem hmem)

/-- Renamed together, no file of a source is found elsewhere. -/
theorem own_of_together (hbatch : IsBatch paths doc batch)
    (htog : RenamedTogether paths batch doc doc') : Own paths doc batch.entries := by
  intro rename hmem fileId hf path hp ho
  have hm := htog.files rename hmem fileId hf
  by_cases hkey : path ∈ batch.keys
  · obtain ⟨other, hoth, rfl⟩ := mem_map.mp hkey
    have harr := (hm rename.2 (hbatch.normalized rename hmem).2).mpr rfl
    have htarget := (htog.files other hoth fileId ho rename.2
      (hbatch.normalized rename hmem).2).mp harr
    rw [hbatch.distinct.target_eq hmem hoth htarget]
  by_cases hv : path ∈ batch.values
  · obtain ⟨other, hoth, rfl⟩ := mem_map.mp hv
    rcases hbatch.free other hoth with hvac | ⟨hfr, -⟩
    · exact absurd hvac hkey
    · exact absurd ho (hfr fileId)
  have hstays := (htog.otherFiles path hp hkey hv fileId).mpr ho
  have hs := (hm path hp).mp hstays
  rw [hs] at hv
  exact absurd (mem_values_of_mem hmem) hv

/-- A list that is not in order has a first entry that breaks the order. -/
theorem exists_of_not_pairwise {α : Type} {R : α → α → Prop} {entries : List α}
    (h : ¬ entries.Pairwise R) : ∃ done entry rest, entries = done ++ entry :: rest ∧
      done.Pairwise R ∧ ∃ earlier ∈ done, ¬ R earlier entry := by
  induction entries using List.reverseRecOn with
  | nil => exact absurd List.Pairwise.nil h
  | append_singleton entries last ih =>
    by_cases hb : entries.Pairwise R
    · refine ⟨entries, last, [], rfl, hb, ?_⟩
      by_contra hn
      push Not at hn
      refine h (pairwise_append.mpr ⟨hb, pairwise_singleton R last, ?_⟩)
      intro earlier hmem entry he
      rw [mem_singleton.mp he]
      exact hn earlier hmem
    · obtain ⟨done, entry, rest, heq, hd, hbreaks⟩ := ih hb
      exact ⟨done, entry, rest ++ [last], by rw [heq, append_assoc, cons_append], hd, hbreaks⟩

/-- A file is not found at a path any more. -/
structure Gone (paths : NormalizePath) (path fileId : JsString) (doc : VaultDoc) : Prop where
  legacy : doc.usesV2PathModel = false
  unmapped : doc.pathToId.get? path = none
  elsewhere : stateOf paths.normalize doc.metaMap fileId ≠ some (path, false)

theorem Gone.next {acc : VaultSync × Txn × ℕ} (h : Gone paths path fileId acc.2.1.doc)
    (hnew : paths.normalize rename.2 = rename.2) (hne : rename.2 ≠ path) : Gone paths path fileId
      (renameInBatch paths.normalize now device ids acc rename).2.1.doc := by
  obtain ⟨-, ⟨-, pathToBlob, blobTombstones, hdoc⟩ | ⟨other, -, hm⟩⟩ :=
    @renameInBatch_files paths now device ids acc rename hnew
  · rw [hdoc]
    exact ⟨h.legacy, h.unmapped, h.elsewhere⟩
  refine ⟨(usesV2_of_version hm.version).trans h.legacy, ?_, ?_⟩
  · rw [hm.legacy h.legacy, if_neg (Ne.symm hne), h.unmapped, ite_self]
  by_cases hs : fileId = other
  · rw [hs, hm.moved]
    intro heq
    exact hne (Prod.mk.inj (Option.some.inj heq)).1
  rw [stateOf, hm.others fileId hs]
  split
  · rintro ⟨⟩
  · exact h.elsewhere

variable {renames : List (JsString × JsString)}

theorem Gone.foldl {acc : VaultSync × Txn × ℕ} (h : Gone paths path fileId acc.2.1.doc)
    (hnew : ∀ rename ∈ renames, paths.normalize rename.2 = rename.2 ∧ rename.2 ≠ path) :
    Gone paths path fileId (renames.foldl
      (renameInBatch paths.normalize now device ids) acc).2.1.doc := by
  induction renames generalizing acc with
  | nil => exact h
  | cons rename renames ih =>
    obtain ⟨hnor, hne⟩ := hnew rename (mem_cons_self ..)
    exact ih (h.next hnor hne) fun later hmem => hnew later (mem_cons_of_mem _ hmem)

theorem foldl_renameBlob_none {acc : VaultSync × Txn × ℕ}
    (h : acc.2.1.doc.pathToBlob.get? path = none)
    (hnew : ∀ rename ∈ renames, paths.normalize rename.2 = rename.2 ∧ rename.2 ≠ path) :
    (renames.foldl (renameInBatch paths.normalize now device ids)
      acc).2.1.doc.pathToBlob.get? path = none := by
  induction renames generalizing acc with
  | nil => exact h
  | cons rename renames ih =>
    obtain ⟨hnor, hne⟩ := hnew rename (mem_cons_self ..)
    refine ih ?_ fun later hmem => hnew later (mem_cons_of_mem _ hmem)
    rw [(blobs_renameInBatch hnor).1]
    exact get?_renameBlob_none (.inr h) hne

section Broken

variable {done rest : List (JsString × JsString)} {earlier : JsString × JsString}
  (hbatch : IsBatch paths doc batch) (heq : batch.entries = done ++ rename :: rest)
  (hearlier : earlier ∈ done) (htarget : earlier.2 = rename.1)

include hbatch heq hearlier htarget in
/-- Nothing comes after a rename back to where that has started. -/
theorem rest_of_broken : rename.2 ≠ rename.1 ∧
    ∀ later ∈ rest, paths.normalize later.2 = later.2 ∧ later.2 ≠ rename.1 := by
  have hv := hbatch.injective
  have hnorm := hbatch.normalized
  rw [OrderedMap.values, heq, map_append, map_cons, nodup_append] at hv
  rw [heq] at hnorm
  have ho := hv.2.2 earlier.2 (mem_map.mpr ⟨earlier, hearlier, rfl⟩)
  rw [← htarget]
  constructor
  · exact Ne.symm (ho rename.2 (mem_cons_self ..))
  intro later hmem
  refine ⟨(hnorm later ?_).2, ?_⟩
  · exact mem_append_right _ (mem_cons_of_mem _ hmem)
  · exact Ne.symm (ho later.2 (mem_cons_of_mem _ (mem_map.mpr ⟨later, hmem, rfl⟩)))

end Broken

/-- A file that is brought to a path whose own rename comes later is taken away by it. -/
theorem legacyOrder_of_together (hfr : CacheFresh paths.normalize sync)
    (hbatch : IsBatch paths sync.doc batch) (hown : Own paths sync.doc batch.entries)
    (htog : RenamedTogether paths batch sync.doc (batch.entries.foldl
      (renameInBatch paths.normalize now device ids)
      (sync, { doc := sync.doc }, 0)).2.1.doc) : LegacyOrder paths sync.doc batch.entries := by
  intro hleg
  by_contra hnot
  obtain ⟨done, rename, rest, heq, hd, earlier, hearlier, hbreaks⟩ := exists_of_not_pairwise hnot
  push Not at hbreaks
  obtain ⟨htarget, fileId, hfi⟩ := hbreaks
  obtain ⟨hne, hr⟩ := rest_of_broken hbatch heq hearlier htarget
  have hdistinct : Distinct paths done := by
    have hall := hbatch.distinct
    rw [heq] at hall
    exact hall.before
  have hmem : ∀ other ∈ done, other ∈ batch.entries := by
    intro other ho
    rw [heq]
    exact mem_append_left _ ho
  have hren : rename ∈ batch.entries := by
    rw [heq]
    exact mem_append_right _ (mem_cons_self ..)
  have hnor := hbatch.normalized rename hren
  have happlied := (@applied_run paths now device ids sync hfr done hdistinct
    (fun other ho => hown other (hmem other ho)) fun _ => hd).1
  have harr := (htog.files earlier (hmem earlier hearlier) fileId hfi.foundAt rename.1
    hnor.1).mpr htarget.symm
  rw [heq, foldl_append, foldl_cons] at harr
  generalize done.foldl (renameInBatch paths.normalize now device ids)
    (sync, { doc := sync.doc }, 0) = acc at happlied harr
  have hv1 := happlied.usesV2.trans hleg
  have hmp := happlied.mapped hleg earlier hearlier fileId hfi
  rw [htarget] at hmp
  -- the lookup of the source answers with the file that has just arrived
  have hf : ((viewOf acc).getFileId paths.normalize rename.1).1 = some fileId := by
    unfold getFileId
    rw [hnor.1, show (viewOf acc).doc = acc.2.1.doc from rfl, hv1, if_neg Bool.false_ne_true, hmp]
  have hg : Gone paths rename.1 fileId
      (renameInBatch paths.normalize now device ids acc rename).2.1.doc := by
    obtain ⟨-, ⟨hn, -⟩ | ⟨other, hs, hm⟩⟩ :=
      @renameInBatch_files paths now device ids acc rename hnor.2
    · rw [hf] at hn
      cases hn
    rw [hf, Option.some.injEq] at hs
    subst hs
    refine ⟨(usesV2_of_version hm.version).trans hv1, ?_, ?_⟩
    · rw [hm.legacy hv1, if_neg (Ne.symm hne), if_pos rfl]
    rw [hm.moved]
    intro hst
    exact hne (Prod.mk.inj (Option.some.inj hst)).1
  have hl := @Gone.foldl paths now device ids rename.1 fileId rest _ hg hr
  rw [foundAt_of_none ((legacyId_of_legacy hl.legacy).trans hl.unmapped)] at harr
  exact hl.elsewhere harr

/-- An attachment that is brought to a path whose own rename comes later is not left there. -/
theorem refsOrder_of_together (hbatch : IsBatch paths sync.doc batch)
    (htog : RenamedTogether paths batch sync.doc (batch.entries.foldl
      (renameInBatch paths.normalize now device ids)
      (sync, { doc := sync.doc }, 0)).2.1.doc) : batch.entries.Pairwise fun earlier later =>
        earlier.2 = later.1 → sync.doc.pathToBlob.get? earlier.1 = none := by
  by_contra hnot
  obtain ⟨done, rename, rest, heq, -, earlier, hearlier, hbreaks⟩ := exists_of_not_pairwise hnot
  push Not at hbreaks
  obtain ⟨htarget, hs⟩ := hbreaks
  obtain ⟨ref, hget⟩ := Option.ne_none_iff_exists'.mp hs
  obtain ⟨hne, hr⟩ := rest_of_broken hbatch heq hearlier htarget
  have hren : rename ∈ batch.entries := by
    rw [heq]
    exact mem_append_right _ (mem_cons_self ..)
  have harr := htog.refs earlier (by rw [heq]; exact mem_append_left _ hearlier)
  rw [htarget, heq, foldl_append, foldl_cons, foldl_renameBlob_none ?_ hr, hget] at harr
  · cases harr
  rw [(blobs_renameInBatch (hbatch.normalized rename hren).2).1]
  exact get?_renameBlob_none (.inl rfl) hne

/-- Of several files at a path none is moved. -/
theorem single_of_together (hbatch : IsBatch paths doc batch) (hown : Own paths doc batch.entries)
    (happlied : Applied paths doc batch.entries doc')
    (htog : RenamedTogether paths batch doc doc') (hmem : rename ∈ batch.entries)
    (hne : rename.1 ≠ rename.2) {otherId : JsString} (hf : FoundAt paths doc rename.1 fileId)
    (ho : FoundAt paths doc rename.1 otherId) : fileId = otherId := by
  by_contra hdif
  obtain ⟨hsrc, htarget⟩ := hbatch.normalized rename hmem
  have harr := (htog.files rename hmem fileId hf rename.2 htarget).mpr rfl
  exact hne (several_stay happlied hown hmem hsrc (Ne.symm hdif) hf ho htarget harr).symm

/-- A batch of renames is applied as one exactly if it is in order. -/
theorem renamedTogether_iff (paths : NormalizePath) (now : ℚ) (device : Option JsString)
    (ids : ℕ → JsString) (sync : VaultSync) (batch : OrderedMap JsString JsString)
    (hfresh : CacheFresh paths.normalize sync) (hbatch : IsBatch paths sync.doc batch) :
    (RenamedTogether paths batch sync.doc
        (sync.applyRenameBatch paths.normalize now ids batch device).doc ↔
      BatchInOrder paths batch sync.doc) ∧
    (RenamedTogether paths batch sync.doc
        (sync.applyReconcileRenameBatch paths.normalize now ids batch device).doc ↔
      BatchInOrder paths batch sync.doc) := by
  rw [applyReconcileRenameBatch_eq, applyRenameBatch_doc, and_self]
  have hdistinct := hbatch.distinct
  constructor
  · intro htog
    have hown := own_of_together hbatch htog
    have hleg := legacyOrder_of_together hfresh hbatch hown htog
    have hrefs := refsOrder_of_together hbatch htog
    have happlied := (@applied_run paths now device ids sync hfresh batch.entries hdistinct hown
      hleg).1
    have hs : ∀ rename ∈ batch.entries, rename.1 ≠ rename.2 → ∀ fileId fileId',
        FoundAt paths sync.doc rename.1 fileId → FoundAt paths sync.doc rename.1 fileId' →
          fileId = fileId' := fun rename hmem hne fileId fileId' =>
      single_of_together hbatch hown happlied htog hmem hne
    refine ⟨hown, hs, ?_, hrefs⟩
    intro hv1
    have hsour : batch.entries.Pairwise fun earlier later => earlier.1 ≠ later.1 :=
      List.pairwise_map.mp hdistinct.sources
    refine (List.Pairwise.and_mem.mp ((hleg hv1).and hsour)).imp ?_
    rintro earlier later ⟨hearlier, -, hnot, hne⟩ htarget fileId hf
    have hmoves : earlier.1 ≠ earlier.2 := htarget ▸ hne
    exact hnot htarget fileId (fileAt_iff.mpr ⟨hf, fun other ho =>
      hs earlier hearlier hmoves other fileId ho hf⟩)
  intro horder
  have happlied := (@applied_run paths now device ids sync hfresh batch.entries hdistinct
    horder.own horder.legacyOrder).1
  have hblobs := @blobs_run paths now device ids sync batch.entries hdistinct horder.refs ?_
  · exact together_of_applied hbatch horder happlied hblobs
  intro rename hmem
  exact (hbatch.free rename hmem).imp id And.right

end Together

section Swap

/-- Two files, each at the path of one of two renames. -/
def swapBatch : OrderedMap JsString JsString :=
  (OrderedMap.empty.set (js "a") (js "b")).set (js "b") (js "a")

def swapDoc : VaultDoc where
  schemaVersion := .num (some 2)
  metaMap := (YMap.empty.set (js "f") (createNestedActiveMeta (js "a") 1 none)).set (js "g")
    (createNestedActiveMeta (js "b") 1 none)

/-- The same in the legacy map. -/
def swapLegacyDoc : VaultDoc where
  pathToId := (YMap.empty.set (js "a") (js "f")).set (js "b") (js "g")

/-- The same with attachments. -/
def swapBlobDoc : VaultDoc where
  schemaVersion := .num (some 2)
  pathToBlob := (YMap.empty.set (js "a") { hash := js "x", size := 1 }).set (js "b")
    { hash := js "y", size := 1 }

theorem isBatch_swap (doc : VaultDoc) : IsBatch .plain doc swapBatch := by
  refine ⟨?_, by decide, ?_⟩
  · decide
  intro rename hmem
  left
  revert rename
  decide

theorem batchInOrder_swap : BatchInOrder .plain swapBatch swapDoc := by
  have hleg : ∀ path, swapDoc.legacyId path = none := fun _ => rfl
  refine ⟨own_of_v2 rfl, ?_, ?_, ?_⟩
  · intro rename hmem _ fileId fileId' hf hf'
    rw [foundAt_of_none (hleg _), ← mem_activeFileIds] at hf hf'
    have hs : ∃ only,
        activeFileIds NormalizePath.plain.normalize swapDoc.metaMap rename.1 = [only] := by
      rcases mem_cons.mp hmem with rfl | hmem
      · exact ⟨js "f", by decide⟩
      rw [mem_singleton.mp hmem]
      exact ⟨js "g", by decide⟩
    obtain ⟨only, honly⟩ := hs
    rw [honly, mem_singleton] at hf hf'
    rw [hf, hf']
  · exact fun hv1 => absurd hv1 (by decide)
  · exact pairwise_of_forall fun _ _ _ => rfl

/-- Two files of the metadata change places. -/
theorem renamedTogether_swap :
    RenamedTogether .plain swapBatch swapDoc ((load swapDoc).applyRenameBatch
      NormalizePath.plain.normalize 5 (fun _ => js "id") swapBatch none).doc :=
  (renamedTogether_iff .plain 5 none (fun _ => js "id") (.load swapDoc) swapBatch (fresh_load _ _)
    (isBatch_swap swapDoc)).1.mpr batchInOrder_swap

/-- Two files of the legacy map do not: the first is moved twice. Of two attachments the first is
lost. -/
theorem swap_drops_first :
    ¬ RenamedTogether .plain swapBatch swapLegacyDoc
      ((load swapLegacyDoc).applyRenameBatch NormalizePath.plain.normalize 5
        (fun _ => js "id") swapBatch none).doc ∧
    ¬ RenamedTogether .plain swapBatch swapBlobDoc
      ((load swapBlobDoc).applyRenameBatch NormalizePath.plain.normalize 5
        (fun _ => js "id") swapBatch none).doc := by
  constructor <;> intro h
  · have hleg : swapLegacyDoc.legacyId (js "a") = some (js "f") := rfl
    have hf : FoundAt .plain swapLegacyDoc (js "a") (js "f") := (foundAt_of_legacy hleg).mpr rfl
    have hm := (h.files (js "a", js "b") mem_cons_self (js "f") hf (js "b") rfl).mpr rfl
    rw [foundAt_of_none (by decide)] at hm
    revert hm
    decide
  · have hm := h.refs (js "a", js "b") mem_cons_self
    revert hm
    decide

end Swap

end Kaos.Sync
