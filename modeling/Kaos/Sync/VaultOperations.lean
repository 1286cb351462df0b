import Kaos.Sync.VaultSync

/-! What a client does to the document on its own account. -/
namespace Kaos.Sync

open Kaos.Lib Kaos.Yjs

/-- Random ids and new shared texts, in the order in which they are asked for. -/
structure Supply where
  ids : ℕ → JsString
  items : ℕ → ℕ

inductive ActivePathClassification
  | empty
  | healthy (fileId : JsString) (ytext : YText)
  | orphan (fileId : JsString)
  | collision (fileIds : List JsString)

inductive BlockedReason
  | orphan
  | collision
  | tombstone
  | policy
  deriving DecidableEq

inductive EnsureFileResult
  | existing (fileId : JsString) (ytext : YText)
  | created (fileId : JsString) (ytext : YText)
  | replan
  | blocked (reason : BlockedReason)
  deriving DecidableEq

/-- `historyVerified` is false if there is a gate of creations that does not admit the path. -/
structure EnsureFileOptions where
  reviveTombstone : Bool := false
  historyVerified : Bool := true
  canCreate : Bool := true
  expectedRemoval : Option MarkdownRemoteDeleteSnapshot := none

def sameBlobRef : Option BlobRef → Option BlobRef → Bool
  | none, right => right.isNone
  | some _, none => false
  | some left, some right => left.hash = right.hash ∧ left.size = right.size ∧
      getBlobRefPriorHashes left = getBlobRefPriorHashes right

def schemaVersion : ℕ := 4

/-- The paths of each file id, both in the order of the map. -/
def pathsByFileId (pathToId : List (JsString × JsString)) : OrderedMap JsString (List JsString) :=
  pathToId.foldl (fun paths entry => paths.push entry.2 entry.1) .empty

theorem mem_pathsByFileId {pathToId : List (JsString × JsString)} {fileId : JsString}
    {paths : List JsString} : (pathsByFileId pathToId).get? fileId = some paths ↔
      paths ≠ [] ∧ paths = pathToId.filterMap fun entry =>
        if entry.2 = fileId then some entry.1 else none := by
  have hgetD := @OrderedMap.getD_get?_foldl_push _ _ _ fileId _ Prod.snd Prod.fst pathToId
    (.empty : OrderedMap JsString (List JsString))
  have hne := @OrderedMap.get?_foldl_push_ne_nil _ _ _ fileId _ Prod.snd Prod.fst pathToId
    (.empty : OrderedMap JsString (List JsString)) (by simp)
  rw [OrderedMap.get?_empty, Option.getD_none, List.nil_append] at hgetD
  rw [← hgetD]
  unfold pathsByFileId
  constructor
  · intro h
    rw [h] at hne ⊢
    exact ⟨fun hnil => hne (by rw [hnil]), rfl⟩
  rintro ⟨hp, heq⟩
  cases hget : (pathToId.foldl (fun paths entry => paths.push entry.2 entry.1)
      (.empty : OrderedMap JsString (List JsString))).get? fileId with
  | none =>
    rw [hget] at heq
    exact absurd heq hp
  | some paths' =>
    rw [hget] at heq
    rw [heq]
    rfl

section Transactions

variable (normalizePath : JsString → JsString)

/-- A stored retirement of a path, whatever else it says. -/
def retires (path : JsString) (raw : Json) : Bool :=
  match asRecord raw with
  | some entry => match entry "oldPath" with
    | .str oldPath => oldPath = path
    | _ => false
  | none => false

/-- The deleted entries of a path. -/
def getMarkdownTombstoneIds (metaMap : SharedMeta) (path : JsString) : List JsString :=
  metaMap.entries.filterMap fun entry =>
    if pathState normalizePath entry.2 = some (path, true) then some entry.1 else none

def Txn.clearMarkdownTombstonesForPath (txn : Txn) (path keepFileId : JsString) : Txn :=
  let path := normalizePath path
  let retired := txn.doc.markdownPathRetirements.entries.filter fun entry => retires path entry.2
  let txn := retired.foldl (fun txn entry => txn.deleteRetirement entry.1) txn
  ((getMarkdownTombstoneIds normalizePath txn.doc.metaMap path).filter (· ≠ keepFileId)).foldl
    (fun txn fileId => txn.putMeta fileId none) txn

/-- A file that has been found takes its new path. -/
def Txn.renameFile (txn : Txn) (now : ℚ) (device : Option JsString)
    (fileId oldPath newPath operationId : JsString) : Txn :=
  let txn := if oldPath ≠ newPath then
      txn.setRetirement { fileId, oldPath, operationId, movedTo := newPath, movedAt := now }
    else txn
  let txn := if txn.doc.usesV2PathModel then txn
    else (txn.deletePathToId oldPath).setPathToId newPath fileId
  (txn.clearMarkdownTombstonesForPath normalizePath newPath fileId).setMetaActive now fileId
    (normalizePath newPath) device

/-- An attachment of the old path is moved, unless another one is at the new path. -/
def Txn.renameBlob (txn : Txn) (now : ℚ) (device : Option JsString) (oldPath newPath : JsString) :
    Txn :=
  match cloneBlobRef (txn.doc.pathToBlob.get? oldPath) with
  | none => txn
  | some blobRef =>
    let destinationRef := cloneBlobRef (txn.doc.pathToBlob.get? newPath)
    let destinationConflict := destinationRef.isSome && !sameBlobRef destinationRef (some blobRef)
    let txn := txn.tombstoneBlob now oldPath device blobRef
    if destinationConflict then txn else txn.placeBlob newPath blobRef

end Transactions

namespace VaultSync

variable (normalizePath : JsString → JsString) (sync : VaultSync) (now : ℚ)

section PendingRenames

def deletePendingRenameByOldPath (oldPath : JsString) : VaultSync :=
  match sync.renameBatch.get? oldPath with
  | none => sync
  | some existingTarget => { sync with
      renameBatch := sync.renameBatch.delete oldPath
      renameBatchNewToOld := sync.renameBatchNewToOld.delete existingTarget }

def setPendingRename (oldPath newPath : JsString) : VaultSync :=
  if oldPath = newPath then sync.deletePendingRenameByOldPath oldPath
  else
    let sync := match sync.renameBatchNewToOld.get? newPath with
      | some existingOldForTarget =>
        if existingOldForTarget ≠ oldPath then
          sync.deletePendingRenameByOldPath existingOldForTarget
        else sync
      | none => sync
    let newToOld := match sync.renameBatch.get? oldPath with
      | some previousTarget => sync.renameBatchNewToOld.delete previousTarget
      | none => sync.renameBatchNewToOld
    { sync with
      renameBatch := sync.renameBatch.set oldPath newPath
      renameBatchNewToOld := newToOld.set newPath oldPath }

def clearPendingRenames : VaultSync :=
  { sync with renameBatch := .empty, renameBatchNewToOld := .empty }

/-- The timer that is set anew is not part of the state: a flush can come at any time. -/
def queueRename (oldPath newPath : JsString) : VaultSync :=
  let oldPath := normalizePath oldPath
  let newPath := normalizePath newPath
  let rootOldPath := (sync.renameBatchNewToOld.get? oldPath).getD oldPath
  let sync := if rootOldPath = newPath then sync.deletePendingRenameByOldPath rootOldPath
    else sync.setPendingRename rootOldPath newPath
  if rootOldPath ≠ oldPath then sync.deletePendingRenameByOldPath oldPath else sync

end PendingRenames

section Renames

/-- One rename of a batch, in the transaction of the batch: the client with its caches, whose
document is that of the transaction, and the number of ids taken. -/
def renameInBatch (device : Option JsString) (ids : ℕ → JsString) (acc : VaultSync × Txn × ℕ)
    (rename : JsString × JsString) : VaultSync × Txn × ℕ :=
  let found := { acc.1 with doc := acc.2.1.doc }.getFileId normalizePath rename.1
  match found.1 with
  | some fileId =>
    let txn := (acc.2.1.renameFile normalizePath now device fileId rename.1 rename.2
      (ids acc.2.2)).renameBlob now device rename.1 rename.2
    (found.2, txn, acc.2.2 + 1)
  | none => (found.2, acc.2.1.renameBlob now device rename.1 rename.2, acc.2.2)

def applyRenameBatch (ids : ℕ → JsString) (batch : OrderedMap JsString JsString)
    (device : Option JsString) : VaultSync :=
  if batch.size = 0 then sync
  else
    let applied := batch.entries.foldl (renameInBatch normalizePath now device ids)
      (sync, { doc := sync.doc }, 0)
    { { applied.1 with doc := sync.doc }.commit applied.2.1 false with pathIndexesDirty := true }

def applyReconcileRenameBatch (ids : ℕ → JsString) (renames : OrderedMap JsString JsString)
    (device : Option JsString) : VaultSync :=
  if renames.size = 0 then sync else sync.applyRenameBatch normalizePath now ids renames device

def flushRenameBatch (ids : ℕ → JsString) (device : Option JsString) : VaultSync :=
  if sync.renameBatch.size = 0 then sync
  else sync.clearPendingRenames.applyRenameBatch normalizePath now ids sync.renameBatch device

def handleRename (operationId oldPath newPath : JsString) (device : Option JsString) : VaultSync :=
  let oldPath := normalizePath oldPath
  let newPath := normalizePath newPath
  if oldPath = newPath then sync
  else
    let found := sync.getFileId normalizePath oldPath
    match found.1 with
    | none => found.2
    | some fileId =>
      { found.2.transact fun txn =>
          let txn := if txn.doc.usesV2PathModel then txn
            else (txn.deletePathToId oldPath).setPathToId newPath fileId
          let txn := txn.setRetirement
            { fileId, oldPath, operationId, movedTo := newPath, movedAt := now }
          (txn.clearMarkdownTombstonesForPath normalizePath newPath fileId).setMetaActive now fileId
            (normalizePath newPath) device
        with pathIndexesDirty := true }

def promotePendingRenameTarget (ids : ℕ → JsString) (path : JsString) (device : Option JsString) :
    VaultSync :=
  let path := normalizePath path
  match sync.renameBatchNewToOld.get? path with
  | none => sync
  | some pendingOldPath =>
    (sync.deletePendingRenameByOldPath pendingOldPath).applyRenameBatch normalizePath now ids
      (OrderedMap.empty.set pendingOldPath path) device

end Renames

section Files

/-- The legacy map if it has the path, else a scan of the metadata. -/
def classifyActivePath (path : JsString) : ActivePathClassification :=
  let path := normalizePath path
  let legacy := if sync.doc.usesV2PathModel then none else sync.doc.pathToId.get? path
  let fileIds := match legacy with
    | some legacyFileId => [legacyFileId]
    | none => (activeFileIds normalizePath sync.doc.metaMap path).mergeSort JsString.le
  match fileIds with
  | [] => .empty
  | [fileId] => match sync.doc.idToText.get? fileId with
    | some ytext => .healthy fileId ytext
    | none => .orphan fileId
  | fileIds => .collision fileIds

/-- The result that a classification already gives. -/
def resolveClassification : ActivePathClassification → Option EnsureFileResult
  | .empty => none
  | .healthy fileId ytext => some (.existing fileId ytext)
  | .orphan _ => some (.blocked .orphan)
  | .collision _ => some (.blocked .collision)

/-- What the source of a pending rename onto the path stands in the way with. -/
def resolvePendingSource (path : JsString) : Option EnsureFileResult :=
  match sync.renameBatchNewToOld.get? path with
  | none => none
  | some pendingOldPath => match sync.classifyActivePath normalizePath pendingOldPath with
    | .collision _ => some (.blocked .collision)
    | .orphan _ => some (.blocked .orphan)
    | .empty => some .replan
    | .healthy _ _ => none

/-- The transaction that makes a new file. -/
def createFile (supply : Supply) (path content : JsString) (device : Option JsString)
    (tombstoneIds : List JsString) (retirement : Option MarkdownPathRetirement) :
    EnsureFileResult × VaultSync :=
  let fileId := supply.ids 0
  let ytext : YText := { item := supply.items 0, content }
  (.created fileId ytext,
    { sync.transact fun txn =>
        let txn := if txn.doc.usesV2PathModel then txn else txn.setPathToId path fileId
        let txn := (txn.setText fileId ytext).setMetaActive now fileId (normalizePath path) device
        let txn := tombstoneIds.foldl (fun txn tombstoneId => txn.putMeta tombstoneId none) txn
        match retirement with
        | some retirement => txn.deleteRetirement retirement.fileId
        | none => txn
      with pathIndexesDirty := true })

/-- From the check of tombstones on. -/
def admitFile (supply : Supply) (path content : JsString) (device : Option JsString)
    (options : EnsureFileOptions) : EnsureFileResult × VaultSync :=
  let tombstoneIds := getMarkdownTombstoneIds normalizePath sync.doc.metaMap path
  let retirement := sync.getMarkdownPathRetirement normalizePath path
  let removal := retirement.2.getAuthoritativeMarkdownDeleteSnapshot normalizePath path
  let sync := removal.2
  if removal.1.isSome ∧ !options.reviveTombstone then (.blocked .tombstone, sync)
  else if !options.reviveTombstone ∧ !options.historyVerified then (.blocked .policy, sync)
  else if !options.canCreate then (.blocked .policy, sync)
  else match sync.classifyActivePath normalizePath path with
    | .empty =>
      if options.expectedRemoval.isSome ∧
          (sync.getAuthoritativeMarkdownDeleteSnapshot normalizePath path).1 ≠
            options.expectedRemoval then (.replan, sync)
      else sync.createFile normalizePath now supply path content device tombstoneIds retirement.1
    | _ => (.replan, sync)

/-- `configuredDevice` is the device of the client itself. -/
def ensureFile (supply : Supply) (operationIds : ℕ → JsString)
    (configuredDevice : Option JsString) (path content : JsString) (device : Option JsString)
    (options : EnsureFileOptions) : EnsureFileResult × VaultSync :=
  let path := normalizePath path
  match resolveClassification (sync.classifyActivePath normalizePath path) with
  | some result => (result, sync)
  | none => match sync.resolvePendingSource normalizePath path with
    | some result => (result, sync)
    | none =>
      let sync := sync.promotePendingRenameTarget normalizePath now operationIds path
        (device.or configuredDevice)
      match resolveClassification (sync.classifyActivePath normalizePath path) with
      | some result => (result, sync)
      | none => sync.admitFile normalizePath now supply path content device options

def deleteBlobRef (path : JsString) (device : Option JsString) : VaultSync :=
  let path := normalizePath path
  match cloneBlobRef (sync.doc.pathToBlob.get? path) with
  | none => sync
  | some deletedRef => sync.transact fun txn => txn.tombstoneBlob now path device deletedRef

/-- A pending rename onto the path, or away from it, is given up: the client without it, and the
path where the file still is. -/
def cancelPendingRename (path : JsString) : VaultSync × JsString :=
  match sync.renameBatchNewToOld.get? path with
  | some pendingOldPath => (sync.deletePendingRenameByOldPath pendingOldPath, pendingOldPath)
  | none => (sync.deletePendingRenameByOldPath path, path)

def handleDelete (path : JsString) (device : Option JsString) : VaultSync :=
  let cancelled := sync.cancelPendingRename (normalizePath path)
  let resolvedPath := cancelled.2
  let found := cancelled.1.getFileId normalizePath resolvedPath
  match found.1 with
  | none =>
    if (found.2.doc.pathToBlob.get? resolvedPath).isSome then
      found.2.deleteBlobRef normalizePath now resolvedPath device
    else found.2
  | some fileId =>
    { found.2.transact fun txn =>
        let txn := if txn.doc.usesV2PathModel then txn else txn.deletePathToId resolvedPath
        txn.setMetaDeleted now fileId (normalizePath resolvedPath)
      with pathIndexesDirty := true }

/-- The active entries at paths that the product has classified as unsafe. -/
def excludedMarkdown (shouldTombstoneMarkdownPath : JsString → Bool) : List (JsString × JsString) :=
  sync.doc.metaMap.entries.filterMap fun entry =>
    if isFileMetaDeletedValue entry.2 then none
    else (getMetaPath entry.2).bind fun rawPath =>
      let path := normalizePath rawPath
      if shouldTombstoneMarkdownPath path then some (entry.1, path) else none

def isBlobTombstoned (path : JsString) : Bool :=
  let path := normalizePath path
  (sync.doc.pathToBlob.get? path).isNone && (sync.doc.blobTombstones.get? path).isSome

/-- The attachments at paths that the product has classified as unsafe. -/
def excludedBlobs (shouldTombstoneBlobPath : JsString → Bool) : List (JsString × BlobRef) :=
  sync.doc.pathToBlob.entries.filterMap fun entry =>
    let path := normalizePath entry.1
    if !sync.isBlobTombstoned normalizePath path ∧ shouldTombstoneBlobPath path then
      (cloneBlobRef (some entry.2)).map fun deletedRef => (path, deletedRef)
    else none

/-- The flag of the indexes is assigned, whatever it was. -/
def tombstoneIntrinsicExcludedEntries (shouldTombstoneMarkdownPath shouldTombstoneBlobPath :
    JsString → Bool) (device : Option JsString) : VaultSync :=
  let markdownEntries := sync.excludedMarkdown normalizePath shouldTombstoneMarkdownPath
  let blobEntries := sync.excludedBlobs normalizePath shouldTombstoneBlobPath
  if markdownEntries.length = 0 ∧ blobEntries.length = 0 then sync
  else
    { sync.transact fun txn =>
        let txn := markdownEntries.foldl (fun txn entry =>
          let txn := if txn.doc.usesV2PathModel then txn else txn.deletePathToId entry.2
          txn.setMetaDeleted now entry.1 (normalizePath entry.2)) txn
        blobEntries.foldl (fun txn entry => txn.tombstoneBlob now entry.1 device entry.2) txn
      with pathIndexesDirty := decide (markdownEntries.length > 0) }

end Files

section Collisions

/-- What speaks for an entry: its time, a text with something in it, the text of the disk. -/
def collisionScore (preferredDiskContent : Option JsString) (fileId : JsString) : ℚ :=
  let textContent := (sync.doc.idToText.get? fileId).map YText.content
  let mtime := (((sync.doc.metaMap.get? fileId).bind decodeFileMeta).bind
    DecodedFileMeta.mtime).getD 0
  let score := if (textContent.getD []).length > 0 then mtime + 100000000000 else mtime
  if preferredDiskContent.isSome ∧ textContent = preferredDiskContent then score + 1000000000000
  else score

/-- The first entry with the greatest score; only a score above `-1` counts. -/
def bestOf (score : JsString → ℚ) (fileIds : List JsString) : JsString :=
  (fileIds.foldl (fun best fileId => if best.2 < score fileId then (fileId, score fileId) else best)
    (fileIds.headD [], -1)).1

def resolveActivePathCollision (path : JsString) (preferredDiskContent : Option JsString) :
    Bool × VaultSync :=
  let path := normalizePath path
  let sync := sync.ensurePathIndexes normalizePath
  match sync.indexes.activePathCollisions.get? path with
  | none => (false, sync)
  | some fileIds =>
    if fileIds.length ≤ 1 then (false, sync)
    else
      let bestId := bestOf (sync.collisionScore preferredDiskContent) fileIds
      let resolved := sync.transact fun txn =>
        (fileIds.filter (· ≠ bestId)).foldl (fun txn fileId =>
          (txn.putMeta fileId none).deleteText fileId) txn
      (true, { resolved with pathIndexesDirty := true }.ensurePathIndexes normalizePath)

end Collisions

section Integrity

/-- A path that shares its file id gets one of its own, with a copy of the text. -/
def giveOwnId (supply : Supply) (device : Option JsString) (acc : VaultSync × ℕ)
    (sourceText : Option YText) (dupPath : JsString) : VaultSync × ℕ :=
  let newId := supply.ids acc.2
  let newText : YText := {
    item := supply.items acc.2, content := (sourceText.map YText.content).getD [] }
  (acc.1.transact fun txn =>
    ((txn.setPathToId dupPath newId).setText newId newText).putMeta newId
      (some (createNestedActiveMeta dupPath now device)), acc.2 + 1)

/-- Every path of one file id after its first. -/
def splitSharedId (supply : Supply) (device : Option JsString) (acc : VaultSync × ℕ)
    (shared : JsString × List JsString) : VaultSync × ℕ :=
  let sourceText := acc.1.doc.idToText.get? shared.1
  shared.2.tail.foldl (fun acc dupPath => giveOwnId now supply device acc sourceText dupPath) acc

def repairDuplicateIds (supply : Supply) (device : Option JsString) : VaultSync :=
  if sync.doc.usesV2PathModel then sync
  else ((pathsByFileId sync.doc.pathToId.entries).entries.foldl
    (splitSharedId now supply device) (sync, 0)).1

/-- Every file that an index names, or whose entry is deleted. -/
def isReferenced (fileId : JsString) : Bool :=
  fileId ∈ sync.indexes.pathIndex.values ||
    sync.indexes.activePathCollisions.values.any (fun fileIds => fileId ∈ fileIds) ||
    ((sync.doc.metaMap.get? fileId).map isFileMetaDeletedValue).getD false

def orphanIds : List JsString :=
  ((sync.doc.idToText.entries.map Prod.fst) ++ (sync.doc.metaMap.entries.map Prod.fst)).filter
    (fun fileId => !sync.isReferenced fileId) |>.eraseDups

def cleanOrphans : VaultSync :=
  let sync := sync.ensurePathIndexes normalizePath
  let allOrphanIds := sync.orphanIds
  if allOrphanIds.length > 0 then
    sync.transact fun txn =>
      allOrphanIds.foldl (fun txn fileId => (txn.deleteText fileId).putMeta fileId none) txn
  else sync

def runIntegrityChecks (supply : Supply) (device : Option JsString) : VaultSync :=
  (sync.repairDuplicateIds now supply device).cleanOrphans normalizePath

end Integrity

section Schema

def clearAllMaps : VaultSync :=
  { sync.transact fun txn =>
      let txn := (txn.doc.metaMap.entries.map Prod.fst).foldl
        (fun txn fileId => txn.putMeta fileId none) txn
      { txn with
        doc := { txn.doc with
          pathToId := (txn.doc.pathToId.entries.map Prod.fst).foldl YMap.delete txn.doc.pathToId
          idToText := (txn.doc.idToText.entries.map Prod.fst).foldl YMap.delete txn.doc.idToText
          schemaVersion := .undefined
          pathToBlob :=
            (txn.doc.pathToBlob.entries.map Prod.fst).foldl YMap.delete txn.doc.pathToBlob
          blobTombstones :=
            (txn.doc.blobTombstones.entries.map Prod.fst).foldl YMap.delete txn.doc.blobTombstones
          markdownPathRetirements := (txn.doc.markdownPathRetirements.entries.map Prod.fst).foldl
            YMap.delete txn.doc.markdownPathRetirements }
        retirementsTouched := true }
    with pathIndexesDirty := true }

def setSchemaVersion (version : ℕ) : VaultSync :=
  sync.transact fun txn => { txn with
    doc := { txn.doc with schemaVersion := .num (some version) } }

def markCurrentSchema : VaultSync :=
  if sync.doc.storedSchemaVersion.getD 1 ≥ schemaVersion then sync
  else sync.setSchemaVersion schemaVersion

/-- `initialized` is the mark of `sys` that is read first. -/
def markInitialized (initialized : Bool) : VaultSync :=
  if initialized then sync
  else if sync.doc.storedSchemaVersion = none then sync.setSchemaVersion schemaVersion
  else sync

end Schema

end VaultSync

end Kaos.Sync
