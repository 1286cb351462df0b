import Kaos.Sync.MarkdownCreationHistory
import Kaos.Sync.PathIndexes

/-! The client's view of a vault: the document, the cached indexes and what is looked up in
them. A file id is never the empty string, so a test of one for truth is a test for presence. -/
namespace Kaos.Sync

open Kaos.Lib Kaos.Yjs

structure MarkdownPathRetirement where
  fileId : JsString
  oldPath : JsString
  operationId : JsString
  movedTo : JsString
  movedAt : ℚ
  deriving DecidableEq

def MarkdownPathRetirement.toJson (retirement : MarkdownPathRetirement) : Json :=
  .obj fun key =>
    if key = "fileId" then .str retirement.fileId
    else if key = "oldPath" then .str retirement.oldPath
    else if key = "operationId" then .str retirement.operationId
    else if key = "movedTo" then .str retirement.movedTo
    else if key = "movedAt" then .num (some retirement.movedAt)
    else .undefined

/-- A stored retirement of a file, if all its fields are there. -/
def readRetirement (fileId : JsString) (raw : Json) : Option MarkdownPathRetirement :=
  match asRecord raw with
  | none => none
  | some entry =>
    match entry "fileId", entry "oldPath", entry "operationId", entry "movedTo",
        readFinite (entry "movedAt") with
    | .str owner, .str oldPath, .str operationId, .str movedTo, some movedAt =>
      if owner = fileId then some { fileId, oldPath, operationId, movedTo, movedAt } else none
    | _, _, _, _, _ => none

structure MarkdownRemoteDeleteTombstoneSnapshot where
  fileId : JsString
  deletedAt : Option ℚ
  device : Option JsString
  deriving DecidableEq

/-- Two snapshots have one fingerprint if they are equal; the history is in a fixed order. -/
structure MarkdownRemoteDeleteSnapshot where
  path : JsString
  tombstones : List MarkdownRemoteDeleteTombstoneSnapshot
  retirement : Option MarkdownPathRetirement
  history : List MarkdownPathHistoryEntry
  deriving DecidableEq

abbrev RetirementIndex := OrderedMap JsString MarkdownPathRetirement

/-- `history` is what the gate of creations knows of a path. -/
structure VaultSync where
  doc : VaultDoc
  indexes : PathIndexes := {}
  pathIndexesDirty : Bool := true
  metaSnapshot : MetaSnapshot
  markdownRetirementIndex : Option RetirementIndex := none
  renameBatch : OrderedMap JsString JsString := .empty
  renameBatchNewToOld : OrderedMap JsString JsString := .empty
  history : JsString → List MarkdownPathHistoryEntry := fun _ => []

/-- A transaction on the document: what it has touched is observed when it ends. -/
structure Txn where
  doc : VaultDoc
  touched : List JsString := []
  retirementsTouched : Bool := false

namespace Txn

variable (txn : Txn)

def putMeta (fileId : JsString) (value : Option MetaValue) : Txn :=
  { txn with
    doc := { txn.doc with metaMap := txn.doc.metaMap.put fileId value }
    touched := txn.touched.insert fileId }

def setPathToId (path fileId : JsString) : Txn :=
  { txn with doc := { txn.doc with pathToId := txn.doc.pathToId.set path fileId } }

def deletePathToId (path : JsString) : Txn :=
  { txn with doc := { txn.doc with pathToId := txn.doc.pathToId.delete path } }

def setText (fileId : JsString) (text : YText) : Txn :=
  { txn with doc := { txn.doc with idToText := txn.doc.idToText.set fileId text } }

def deleteText (fileId : JsString) : Txn :=
  { txn with doc := { txn.doc with idToText := txn.doc.idToText.delete fileId } }

def setRetirement (retirement : MarkdownPathRetirement) : Txn :=
  { txn with
    doc := { txn.doc with
      markdownPathRetirements :=
        txn.doc.markdownPathRetirements.set retirement.fileId retirement.toJson }
    retirementsTouched := true }

def deleteRetirement (fileId : JsString) : Txn :=
  { txn with
    doc := { txn.doc with
      markdownPathRetirements := txn.doc.markdownPathRetirements.delete fileId }
    retirementsTouched := true }

/-- An attachment is taken from a path, and its last reference is kept in the tombstone. -/
def tombstoneBlob (now : ℚ) (path : JsString) (device : Option JsString) (deletedRef : BlobRef) :
    Txn :=
  { txn with doc := { txn.doc with
      pathToBlob := txn.doc.pathToBlob.delete path
      blobTombstones := txn.doc.blobTombstones.set path
        { deletedAt := now, device, deletedRef := some deletedRef } } }

/-- An attachment is put at a path. -/
def placeBlob (path : JsString) (ref : BlobRef) : Txn :=
  { txn with doc := { txn.doc with
      pathToBlob := txn.doc.pathToBlob.set path ref
      blobTombstones := txn.doc.blobTombstones.delete path } }

def setMetaActive (now : ℚ) (fileId path : JsString) (device : Option JsString) : Txn :=
  txn.putMeta fileId (activeEntry now txn.doc.metaMap fileId path device)

def setMetaDeleted (now : ℚ) (fileId path : JsString) : Txn :=
  txn.putMeta fileId (deletedEntry now txn.doc.metaMap fileId path)

end Txn

/-- A change that moves a file to another path or to none. -/
def MetaSemanticChange.isPathChange : MetaSemanticChange → Bool
  | .mtimeChanged _ _ | .deviceChanged _ _ => false
  | .added _ _ | .removed _ _ | .pathChanged _ _ _ _ _ | .deleted _ _ _ | .revived _ _
  | .invalid _ => true

namespace VaultSync

/-- A client that has just been given its document. -/
def load (doc : VaultDoc) : VaultSync :=
  { doc, metaSnapshot := buildMetaSnapshot doc.metaMap.live }

variable (sync : VaultSync)

/-- The observer of the metadata, after a transaction; `ambiguous` is whether its events leave
open which files they are about. -/
def metaDeepObserver (before : SharedMeta) (touched : List JsString) (ambiguous : Bool) :
    VaultSync :=
  let affected := touched.filter fun fileId =>
    (before.get? fileId).isSome || (sync.doc.metaMap.get? fileId).isSome
  let observed :=
    if ambiguous then
      let next := buildMetaSnapshot sync.doc.metaMap.live
      (computeMetaSemanticChanges sync.metaSnapshot next, next)
    else computeIncrementalMetaChanges sync.doc.metaMap.live sync.metaSnapshot affected
  { sync with
    metaSnapshot := observed.2
    pathIndexesDirty := sync.pathIndexesDirty || observed.1.any MetaSemanticChange.isPathChange }

/-- The end of a transaction: its document, and what the observers do. -/
def commit (txn : Txn) (ambiguous : Bool) : VaultSync :=
  { sync with
    doc := txn.doc
    markdownRetirementIndex :=
      if txn.retirementsTouched then none else sync.markdownRetirementIndex }.metaDeepObserver
    sync.doc.metaMap txn.touched ambiguous

def transact (body : Txn → Txn) : VaultSync := sync.commit (body { doc := sync.doc }) false

variable (normalizePath : JsString → JsString)

def ensurePathIndexes : VaultSync :=
  if sync.pathIndexesDirty then
    { sync with
      indexes := computePathIndexes normalizePath sync.doc.metaMap, pathIndexesDirty := false }
  else sync

/-- The file of a path, and the client after the lookup. -/
def getFileId (path : JsString) : Option JsString × VaultSync :=
  let path := normalizePath path
  let indexed := sync.ensurePathIndexes normalizePath
  if sync.doc.usesV2PathModel then (indexed.indexes.pathIndex.get? path, indexed)
  else match sync.doc.pathToId.get? path with
    | some legacy => (some legacy, sync)
    | none => (indexed.indexes.pathIndex.get? path, indexed)

def getTextForPath (path : JsString) : Option YText × VaultSync :=
  let found := sync.getFileId normalizePath (normalizePath path)
  (found.1.bind found.2.doc.idToText.get?, found.2)

def getActiveFileIdsForPath (path : JsString) : List JsString × VaultSync :=
  let path := normalizePath path
  let indexed := sync.ensurePathIndexes normalizePath
  match indexed.indexes.activePathCollisions.get? path with
  | some collision => (collision, indexed)
  | none => ((indexed.indexes.pathIndex.get? path).toList, indexed)

def getActiveMarkdownPaths : List JsString × VaultSync :=
  let indexed := sync.ensurePathIndexes normalizePath
  (indexed.indexes.pathIndex.keys, indexed)

def getActivePathCollisionPaths : List JsString × VaultSync :=
  let indexed := sync.ensurePathIndexes normalizePath
  (indexed.indexes.activePathCollisions.keys, indexed)

/-- Of two retirements of one path the one with the greater file id counts. -/
def noteRetirement (index : RetirementIndex) (entry : JsString × Json) : RetirementIndex :=
  match readRetirement entry.1 entry.2 with
  | none => index
  | some retirement =>
    let oldPath := normalizePath retirement.oldPath
    let noted := { retirement with oldPath, movedTo := normalizePath retirement.movedTo }
    match index.get? oldPath with
    | none => index.set oldPath noted
    | some existing =>
      if JsString.le existing.fileId entry.1 ∧ existing.fileId ≠ entry.1 then
        index.set oldPath noted
      else index

def computeRetirementIndex (retirements : YMap JsString Json) : RetirementIndex :=
  retirements.entries.foldl (noteRetirement normalizePath) .empty

def ensureRetirementIndex : RetirementIndex × VaultSync :=
  match sync.markdownRetirementIndex with
  | some index => (index, sync)
  | none =>
    let index := computeRetirementIndex normalizePath sync.doc.markdownPathRetirements
    (index, { sync with markdownRetirementIndex := some index })

def getMarkdownPathRetirement (path : JsString) : Option MarkdownPathRetirement × VaultSync :=
  let found := sync.ensureRetirementIndex normalizePath
  (found.1.get? (normalizePath path), found.2)

/-- `||`, `&&` and `?.length` ask only for what is needed. -/
def isPathTombstoned (path : JsString) : Bool × VaultSync :=
  let sync := sync.ensurePathIndexes normalizePath
  let normalized := normalizePath path
  if normalized ∈ sync.indexes.deletedPathIndex then (true, sync)
  else
    let retirement := sync.getMarkdownPathRetirement normalizePath normalized
    if retirement.1.isSome ∨ sync.history normalized ≠ [] then
      let active := retirement.2.getActiveFileIdsForPath normalizePath normalized
      (active.1 = [], active.2)
    else (false, retirement.2)

/-- The tombstones that a scan of the metadata finds at a path, by file id. -/
def tombstonesAt (metaMap : SharedMeta) (path : JsString) :
    List MarkdownRemoteDeleteTombstoneSnapshot :=
  (metaMap.entries.filterMap fun entry =>
    (decodeFileMeta entry.2).bind fun decoded =>
      if normalizePath decoded.path = path ∧ isFileMetaDeletedValue entry.2 then
        some { fileId := entry.1, deletedAt := decoded.deletedAt, device := decoded.device }
      else none).mergeSort fun a b => JsString.le a.fileId b.fileId

/-- A scan of the metadata finds an active entry at a path. -/
def hasActiveEntry (metaMap : SharedMeta) (path : JsString) : Bool :=
  metaMap.entries.any fun entry =>
    match decodeFileMeta entry.2 with
    | some decoded => normalizePath decoded.path = path ∧ !isFileMetaDeletedValue entry.2
    | none => false

/-- The first file of a path's history that is active elsewhere. -/
def movedFromHistory (metaMap : SharedMeta) (path : JsString)
    (history : List MarkdownPathHistoryEntry) : Option MarkdownPathRetirement :=
  history.findSome? fun entry =>
    (metaMap.get? entry.fileId).bind fun value =>
      (decodeFileMeta value).bind fun current =>
        if !isFileMetaDeletedValue value ∧ normalizePath current.path ≠ path then
          some { fileId := entry.fileId, oldPath := path, operationId := entry.historyId,
                 movedTo := normalizePath current.path, movedAt := current.mtime.getD 0 }
        else none

/-- By file id, then by the id of the entry. -/
def sortHistory (history : List MarkdownPathHistoryEntry) : List MarkdownPathHistoryEntry :=
  history.mergeSort fun a b =>
    if a.fileId = b.fileId then JsString.le a.historyId b.historyId else JsString.le a.fileId b.fileId

def getAuthoritativeMarkdownDeleteSnapshot (path : JsString) :
    Option MarkdownRemoteDeleteSnapshot × VaultSync :=
  let path := normalizePath path
  let tombstones := tombstonesAt normalizePath sync.doc.metaMap path
  let found := sync.getMarkdownPathRetirement normalizePath path
  let history := sync.history path
  if hasActiveEntry normalizePath sync.doc.metaMap path ∨
      (tombstones = [] ∧ found.1 = none ∧ history = []) then (none, found.2)
  else
    let retirement := found.1.or (movedFromHistory normalizePath sync.doc.metaMap path history)
    (some { path, tombstones, retirement, history := sortHistory history }, found.2)

end VaultSync

end Kaos.Sync
