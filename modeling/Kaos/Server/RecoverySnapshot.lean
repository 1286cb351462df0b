import Mathlib.Data.List.Dedup
import Kaos.Server.RecoveryManifest

/-! `createIndexedRecoverySnapshot` up to its uploads, and the objects it writes. -/
namespace Kaos.Server

open Kaos.Lib

structure RecoveryIndexSnapshot where
  manifestId : Option JsString
  stateHash : Option JsString
  entries : List RecoveryStateEntry
  deriving DecidableEq

structure RecoveryLatestState where
  manifestId : JsString
  createdAt : JsString
  stateHash : JsString
  entries : List RecoveryStateEntry
  deriving DecidableEq

structure PreparedFileHistoryContent where
  hash : JsString
  content : JsString
  deriving DecidableEq

structure PreparedFileHistoryPendingUpload where
  manifestId : JsString
  createdAt : JsString
  day : JsString
  stateHash : JsString
  previousStateHash : Option JsString
  reason : FileHistoryReason
  pinned : Bool
  triggeredBy : Option JsString
  crdtSchemaVersion : Option ℕ
  changedEntries : List FileHistoryEntry
  contentHashes : List JsString
  contentQueue : List PreparedFileHistoryContent
  persistedState : List RecoveryStateEntry
  processedDirtyFileIds : List JsString
  dirtyWatermark : Option ℕ
  uploadedContentCount : ℕ
  deriving DecidableEq

structure SnapshotOptions where
  triggeredBy : Option JsString
  reason : Option FileHistoryReason
  pinned : Option Bool
  now : ℕ
  random : Fin 4 → UInt8

/-- A later entry of a file replaces an earlier one. -/
def entriesByFileId {α : Type*} (fileId : α → JsString) (entries : List α) :
    OrderedMap JsString α :=
  entries.foldl (fun out entry => out.set (fileId entry) entry) .empty

/-- `Array.from(new Set(ids)).sort()` -/
def sortedIds (ids : List JsString) : List JsString :=
  ids.dedup.insertionSort fun s t => JsString.le s t = true

/-- Neither missing nor empty. -/
def truthy (s : Option JsString) : Bool := s.any (· ≠ [])

section Plan

variable (platform : RecoveryPlatform)

def sortedPersistedStateFromMap (entries : EntryMap) : List RecoveryStateEntry :=
  sortByFileId platform (·.fileId) entries.values

def buildContentQueue (entries : List InternalStateEntry) : List PreparedFileHistoryContent :=
  let unique : OrderedMap JsString JsString := entries.foldl (fun unique entry =>
    match entry.contentHash, entry.content with
    | some hash, some content => if hash = [] then unique else unique.set hash content
    | _, _ => unique) .empty
  (sortedIds unique.keys).map fun hash => ⟨hash, (unique.get? hash).getD []⟩

/-- What the two branches of `createIndexedRecoverySnapshot` compute. -/
structure SnapshotPlan where
  previousEntries : List RecoveryStateEntry
  previousManifestId : Option JsString
  previousStateHash : Option JsString
  changes : List FileHistoryEntry
  persistedState : List RecoveryStateEntry
  changedCurrentEntries : List InternalStateEntry
  processedDirtyFileIds : List JsString

/-- The current entries whose content a change needs. -/
def changedCurrentEntries (changes : List FileHistoryEntry)
    (currentByFileId : OrderedMap JsString InternalStateEntry) : List InternalStateEntry :=
  ((changes.filter fun entry => entry.kind ≠ .deleted ∧ truthy entry.contentHash).filterMap
    fun entry => currentByFileId.get? entry.fileId).filter fun entry => entry.content.isSome

/-- The changes of the current entries against the previous ones. -/
def entryChanges (previousByFileId : EntryMap) (current : List InternalStateEntry) :
    List FileHistoryEntry :=
  current.filterMap fun entry => buildChangeEntry entry (previousByFileId.get? entry.fileId)

/-- The branch that trusts the index and looks at the dirty files only. -/
def incrementalPlan (index : RecoveryIndexSnapshot) (selected : List InternalStateEntry)
    (dirtyFileIds : List JsString) : SnapshotPlan :=
  let processed := sortedIds dirtyFileIds
  let currentByFileId := entriesByFileId (·.fileId) selected
  let previousByFileId := entriesByFileId (·.fileId) index.entries
  let removed := processed.filter fun fileId =>
    (currentByFileId.get? fileId).isNone ∧ (previousByFileId.get? fileId).isSome
  let changes := entryChanges previousByFileId selected ++
    removed.filterMap fun fileId => (previousByFileId.get? fileId).map buildDeletionEntry
  let persistedByFileId := selected.foldl
    (fun persisted entry => persisted.set entry.fileId entry.toRecoveryStateEntry) previousByFileId
  { previousEntries := index.entries
    previousManifestId := index.manifestId
    previousStateHash := index.stateHash
    changes
    persistedState :=
      sortedPersistedStateFromMap platform (removed.foldl OrderedMap.delete persistedByFileId)
    changedCurrentEntries := changedCurrentEntries changes currentByFileId
    processedDirtyFileIds := processed }

/-- The branch that scans every file. -/
def fullPlan (latest : Option RecoveryLatestState) (current : List InternalStateEntry)
    (dirtyFileIds : List JsString) : SnapshotPlan :=
  let previousEntries := (latest.map (·.entries)).getD []
  let currentByFileId := entriesByFileId (·.fileId) current
  let previousByFileId := entriesByFileId (·.fileId) previousEntries
  let changes := entryChanges previousByFileId current ++
    (previousByFileId.values.filter fun previous =>
      (currentByFileId.get? previous.fileId).isNone).map buildDeletionEntry
  { previousEntries
    previousManifestId := latest.map (·.manifestId)
    previousStateHash := latest.map (·.stateHash)
    changes
    persistedState := current.map (·.toRecoveryStateEntry)
    changedCurrentEntries := changedCurrentEntries changes currentByFileId
    processedDirtyFileIds := sortedIds dirtyFileIds }

/-- Without changes the previous state stands; otherwise an upload is prepared. -/
inductive SnapshotDecision
  | noop (next : RecoveryIndexSnapshot) (processedDirtyFileIds : List JsString)
  | upload (prepared : PreparedFileHistoryPendingUpload)

def decideSnapshot (options : SnapshotOptions) (crdtSchemaVersion : Option ℕ)
    (plan : SnapshotPlan) : SnapshotDecision :=
  if plan.changes = [] ∧ truthy plan.previousManifestId then
    .noop ⟨plan.previousManifestId, plan.previousStateHash, plan.previousEntries⟩
      plan.processedDirtyFileIds
  else
    let queue := buildContentQueue plan.changedCurrentEntries
    .upload
      { manifestId := generateRecoveryManifestId options.now options.random
        createdAt := toISOString options.now
        day := (toISOString options.now).take 10
        stateHash := stateHash platform plan.persistedState
        previousStateHash := plan.previousStateHash
        reason := options.reason.getD .automatic
        pinned := options.pinned.getD (options.reason.getD .automatic ≠ .automatic)
        triggeredBy := options.triggeredBy
        crdtSchemaVersion
        changedEntries := plan.changes.map fun change =>
          { change with device := change.device.or options.triggeredBy }
        contentHashes := queue.map (·.hash)
        contentQueue := queue
        persistedState := plan.persistedState
        processedDirtyFileIds := plan.processedDirtyFileIds
        dirtyWatermark := none
        uploadedContentCount := 0 }

end Plan

/-- Where the next slice of an upload starts. -/
def sliceStart (prepared : PreparedFileHistoryPendingUpload) : ℕ :=
  min prepared.uploadedContentCount prepared.contentQueue.length

/-- Where it ends; a limit below one counts as one. -/
def sliceEnd (prepared : PreparedFileHistoryPendingUpload) (limit : Option ℕ) : ℕ :=
  match limit with
  | none => prepared.contentQueue.length
  | some limit => min prepared.contentQueue.length (sliceStart prepared + max 1 limit)

section Artifacts

variable (platform : RecoveryPlatform) (vaultId : JsString)
  (prepared : PreparedFileHistoryPendingUpload)

def manifestWithoutHash : FileHistoryManifest where
  storageVersion := RECOVERY_V2_PREFIX
  manifestId := prepared.manifestId
  vaultId := vaultId
  kind := FILE_HISTORY_KIND
  createdAt := prepared.createdAt
  day := prepared.day
  reason := prepared.reason
  pinned := prepared.pinned
  changedCount := prepared.changedEntries.length
  contentHashes := prepared.contentHashes
  changedEntries := prepared.changedEntries
  stateHash := prepared.stateHash
  manifestHash := []
  crdtSchemaVersion := prepared.crdtSchemaVersion
  schemaVersion := RECOVERY_SCHEMA_VERSION

/-- The manifest `writeRecoverySnapshotArtifacts` stores. -/
def preparedManifest : FileHistoryManifest :=
  { manifestWithoutHash vaultId prepared with
    manifestHash := platform.sha256Hex
      (platform.stringifyManifest (manifestWithoutHash vaultId prepared)) }

/-- Its index repeats it. -/
def preparedIndex : FileHistoryManifestIndex :=
  (preparedManifest platform vaultId prepared).toFileHistoryManifestIndex

def preparedLatestState : RecoveryLatestState where
  manifestId := prepared.manifestId
  createdAt := prepared.createdAt
  stateHash := prepared.stateHash
  entries := prepared.persistedState

end Artifacts

end Kaos.Server
