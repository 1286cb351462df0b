import Kaos.Server.DocStore
import Kaos.Yjs.Update

/-! The save chain of a room: draining, journal append, checkpoint fallbacks and compaction. -/
namespace Kaos.Server

open Kaos.Yjs

structure PersistenceCoordinatorOptions where
  checkpointFallbackAfterFailures : ℕ := 2
  journalCompactMaxEntries : ℕ := 50
  journalCompactMaxBytes : ℕ := 1 * 1024 * 1024

inductive PersistenceStatus
  | healthy | degraded
  deriving DecidableEq, Repr

/-- The health fields that depend on what happened, without timings and timestamps. -/
structure PersistenceHealth where
  status : PersistenceStatus := .healthy
  lastSaveError : Option String := none
  successfulSaveCount : ℕ := 0
  failedSaveCount : ℕ := 0
  consecutiveSaveFailures : ℕ := 0
  pendingPersistence : Bool := false
  queuedSaveCount : ℕ := 0
  lastDeltaBytes : Option ℕ := none
  lastCheckpointUpdateBytes : Option ℕ := none
  lastSavePhase : Option String := none
  lastFailurePhase : Option String := none
  journalEntryCount : Option ℕ := none
  journalBytes : Option ℕ := none
  checkpointFallbackCount : ℕ := 0
  lastCompactionReason : Option String := none
  lastCompactionError : Option String := none
  deriving DecidableEq, Repr

inductive SaveMethod
  | append | checkpointFallback | immediateFallback | skipped
  deriving DecidableEq, Repr

structure SaveResult where
  success : Bool
  method : SaveMethod
  error : Option String := none
  journalStats : Option JournalStats := none
  deriving DecidableEq, Repr

/-- What a store call throws. -/
structure StoreError where
  errorClass : String
  message : String
  deriving DecidableEq, Repr

structure PersistenceCoordinator where
  pendingUpdates : List Update := []
  lastPersistedStateVector : Option StateVector := none
  consecutiveSaveFailures : ℕ := 0
  health : PersistenceHealth := {}

/-- `compactJournalToCheckpoint` reports the vector of what it stored. -/
structure CheckpointCompactionResult where
  stateVector : StateVector
  journalStats : JournalStats

/-- The two callers of a checkpoint rewrite in the save path. -/
inductive Fallback
  | consecutive | immediate
  deriving DecidableEq, Repr

def Fallback.method : Fallback → SaveMethod
  | .consecutive => .checkpointFallback
  | .immediate => .immediateFallback

def Fallback.writePhase : Fallback → String
  | .consecutive => "checkpoint_fallback_write"
  | .immediate => "immediate_checkpoint_fallback_write"

/-- A link of the save chain that has not started. -/
inductive Task
  | save
  | compaction (journalStats : JournalStats)
  deriving DecidableEq, Repr

/-- Where the running link is suspended. `committed` says that the transaction of the awaited
store call has already taken effect, although its promise has not settled. -/
inductive Running
  | idle
  | append (delta : Update) (drained : List Update) (currentStateVector : StateVector)
      (committed : Bool)
  | rewrite (fallback : Fallback) (delta : Update) (drained : List Update)
      (checkpointUpdate : Update) (checkpointStateVector : StateVector) (committed : Bool)
  | journalStats (fallback : Fallback) (drained : List Update)
  | returned (drained : List Update) (result : SaveResult)
  | finished (result : SaveResult)
  | compact (journalStats : JournalStats) (committed : Option CheckpointCompactionResult)

/-- What the running link still holds: the update under way, or the drained updates a failed
save is about to put back. -/
def Running.update : Running → Update
  | .append delta drained _ _ => delta ⊔ mergeUpdates drained
  | .rewrite _ _ drained checkpointUpdate _ _ => checkpointUpdate ⊔ mergeUpdates drained
  | .journalStats _ drained => mergeUpdates drained
  | .returned drained _ => mergeUpdates drained
  | _ => ⊥

/-- A room: the live document, its coordinator, the store and the save chain. -/
structure Room where
  document : Doc
  coordinator : PersistenceCoordinator
  store : DocStore Update StateVector
  saveChain : List Task
  running : Running

namespace Room

/-- What a load of the store would bring back. -/
def stored (r : Room) : Update := mergeUpdates r.store.updates

def setHealth (r : Room) (f : PersistenceHealth → PersistenceHealth) : Room :=
  { r with coordinator := { r.coordinator with health := f r.coordinator.health } }

def setPhase (r : Room) (phase : String) : Room :=
  r.setHealth fun h => { h with lastSavePhase := some phase }

def setRunning (r : Room) (running : Running) : Room := { r with running }

def recordIncrementalUpdate (e : Encoding) (r : Room) (update : Update) : Room :=
  if e.byteLength update = 0 then r else
    ({ r with coordinator := { r.coordinator with
        pendingUpdates := r.coordinator.pendingUpdates ++ [update] } } : Room).setHealth
      fun h => { h with pendingPersistence := true }

/-- The document's update event, with the coordinator's listener attached. -/
def documentUpdate (e : Encoding) (r : Room) (update : Update) : Room :=
  ({ r with document := applyUpdate r.document update } : Room).recordIncrementalUpdate e update

def enqueueSave (r : Room) : Room :=
  ({ r with saveChain := r.saveChain ++ [.save] } : Room).setHealth fun h =>
    { h with queuedSaveCount := h.queuedSaveCount + 1, pendingPersistence := true }

def restorePendingUpdates (r : Room) (updates : List Update) : Room :=
  if updates = [] then r else
    ({ r with coordinator := { r.coordinator with
        pendingUpdates := updates ++ r.coordinator.pendingUpdates } } : Room).setHealth
      fun h => { h with pendingPersistence := true }

/-- Both fallbacks encode the live document and await the rewrite of the checkpoint. -/
def startFallback (e : Encoding) (r : Room) (fallback : Fallback) (delta : Update)
    (drained : List Update) : Room :=
  let checkpointUpdate := encodeStateAsUpdate r.document none
  let checkpointStateVector := encodeStateVector r.document
  (r.setHealth fun h => { h with
      lastCheckpointUpdateBytes := some (e.byteLength checkpointUpdate)
      lastSavePhase := some fallback.writePhase }).setRunning
    (.rewrite fallback delta drained checkpointUpdate checkpointStateVector false)

def executeCheckpointFallback (e : Encoding) (r : Room) (delta : Update)
    (drained : List Update) : Room := r.startFallback e .consecutive delta drained

def executeImmediateFallback (e : Encoding) (r : Room) (delta : Update)
    (drained : List Update) : Room := r.startFallback e .immediate delta drained

def executeAppend (r : Room) (delta : Update) (drained : List Update)
    (currentStateVector : StateVector) : Room :=
  (r.setPhase "append").setRunning (.append delta drained currentStateVector false)

/-- The pending updates merged, or without any the encoding against the persisted vector. -/
def saveDelta (r : Room) : Update :=
  if r.coordinator.pendingUpdates = [] then
    encodeStateAsUpdate r.document r.coordinator.lastPersistedStateVector
  else mergeUpdates r.coordinator.pendingUpdates

def skipped : SaveResult := { success := true, method := .skipped }

/-- `executeSave` up to its first await. -/
def executeSave (cfg : PersistenceCoordinatorOptions) (e : Encoding) (r : Room) : Room :=
  let currentStateVector := encodeStateVector r.document
  let drained := r.coordinator.pendingUpdates
  let delta := r.saveDelta
  let r := ({ r with coordinator := { r.coordinator with pendingUpdates := [] } } : Room).setHealth
    fun h => { h with lastFailurePhase := none, lastCheckpointUpdateBytes := none }
  if r.coordinator.lastPersistedStateVector = some currentStateVector ∧ drained = [] then
    (r.setPhase "skipped_equal_sv").setRunning (.finished skipped)
  else if e.byteLength delta = 0 then
    (r.setPhase "skipped_empty_delta").setRunning (.finished skipped)
  else
    let r := r.setHealth fun h => { h with lastDeltaBytes := some (e.byteLength delta) }
    if r.coordinator.consecutiveSaveFailures ≥ cfg.checkpointFallbackAfterFailures then
      r.executeCheckpointFallback e delta drained
    else r.executeAppend delta drained currentStateVector

def scheduleCompaction (r : Room) (journalStats : JournalStats) : Room :=
  { r with saveChain := r.saveChain ++ [.compaction journalStats] }

/-- `executeCompaction` up to its first await. -/
def executeCompaction (r : Room) (journalStats : JournalStats) : Room :=
  (r.setPhase "compaction_binary").setRunning (.compact journalStats none)

/-- A persisted save: the vector advances, the failure counter and the stale error clear. -/
def saveSucceeded (r : Room) (stateVector : StateVector) : Room :=
  ({ r with coordinator := { r.coordinator with
      lastPersistedStateVector := some stateVector, consecutiveSaveFailures := 0 } } : Room).setHealth
    fun h => { h with
      status := .healthy, lastSaveError := none, consecutiveSaveFailures := 0
      successfulSaveCount := h.successfulSaveCount + 1 }

def recordJournalStats (r : Room) (stats : JournalStats) : Room :=
  r.setHealth fun h => { h with
    journalEntryCount := some stats.entryCount, journalBytes := some stats.totalBytes }

/-- `executeAppend` once the append has resolved. -/
def appendSucceeded (cfg : PersistenceCoordinatorOptions) (e : Encoding) (r : Room)
    (delta : Update) (drained : List Update) (currentStateVector : StateVector) : Room :=
  let stats := r.store.journalStats e.byteLength
  let r := ((r.saveSucceeded currentStateVector).recordJournalStats stats).setHealth
    fun h => { h with lastDeltaBytes := some (e.byteLength delta) }
  let r := if stats.entryCount > cfg.journalCompactMaxEntries
      ∨ stats.totalBytes > cfg.journalCompactMaxBytes then r.scheduleCompaction stats else r
  r.setRunning (.returned drained
    { success := true, method := .append, journalStats := some stats })

/-- A save that failed: the counter grows and the room is degraded. -/
def saveFailed (r : Room) (error : String) : Room :=
  let failures := r.coordinator.consecutiveSaveFailures + 1
  ({ r with coordinator := { r.coordinator with consecutiveSaveFailures := failures } } : Room).setHealth
    fun h => { h with
      status := .degraded, lastSaveError := some error
      failedSaveCount := h.failedSaveCount + 1, consecutiveSaveFailures := failures
      lastFailurePhase := h.lastSavePhase }

/-- `executeAppend` once the append has thrown. -/
def appendFailed (cfg : PersistenceCoordinatorOptions) (e : Encoding) (r : Room)
    (delta : Update) (drained : List Update) (err : StoreError) : Room :=
  let r := r.saveFailed s!"{err.errorClass}: {err.message}"
  if r.coordinator.consecutiveSaveFailures ≥ cfg.checkpointFallbackAfterFailures then
    r.executeImmediateFallback e delta drained
  else r.setRunning (.returned drained
    { success := false, method := .append, error := some err.message })

/-- Both fallbacks once the rewrite has resolved, up to the await of the journal stats. -/
def checkpointWritten (e : Encoding) (r : Room) (fallback : Fallback) (delta : Update)
    (drained : List Update) (checkpointStateVector : StateVector) : Room :=
  ((r.saveSucceeded checkpointStateVector).setHealth fun h => { h with
      lastDeltaBytes := some (e.byteLength delta)
      checkpointFallbackCount := h.checkpointFallbackCount + 1 }).setRunning
    (.journalStats fallback drained)

def fallbackSucceeded (e : Encoding) (r : Room) (fallback : Fallback)
    (drained : List Update) : Room :=
  let stats := r.store.journalStats e.byteLength
  (r.recordJournalStats stats).setRunning (.returned drained
    { success := true, method := fallback.method, journalStats := some stats })

/-- The catch blocks differ: only the fallback that starts a save counts as its failure, the
immediate one follows an append whose failure is already counted. -/
def fallbackFailed (r : Room) (fallback : Fallback) (drained : List Update)
    (err : StoreError) : Room :=
  let r := match fallback with
    | .consecutive => r.saveFailed s!"{err.errorClass}: {err.message} (checkpoint fallback)"
    | .immediate => r.setHealth fun h => { h with lastFailurePhase := h.lastSavePhase }
  r.setRunning (.returned drained
    { success := false, method := fallback.method, error := some err.message })

/-- `executeSave` resumed with the result of its helper. -/
def saveReturned (r : Room) (drained : List Update) (result : SaveResult) : Room :=
  (if result.success then r else r.restorePendingUpdates drained).setRunning (.finished result)

/-- The finally block of `enqueueSave`. -/
def saveFinished (r : Room) : Room :=
  let queuedSaveCount := r.coordinator.health.queuedSaveCount - 1
  (r.setHealth fun h => { h with
      queuedSaveCount
      pendingPersistence := decide (queuedSaveCount > 0) || decide (h.status = .degraded)
        || decide (r.coordinator.pendingUpdates ≠ []) }).setRunning .idle

def compactionReason (cfg : PersistenceCoordinatorOptions) (stats : JournalStats) : String :=
  if stats.entryCount > cfg.journalCompactMaxEntries then "entry_count_exceeded"
  else "byte_size_exceeded"

def compactionSucceeded (cfg : PersistenceCoordinatorOptions) (r : Room)
    (journalStats : JournalStats) (result : CheckpointCompactionResult) : Room :=
  ((({ r with coordinator := { r.coordinator with
      lastPersistedStateVector := some result.stateVector
      consecutiveSaveFailures := 0 } } : Room).setHealth fun h => { h with
      status := .healthy, lastCompactionError := none
      lastCompactionReason := some (compactionReason cfg journalStats) }).recordJournalStats
    result.journalStats).setRunning .idle

def compactionFailed (cfg : PersistenceCoordinatorOptions) (r : Room)
    (journalStats : JournalStats) (err : StoreError) : Room :=
  (r.setHealth fun h => { h with
      lastCompactionReason := some (compactionReason cfg journalStats)
      lastCompactionError := some s!"{err.errorClass}: {err.message}"
      lastFailurePhase := h.lastSavePhase }).setRunning .idle

end Room

/-- `compactJournalToCheckpoint`: merge what is stored and rewrite the checkpoint with it. -/
def DocStore.compactJournalToCheckpoint (e : Encoding) (store : DocStore Update StateVector) :
    DocStore Update StateVector × CheckpointCompactionResult :=
  if store.updates = [] then
    (store, ⟨encodeStateVector ⊥, store.journalStats e.byteLength⟩)
  else
    let merged := mergeUpdates store.updates
    let stateVector := encodeStateVectorFromUpdate merged
    let store := DocStore.rewriteCheckpoint merged stateVector
    (store, ⟨stateVector, store.journalStats e.byteLength⟩)

/-- What can happen next in a room. The store calls of the running link commit, resolve or throw
at times of their own; a throw may come before or after the commit. -/
inductive RoomEvent
  | update (update : Update)
  | enqueueSave
  | runNext
  | commit
  | resolve
  | reject (err : StoreError)
  | resume

namespace Room

variable (cfg : PersistenceCoordinatorOptions) (e : Encoding)

def runNext (r : Room) : Option Room :=
  match r.running, r.saveChain with
  | .idle, .save :: rest => some (executeSave cfg e { r with saveChain := rest })
  | .idle, .compaction stats :: rest => some (executeCompaction { r with saveChain := rest } stats)
  | _, _ => none

def commit (r : Room) : Option Room :=
  match r.running with
  | .append delta drained currentStateVector false =>
    some (({ r with store := r.store.appendUpdate e.byteLength delta } : Room).setRunning
      (.append delta drained currentStateVector true))
  | .rewrite fallback delta drained checkpointUpdate checkpointStateVector false =>
    some (({ r with store := .rewriteCheckpoint checkpointUpdate checkpointStateVector } : Room).setRunning
      (.rewrite fallback delta drained checkpointUpdate checkpointStateVector true))
  | .compact stats none =>
    let (store, result) := r.store.compactJournalToCheckpoint e
    some (({ r with store } : Room).setRunning (.compact stats (some result)))
  | _ => none

def resolve (r : Room) : Option Room :=
  match r.running with
  | .append delta drained currentStateVector true =>
    some (r.appendSucceeded cfg e delta drained currentStateVector)
  | .rewrite fallback delta drained _ checkpointStateVector true =>
    some (r.checkpointWritten e fallback delta drained checkpointStateVector)
  | .journalStats fallback drained => some (r.fallbackSucceeded e fallback drained)
  | .compact stats (some result) => some (r.compactionSucceeded cfg stats result)
  | _ => none

def reject (r : Room) (err : StoreError) : Option Room :=
  match r.running with
  | .append delta drained _ _ => some (r.appendFailed cfg e delta drained err)
  | .rewrite fallback _ drained _ _ _ => some (r.fallbackFailed fallback drained err)
  | .journalStats fallback drained => some (r.fallbackFailed fallback drained err)
  | .compact stats _ => some (r.compactionFailed cfg stats err)
  | _ => none

def resume (r : Room) : Option Room :=
  match r.running with
  | .returned drained result => some (r.saveReturned drained result)
  | .finished _ => some r.saveFinished
  | _ => none

def next (r : Room) : RoomEvent → Option Room
  | .update update => some (r.documentUpdate e update)
  | .enqueueSave => some r.enqueueSave
  | .runNext => r.runNext cfg e
  | .commit => r.commit e
  | .resolve => r.resolve cfg e
  | .reject err => r.reject cfg e err
  | .resume => r.resume

def Step (r : Room) (event : RoomEvent) (r' : Room) : Prop := r.next cfg e event = some r'

end Room

end Kaos.Server
