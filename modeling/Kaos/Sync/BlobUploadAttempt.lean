import Kaos.Sync.BlobUpload

/-! The upload queue of one attachment path and the attempts that it starts. -/
namespace Kaos.Sync

open Kaos.Lib

/-- The file that an attempt started from, with its modification time and size then. -/
structure UploadSource where
  file : ℕ
  stat : ℕ × ℕ

def BlobPathWorld.isIdentityCurrent (w : BlobPathWorld) (source : UploadSource) : Bool :=
  w.isAtPath source.file && w.file = some source.file && w.stat source.file = source.stat

/-- What the callback of an exact read has done. -/
inductive UploadCommit
  | refused (gateClosed authorityRejected : Bool)
  | accepted (ref : BlobRef) (sourceVersion : JsString) (markerResolved : Bool)

structure ExactSnapshot where
  hash : JsString
  data : List UInt8
  commit : UploadCommit

/-- How far a call of `readAndHashExactExistingFile` has got. -/
inductive ExactRead
  | pending
  | sampled (data : Option (List UInt8))
  | hashing (data : List UInt8)
  | stale
  | threw
  | returned (snapshot : ExactSnapshot)

inductive ReadOutcome
  | waits (read : ExactRead)
  | verified (data : List UInt8)
  | threw
  | returned (snapshot : Option ExactSnapshot)

def ExactRead.resume (isIdentityCurrent rejected : Bool) : ExactRead → ReadOutcome
  | .pending => .waits .pending
  | .sampled none => .waits .threw
  | .sampled (some data) => .waits (if isIdentityCurrent then .hashing data else .stale)
  | .hashing data =>
    if rejected then .waits .threw
    else if isIdentityCurrent then .verified data
    else .waits .stale
  | .stale => .returned none
  | .threw => .threw
  | .returned snapshot => .returned (some snapshot)

inductive ReadPurpose
  | initial
  | equality (hash : JsString) (ref : BlobRef) (sourceVersion : JsString)
    (stage : BlobSettlementStage)
  | upload (hash : JsString)
  | commit (hash : JsString) (stage : BlobSettlementStage)

inductive AfterAbort
  | rerun
  | discard
  | refused (gateClosed authorityRejected : Bool)

/-- How far the cleanup after a published decision has got. -/
inductive Completion
  | failed
  | skipped
  | persisting
  | trashing

/-- Where an attempt waits. -/
inductive UploadPhase
  | completingCommitted (completion : Completion)
  | rechecking (source : UploadSource) (expectedLocalHash : JsString) (read : ExactRead)
  | reading (purpose : ReadPurpose) (read : ExactRead)
  | stagingEquality (hash : JsString) (ref : BlobRef) (sourceVersion : JsString)
    (stage : Option BlobSettlementStage)
  | probing (hash : JsString) (data : Option (List UInt8))
  | uploading (hash : JsString)
  | stagingUpload (hash : JsString) (stage : Option BlobSettlementStage)
  | aborting (after : AfterAbort)
  | finalizingEquality (ref : BlobRef) (sourceVersion : JsString)
    (finalization : SettlementFinalization)
  | finalizingUpload (ref : BlobRef) (sourceVersion : JsString) (markerResolved : Bool)
    (finalization : SettlementFinalization)
  | completing (completion : Completion)
  | done

/-- What `processUpload` keeps in its variables. -/
structure UploadAttempt where
  item : ℕ
  generation : ℕ
  explicitResolution : Option BlobKeepLocalUploadResolution
  base : UploadBase
  source : Option UploadSource
  /-- How many uploads had been admitted for the path when the attempt started. -/
  admittedBefore : ℕ
  phase : UploadPhase

/-- What an await gives: how it ends, the time, and what the code gets from elsewhere next. -/
structure AwaitResult where
  rejected : Bool := false
  isRetryable : Bool := false
  isPresent : Bool := false
  now : ℕ := 0
  stageId : JsString := []
  sourceVersion : Option JsString := none
  /-- What observers do when a reference is published. -/
  observers : BlobPathWorld → BlobPathWorld := id

/-- The queue at the path; an item keeps its number when it leaves the queue. -/
structure BlobUploads where
  world : BlobPathWorld
  generation : ℕ := 0
  items : List UploadItem := []
  queued : Option ℕ := none
  attempts : List UploadAttempt := []
  /-- How many uploads have been admitted. -/
  admitted : ℕ := 0
  /-- The references that attempts have published. -/
  published : List (ℕ × BlobRef) := []

namespace BlobUploads

def maxRetries : ℕ := 3
def maxRerunResets : ℕ := 5
def retryBaseMs : ℕ := 1000
def retryCycleCooldownMs : ℕ := 60000

variable (s : BlobUploads)

def modifyItem (id : ℕ) (f : UploadItem → UploadItem) : BlobUploads :=
  { s with items := s.items.modify id f }

def dropQueued : BlobUploads := { s with queued := none }

def discardUploadItem (id : ℕ) : BlobUploads :=
  if s.queued = some id then s.dropQueued else s

def isTransferCurrent (generation : ℕ) : Bool :=
  !s.world.destroyed && !s.world.attentionAcceptInFlight && s.generation = generation

def isUploadAttemptCurrent (a : UploadAttempt) : Bool :=
  s.world.uploadGateOpen && s.isTransferCurrent a.generation && s.queued = some a.item &&
    s.items[a.item]?.any fun item => item.generation = a.generation && !item.needsRerun

/-- The decision is the one that the item has now. -/
def isKeepLocalUploadResolutionActive (id : ℕ) : Bool :=
  (s.items[id]?.bind (·.attentionResolution)).any s.world.isResolutionActive

/-- An upload that is not admitted leaves everything as it is. -/
def enqueueUpload (resolution : Option BlobKeepLocalUploadResolution)
    (allowAttentionAdmission : Bool) : BlobUploads :=
  if !s.world.isSyncable then s
  else if s.world.stage.isSome then
    match s.queued with
    | some id =>
      if s.world.stage.any (·.kind = .upload) && s.items[id]?.any (·.isProcessing) then
        { s.modifyItem id fun item => { item with needsRerun := true } with
          admitted := s.admitted + 1 }
      else s
    | none => s
  else if s.world.attentionAcceptInFlight && !allowAttentionAdmission then s
  else
    let base := s.world.captureUploadBase resolution
    match s.queued with
    | some id =>
      { s.modifyItem id fun item =>
          { item with
            base, retries := 0, readyAt := 0, generation := s.generation
            attentionResolution := resolution <|> item.attentionResolution
            needsRerun := item.needsRerun || item.isProcessing } with
        admitted := s.admitted + 1 }
    | none =>
      { s with
        items := s.items ++
          [{ base, retries := 0, generation := s.generation, attentionResolution := resolution }]
        queued := some s.items.length, admitted := s.admitted + 1 }

/-- An item that is stored comes back, unless there is one. -/
def importUpload (item : UploadItem) : BlobUploads :=
  if !s.world.isSyncable || s.queued.isSome then s
  else
    { s with
      items := s.items ++
        [{ item with isProcessing := false, readyAt := 0, generation := s.generation
                     base := if item.base.known then item.base else .unknown }]
      queued := some s.items.length, admitted := s.admitted + 1 }

def fenceTransfersForPath : BlobUploads :=
  { s with generation := s.generation + 1, queued := none }

def destroy : BlobUploads :=
  { s with
    world := { s.world with destroyed := true, uploadGateOpen := false, attention := none
                            attentionAcceptInFlight := false }
    generation := 0, queued := none }

def prepareUploadRerun (id : ℕ) : BlobUploads :=
  if s.queued ≠ some id then s
  else if s.world.file.isNone then s.dropQueued
  else s.modifyItem id fun item =>
    { item with needsRerun := false, isProcessing := false, retries := 0, readyAt := 0
                generation := s.generation }

variable (i : ℕ) (a : UploadAttempt) (result : AwaitResult)

def enter (phase : UploadPhase) : BlobUploads :=
  { s with attempts := s.attempts.set i { a with phase } }

def withWorld (world : BlobPathWorld) : BlobUploads := { s with world }

def endAttempt : BlobUploads := s.enter i a .done

def rerunOrDiscard : BlobUploads :=
  if s.isTransferCurrent a.generation then (s.prepareUploadRerun a.item).endAttempt i a
  else (s.discardUploadItem a.item).endAttempt i a

/-- The download that goes with it is not part of the queue. -/
def rejectStaleUploadAuthority : BlobUploads := (s.discardUploadItem a.item).endAttempt i a

/-- A failure ends the attempt; the item waits for a retry, runs again, or is given up. -/
def fail : BlobUploads :=
  if a.explicitResolution.any (fun
      | .downloadConflict resolution => !s.isKeepLocalUploadResolutionActive a.item &&
        (s.world.getCommittedKeepLocalDownloadConflictRef resolution).isNone
      | .remoteDelete _ => false) then s.rejectStaleUploadAuthority i a
  else if !s.world.uploadGateOpen then (s.prepareUploadRerun a.item).endAttempt i a
  else if !s.isTransferCurrent a.generation then (s.discardUploadItem a.item).endAttempt i a
  else match s.items[a.item]? with
    | none => s.endAttempt i a
    | some item =>
      if item.retries < maxRetries then
        (s.modifyItem a.item fun item =>
          { item with
            retries := item.retries + 1, isProcessing := false
            readyAt := result.now + retryBaseMs * 4 ^ item.retries }).endAttempt i a
      else if item.needsRerun && item.rerunResets < maxRerunResets then
        (s.modifyItem a.item fun item =>
          { item with
            needsRerun := false, isProcessing := false, retries := 0, readyAt := 0
            rerunResets := item.rerunResets + 1 }).endAttempt i a
      else if result.isRetryable then
        (s.modifyItem a.item fun item =>
          { item with
            isProcessing := false, retries := 0
            readyAt := result.now + retryCycleCooldownMs }).endAttempt i a
      else s.dropQueued.endAttempt i a

/-- A read of a file that is not the path's any more does not begin. -/
def startRead (purpose : ReadPurpose) : BlobUploads :=
  s.enter i a (.reading purpose
    (if a.source.any s.world.isIdentityCurrent then .pending else .stale))

/-- Bytes that the path already has are settled, others are uploaded. -/
def continueWithHash (hash : JsString) (data : Option (List UInt8)) : BlobUploads :=
  if a.explicitResolution.any (fun
      | .downloadConflict resolution => hash ≠ resolution.expectedLocalHash
      | .remoteDelete _ => false) then (s.discardUploadItem a.item).endAttempt i a
  else match s.world.getBlobRef with
    | some existingRef =>
      if a.explicitResolution.isNone ∧ existingRef.hash = hash then
        match s.world.getBlobSourceVersion with
        | none => s.rejectStaleUploadAuthority i a
        | some sourceVersion =>
          let (stage, world) := s.world.prepareSettlementStage .equality existingRef
            (some sourceVersion) result.stageId
          (s.withWorld world).enter i a (.stagingEquality hash existingRef sourceVersion stage)
      else s.enter i a (.probing hash data)
    | none => s.enter i a (.probing hash data)

/-- What has been published is not published again: the Attention entry goes. -/
def completeKeepLocalRemoteDelete (resolution : KeepLocalRemoteDelete) : Completion × BlobUploads :=
  if s.world.attention.isSome && !s.world.hasExactKeepLocalAttentionEntry resolution then
    (.skipped, s)
  else (.persisting, s.withWorld { s.world with attention := none })

def completeKeepLocalDownloadConflict (resolution : KeepLocalDownloadConflict)
    (committedRef : BlobRef) : Completion × BlobUploads :=
  if committedRef.hash ≠ resolution.expectedLocalHash then (.skipped, s)
  else if s.world.attention.isSome &&
      !s.world.hasExactDownloadConflictAttentionEntry resolution then (.skipped, s)
  else if !s.world.operationAuthority then (.failed, s)
  else (.persisting, s.withWorld { s.world with attention := none })

/-- What `processUpload` reads first. -/
def startAttempt (id : ℕ) (item : UploadItem) : UploadAttempt where
  item := id
  generation := item.generation
  explicitResolution := item.attentionResolution
  base := item.base
  source := s.world.file.map fun file => ⟨file, s.world.stat file⟩
  admittedBefore := s.admitted
  phase := .done

/-- The part of `processUpload` up to its first await. -/
def processUpload (id : ℕ) (item : UploadItem) : BlobUploads :=
  let i := s.attempts.length
  let a := s.startAttempt id item
  let s := { s with attempts := s.attempts ++ [a] }
  if s.world.stage.isSome then s.discardUploadItem id
  else if !s.world.uploadGateOpen then s.prepareUploadRerun id
  else if !s.isTransferCurrent a.generation then s.discardUploadItem id
  else if !s.world.isSyncable then s.dropQueued
  else
    let committed := a.explicitResolution.bind fun
      | .downloadConflict resolution =>
        (s.world.getCommittedKeepLocalDownloadConflictRef resolution).map fun ref =>
          s.completeKeepLocalDownloadConflict resolution ref
      | .remoteDelete resolution => s.world.getCommittedKeepLocalRemoteDeleteRef.map fun _ =>
        s.completeKeepLocalRemoteDelete resolution
    match committed with
    | some (completion, s) => s.enter i a (.completingCommitted completion)
    | none =>
      if a.explicitResolution.isSome && !s.isKeepLocalUploadResolutionActive id then
        s.discardUploadItem id
      else if s.world.isLocalOnly ||
          (a.explicitResolution.isNone && s.world.attention.isSome) then s.dropQueued
      else if !s.world.isUploadBaseCurrent a.base a.explicitResolution none then
        s.discardUploadItem id
      else match a.source with
        | none => s.dropQueued.withWorld { s.world with hashCache := none }
        | some source =>
          if s.world.maxSize > 0 ∧ source.stat.2 > s.world.maxSize then s.dropQueued
          else match s.world.hashCache.filter (·.1 = source.stat) with
            | some (_, hash) => s.continueWithHash i a result hash none
            | none => s.startRead i a .initial

/-- The drain takes a pending item. -/
def drain : BlobUploads :=
  match s.queued with
  | none => s
  | some id =>
    match s.items[id]? with
    | none => s
    | some item =>
      if s.world.uploadGateOpen && !s.world.attentionAcceptInFlight && !item.isProcessing &&
          item.readyAt ≤ result.now then
        (s.modifyItem id fun item => { item with isProcessing := true }).processUpload result id
          { item with isProcessing := true }
      else s

def sendUpload (hash : JsString) : BlobUploads :=
  if s.isUploadAttemptCurrent a then s.enter i a (.uploading hash) else s.rerunOrDiscard i a

/-- The bytes are on the server; the reference comes next. -/
def prepareCommit (hash : JsString) : BlobUploads :=
  if !s.world.uploadGateOpen then (s.prepareUploadRerun a.item).endAttempt i a
  else if !s.isTransferCurrent a.generation ||
      (a.explicitResolution.isSome && !s.isKeepLocalUploadResolutionActive a.item) then
    (s.discardUploadItem a.item).endAttempt i a
  else if !s.world.isUploadBaseCurrent a.base a.explicitResolution none then
    s.rejectStaleUploadAuthority i a
  else
    let size := (a.source.map (·.stat.2)).getD 0
    let (stage, world) := s.world.prepareSettlementStage .upload
      (createCausalBlobRef hash size a.base.causalBaseRef) none result.stageId
    (s.withWorld world).enter i a (.stagingUpload hash stage)

/-- The Attention entry that admitted a commit goes with it. -/
def resolveMarker (s : BlobUploads) (a : UploadAttempt) : Bool × BlobUploads :=
  match a.explicitResolution with
  | some (.remoteDelete resolution) =>
    if s.world.hasExactKeepLocalAttentionEntry resolution then
      (true, s.withWorld { s.world with attention := none })
    else (false, s)
  | _ => (false, s)

/-- The callback of the last exact read: its file, its bytes and everything else are current. -/
def commitUpload (hash : JsString) (stage : BlobSettlementStage) (snapshotHash : JsString)
    (data : List UInt8) : ExactRead × BlobUploads :=
  let size := (a.source.map (·.stat.2)).getD 0
  if !s.world.uploadGateOpen || !s.isUploadAttemptCurrent a || snapshotHash ≠ hash ||
      data.length ≠ size ||
      (a.explicitResolution.isSome && !s.isKeepLocalUploadResolutionActive a.item) then
    (.returned ⟨snapshotHash, data, .refused (!s.world.uploadGateOpen) false⟩, s)
  else if !s.world.isUploadBaseCurrent a.base a.explicitResolution (some stage) then
    (.returned ⟨snapshotHash, data, .refused false true⟩, s)
  else match s.world.setBlobRef hash size a.base result.sourceVersion with
    | none => (.returned ⟨snapshotHash, data, .refused false true⟩, s)
    | some (ref, world) =>
      let s := { s with world := result.observers world, published := s.published ++ [(i, ref)] }
      match result.sourceVersion with
      -- the reference is there, but the call has thrown
      | none => (.threw, s)
      | some sourceVersion =>
        let (markerResolved, s) := s.resolveMarker a
        (.returned ⟨snapshotHash, data, .accepted ref sourceVersion markerResolved⟩, s)

def abort (stage : BlobSettlementStage) (after : AfterAbort) : BlobUploads :=
  (s.withWorld (s.world.abortSettlementStage stage)).enter i a (.aborting after)

def finish : BlobUploads :=
  if s.items[a.item]?.any (·.needsRerun) then
    (s.modifyItem a.item fun item =>
      { item with needsRerun := false, isProcessing := false, retries := 0
                  readyAt := 0 }).endAttempt i a
  else s.dropQueued.endAttempt i a

/-- An attempt whose reference is settled cleans up after its decision. -/
def completeUpload (ref : BlobRef) (markerResolved : Bool) : BlobUploads :=
  match a.explicitResolution with
  | some (.downloadConflict resolution) =>
    let (completion, s) := s.completeKeepLocalDownloadConflict resolution ref
    s.enter i a (.completing completion)
  | some (.remoteDelete resolution) =>
    if markerResolved then
      let (completion, s) := s.completeKeepLocalRemoteDelete resolution
      s.enter i a (.completing completion)
    else s.finish i a
  | none => s.finish i a

/-- The decision is made no more. -/
def clearResolution : BlobUploads :=
  s.modifyItem a.item fun item =>
    if item.attentionResolution = a.explicitResolution then
      { item with attentionResolution := none }
    else item

def afterRead (purpose : ReadPurpose) (snapshot : Option ExactSnapshot) : BlobUploads :=
  match purpose with
  | .initial =>
    match snapshot with
    | some snapshot =>
      if s.isUploadAttemptCurrent a then
        s.continueWithHash i a result snapshot.hash (some snapshot.data)
      else s.rerunOrDiscard i a
    | none => s.rerunOrDiscard i a
  | .equality hash ref sourceVersion stage =>
    if s.isUploadAttemptCurrent a && snapshot.any (·.hash = hash) &&
        sameBlobRef s.world.getBlobRef (some ref) &&
        s.world.getBlobSourceVersion = some sourceVersion then
      let (finalization, world) := s.world.finalizeSettlementStage stage ref sourceVersion
      (s.withWorld world).enter i a (.finalizingEquality ref sourceVersion finalization)
    else if s.isTransferCurrent a.generation then s.abort i a stage .rerun
    else s.abort i a stage .discard
  | .upload hash =>
    if snapshot.any (·.hash = hash) && s.isUploadAttemptCurrent a then s.sendUpload i a hash
    else s.rerunOrDiscard i a
  | .commit _ stage =>
    match snapshot.map ExactSnapshot.commit with
    | some (.accepted ref sourceVersion markerResolved) =>
      let (finalization, world) := s.world.finalizeSettlementStage stage ref sourceVersion
      (s.withWorld world).enter i a
        (.finalizingUpload ref sourceVersion markerResolved finalization)
    | some (.refused gateClosed authorityRejected) =>
      s.abort i a stage (.refused gateClosed authorityRejected)
    | none => s.abort i a stage (.refused false false)

def afterAbort : AfterAbort → BlobUploads
  | .rerun => (s.prepareUploadRerun a.item).endAttempt i a
  | .discard => (s.discardUploadItem a.item).endAttempt i a
  | .refused gateClosed authorityRejected =>
    if gateClosed || !s.world.uploadGateOpen then (s.prepareUploadRerun a.item).endAttempt i a
    else if authorityRejected then s.rejectStaleUploadAuthority i a
    else s.rerunOrDiscard i a

/-- How an await of the cleanup ends: it has thrown, has ended, or waits again. -/
def resumeCompletion (completion : Completion) : Option (Option Completion) :=
  match completion with
  | .failed => none
  | .skipped => some none
  | .persisting =>
    if result.rejected || !s.world.operationAuthority then none
    else match a.explicitResolution with
      | some (.downloadConflict _) => some (some .trashing)
      | _ => some none
  | .trashing => if result.rejected then none else some none

/-- A local file that is no longer the published one is queued again. -/
def recheck : BlobUploads :=
  let s := (s.clearResolution a).dropQueued
  match a.explicitResolution, s.world.file with
  | some (.downloadConflict resolution), some file =>
    s.enter i a (.rechecking ⟨file, s.world.stat file⟩ resolution.expectedLocalHash
      (if s.world.isAtPath file then .pending else .stale))
  | _, _ => s.endAttempt i a

/-- How a settlement goes on: it has thrown, has ended with a result, or waits again. -/
def resumeFinalization (ref : BlobRef) (sourceVersion : JsString)
    (finalization : SettlementFinalization) : Option (Bool ⊕ SettlementFinalization) :=
  let isSame := sameBlobRef s.world.getBlobRef (some ref) &&
    s.world.getBlobSourceVersion = some sourceVersion
  match finalization with
  | .refused => some (.inl false)
  | .rejected => none
  | .recorded =>
    if result.rejected || !s.world.settlementAuthority || !isSame then none
    else some (.inr .persisted)
  | .persisted => some (.inl isSame)

variable (hashArrayBuffer : List UInt8 → JsString)

/-- The hash is remembered for the next attempt. -/
def setCachedHash (source : Option UploadSource) (data : List UInt8) : BlobUploads :=
  s.withWorld { s.world with
    hashCache := source.map fun source => (source.stat, hashArrayBuffer data) }

/-- An await of an attempt ends. -/
def resumeAttempt : BlobUploads :=
  match a.phase with
  | .completingCommitted completion =>
    match s.resumeCompletion a result completion with
    | none => s.fail i a result
    | some (some completion) => s.enter i a (.completingCommitted completion)
    | some none => s.recheck i a
  | .rechecking source expectedLocalHash read =>
    match read.resume (s.world.isIdentityCurrent source) result.rejected with
    | .waits read => s.enter i a (.rechecking source expectedLocalHash read)
    | .verified data => (s.setCachedHash hashArrayBuffer (some source) data).enter i a
      (.rechecking source expectedLocalHash
        (.returned ⟨hashArrayBuffer data, data, .refused false false⟩))
    | .threw => s.fail i a result
    | .returned snapshot =>
      if snapshot.any (·.hash ≠ expectedLocalHash) then
        (s.endAttempt i a).enqueueUpload none false
      else s.endAttempt i a
  | .reading purpose read =>
    match read.resume (a.source.any s.world.isIdentityCurrent) result.rejected with
    | .waits read => s.enter i a (.reading purpose read)
    | .verified data =>
      let s := s.setCachedHash hashArrayBuffer a.source data
      match purpose with
      | .commit hash stage =>
        let (read, s) := s.commitUpload i a result hash stage (hashArrayBuffer data) data
        s.enter i a (.reading purpose read)
      | _ => s.enter i a (.reading purpose
        (.returned ⟨hashArrayBuffer data, data, .refused false false⟩))
    | .threw => s.fail i a result
    | .returned snapshot => s.afterRead i a result purpose snapshot
  | .stagingEquality hash ref sourceVersion stage =>
    match stage.filter fun _ => !result.rejected with
    | none => s.fail i a result
    | some stage => s.startRead i a (.equality hash ref sourceVersion stage)
  | .probing hash data =>
    if result.rejected then s.fail i a result
    else if result.isPresent then s.prepareCommit i a result hash
    else if data.isSome then s.sendUpload i a hash
    else s.startRead i a (.upload hash)
  | .uploading hash =>
    if result.rejected then s.fail i a result else s.prepareCommit i a result hash
  | .stagingUpload hash stage =>
    match stage.filter fun _ => !result.rejected with
    | none => s.fail i a result
    | some stage => s.startRead i a (.commit hash stage)
  | .aborting after => if result.rejected then s.fail i a result else s.afterAbort i a after
  | .finalizingEquality ref sourceVersion finalization =>
    match s.resumeFinalization result ref sourceVersion finalization with
    | none => s.fail i a result
    | some (.inr finalization) => s.enter i a (.finalizingEquality ref sourceVersion finalization)
    | some (.inl true) => s.dropQueued.endAttempt i a
    | some (.inl false) => (s.discardUploadItem a.item).endAttempt i a
  | .finalizingUpload ref sourceVersion markerResolved finalization =>
    match s.resumeFinalization result ref sourceVersion finalization with
    | none => s.fail i a result
    | some (.inr finalization) =>
      s.enter i a (.finalizingUpload ref sourceVersion markerResolved finalization)
    | some (.inl true) => s.completeUpload i a ref markerResolved
    | some (.inl false) => s.fail i a result
  | .completing completion =>
    match s.resumeCompletion a result completion with
    | none => s.fail i a result
    | some (some completion) => s.enter i a (.completing completion)
    | some none => (s.clearResolution a).finish i a
  | .done => s

/-- The bytes of a read are taken at some moment between its call and its end. -/
def sampleRead : BlobUploads :=
  match a.phase with
  | .reading purpose .pending => s.enter i a
      (.reading purpose (.sampled (a.source.bind fun source => s.world.disk source.file)))
  | .rechecking source expectedLocalHash .pending => s.enter i a
      (.rechecking source expectedLocalHash (.sampled (s.world.disk source.file)))
  | _ => s

end BlobUploads

inductive UploadEvent
  /-- Files, references, tombstones, settlements, Attention entries and gates change. -/
  | world (w : BlobPathWorld)
  | enqueue (resolution : Option BlobKeepLocalUploadResolution) (allowAttentionAdmission : Bool)
  | importUpload (item : UploadItem)
  | fence
  | delete
  | destroy
  | drain (result : AwaitResult)
  | read (attempt : ℕ)
  | resume (attempt : ℕ) (result : AwaitResult)

def BlobUploads.next (hashArrayBuffer : List UInt8 → JsString) (s : BlobUploads) :
    UploadEvent → BlobUploads
  | .world w => s.withWorld w
  | .enqueue resolution allowAttentionAdmission =>
    s.enqueueUpload resolution allowAttentionAdmission
  | .importUpload item => s.importUpload item
  | .fence => s.fenceTransfersForPath
  | .delete => s.dropQueued
  | .destroy => s.destroy
  | .drain result => s.drain result
  | .read i =>
    match s.attempts[i]? with
    | some a => s.sampleRead i a
    | none => s
  | .resume i result =>
    match s.attempts[i]? with
    | some a => s.resumeAttempt i a result hashArrayBuffer
    | none => s

/-- The manager after `n` events. -/
def uploadsAt (hashArrayBuffer : List UInt8 → JsString) (w : BlobPathWorld)
    (events : List UploadEvent) (n : ℕ) : BlobUploads :=
  stateAt (BlobUploads.next hashArrayBuffer) { world := w } events n

end Kaos.Sync
