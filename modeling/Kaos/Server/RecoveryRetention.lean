import Kaos.Lib.Run
import Kaos.Server.RecoveryBucket

/-! Snapshots in slices beside retention runs, one bucket operation at a time. -/
namespace Kaos.Server

open Kaos.Lib

/-- Where the room's one snapshot stands. -/
inductive SnapshotPhase
  | idle
  | putting (prepared : PreparedFileHistoryPendingUpload) (limit : Option ℕ)
    (left : List PreparedFileHistoryContent)
  | manifest (prepared : PreparedFileHistoryPendingUpload)
  | manifestIndex (prepared : PreparedFileHistoryPendingUpload)
  | latestState (prepared : PreparedFileHistoryPendingUpload)
  | latestIndex (prepared : PreparedFileHistoryPendingUpload)

/-- The snapshot at work and the upload to resume. -/
structure SnapshotRoom where
  phase : SnapshotPhase := .idle
  pending : Option PreparedFileHistoryPendingUpload := none

/-- What a call of `createIndexedRecoverySnapshot` gets and finds. -/
structure SnapshotCall where
  doc : FileDoc
  text : JsString → Option JsString
  indexSnapshot : Option RecoveryIndexSnapshot
  dirtyFileIds : List JsString
  trustCleanIndex : Bool
  options : SnapshotOptions
  contentUploadLimit : Option ℕ

/-- A put names the object among those left of the slice; a stray put comes from a worker of a
slice that has thrown. -/
inductive SnapshotInput
  | call (call : SnapshotCall)
  | put (k : ℕ)
  | finishSlice
  | write
  | throws
  | stray (item : PreparedFileHistoryContent)

/-- Where a retention run stands: it lists, reads the indexes in any order, reads the manifests of
kept records without a hash, prunes, reads the latest state, lists the contents and deletes. -/
inductive RetentionPhase
  | listing (cursor : Option JsString) (ids : List JsString)
  | indexes (ids : List JsString) (parsed : OrderedMap JsString (Option FileHistoryManifestIndex))
  | references (keep prune : List FileHistoryManifestIndex)
    (parsed : OrderedMap JsString (Option FileHistoryManifest))
  | pruning (keep referenced prune : List FileHistoryManifestIndex)
  | latest (keep referenced : List FileHistoryManifestIndex)
  | contents (referenced : List JsString) (cursor : Option JsString) (hashes : List JsString)
  | deleting (referenced hashes : List JsString)

structure RetentionRun where
  policy : RecoveryRetentionPolicy
  now : ℕ
  phase : RetentionPhase := .listing none []

/-- A page of a listing goes up to a key; the last one has no bound. -/
inductive RetentionInput
  | page (upTo : Option JsString)
  | read (manifestId : JsString)
  | advance

structure RecoveryWorld where
  bucket : RecoveryBucket := ⟨.empty, .empty, .empty, none, none⟩
  room : SnapshotRoom := {}
  runs : List RetentionRun := []

inductive RecoveryEvent
  | snapshot (input : SnapshotInput)
  | startRetention (policy : RecoveryRetentionPolicy) (now : ℕ)
  | retention (i : ℕ) (input : RetentionInput)

/-- The keys of one page. -/
def pageOf (keyOf : JsString → JsString) (cursor upTo : Option JsString) (keys : List JsString) :
    List JsString :=
  keys.filter fun key => cursor.all (fun c => ¬ JsString.le (keyOf key) (keyOf c)) ∧
    upTo.all fun u => JsString.le (keyOf key) (keyOf u)

def manifestKeyOf (manifestId : JsString) : JsString := manifestId ++ js ".json.gz"

def contentKeyOf (hash : JsString) : JsString := hash ++ js ".md.gz"

section Steps

variable (platform : RecoveryPlatform) (vaultId : JsString)

/-- The branches of a call without a pending upload. -/
def freshSnapshot (bucket : RecoveryBucket) (call : SnapshotCall) : SnapshotDecision :=
  let decide := decideSnapshot platform call.options call.doc.schemaVersion
  match call.indexSnapshot, call.trustCleanIndex with
  | some index, true =>
    if call.dirtyFileIds = [] then .noop index []
    else decide (incrementalPlan platform index
      (buildRecoveryStateSelection platform call.doc call.text (some (sortedIds call.dirtyFileIds)))
      call.dirtyFileIds)
  | _, _ => decide (fullPlan bucket.latestState.join
      (buildRecoveryStateSelection platform call.doc call.text none) call.dirtyFileIds)

/-- A slice of an upload that starts or goes on. -/
def startSlice (prepared : PreparedFileHistoryPendingUpload) (limit : Option ℕ) : SnapshotPhase :=
  .putting prepared limit ((prepared.contentQueue.take (sliceEnd prepared limit)).drop
    (sliceStart prepared))

/-- Calls run one after the other. The clock is in the range of `Date`, and the random part of a
new manifest id makes it unlike every stored one. -/
def beginCall (bucket : RecoveryBucket) (room : SnapshotRoom) (call : SnapshotCall) :
    SnapshotRoom :=
  match room.phase, room.pending with
  | .idle, some prepared =>
    { room with phase := startSlice prepared call.contentUploadLimit }
  | .idle, none =>
    match freshSnapshot platform bucket call with
    | .noop .. => room
    | .upload prepared =>
      if (isoTime call.options.now).isSome ∧ prepared.manifestId ∉ bucket.manifests.keys ∧
          prepared.manifestId ∉ bucket.manifestIndexes.keys then
        { room with phase := startSlice prepared call.contentUploadLimit }
      else room
  | _, _ => room

/-- One operation of the room. -/
def snapshotStep (bucket : RecoveryBucket) (room : SnapshotRoom) :
    SnapshotInput → RecoveryBucket × SnapshotRoom
  | .call call => (bucket, beginCall platform bucket room call)
  | .put k =>
    match room.phase with
    | .putting prepared limit left =>
      match left[k]? with
      | some item =>
        if platform.sha256Hex item.content = item.hash then
          ({ bucket with contents := bucket.contents.set item.hash item.content },
            { room with phase := .putting prepared limit (left.eraseIdx k) })
        else (bucket, { room with phase := .idle })
      | none => (bucket, room)
    | _ => (bucket, room)
  | .finishSlice =>
    match room.phase with
    | .putting prepared limit [] =>
      if prepared.contentQueue.length ≤ sliceEnd prepared limit then
        (bucket, { room with phase := .manifest prepared })
      else
        let next := { prepared with uploadedContentCount := sliceEnd prepared limit }
        (bucket, { phase := .idle, pending := some next })
    | _ => (bucket, room)
  | .write =>
    match room.phase with
    | .manifest prepared =>
      ({ bucket with
          manifests := bucket.manifests.set prepared.manifestId
            (some (preparedManifest platform vaultId prepared)) },
        { room with phase := .manifestIndex prepared })
    | .manifestIndex prepared =>
      ({ bucket with
          manifestIndexes := bucket.manifestIndexes.set prepared.manifestId
            (some (preparedIndex platform vaultId prepared)) },
        { room with phase := .latestState prepared })
    | .latestState prepared =>
      ({ bucket with latestState := some (some (preparedLatestState prepared)) },
        { room with phase := .latestIndex prepared })
    | .latestIndex prepared =>
      ({ bucket with latestIndex := some (some (preparedIndex platform vaultId prepared)) },
        { phase := .idle, pending := none })
    | _ => (bucket, room)
  | .throws => (bucket, { room with phase := .idle })
  | .stray item =>
    if platform.sha256Hex item.content = item.hash then
      ({ bucket with contents := bucket.contents.set item.hash item.content }, room)
    else (bucket, room)

/-- The records a run selects among, once every index is read. -/
def readRecords (ids : List JsString)
    (parsed : OrderedMap JsString (Option FileHistoryManifestIndex)) :
    List FileHistoryManifestIndex :=
  sortByCreatedAt platform ((listRecoveryManifestIds platform ids).filterMap fun id =>
    manifestRecord platform vaultId id (parsed.get? id).join)

/-- One operation of a run; reads succeed, and so do deletes. -/
def retentionStep (bucket : RecoveryBucket) (run : RetentionRun) :
    RetentionInput → RecoveryBucket × RetentionRun
  | .page upTo =>
    match run.phase with
    | .listing cursor ids =>
      let ids := ids ++ pageOf manifestKeyOf cursor upTo bucket.manifests.keys
      (bucket, { run with phase :=
        if upTo.isSome then .listing upTo ids else .indexes ids .empty })
    | .contents referenced cursor hashes =>
      let hashes := hashes ++ pageOf contentKeyOf cursor upTo bucket.contents.keys
      (bucket, { run with phase :=
        if upTo.isSome then .contents referenced upTo hashes else .deleting referenced hashes })
    | _ => (bucket, run)
  | .read id =>
    match run.phase with
    | .indexes ids parsed =>
      if (parsed.get? id).isNone then
        let parsed := parsed.set id (bucket.manifestIndexes.get? id).join
        (bucket, { run with phase := .indexes ids parsed })
      else (bucket, run)
    | .references keep prune parsed =>
      if (parsed.get? id).isNone then
        let parsed := parsed.set id (bucket.manifests.get? id).join
        (bucket, { run with phase := .references keep prune parsed })
      else (bucket, run)
    | _ => (bucket, run)
  | .advance =>
    match run.phase with
    | .indexes ids parsed =>
      if (listRecoveryManifestIds platform ids).all fun id => (parsed.get? id).isSome then
        let scan := selectRecoveryRetention platform run.policy run.now
          (readRecords platform vaultId ids parsed)
        (bucket, { run with phase := .references scan.keep scan.prune .empty })
      else (bucket, run)
    | .references keep prune parsed =>
      if keep.all fun record => record.manifestHash ≠ [] ∨ (parsed.get? record.manifestId).isSome
      then
        let referenced := keep.map fun record =>
          referenceRecord platform (parsed.get? record.manifestId).join record
        (bucket, { run with phase := .pruning keep referenced prune })
      else (bucket, run)
    | .pruning keep referenced (record :: prune) =>
      (bucket.deleteManifest record.manifestId,
        { run with phase := .pruning keep referenced prune })
    | .pruning keep referenced [] => (bucket, { run with phase := .latest keep referenced })
    | .latest keep referenced =>
      let hashes := referencedHashes keep referenced bucket.latestState.join
      (bucket, { run with phase := .contents hashes none [] })
    | .deleting referenced (hash :: hashes) =>
      (if isContentHash hash ∧ ¬ referenced.contains hash then bucket.deleteContent hash
        else bucket, { run with phase := .deleting referenced hashes })
    | _ => (bucket, run)

def recoveryNext (world : RecoveryWorld) : RecoveryEvent → RecoveryWorld
  | .snapshot input =>
    let (bucket, room) := snapshotStep platform vaultId world.bucket world.room input
    { world with bucket, room }
  | .startRetention policy now => { world with runs := world.runs ++ [{ policy, now }] }
  | .retention i input =>
    match world.runs[i]? with
    | some run =>
      let (bucket, run) := retentionStep platform vaultId world.bucket run input
      { world with bucket, runs := world.runs.set i run }
    | none => world

/-- The world after some events. -/
def worldAt (events : List RecoveryEvent) (n : ℕ) : RecoveryWorld :=
  stateAt (recoveryNext platform vaultId) {} events n

end Steps

/-- The upload that has begun and not been finished, at work or to be resumed. -/
def SnapshotRoom.unfinished (room : SnapshotRoom) : Option PreparedFileHistoryPendingUpload :=
  match room.phase with
  | .idle => room.pending
  | .putting prepared _ _ | .manifest prepared | .manifestIndex prepared | .latestState prepared
  | .latestIndex prepared => some prepared

/-- The hashes it is to leave in the bucket. -/
def SnapshotRoom.unfinishedHashes (room : SnapshotRoom) : List JsString :=
  (room.unfinished.map fun prepared => prepared.contentQueue.map (·.hash)).getD []

/-- The content that a run's next step deletes. -/
def RetentionRun.deletes (run : RetentionRun) : Option JsString :=
  match run.phase with
  | .deleting referenced (hash :: _) =>
    if isContentHash hash ∧ ¬ referenced.contains hash then some hash else none
  | _ => none

/-- No run deletes the content of an upload that was unfinished at any time since the run began. -/
def LeavesUploads (platform : RecoveryPlatform) (vaultId : JsString)
    (events : List RecoveryEvent) : Prop :=
  ∀ n i run hash, events[n]? = some (.retention i .advance) →
    (worldAt platform vaultId events n).runs[i]? = some run → run.deletes = some hash →
    ∀ k ≤ n, i < (worldAt platform vaultId events k).runs.length →
      hash ∉ (worldAt platform vaultId events k).room.unfinishedHashes

/-- Every content of every stored manifest is there. -/
def ContentsKept (bucket : RecoveryBucket) : Prop :=
  ∀ id manifest, bucket.manifests.get? id = some (some manifest) →
    ∀ hash ∈ manifest.contentHashes, hash ∈ bucket.contents.keys

end Kaos.Server
