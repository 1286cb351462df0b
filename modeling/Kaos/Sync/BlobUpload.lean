import Kaos.Lib.Run
import Kaos.Sync.VaultOperations

/-! Uploads of one attachment path. Between two awaits of an attempt its file, its reference, its
Attention entry, its settlement and the gate may all change, and it may be queued again. -/
namespace Kaos.Sync

open Kaos.Lib

/-- The lineage goes on with the reference before. -/
def createCausalBlobRef (hash : JsString) (size : ℤ) (previous : Option BlobRef) : BlobRef :=
  let candidates := match previous with
    | none => []
    | some previous => previous.hash :: getBlobRefPriorHashes previous
  { hash, size
    priorHashes := (candidates.filter fun candidate => isSha256Hex candidate ∧ candidate ≠ hash)
      |>.eraseDups.take maxBlobRefPriorHashes }

/-- What the JSON text of a reference is made of. -/
def blobRefFingerprint (ref : Option BlobRef) : Option (JsString × ℤ × List JsString) :=
  ref.map fun ref => (ref.hash, ref.size, getBlobRefPriorHashes ref)

/-- What the fingerprint of a delete of the path is made of. -/
structure BlobDeleteFingerprint where
  deletedAt : ℚ
  device : Option JsString
  deletedRef : Option (JsString × ℤ × List JsString)
  deriving DecidableEq

structure BlobDeleteState where
  fingerprint : BlobDeleteFingerprint
  deletedRef : Option BlobRef

inductive PreservedUnresolvedReason
  | remoteDeleteMissingBaseline
  | remoteDeleteReadFailed
  | remoteDeleteOpenEditorReadFailed
  | remoteDeleteMultipleOpenEditorAuthorities
  | remoteDeleteTrashFailed
  | remoteDeleteHashReadFailed
  | remoteDeleteStatFailed
  | remoteDeleteLocalConflict
  | remoteDownloadLocalConflict
  | legacyMissingBlob
  | other
  deriving DecidableEq

/-- The reasons an attachment can have. -/
def PreservedUnresolvedReason.isRemoteDelete : PreservedUnresolvedReason → Bool
  | .remoteDeleteMissingBaseline => true
  | .remoteDeleteHashReadFailed => true
  | .remoteDeleteStatFailed => true
  | .remoteDeleteTrashFailed => true
  | .remoteDeleteLocalConflict => true
  | _ => false

structure BlobAttentionEntry where
  reason : PreservedUnresolvedReason
  episodeId : JsString
  knownRemoteHash : Option JsString
  knownRemoteSourceVersion : Option JsString := none
  artifactPath : Option JsString

/-- Objects are numbered: a decision is told from another one with the same fields. -/
structure KeepLocalRemoteDelete where
  id : ℕ
  expectedReason : PreservedUnresolvedReason
  episodeId : JsString
  remoteDeleteFingerprint : BlobDeleteFingerprint
  deriving DecidableEq

structure KeepLocalDownloadConflict where
  id : ℕ
  episodeId : JsString
  expectedLocalHash : JsString
  expectedRemoteHash : JsString
  expectedRemoteRef : BlobRef
  expectedRemoteSourceVersion : JsString
  artifactPath : JsString
  deriving DecidableEq

inductive BlobKeepLocalUploadResolution
  | remoteDelete (resolution : KeepLocalRemoteDelete)
  | downloadConflict (resolution : KeepLocalDownloadConflict)
  deriving DecidableEq

inductive BlobSettlementStageKind
  | download
  | manualDownloadConflict
  | upload
  | equality
  | rename
  | retire
  deriving DecidableEq

structure BlobSettlementStage where
  stageId : JsString
  kind : BlobSettlementStageKind
  ref : Option BlobRef
  sourceVersion : Option JsString

/-- The attachment that a local edit was based on; where there was none it has no version. -/
structure UploadBase where
  known : Bool
  ref : Option BlobRef
  causalBaseRef : Option BlobRef
  sourceVersion : Option JsString
  sourceVersion_eq : ref = none → sourceVersion = none

def UploadBase.unknown : UploadBase := ⟨false, none, none, none, fun _ => rfl⟩

/-- `isProcessing` is the status. -/
structure UploadItem where
  base : UploadBase
  retries : ℕ
  isProcessing : Bool := false
  readyAt : ℕ := 0
  generation : ℕ
  attentionResolution : Option BlobKeepLocalUploadResolution
  needsRerun : Bool := false
  rerunResets : ℕ := 0

/-- What the manager can read of the path without waiting. -/
structure BlobPathWorld where
  /-- The path's entry in `pathToBlob`, with the version of its item. -/
  live : Option (BlobRef × Option JsString)
  tombstone : Option BlobTombstone
  /-- The path's `TFile`. -/
  file : Option ℕ
  isAtPath : ℕ → Bool
  stat : ℕ → ℕ × ℕ
  /-- What a fresh read of a file gives. -/
  disk : ℕ → Option (List UInt8)
  hashCache : Option ((ℕ × ℕ) × JsString)
  stage : Option BlobSettlementStage
  settledRef : Option BlobRef
  settledSourceVersion : Option JsString
  attention : Option BlobAttentionEntry
  uploadGateOpen : Bool
  destroyed : Bool
  attentionAcceptInFlight : Bool
  isSyncable : Bool
  /-- A path of a conflict artifact. -/
  isLocalOnly : Bool
  maxSize : ℕ
  settlementAuthority : Bool
  operationAuthority : Bool

namespace BlobPathWorld

variable (w : BlobPathWorld)

def getBlobRef : Option BlobRef := w.live.map Prod.fst

def getBlobSourceVersion : Option JsString := w.live.bind Prod.snd

def isBlobTombstoned : Bool := w.live.isNone && w.tombstone.isSome

/-- A live reference wins over a tombstone. -/
def getAuthoritativeBlobDeleteState : Option BlobDeleteState :=
  if w.live.isSome then none
  else w.tombstone.map fun tombstone =>
    let deletedRef := (cloneBlobRef tombstone.deletedRef).filter fun ref =>
      isSha256Hex ref.hash && decide (0 ≤ ref.size)
    { fingerprint := ⟨tombstone.deletedAt, tombstone.device, blobRefFingerprint deletedRef⟩
      deletedRef }

/-- What a stage hides. -/
def getSettledRef : Option BlobRef := if w.stage.isSome then none else cloneBlobRef w.settledRef

def hasExactKeepLocalAttentionEntry (resolution : KeepLocalRemoteDelete) : Bool :=
  w.attention.any fun entry => entry.reason = resolution.expectedReason &&
    entry.episodeId = resolution.episodeId && entry.reason.isRemoteDelete

def hasExactDownloadConflictAttentionEntry (resolution : KeepLocalDownloadConflict) : Bool :=
  w.attention.any fun entry => entry.reason = .remoteDownloadLocalConflict &&
    entry.episodeId = resolution.episodeId &&
    entry.knownRemoteHash = some resolution.expectedRemoteHash &&
    entry.artifactPath.all (· = resolution.artifactPath)

/-- Whether the decision is still about what the path now is. -/
def isResolutionActive : BlobKeepLocalUploadResolution → Bool
  | .remoteDelete resolution => w.hasExactKeepLocalAttentionEntry resolution &&
    w.getAuthoritativeBlobDeleteState.any (·.fingerprint = resolution.remoteDeleteFingerprint)
  | .downloadConflict resolution => w.hasExactDownloadConflictAttentionEntry resolution &&
    !w.isBlobTombstoned && sameBlobRef w.getBlobRef (some resolution.expectedRemoteRef) &&
    w.getBlobSourceVersion = some resolution.expectedRemoteSourceVersion

def captureUploadBase (resolution : Option BlobKeepLocalUploadResolution) : UploadBase :=
  match resolution with
  | some (.remoteDelete _) =>
    match w.getAuthoritativeBlobDeleteState with
    | some deleteState => ⟨true, cloneBlobRef w.getBlobRef, cloneBlobRef deleteState.deletedRef,
      none, fun _ => rfl⟩
    | none => .unknown
  | some (.downloadConflict resolution) =>
    match cloneBlobRef w.getBlobRef with
    | some ref =>
      if sameBlobRef (some ref) (some resolution.expectedRemoteRef) &&
          w.getBlobSourceVersion = some resolution.expectedRemoteSourceVersion &&
          w.hasExactDownloadConflictAttentionEntry resolution then
        ⟨true, some ref, some ref, w.getBlobSourceVersion, nofun⟩
      else .unknown
    | none => .unknown
  | none =>
    if w.isBlobTombstoned then .unknown
    else match cloneBlobRef w.getBlobRef with
      | some ref =>
        if sameBlobRef (some ref) w.getSettledRef && w.settledSourceVersion.isSome &&
            w.settledSourceVersion = w.getBlobSourceVersion then
          ⟨true, some ref, some ref, w.settledSourceVersion, nofun⟩
        else .unknown
      | none => if w.getSettledRef.isSome then .unknown else ⟨true, none, none, none, fun _ => rfl⟩

/-- Whether an edit on the base may still be published; the attempt's own stage hides nothing. -/
def isUploadBaseCurrent (base : UploadBase) (resolution : Option BlobKeepLocalUploadResolution)
    (ownedStage : Option BlobSettlementStage) : Bool :=
  if !base.known then false
  else if ownedStage.any fun stage => w.stage.all (·.stageId ≠ stage.stageId) then false
  else if !sameBlobRef w.getBlobRef base.ref then false
  else match resolution with
    | some (.remoteDelete _) => w.getAuthoritativeBlobDeleteState.any fun deleteState =>
      sameBlobRef deleteState.deletedRef base.causalBaseRef
    | some (.downloadConflict resolution) => !w.isBlobTombstoned &&
      sameBlobRef base.ref (some resolution.expectedRemoteRef) &&
      sameBlobRef base.causalBaseRef (some resolution.expectedRemoteRef) &&
      base.sourceVersion = some resolution.expectedRemoteSourceVersion &&
      w.getBlobSourceVersion = some resolution.expectedRemoteSourceVersion &&
      w.hasExactDownloadConflictAttentionEntry resolution
    | none =>
      if w.isBlobTombstoned then false
      else
        let settledRef := if ownedStage.isSome then cloneBlobRef w.settledRef else w.getSettledRef
        if base.ref.isSome then sameBlobRef base.causalBaseRef base.ref &&
          sameBlobRef settledRef base.ref && base.sourceVersion.isSome &&
          w.settledSourceVersion = base.sourceVersion &&
          w.getBlobSourceVersion = base.sourceVersion
        else base.causalBaseRef.isNone && settledRef.isNone

/-- The published reference that a decision about a download conflict has led to. -/
def getCommittedKeepLocalDownloadConflictRef (resolution : KeepLocalDownloadConflict) :
    Option BlobRef :=
  (cloneBlobRef w.getBlobRef).filter fun ref =>
    ref.hash = resolution.expectedLocalHash &&
    !sameBlobRef (some ref) (some resolution.expectedRemoteRef) &&
    (getBlobRefPriorHashes ref).contains resolution.expectedRemoteHash &&
    w.getBlobSourceVersion.isSome && sameBlobRef w.getSettledRef (some ref) &&
    w.settledSourceVersion = w.getBlobSourceVersion

def getCommittedKeepLocalRemoteDeleteRef : Option BlobRef :=
  if w.isBlobTombstoned then none
  else (cloneBlobRef w.getBlobRef).filter fun ref =>
    w.getBlobSourceVersion.isSome && sameBlobRef w.getSettledRef (some ref) &&
    w.settledSourceVersion = w.getBlobSourceVersion

/-- `setBlobRef` with a guard: the new entry, with the version that its item gets. -/
def setBlobRef (hash : JsString) (size : ℤ) (base : UploadBase)
    (sourceVersion : Option JsString) : Option (BlobRef × BlobPathWorld) :=
  if !sameBlobRef w.getBlobRef base.ref then none
  else if base.ref.isSome && (base.sourceVersion.isNone ||
      w.getBlobSourceVersion ≠ base.sourceVersion) then none
  else
    let ref := createCausalBlobRef hash size base.causalBaseRef
    some (ref, { w with live := some (ref, sourceVersion), tombstone := none })

/-- `prepareSettlementStage`; without a stage the promise is rejected. -/
def prepareSettlementStage (kind : BlobSettlementStageKind) (ref : BlobRef)
    (sourceVersion : Option JsString) (stageId : JsString) :
    Option BlobSettlementStage × BlobPathWorld :=
  match w.stage with
  | some current =>
    if current.kind = kind && sameBlobRef current.ref (cloneBlobRef (some ref)) &&
        current.sourceVersion = sourceVersion then (some current, w)
    else (none, w)
  | none =>
    let stage := { stageId, kind, ref := cloneBlobRef (some ref), sourceVersion }
    if w.settlementAuthority then (some stage, { w with stage := some stage }) else (none, w)

/-- What follows at once from a call of `abortSettlementStage`. -/
def abortSettlementStage (stage : BlobSettlementStage) : BlobPathWorld :=
  if w.settlementAuthority && w.stage.any (·.stageId = stage.stageId) then { w with stage := none }
  else w

end BlobPathWorld

/-- How far a call of `finalizeSettlementStage` has got. -/
inductive SettlementFinalization
  | refused
  | rejected
  | recorded
  | persisted
  deriving DecidableEq

/-- What follows at once from a call of `finalizeSettlementStage`, its persistence included. -/
def BlobPathWorld.finalizeSettlementStage (w : BlobPathWorld) (stage : BlobSettlementStage)
    (ref : BlobRef) (sourceVersion : JsString) : SettlementFinalization × BlobPathWorld :=
  if stage.kind = .retire || !sameBlobRef stage.ref (some ref) ||
      w.stage.all (·.stageId ≠ stage.stageId) || !sameBlobRef w.getBlobRef (some ref) ||
      w.getBlobSourceVersion ≠ some sourceVersion ||
      stage.sourceVersion.any (· ≠ sourceVersion) then (.refused, w)
  else if !w.settlementAuthority || w.stage.any fun staged => staged.kind = .retire ||
      !sameBlobRef staged.ref (some ref) || staged.sourceVersion.any (· ≠ sourceVersion) then
    (.rejected, w)
  else (.recorded,
    { w with
      settledRef := cloneBlobRef (some ref), settledSourceVersion := some sourceVersion
      stage := none })

end Kaos.Sync
