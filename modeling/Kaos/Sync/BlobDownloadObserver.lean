import Kaos.Sync.BlobDownloadRuns

/-! Remote updates of an attachment path's reference, and the downloads that they lead to. -/
namespace Kaos.Sync

open Kaos.Lib

namespace BlobDownloads

variable (s : BlobDownloads)

/-- A stage keeps the path from being downloaded, and so does an Attention entry about the same
attachment; what is queued is dropped. -/
def scheduleDownload (hash : JsString) (acceptableLocalHashes : List JsString)
    (artifactIsFile : Bool) : BlobDownloads :=
  if s.world.stage.any fun stage =>
      !s.isDownloadStageSupersededByCurrentSourceEpisode hash stage then s.dropQueued
  else if s.world.attention.any (·.reason = .legacyMissingBlob) then s.dropQueued
  else if s.world.attention.any fun entry => entry.reason = .remoteDownloadLocalConflict &&
      entry.artifactPath.isSome && artifactIsFile && entry.knownRemoteHash = some hash &&
      entry.knownRemoteSourceVersion = s.world.getBlobSourceVersion then s.dropQueued
  else if !s.world.isSyncable then s.dropQueued
  else s.enqueueDownload hash acceptableLocalHashes

/-- An Attention entry about a remote delete is resolved by a reference that is there again. -/
def resolveRemoteDelete : BlobDownloads :=
  if s.world.attention.any (·.reason.isRemoteDelete) then
    s.withWorld { s.world with attention := none }
  else s

def withBlobRef (ref : BlobRef) (sourceVersion : Option JsString)
    (tombstone : Option BlobTombstone) : BlobDownloads :=
  s.withWorld { s.world with live := some (ref, sourceVersion), tombstone }

/-- The transaction that sets the path's reference, with what the observer does at its end. -/
def observeBlobRef (ref : BlobRef) (sourceVersion : Option JsString)
    (tombstone : Option BlobTombstone) (isCausal artifactIsFile : Bool) : BlobDownloads :=
  let s := s.withBlobRef ref sourceVersion tombstone
  if !s.world.isSyncable then s.dropQueued
  else s.resolveRemoteDelete.scheduleDownload ref.hash
    (if isCausal then getBlobRefPriorHashes ref else []) artifactIsFile

end BlobDownloads

/-- While remote updates come in, attempts go on, and only other paths change besides. -/
inductive RefUpdateEvent
  | update (ref : BlobRef) (sourceVersion : Option JsString) (tombstone : Option BlobTombstone)
    (isCausal artifactIsFile : Bool)
  | around (parentMissing settlementAuthority operationAuthority : Bool)
    (backup artifact : ℕ → Option (Option ℕ))
  | drain (result : DownloadResult)
  | read (attempt : ℕ)
  | call (attempt file : ℕ) (stat : ℕ × ℕ)
  | resume (attempt : ℕ) (result : DownloadResult)

def BlobDownloads.nextUpdate (hashArrayBuffer : List UInt8 → JsString) (s : BlobDownloads) :
    RefUpdateEvent → BlobDownloads
  | .update ref sourceVersion tombstone isCausal artifactIsFile =>
    s.observeBlobRef ref sourceVersion tombstone isCausal artifactIsFile
  | .around parentMissing settlementAuthority operationAuthority backup artifact => s.withWorld
    { s.world with parentMissing, settlementAuthority, operationAuthority, backup, artifact }
  | .drain result => s.next hashArrayBuffer (.drain result)
  | .read i => s.next hashArrayBuffer (.read i)
  | .call i file stat => s.next hashArrayBuffer (.call i file stat)
  | .resume i result => s.next hashArrayBuffer (.resume i result)

/-- The manager after `n` events. -/
def updatesAt (hashArrayBuffer : List UInt8 → JsString) (w : DownloadWorld)
    (events : List RefUpdateEvent) (n : ℕ) : BlobDownloads :=
  stateAt (BlobDownloads.nextUpdate hashArrayBuffer) { world := w } events n

def DownloadPhase.isDone : DownloadPhase → Bool
  | .done => true
  | _ => false

/-- The file has the bytes of the reference, and the reference is the settled one. -/
def DownloadWorld.HasTarget (hashArrayBuffer : List UInt8 → JsString) (w : DownloadWorld)
    (ref : BlobRef) : Prop :=
  (∃ file data, w.file = some file ∧ w.disk file = some data ∧ hashArrayBuffer data = ref.hash) ∧
    sameBlobRef w.getSettledRef (some ref) = true

namespace BlobDownloads

variable (hashArrayBuffer : List UInt8 → JsString) (s : BlobDownloads)

/-- Something says that the path is not what its reference is. -/
def RecordsDisagreement : Prop :=
  s.world.attention.isSome = true ∨ s.world.stage.isSome = true ∨ 0 < s.permanentFailures ∨
    s.world.settledRef.isSome = true ∧ s.world.file = none

def Answers : Prop :=
  ∀ ref, s.world.isSyncable = true → s.world.getAuthoritativeDownloadRef = some ref →
    s.world.HasTarget hashArrayBuffer ref ∨ s.RecordsDisagreement

/-- Nothing is queued, in flight or waiting for a retry. -/
def IsIdle : Prop := s.queued = none ∧ ∀ a ∈ s.attempts, a.phase.isDone = true

/-- The manager is at work, and nobody decides on an Attention entry of the path. -/
structure Serving : Prop where
  downloadGateOpen : s.world.downloadGateOpen = true
  destroyed : s.world.destroyed = false
  attentionAcceptInFlight : s.world.attentionAcceptInFlight = false

end BlobDownloads

/-- A stage that an attempt has resumed, or an equality, is being recorded: the item is dropped
then, whatever has come in between. -/
def DownloadPhase.recording : DownloadPhase → Option (BlobRef × JsString)
  | .finalizing .staged _ _ ref sourceVersion .recorded => some (ref, sourceVersion)
  | .finalizing .staged _ _ ref sourceVersion .persisted => some (ref, sourceVersion)
  | .finalizing .equality _ _ ref sourceVersion .recorded => some (ref, sourceVersion)
  | .finalizing .equality _ _ ref sourceVersion .persisted => some (ref, sourceVersion)
  | _ => none

/-- An update does not come while an attempt holds a stage, unless it supersedes that stage, or
records a stage that drops its item; and no item is taken again while an attempt works on it. -/
def RefUpdateEvent.IsHeard (s : BlobDownloads) : RefUpdateEvent → Prop
  | .update ref sourceVersion tombstone _ _ => (∀ a ∈ s.attempts, a.phase.isOver = true) ∨
    (∀ stage, s.world.stage = some stage →
      (s.withBlobRef ref sourceVersion tombstone).isDownloadStageSupersededByCurrentSourceEpisode
        ref.hash stage = true) ∧ ∀ a ∈ s.attempts, a.phase.recording = none
  | .drain _ => s.queued.any (fun id => s.items[id]?.any (!·.isProcessing)) = true →
    ∀ a ∈ s.attempts, a.phase.isOver = true
  | _ => True

end Kaos.Sync
