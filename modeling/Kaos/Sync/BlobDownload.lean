import Kaos.Sync.BlobUploadAttempt

/-! Downloads of one attachment path: where an attempt waits, and what it knows there. -/
namespace Kaos.Sync

open Kaos.Lib

/-- Nothing is to be shown of what there is none of. -/
theorem absent {α : Type*} {o : Option α} {P : α → Prop} (h : o = none) (x : α) :
    o = some x → P x := by
  rintro rfl
  cases h

theorem absent₂ {α β : Type*} {o : Option (α × β)} {P : α → β → Prop} (h : o = none) (x : α)
    (y : β) : o = some (x, y) → P x y := by
  rintro rfl
  cases h

theorem absent₃ {α β γ : Type*} {o : Option (α × β × γ)} {P : α → β → γ → Prop} (h : o = none)
    (x : α) (y : β) (z : γ) : o = some (x, y, z) → P x y z := by
  rintro rfl
  cases h

/-- What a download can read of the path without waiting. -/
structure DownloadWorld extends BlobPathWorld where
  /-- Something that is no file is at the path. -/
  isFolder : Bool
  parentMissing : Bool
  downloadGateOpen : Bool
  /-- What is at the visible backup paths: a file, or something else. -/
  backup : ℕ → Option (Option ℕ)
  /-- What is at the candidate paths of a conflict artifact: a file, or something else. -/
  artifact : ℕ → Option (Option ℕ)
  artifactPath : ℕ → JsString

namespace DownloadWorld

variable (w : DownloadWorld)

def isVacant : Bool := w.file.isNone && !w.isFolder

def getAuthoritativeDownloadRef : Option BlobRef :=
  if w.isBlobTombstoned then none else w.getBlobRef

def withPath (world : BlobPathWorld) : DownloadWorld := { w with toBlobPathWorld := world }

/-- A file that is yet to be created has no bytes. -/
def isNew (file : ℕ) : Bool := (w.disk file).isNone

/-- A new file at the path. -/
def createBinary (file : ℕ) (stat : ℕ × ℕ) (data : List UInt8) : DownloadWorld :=
  { w with
    file := some file
    isAtPath := Function.update w.isAtPath file true
    stat := Function.update w.stat file stat
    disk := Function.update w.disk file (some data) }

/-- The file goes to a backup path. -/
def moveToBackup (file backupPath : ℕ) : DownloadWorld :=
  { w with
    file := none
    isAtPath := Function.update w.isAtPath file false
    backup := Function.update w.backup backupPath (some (some file)) }

def backupOwnsFile (backupPath file : ℕ) : Bool := w.backup backupPath = some (some file)

/-- The first of a hundred random candidates at which nothing is. -/
def nextAvailableBlobLocalBackupPath (candidates : List ℕ) : Option ℕ :=
  (candidates.take 100).find? fun candidate => (w.backup candidate).isNone

end DownloadWorld

/-- At most as many hashes as a lineage has, all of them well formed. -/
def normalizeAcceptableLocalHashes (hashes : List JsString) : List JsString :=
  if hashes.length > maxBlobRefPriorHashes ∨ hashes.any fun hash => !isSha256Hex hash then []
  else hashes.eraseDups

/-- What the item is to download next. -/
structure DownloadTarget where
  hash : JsString
  targetRefFingerprint : Option (JsString × ℤ × List JsString)
  acceptableLocalHashes : List JsString

structure DownloadItem where
  target : DownloadTarget
  retries : ℕ := 0
  isProcessing : Bool := false
  readyAt : ℕ := 0
  generation : ℕ
  next : Option DownloadTarget := none
  needsRerun : Bool := false
  rerunResets : ℕ := 0

/-- What an attempt finds when it is admitted: the local file, and what this device has settled. -/
structure DownloadAdmission where
  existing : Option UploadSource
  settledRef : Option BlobRef
  settledSourceVersion : Option JsString

def DownloadWorld.captureAdmission (w : DownloadWorld) : DownloadAdmission where
  existing := w.file.map fun file => ⟨file, w.stat file⟩
  settledRef := w.getSettledRef
  settledSourceVersion := w.settledSourceVersion

/-- Bytes that have arrived, with the stage under which they may be written. -/
structure StagedDownload where
  admission : DownloadAdmission
  data : List UInt8
  stage : BlobSettlementStage

/-- A local file whose bytes, read as `hash`, are older than the remote ones, and the backup path
that it goes to. -/
structure CleanPrior where
  source : UploadSource
  hash : JsString
  backupPath : ℕ

/-- Why a file is moved to a backup path: it is replaced, or it is a replica that came too late,
`prior` being the file that it had replaced. -/
inductive BackupPurpose
  | replace (prior : CleanPrior)
  | retire (prior : Option CleanPrior) (generation backupPath : ℕ)

def BackupPurpose.backupPath : BackupPurpose → ℕ
  | .replace prior => prior.backupPath
  | .retire _ _ backupPath => backupPath

inductive DownloadRead
  | staged (stage : BlobSettlementStage)
  | initial (admission : DownloadAdmission)
  | equality (target : BlobRef) (sourceVersion : JsString) (stage : BlobSettlementStage)
  | backup (download : StagedDownload) (purpose : BackupPurpose)
  | created (download : StagedDownload) (prior : Option CleanPrior)
  | race (download : StagedDownload)
  | artifact (download : StagedDownload) (localHash : JsString) (left : ℕ)

/-- What the attempt does once its stage has been given up. -/
inductive AfterStage
  | startAdmission
  | ended
  | fail
  | defer
  | deferOrFail
  | deferOrWait
  | conflict (download : StagedDownload) (localHash : JsString)

/-- What the attempt does once its predecessor has been restored. -/
inductive AfterRestore
  | superseded
  | createFailed

inductive AfterFinalize
  | staged
  | equality
  | settled
  | race

/-- Where an attempt waits. -/
inductive DownloadPhase
  | aborting (after : AfterStage) (stage : Option BlobSettlementStage)
  | reading (source : UploadSource) (purpose : DownloadRead) (read : ExactRead)
  | stagingUnversioned (staged : Bool)
  | stagingEquality (source : UploadSource) (target : BlobRef) (sourceVersion : JsString)
    (stage : Option BlobSettlementStage)
  | downloading (admission : DownloadAdmission) (before : Option JsString)
  | hashing (admission : DownloadAdmission) (before : Option JsString) (data : List UInt8)
  | stagingDownload (admission : DownloadAdmission) (before : Option JsString)
    (data : List UInt8) (stage : Option BlobSettlementStage)
  | creatingFolder (download : StagedDownload)
  | creating (download : StagedDownload) (prior : Option CleanPrior) (created : Option ℕ)
  | moving (download : StagedDownload) (source : UploadSource) (purpose : BackupPurpose)
  | restoreReading (download : StagedDownload) (prior : CleanPrior) (after : AfterRestore)
    (sample : Option (Option (List UInt8)))
  | restoreCreating (download : StagedDownload) (after : AfterRestore) (data : List UInt8)
    (created : Bool)
  | creatingArtifact (download : StagedDownload) (localHash : JsString) (left : ℕ) (created : Bool)
  | cachingArtifact (download : StagedDownload) (localHash : JsString) (left : ℕ)
  | finalizing (after : AfterFinalize) (hash : JsString) (stage : BlobSettlementStage)
    (ref : BlobRef) (sourceVersion : JsString) (finalization : SettlementFinalization)
  | done

/-- What `processDownload` keeps of its item. -/
structure DownloadAttempt where
  item : ℕ
  generation : ℕ
  attemptHash : JsString
  acceptableLocalHashes : List JsString
  phase : DownloadPhase

/-- What an await gives. -/
structure DownloadResult where
  rejected : Bool := false
  isRetryable : Bool := false
  /-- A rejection says that something exists already. -/
  alreadyExists : Bool := false
  /-- A rename throws before it begins. -/
  dispatchFails : Bool := false
  data : List UInt8 := []
  /-- Random backup paths. -/
  candidates : List ℕ := []
  now : ℕ := 0
  stageId : JsString := []
  episodeId : JsString := []

/-- An Attention entry for a download conflict. -/
structure DownloadConflictEntry extends BlobAttentionEntry where
  localHash : Option JsString
  knownRemoteRefFingerprint : Option (JsString × ℤ × List JsString)

/-- The queue at the path. -/
structure BlobDownloads where
  world : DownloadWorld
  generation : ℕ := 0
  items : List DownloadItem := []
  queued : Option ℕ := none
  attempts : List DownloadAttempt := []
  /-- The files that attempts have created at the path, with their remote bytes. -/
  installed : List (ℕ × ℕ × List UInt8) := []
  /-- The conflict artifacts that hold remote bytes. -/
  artifacts : List (ℕ × List UInt8) := []
  /-- The conflicts that attempts have recorded. -/
  conflicts : List (ℕ × DownloadConflictEntry) := []
  permanentFailures : ℕ := 0

end Kaos.Sync
