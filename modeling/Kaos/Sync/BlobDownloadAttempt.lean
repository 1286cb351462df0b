import Kaos.Sync.BlobDownload

/-! The steps of a download: what an attempt does when an await ends, and what vault calls do. -/
namespace Kaos.Sync

open Kaos.Lib

/-- Whether the file is still the one that is read; an artifact has a path of its own. -/
def DownloadWorld.isReadCurrent (w : DownloadWorld) (source : UploadSource) : DownloadRead → Bool
  | .artifact _ _ left => w.artifact left = some (some source.file) &&
    w.stat source.file = source.stat
  | _ => w.isIdentityCurrent source

namespace DownloadItem

/-- What came last is downloaded next. -/
def prepareDownloadRerun (item : DownloadItem) : DownloadItem :=
  { item with
    target := match item.next with
      | some next => { next with
        acceptableLocalHashes := normalizeAcceptableLocalHashes next.acceptableLocalHashes }
      | none => item.target
    next := none, needsRerun := false, isProcessing := false, retries := 0, readyAt := 0 }

/-- The reference is downloaded next. -/
def targets (item : DownloadItem) (ref : BlobRef) : DownloadItem :=
  { item with
    needsRerun := true
    next := if item.next.any (·.hash = ref.hash) then item.next else some
      { hash := ref.hash, targetRefFingerprint := blobRefFingerprint (some ref)
        acceptableLocalHashes := getBlobRefPriorHashes ref } }

end DownloadItem

namespace BlobDownloads

variable (s : BlobDownloads)

def modifyItem (id : ℕ) (f : DownloadItem → DownloadItem) : BlobDownloads :=
  { s with items := s.items.modify id f }

def dropQueued : BlobDownloads := { s with queued := none }

def discardDownloadItem (id : ℕ) : BlobDownloads :=
  if s.queued = some id then s.dropQueued else s

def withWorld (world : DownloadWorld) : BlobDownloads := { s with world }

def isTransferCurrent (generation : ℕ) : Bool :=
  !s.world.destroyed && !s.world.attentionAcceptInFlight && s.generation = generation

variable (i : ℕ) (a : DownloadAttempt) (result : DownloadResult)

def enter (phase : DownloadPhase) : BlobDownloads :=
  { s with attempts := s.attempts.set i { a with phase } }

def endAttempt : BlobDownloads := s.enter i a .done

/-- Whether the item's target is still the path's reference. -/
def isDownloadAttemptAuthoritative : Bool :=
  s.world.downloadGateOpen && s.items[a.item]?.any fun item =>
    s.isTransferCurrent item.generation && !item.needsRerun &&
    item.next.all (·.hash = a.attemptHash) &&
    s.world.getAuthoritativeDownloadRef.any (·.hash = a.attemptHash) &&
    (item.target.targetRefFingerprint.isNone ||
      blobRefFingerprint s.world.getAuthoritativeDownloadRef = item.target.targetRefFingerprint)

/-- Whether the attempt still owns its stage. -/
def isDownloadStageAuthoritative (stage : BlobSettlementStage) : Bool :=
  stage.kind = .download && stage.sourceVersion.isSome && s.isDownloadAttemptAuthoritative a &&
  s.world.stage.any (·.stageId = stage.stageId) && s.world.getAuthoritativeDownloadRef.isSome &&
  sameBlobRef s.world.getAuthoritativeDownloadRef stage.ref &&
  s.world.getBlobSourceVersion = stage.sourceVersion

def isDownloadStageSupersededByCurrentSourceEpisode (hash : JsString)
    (stage : BlobSettlementStage) : Bool :=
  stage.kind = .download && stage.sourceVersion.isSome && s.world.getBlobSourceVersion.isSome &&
  s.world.getBlobSourceVersion ≠ stage.sourceVersion &&
  s.world.getAuthoritativeDownloadRef.any (·.hash = hash) &&
  sameBlobRef s.world.getAuthoritativeDownloadRef stage.ref

/-- Whether the local bytes are the ones this device has settled, and the remote ones go on from
them. -/
def isDownloadPredecessorAuthoritative (localHash : JsString) (admission : DownloadAdmission)
    (stage : BlobSettlementStage) : Bool :=
  s.isDownloadStageAuthoritative a stage &&
  (admission.settledRef.any (fun ref => ref.hash = localHash) &&
    admission.settledSourceVersion.isSome &&
    sameBlobRef s.world.settledRef admission.settledRef &&
    s.world.settledSourceVersion = admission.settledSourceVersion) &&
  s.world.getAuthoritativeDownloadRef.any fun ref =>
    s.items[a.item]?.any (fun item =>
      item.target.targetRefFingerprint = blobRefFingerprint (some ref)) &&
    (getBlobRefPriorHashes ref).contains localHash

/-- Another reference than the attempt's is downloaded next. -/
def retarget : BlobDownloads :=
  match s.world.getAuthoritativeDownloadRef with
  | some ref => if ref.hash ≠ a.attemptHash then s.modifyItem a.item (·.targets ref) else s
  | none => s

/-- An attempt that has lost its authority makes way for the reference that is there now. -/
def deferSupersededDownload : Option BlobDownloads :=
  if s.isDownloadAttemptAuthoritative a then none
  else
    let s := s.retarget a
    some (if s.items[a.item]?.any fun item => item.needsRerun && item.next.isSome then
      s.modifyItem a.item DownloadItem.prepareDownloadRerun
    else s.discardDownloadItem a.item)

/-- A failure ends the attempt; the item runs again, waits for a retry, or is given up. -/
def fail : BlobDownloads :=
  if !s.isTransferCurrent a.generation then (s.discardDownloadItem a.item).endAttempt i a
  else match s.items[a.item]? with
    | none => s.endAttempt i a
    | some item =>
      if item.needsRerun && item.next.isSome then
        (s.modifyItem a.item DownloadItem.prepareDownloadRerun).endAttempt i a
      else if item.retries < BlobUploads.maxRetries then
        (s.modifyItem a.item fun item =>
          { item with
            retries := item.retries + 1, isProcessing := false
            readyAt := result.now + BlobUploads.retryBaseMs * 4 ^ item.retries }).endAttempt i a
      else if item.needsRerun && item.rerunResets < BlobUploads.maxRerunResets then
        (s.modifyItem a.item fun item =>
          { item.prepareDownloadRerun with rerunResets := item.rerunResets + 1 }).endAttempt i a
      else if result.isRetryable then
        (s.modifyItem a.item fun item =>
          { item with
            isProcessing := false, retries := 0
            readyAt := result.now + BlobUploads.retryCycleCooldownMs }).endAttempt i a
      else { s.dropQueued with permanentFailures := s.permanentFailures + 1 }.endAttempt i a

def startRead (source : UploadSource) (purpose : DownloadRead) : BlobDownloads :=
  s.enter i a (.reading source purpose
    (if s.world.isReadCurrent source purpose then .pending else .stale))

def abort (stage : BlobSettlementStage) (after : AfterStage) : BlobDownloads :=
  (s.withWorld (s.world.withPath (s.world.abortSettlementStage stage))).enter i a
    (.aborting after (some stage))

/-- Local bytes are read first; a settled file that is missing is not created again. -/
def startAdmission : BlobDownloads :=
  let admission := s.world.captureAdmission
  if !s.world.isSyncable then s.dropQueued.endAttempt i a
  else match admission.existing with
    | none =>
      if admission.settledRef.isSome then (s.discardDownloadItem a.item).endAttempt i a
      else s.enter i a (.downloading admission none)
    | some source => s.startRead i a source (.initial admission)

/-- Candidates for the artifact's path are tried one after the other. -/
def startArtifact (download : StagedDownload) (localHash : JsString) : ℕ → BlobDownloads
  | 0 => s.fail i a result
  | left + 1 =>
    match s.world.artifact (left + 1) with
    | some (some file) =>
      s.startRead i a ⟨file, s.world.stat file⟩ (.artifact download localHash (left + 1))
    | some none => startArtifact download localHash left
    | none =>
      if s.isTransferCurrent a.generation then
        s.enter i a (.creatingArtifact download localHash (left + 1) false)
      else s.fail i a result

/-- The conflict is recorded, and what is under way at the path is over. -/
def quarantineDownloadConflict (localHash : JsString) (left : ℕ) : BlobDownloads :=
  let remoteRef := cloneBlobRef s.world.getBlobRef
  let fingerprint := if remoteRef.any (·.hash = a.attemptHash) then blobRefFingerprint remoteRef
    else none
  let entry : DownloadConflictEntry :=
    { reason := .remoteDownloadLocalConflict, episodeId := result.episodeId
      knownRemoteHash := some a.attemptHash, artifactPath := some (s.world.artifactPath left)
      localHash := some localHash, knownRemoteRefFingerprint := fingerprint
      knownRemoteSourceVersion := if fingerprint.isSome then s.world.getBlobSourceVersion
        else none }
  { s with
    generation := s.generation + 1, queued := none
    world := s.world.withPath
      { s.world.toBlobPathWorld with attention := some entry.toBlobAttentionEntry }
    conflicts := s.conflicts ++ [(i, entry)] }

def finishArtifact (localHash : JsString) (left : ℕ) : BlobDownloads :=
  match s.deferSupersededDownload a with
  | some s => s.endAttempt i a
  | none => ((s.quarantineDownloadConflict i a result localHash left).discardDownloadItem
      a.item).endAttempt i a

def afterStage : AfterStage → BlobDownloads
  | .startAdmission => s.startAdmission i a
  | .ended => s.endAttempt i a
  | .fail => s.fail i a result
  | .defer => ((s.deferSupersededDownload a).getD s).endAttempt i a
  | .deferOrFail =>
    match s.deferSupersededDownload a with
    | some s => s.endAttempt i a
    | none => s.fail i a result
  | .deferOrWait =>
    match s.deferSupersededDownload a with
    | some s => s.endAttempt i a
    | none => (s.modifyItem a.item fun item =>
      { item with isProcessing := false, readyAt := 0 }).endAttempt i a
  | .conflict download localHash =>
    match s.deferSupersededDownload a with
    | some s => s.endAttempt i a
    | none =>
      if s.isTransferCurrent a.generation then
        s.startArtifact i a result download localHash 100
      else (s.discardDownloadItem a.item).endAttempt i a

/-- The attempt has settled its bytes. -/
def complete : BlobDownloads :=
  if s.items[a.item]?.any (·.needsRerun) then
    (s.modifyItem a.item DownloadItem.prepareDownloadRerun).endAttempt i a
  else (s.discardDownloadItem a.item).endAttempt i a

def afterFinalize (stage : BlobSettlementStage) (isFinal : Bool) : AfterFinalize → BlobDownloads
  | .staged =>
    if isFinal then s.complete i a else (s.discardDownloadItem a.item).endAttempt i a
  | .equality => (s.discardDownloadItem a.item).endAttempt i a
  | .settled => if isFinal then s.complete i a else s.abort i a stage .deferOrFail
  | .race => if isFinal then s.complete i a else s.abort i a stage .ended

def finalize (after : AfterFinalize) (hash : JsString) (stage : BlobSettlementStage)
    (ref : BlobRef) (sourceVersion : JsString) : BlobDownloads :=
  let (finalization, world) := s.world.finalizeSettlementStage stage ref sourceVersion
  (s.withWorld (s.world.withPath world)).enter i a
    (.finalizing after hash stage ref sourceVersion finalization)

def recordAuthoritativeDownloadSettlement (after : AfterFinalize) (hash : JsString)
    (stage : BlobSettlementStage) : BlobDownloads :=
  if s.isDownloadStageAuthoritative a stage then
    match s.world.getAuthoritativeDownloadRef, stage.sourceVersion with
    | some ref, some sourceVersion => s.finalize i a after hash stage ref sourceVersion
    | _, _ => s.afterFinalize i a stage false after
  else s.afterFinalize i a stage false after

/-- The replacement has not been made: the attempt comes back, or fails and is tried again. -/
def afterReplacement (download : StagedDownload) : BlobDownloads :=
  s.abort i a download.stage
    (if s.isDownloadStageAuthoritative a download.stage then .deferOrFail else .deferOrWait)

def afterRestore (download : StagedDownload) : AfterRestore → BlobDownloads
  | .superseded => s.abort i a download.stage .deferOrWait
  | .createFailed => s.abort i a download.stage
    (if s.isDownloadStageAuthoritative a download.stage then .fail else .deferOrWait)

/-- The predecessor's bytes come back, unless something is at the path. -/
def restoreRemoteOverwriteBackup (download : StagedDownload) (prior : CleanPrior)
    (after : AfterRestore) : BlobDownloads :=
  if s.world.backupOwnsFile prior.backupPath prior.source.file && s.world.isVacant then
    s.enter i a (.restoreReading download prior after none)
  else s.afterRestore i a download after

def resolveCreateRaceConflict (download : StagedDownload) : BlobDownloads :=
  match s.world.file with
  | none => s.abort i a download.stage .ended
  | some file => s.startRead i a ⟨file, s.world.stat file⟩ (.race download)

/-- Whether the file that has just been read as `hash` may be moved away. -/
def canBackup (download : StagedDownload) (hash : JsString) : BackupPurpose → Bool
  | .replace prior =>
    !s.world.destroyed && s.generation = a.generation && hash = prior.hash &&
    s.queued = some a.item && s.items[a.item]?.any (·.generation = a.generation) &&
    a.acceptableLocalHashes.contains hash &&
    s.isDownloadPredecessorAuthoritative a hash download.admission download.stage
  | .retire _ generation _ => s.generation = generation && hash = a.attemptHash

/-- The file has not been moved. -/
def afterBackupRefused (download : StagedDownload) : BackupPurpose → BlobDownloads
  | .replace _ => s.afterReplacement i a download
  | .retire .. => s.abort i a download.stage .deferOrWait

/-- The file is at its backup path. -/
def afterBackup (download : StagedDownload) : BackupPurpose → BlobDownloads
  | .replace prior =>
    if !s.isDownloadStageAuthoritative a download.stage then
      s.restoreRemoteOverwriteBackup i a download prior .superseded
    else if !s.world.isVacant then s.abort i a download.stage .deferOrFail
    else s.enter i a (.creating download (some prior) none)
  | .retire (some prior) .. =>
    if s.world.isVacant then s.restoreRemoteOverwriteBackup i a download prior .superseded
    else s.abort i a download.stage .deferOrWait
  | .retire none .. => s.abort i a download.stage .deferOrWait

def afterRead (source : UploadSource) (purpose : DownloadRead) (snapshot : Option ExactSnapshot) :
    BlobDownloads :=
  let hash := snapshot.map (·.hash)
  match purpose with
  | .staged stage =>
    if hash = some a.attemptHash ∧ s.isDownloadAttemptAuthoritative a then
      s.recordAuthoritativeDownloadSettlement i a .staged a.attemptHash stage
    else (s.discardDownloadItem a.item).endAttempt i a
  | .initial admission =>
    if hash = some a.attemptHash then
      match s.deferSupersededDownload a with
      | some s => s.endAttempt i a
      | none =>
        match s.world.getAuthoritativeDownloadRef with
        | none => (s.discardDownloadItem a.item).endAttempt i a
        | some target =>
          let (stage, world) := s.world.prepareSettlementStage .equality target
            s.world.getBlobSourceVersion result.stageId
          match s.world.getBlobSourceVersion with
          | none => (s.withWorld (s.world.withPath world)).enter i a
              (.stagingUnversioned stage.isSome)
          | some sourceVersion => (s.withWorld (s.world.withPath world)).enter i a
              (.stagingEquality source target sourceVersion stage)
    else s.enter i a (.downloading admission hash)
  | .equality target sourceVersion stage =>
    if hash = some a.attemptHash ∧ s.isDownloadAttemptAuthoritative a then
      s.finalize i a .equality a.attemptHash stage target sourceVersion
    else s.abort i a stage .deferOrWait
  | .backup download purpose => s.afterBackupRefused i a download purpose
  | .created download prior =>
    if hash = some a.attemptHash then
      if s.isDownloadStageAuthoritative a download.stage then
        s.recordAuthoritativeDownloadSettlement i a .settled a.attemptHash download.stage
      else match s.world.nextAvailableBlobLocalBackupPath result.candidates with
        | none => s.fail i a result
        | some backupPath => s.startRead i a ⟨source.file, s.world.stat source.file⟩
          (.backup download (.retire prior s.generation backupPath))
    else match prior with
      | none => s.resolveCreateRaceConflict i a download
      | some _ => s.afterReplacement i a download
  | .race download =>
    match hash with
    | none => s.abort i a download.stage .fail
    | some hash =>
      if hash = a.attemptHash then
        s.recordAuthoritativeDownloadSettlement i a .race hash download.stage
      else s.abort i a download.stage (.conflict download hash)
  | .artifact download localHash left =>
    if hash = some a.attemptHash then s.finishArtifact i a result localHash left
    else s.startArtifact i a result download localHash (left - 1)

/-- A read that fails is a failure of the attempt. -/
def readFailed : DownloadRead → BlobDownloads
  | .backup download (.replace _) => s.abort i a download.stage .fail
  | _ => s.fail i a result

/-- Verified bytes are staged, if the attempt still has its authority. -/
def stageDownload (admission : DownloadAdmission) (before : Option JsString)
    (data : List UInt8) : BlobDownloads :=
  match s.deferSupersededDownload a with
  | some s => s.endAttempt i a
  | none =>
    match s.world.getAuthoritativeDownloadRef with
    | none => (s.discardDownloadItem a.item).endAttempt i a
    | some target =>
      let (stage, world) := s.world.prepareSettlementStage .download target
        s.world.getBlobSourceVersion result.stageId
      (s.withWorld (s.world.withPath world)).enter i a
        (if s.world.getBlobSourceVersion.isNone then .stagingUnversioned stage.isSome
        else .stagingDownload admission before data stage)

/-- The path gets its folder first; a fence or a newer reference ends the attempt. -/
def createMissing (download : StagedDownload) : BlobDownloads :=
  if !s.isTransferCurrent a.generation then
    (s.discardDownloadItem a.item).abort i a download.stage .ended
  else match s.deferSupersededDownload a with
    | some s => s.abort i a download.stage .ended
    | none => s.enter i a (.creating download none none)

/-- Staged bytes are written to a vacant path, replace a clean prior, or are in conflict. -/
def installDownload (download : StagedDownload) (before : Option JsString) : BlobDownloads :=
  if !s.isDownloadAttemptAuthoritative a then s.abort i a download.stage .defer
  else match download.admission.existing with
    | some source =>
      match before with
      | none => s.abort i a download.stage .fail
      | some hash =>
        if a.acceptableLocalHashes.contains hash &&
            s.isDownloadPredecessorAuthoritative a hash download.admission download.stage then
          match s.world.nextAvailableBlobLocalBackupPath result.candidates with
          | none => s.abort i a download.stage .fail
          | some backupPath =>
            s.startRead i a source (.backup download (.replace ⟨source, hash, backupPath⟩))
        else s.abort i a download.stage (.conflict download hash)
    | none =>
      if s.world.parentMissing then
        if s.isTransferCurrent a.generation then s.enter i a (.creatingFolder download)
        else (s.discardDownloadItem a.item).abort i a download.stage .ended
      else s.createMissing i a download

/-- A creation has been rejected, whether or not there is a file. -/
def createFailed (download : StagedDownload) : Option CleanPrior → BlobDownloads
  | some prior =>
    if result.alreadyExists then s.afterReplacement i a download
    else if s.world.isVacant then
      s.restoreRemoteOverwriteBackup i a download prior .createFailed
    else s.afterRestore i a download .createFailed
  | none =>
    if s.world.file.isSome then s.resolveCreateRaceConflict i a download
    else s.abort i a download.stage .fail

variable (hashArrayBuffer : List UInt8 → JsString)

/-- An await of an attempt ends. -/
def resumeAttempt : BlobDownloads :=
  match a.phase with
  | .aborting after _ =>
    if result.rejected then s.fail i a result else s.afterStage i a result after
  | .reading source purpose read =>
    match read.resume (s.world.isReadCurrent source purpose) result.rejected with
    | .waits read => s.enter i a (.reading source purpose read)
    | .verified data =>
      let hash := hashArrayBuffer data
      let returned := s.enter i a
        (.reading source purpose (.returned ⟨hash, data, .refused false false⟩))
      match purpose with
      | .backup download purpose =>
        if s.canBackup a download hash purpose && !result.dispatchFails then
          s.enter i a (.moving download source purpose)
        else returned
      | _ => returned
    | .threw => s.readFailed i a result purpose
    | .returned snapshot => s.afterRead i a result source purpose snapshot
  | .stagingUnversioned staged =>
    if staged && !result.rejected then (s.discardDownloadItem a.item).endAttempt i a
    else s.fail i a result
  | .stagingEquality source target sourceVersion stage =>
    match stage.filter fun _ => !result.rejected with
    | none => s.fail i a result
    | some stage => s.startRead i a source (.equality target sourceVersion stage)
  | .downloading admission before =>
    if result.rejected then s.fail i a result
    else s.enter i a (.hashing admission before result.data)
  | .hashing admission before data =>
    if result.rejected || hashArrayBuffer data ≠ a.attemptHash then s.fail i a result
    else s.stageDownload i a result admission before data
  | .stagingDownload admission before data stage =>
    match stage.filter fun _ => !result.rejected with
    | none => s.fail i a result
    | some stage => s.installDownload i a result ⟨admission, data, stage⟩ before
  | .creatingFolder download =>
    if result.rejected && !result.alreadyExists then s.abort i a download.stage .fail
    else s.createMissing i a download
  | .creating download prior created =>
    match created.filter fun _ => !result.rejected with
    | none => s.createFailed i a result download prior
    | some file => s.startRead i a ⟨file, s.world.stat file⟩ (.created download prior)
  | .moving download source purpose =>
    if s.world.backupOwnsFile purpose.backupPath source.file then s.afterBackup i a download purpose
    else match purpose with
      | .replace _ =>
        if result.rejected && s.world.isIdentityCurrent source && s.world.operationAuthority then
          s.abort i a download.stage .fail
        else s.afterBackupRefused i a download purpose
      | _ => s.afterBackupRefused i a download purpose
  | .restoreReading download prior after sample =>
    match sample with
    | none => s
    | some none => s.afterRestore i a download after
    | some (some data) =>
      if s.world.backupOwnsFile prior.backupPath prior.source.file && s.world.isVacant then
        s.enter i a (.restoreCreating download after data false)
      else s.afterRestore i a download after
  | .restoreCreating download after _ _ => s.afterRestore i a download after
  | .creatingArtifact download localHash left created =>
    if created && !result.rejected then s.enter i a (.cachingArtifact download localHash left)
    else if result.alreadyExists then
      s.startArtifact i a result download localHash (left - 1)
    else s.fail i a result
  | .cachingArtifact download localHash left =>
    if !result.rejected then s.finishArtifact i a result localHash left
    else if result.alreadyExists then
      s.startArtifact i a result download localHash (left - 1)
    else s.fail i a result
  | .finalizing after hash stage ref sourceVersion finalization =>
    let isSame := sameBlobRef s.world.getBlobRef (some ref) &&
      s.world.getBlobSourceVersion = some sourceVersion
    match finalization with
    | .refused => s.afterFinalize i a stage false after
    | .rejected => s.fail i a result
    | .recorded =>
      if result.rejected || !s.world.settlementAuthority || !isSame then s.fail i a result
      else s.enter i a (.finalizing after hash stage ref sourceVersion .persisted)
    | .persisted => s.afterFinalize i a stage isSame after
  | .done => s

/-- The bytes of a read are taken at some moment between its call and its end. -/
def sampleRead : BlobDownloads :=
  match a.phase with
  | .reading source purpose .pending => s.enter i a
      (.reading source purpose (.sampled (s.world.disk source.file)))
  | .restoreReading download prior after none => s.enter i a
      (.restoreReading download prior after (some (s.world.disk prior.source.file)))
  | _ => s

/-- A call of the vault takes effect, if it does, before its promise ends: a creation makes a new
file, on a vacant path only, and a rename moves a file that is where it was. -/
def applyCall (file : ℕ) (stat : ℕ × ℕ) : BlobDownloads :=
  match a.phase with
  | .creating download prior none =>
    if s.world.isVacant && s.world.isNew file then
      { (s.withWorld (s.world.createBinary file stat download.data)).enter i a
          (.creating download prior (some file)) with
        installed := s.installed ++ [(i, file, download.data)] }
    else s
  | .restoreCreating download after data false =>
    if s.world.isVacant && s.world.isNew file then
      (s.withWorld (s.world.createBinary file stat data)).enter i a
        (.restoreCreating download after data true)
    else s
  | .moving _ source purpose =>
    if s.world.file = some source.file then
      s.withWorld (s.world.moveToBackup source.file purpose.backupPath)
    else s
  | .creatingArtifact download localHash left false =>
    if (s.world.artifact left).isNone && s.world.isNew file then
      { (s.withWorld
            { s.world with
              artifact := Function.update s.world.artifact left (some (some file))
              stat := Function.update s.world.stat file stat
              disk := Function.update s.world.disk file (some download.data) }).enter i a
          (.creatingArtifact download localHash left true) with
        artifacts := s.artifacts ++ [(left, download.data)] }
    else s
  | _ => s

/-- The part of `processDownload` up to its first await. -/
def processDownload (id : ℕ) (item : DownloadItem) : BlobDownloads :=
  let i := s.attempts.length
  let a : DownloadAttempt :=
    { item := id, generation := item.generation, attemptHash := item.target.hash
      acceptableLocalHashes := normalizeAcceptableLocalHashes item.target.acceptableLocalHashes
      phase := .done }
  let s := { s with attempts := s.attempts ++ [a] }
  if !s.isTransferCurrent a.generation then s.discardDownloadItem id
  else match s.world.stage with
    | none => s.startAdmission i a
    | some stage =>
      if s.isDownloadStageSupersededByCurrentSourceEpisode a.attemptHash stage then
        s.abort i a stage .startAdmission
      else if stage.kind = .download ∧ stage.sourceVersion.isSome ∧
          stage.ref.any (·.hash = a.attemptHash) ∧ s.isDownloadAttemptAuthoritative a ∧
          sameBlobRef s.world.getAuthoritativeDownloadRef stage.ref ∧
          s.world.getBlobSourceVersion = stage.sourceVersion then
        match s.world.file with
        | some file => s.startRead i a ⟨file, s.world.stat file⟩ (.staged stage)
        | none => s.discardDownloadItem id
      else s.discardDownloadItem id

/-- The drain takes a pending item. -/
def drain : BlobDownloads :=
  match s.queued with
  | none => s
  | some id =>
    match s.items[id]? with
    | none => s
    | some item =>
      if s.world.downloadGateOpen && !item.isProcessing && item.readyAt ≤ result.now then
        (s.modifyItem id fun item => { item with isProcessing := true }).processDownload id item
      else s

def enqueueDownload (hash : JsString) (acceptableLocalHashes : List JsString) : BlobDownloads :=
  if !s.world.isSyncable || s.world.attentionAcceptInFlight ||
      s.world.attention.any (·.reason = .legacyMissingBlob) then s
  else
    let target : DownloadTarget :=
      { hash
        targetRefFingerprint := if s.world.getAuthoritativeDownloadRef.any (·.hash = hash) then
          blobRefFingerprint s.world.getAuthoritativeDownloadRef else none
        acceptableLocalHashes := normalizeAcceptableLocalHashes acceptableLocalHashes }
    match s.queued with
    | some id => s.modifyItem id fun item =>
      if item.isProcessing then { item with next := some target, needsRerun := true }
      else { item with target, retries := 0, readyAt := 0, generation := s.generation }
    | none =>
      { s with
        items := s.items ++ [{ target, generation := s.generation }]
        queued := some s.items.length }

end BlobDownloads

inductive DownloadEvent
  /-- Files, references, tombstones, settlements, Attention entries and gates change. -/
  | world (w : DownloadWorld)
  | enqueue (hash : JsString) (acceptableLocalHashes : List JsString)
  | importDownload (item : DownloadItem)
  | fence
  | delete
  | destroy
  | drain (result : DownloadResult)
  | read (attempt : ℕ)
  | call (attempt file : ℕ) (stat : ℕ × ℕ)
  | resume (attempt : ℕ) (result : DownloadResult)

def BlobDownloads.next (hashArrayBuffer : List UInt8 → JsString) (s : BlobDownloads) :
    DownloadEvent → BlobDownloads
  | .world w => s.withWorld w
  | .enqueue hash acceptableLocalHashes => s.enqueueDownload hash acceptableLocalHashes
  | .importDownload item =>
    if s.queued.isSome then s
    else
      { s with
        items := s.items ++
          [{ item with isProcessing := false, readyAt := 0, generation := s.generation }]
        queued := some s.items.length }
  | .fence => { s with generation := s.generation + 1, queued := none }
  | .delete => s.dropQueued
  | .destroy =>
    { s with
      world := { s.world with destroyed := true, downloadGateOpen := false
                              uploadGateOpen := false, attention := none }
      generation := 0, queued := none }
  | .drain result => s.drain result
  | .read i =>
    match s.attempts[i]? with
    | some a => s.sampleRead i a
    | none => s
  | .call i file stat =>
    match s.attempts[i]? with
    | some a => s.applyCall i a file stat
    | none => s
  | .resume i result =>
    match s.attempts[i]? with
    | some a => s.resumeAttempt i a result hashArrayBuffer
    | none => s

/-- The manager after `n` events. -/
def downloadsAt (hashArrayBuffer : List UInt8 → JsString) (w : DownloadWorld)
    (events : List DownloadEvent) (n : ℕ) : BlobDownloads :=
  stateAt (BlobDownloads.next hashArrayBuffer) { world := w } events n

end Kaos.Sync
