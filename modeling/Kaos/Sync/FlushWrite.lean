import Mathlib.Logic.Function.Basic
import Kaos.Lib.JsString
import Kaos.Lib.Run

/-! The disk mirror's write of a document to its file: every await and the fences between them. -/
namespace Kaos.Sync

open Kaos.Lib

structure DiskFileRevision where
  ctime : ℚ
  mtime : ℚ
  size : ℚ
  deriving DecidableEq

inductive DiskWriteDeferReason
  | missingYtext
  | pathExcluded
  | remoteProjectionNotReady
  | openEditorMismatch
  | activeEditorUnflushed
  | recentEditorActivity
  | diskChangedDuringWrite
  | crdtChangedDuringWrite
  | authorityStale
  deriving DecidableEq

inductive DiskWriteBlockReason
  | frontmatter
  | preservedUnresolved
  deriving DecidableEq

inductive DiskWriteResult
  | written (isCreate : Bool) (content contentHash : JsString) (baselineRecorded : Bool)
  | unchanged (content contentHash : JsString)
  | deferred (reason : DiskWriteDeferReason)
  | blocked (reason : DiskWriteBlockReason)
  | failed
  deriving DecidableEq

inductive DiskWriteAuthorityPhase
  | beforeCommit
  | afterCommit
  deriving DecidableEq

/-- Of the admission and of the caller's predicate only whether they were given; files are named
by numbers. -/
structure DiskWriteOptions where
  remoteProjectionAdmission : Bool := false
  requireRemoteProjectionAdmission : Bool := false
  recordBaseline : Bool := true
  expectedDiskContent : Option JsString := none
  expectedDiskFile : Option ℕ := none
  expectedDiskRevision : Option DiskFileRevision := none
  allowCreateIfMissing : Bool := false
  isAuthorityCurrent : Bool := false
  expectedPreservedUnresolvedEpisodeId : Option JsString := none

/-- What the vault has at a path. -/
inductive VaultEntry
  | file (file : ℕ)
  | folder
  deriving DecidableEq

/-- A semantic create authority, with the number of its grant. -/
structure CreateAuthorization where
  grant : ℕ
  expiresAt : ℕ
  deriving DecidableEq

/-- All that a write of one path looks at: the vault, the document, the durable baseline, the
editors and the authorities. -/
structure MirrorPath where
  target : Option VaultEntry := none
  content : ℕ → JsString := fun _ => []
  stat : ℕ → DiskFileRevision := fun _ => ⟨0, 0, 0⟩
  parentMissing : Bool := false
  ytext : Option (ℕ × JsString) := none
  baseline : Option JsString := none
  deleteActive : Bool := false
  preservedUnresolved : Option JsString := none
  remoteCreateAuthorization : Option CreateAuthorization := none
  now : ℕ := 0
  openOrViewed : Bool := false
  hasOpenEditorContentMismatch : JsString → Bool := fun _ => false
  hasFocusedUnflushedChanges : JsString → Bool := fun _ => false
  hasRecentEditorActivity : Bool := false
  isMarkdownPathSyncable : Bool := true
  isAdmissionCaptured : Bool := true
  isAdmissionCurrent : Bool := true
  entersCriticalSection : Bool := true
  isAuthorityCurrent : DiskWriteAuthorityPhase → Bool := fun _ => true

def remoteCreateAuthorizationMs : ℕ := 30000

/-- One leading BOM is the only difference allowed. -/
def rawContentMatchesVaultReadSnapshot (rawContent snapshot : JsString) : Bool :=
  rawContent = snapshot || (rawContent.head? = some 0xFEFF && rawContent.drop 1 = snapshot)

/-- What reading a file gives: its text, or its text without a leading BOM. -/
def vaultRead (stripsBom : Bool) (rawContent : JsString) : JsString :=
  if stripsBom && rawContent.head? = some 0xFEFF then rawContent.drop 1 else rawContent

namespace MirrorPath

variable (p : MirrorPath) (options : DiskWriteOptions)

def isPreservedUnresolvedWriteBlocked : Bool :=
  match p.preservedUnresolved with
  | none => options.expectedPreservedUnresolvedEpisodeId.isSome
  | some episodeId => options.expectedPreservedUnresolvedEpisodeId ≠ some episodeId

def isAdmissionStale : Bool := options.remoteProjectionAdmission && !p.isAdmissionCurrent

def isCallerAuthorityStale (phase : DiskWriteAuthorityPhase) : Bool :=
  p.isAdmissionStale options || (options.isAuthorityCurrent && !p.isAuthorityCurrent phase)

def deferCallerAuthorityStale : DiskWriteResult :=
  if p.isAdmissionStale options then .deferred .remoteProjectionNotReady
  else .deferred .authorityStale

/-- No release function is returned. -/
def isCriticalSectionClosed : Bool :=
  options.remoteProjectionAdmission && (!p.isAdmissionCurrent || !p.entersCriticalSection)

def didCrdtChangeDuringWrite (plannedContent : JsString) : Bool :=
  p.ytext.map Prod.snd ≠ some plannedContent

/-- Why the write is deferred for an editor. -/
def getOpenWriteDeferral (content : JsString) (force : Bool) : Option DiskWriteDeferReason :=
  if !p.openOrViewed then none
  else if p.hasOpenEditorContentMismatch content then some .openEditorMismatch
  else if force then none
  else if p.hasFocusedUnflushedChanges content then some .activeEditorUnflushed
  else if p.hasRecentEditorActivity then some .recentEditorActivity
  else none

def isExactDiskFileCurrent (file : ℕ) : Bool := p.target = some (.file file)

def isDiskRevisionCurrent (file : ℕ) (expected : Option DiskFileRevision) : Bool :=
  expected.all fun revision => p.stat file = revision

/-- `diskBaselineHashProvider(path)?.toLowerCase()`; an empty one is none. -/
def durableBaseline : Option JsString :=
  (p.baseline.map JsString.toLowerCase).filter fun baseline => !baseline.isEmpty

/-- The create authority that has not expired. -/
def liveAuthorization : Option CreateAuthorization :=
  p.remoteCreateAuthorization.filter fun authorization => p.now < authorization.expiresAt

def deleteAuthorization : MirrorPath := { p with remoteCreateAuthorization := none }

end MirrorPath

/-- A call of `flushWrite` under its path's lock: what it carries from one attempt to the next,
and what the attempt has planned. `authority` is the create authority the attempt found. -/
structure Flush where
  force : Bool
  options : DiskWriteOptions
  attemptsLeft : ℕ
  expectedDiskSnapshot : Option JsString
  ytext : ℕ := 0
  content : JsString := []
  authority : Option ℕ := none

/-- What is being settled. -/
inductive SettleKind
  | updated
  | created
  | unchanged
  deriving DecidableEq

/-- An unchanged file is settled without a commit. -/
def SettleKind.phase : SettleKind → DiskWriteAuthorityPhase
  | .updated | .created => .afterCommit
  | .unchanged => .beforeCommit

inductive ExistingFileWriteAbortReason
  | alreadyCurrent
  | diskChanged
  | fileIdentityChanged
  | fileRevisionChanged
  | crdtChanged
  | remoteDeleteActive
  | preservedUnresolved
  | openWriteDeferred (reason : DiskWriteDeferReason)
  | authorityStale
  deriving DecidableEq

/-- The await a call is at, with what its operation has come to. -/
inductive FlushPoint
  | read (file : ℕ) (got : Option JsString)
  | baselineHash (file : ℕ) (current baseline : JsString)
  | suppress (file : ℕ)
  | process (file : ℕ) (done : Option (Except ExistingFileWriteAbortReason Unit))
  | createFolder
  | suppressCreate
  | create (created : Option ℕ)
  | raceRead (file : ℕ) (got : Option JsString)
  | hash (kind : SettleKind) (file : ℕ) (revision : Option DiskFileRevision)
  | readback (kind : SettleKind) (file : ℕ) (revision : Option DiskFileRevision)
      (got : Option JsString)
  | settled (kind : SettleKind) (file : ℕ) (isCurrent : Bool)

/-- A call waits, goes on with its next attempt, or has ended. -/
inductive FlushProgress
  | await (flush : Flush) (point : FlushPoint)
  | retry (flush : Flush)
  | ended (result : DiskWriteResult)

/-- The content and the hash that a result reports as settled. -/
def DiskWriteResult.settledContent : DiskWriteResult → Option (JsString × JsString)
  | .written _ content contentHash _ | .unchanged content contentHash => some (content, contentHash)
  | .deferred _ | .blocked _ | .failed => none

/-- The result of the first fence that stops the call. -/
def firstFence : List (Bool × DiskWriteResult) → Option DiskWriteResult
  | [] => none
  | (stops, result) :: rest => if stops then some result else firstFence rest

def diskChanged : DiskWriteResult := .deferred .diskChangedDuringWrite

section Code

variable (blocksFrontmatter : Option JsString → JsString → Bool) (contentHash : JsString → JsString)
  (p : MirrorPath) (flush : Flush)

/-- `settleUnchangedWrite` up to its first await. -/
def settleUnchangedWrite (file : ℕ) : FlushProgress :=
  match firstFence [
    (p.isPreservedUnresolvedWriteBlocked flush.options, .blocked .preservedUnresolved),
    (p.isCallerAuthorityStale flush.options .beforeCommit,
      p.deferCallerAuthorityStale flush.options),
    (!p.isExactDiskFileCurrent file, diskChanged),
    (!p.isDiskRevisionCurrent file flush.options.expectedDiskRevision, diskChanged)] with
  | some result => .ended result
  | none => .await flush (.hash .unchanged file flush.options.expectedDiskRevision)

/-- From the folder on to the creation's own await. -/
def afterCreateFolder : MirrorPath × FlushProgress :=
  if p.isCallerAuthorityStale flush.options .beforeCommit then
    (p, .ended (p.deferCallerAuthorityStale flush.options))
  else if p.target.isSome then (p.deleteAuthorization, .ended diskChanged)
  else if p.didCrdtChangeDuringWrite flush.content then (p, .retry flush)
  else if p.isPreservedUnresolvedWriteBlocked flush.options then
    (p, .ended (.blocked .preservedUnresolved))
  else match p.getOpenWriteDeferral flush.content flush.force with
    | some reason => (p, .ended (.deferred reason))
    | none => (p, .await flush .suppressCreate)

/-- The branch of a missing file, or of a target that is no file. -/
def createMissing : MirrorPath × FlushProgress :=
  let explicit := flush.options.allowCreateIfMissing
  let found := if explicit then none else p.liveAuthorization
  let p := if explicit then p else { p with remoteCreateAuthorization := p.liveAuthorization }
  let flush := { flush with authority := found.map (·.grant) }
  match firstFence [
    (flush.options.expectedDiskContent.isSome, diskChanged),
    (p.durableBaseline.isSome && !(explicit || found.isSome), diskChanged),
    (p.target.isSome, diskChanged),
    (blocksFrontmatter none flush.content, .blocked .frontmatter)] with
  | some result => (p, .ended result)
  | none =>
    if p.parentMissing then
      if p.isCallerAuthorityStale flush.options .beforeCommit ||
          p.isCriticalSectionClosed flush.options then
        (p, .ended (p.deferCallerAuthorityStale flush.options))
      else (p, .await flush .createFolder)
    else afterCreateFolder p flush

/-- An attempt up to its first await. -/
def beginAttempt : MirrorPath × FlushProgress :=
  match firstFence [
    (p.isPreservedUnresolvedWriteBlocked flush.options, .blocked .preservedUnresolved),
    (p.deleteActive, diskChanged),
    (p.isCallerAuthorityStale flush.options .beforeCommit,
      p.deferCallerAuthorityStale flush.options)] with
  | some result => (p, .ended result)
  | none =>
    match p.ytext with
    | none => (p, .ended (.deferred .missingYtext))
    | some (ytext, content) =>
      let flush := { flush with ytext, content }
      match p.getOpenWriteDeferral content flush.force with
      | some reason => (p, .ended (.deferred reason))
      | none =>
        if flush.options.expectedDiskFile.any fun file => p.target ≠ some (.file file) then
          (p, .ended diskChanged)
        else if flush.options.expectedDiskRevision.any fun revision =>
            match p.target with
            | some (.file file) => !p.isDiskRevisionCurrent file (some revision)
            | _ => true then
          (p, .ended diskChanged)
        else
          let p := if p.target.isSome then p.deleteAuthorization else p
          if flush.options.allowCreateIfMissing && p.target.isSome then (p, .ended diskChanged)
          else match p.target with
            | some (.file file) => (p, .await flush (.read file none))
            | _ => createMissing blocksFrontmatter p flush

/-- The plan to replace the text that was read. -/
def planReplacement (file : ℕ) (current : JsString) : FlushProgress :=
  if flush.expectedDiskSnapshot ≠ some current then .ended diskChanged
  else if blocksFrontmatter (some current) flush.content then .ended (.blocked .frontmatter)
  else .await flush (.suppress file)

def afterRead (file : ℕ) (current : JsString) : FlushProgress :=
  match firstFence [
    (p.isCallerAuthorityStale flush.options .beforeCommit,
      p.deferCallerAuthorityStale flush.options),
    (p.isPreservedUnresolvedWriteBlocked flush.options, .blocked .preservedUnresolved),
    (!p.isExactDiskFileCurrent file, diskChanged),
    (!p.isDiskRevisionCurrent file flush.options.expectedDiskRevision, diskChanged)] with
  | some result => .ended result
  | none =>
    if p.didCrdtChangeDuringWrite flush.content then .retry flush
    else match p.getOpenWriteDeferral flush.content flush.force with
      | some reason => .ended (.deferred reason)
      | none =>
        if current = flush.content then settleUnchangedWrite p flush file
        else if flush.expectedDiskSnapshot.isSome then
          planReplacement blocksFrontmatter flush file current
        else match p.durableBaseline with
          | none => .ended diskChanged
          | some baseline => .await flush (.baselineHash file current baseline)

def afterBaselineHash (file : ℕ) (current baseline : JsString) : FlushProgress :=
  match firstFence [
    (p.isCallerAuthorityStale flush.options .beforeCommit,
      p.deferCallerAuthorityStale flush.options),
    (!p.isExactDiskFileCurrent file, diskChanged)] with
  | some result => .ended result
  | none =>
    if p.didCrdtChangeDuringWrite flush.content then .retry flush
    else match p.getOpenWriteDeferral flush.content flush.force with
      | some reason => .ended (.deferred reason)
      | none =>
        if p.durableBaseline ≠ some baseline ∨ contentHash current ≠ baseline then
          .ended diskChanged
        else planReplacement blocksFrontmatter
          { flush with expectedDiskSnapshot := some current } file current

def afterSuppress (file : ℕ) : FlushProgress :=
  match firstFence [
    (p.isCallerAuthorityStale flush.options .beforeCommit,
      p.deferCallerAuthorityStale flush.options),
    (!p.isExactDiskFileCurrent file, diskChanged),
    (!p.isDiskRevisionCurrent file flush.options.expectedDiskRevision, diskChanged)] with
  | some result => .ended result
  | none =>
    if p.didCrdtChangeDuringWrite flush.content then .retry flush
    else match p.getOpenWriteDeferral flush.content flush.force with
      | some reason => .ended (.deferred reason)
      | none => .await flush (.process file none)

/-- The callback of `Vault.process`: the text to write, or why it aborts. -/
def processCallback (file : ℕ) (latestDiskContent : JsString) :
    Except ExistingFileWriteAbortReason JsString :=
  if p.isPreservedUnresolvedWriteBlocked flush.options then .error .preservedUnresolved
  else if !p.isExactDiskFileCurrent file then .error .fileIdentityChanged
  else if !p.isDiskRevisionCurrent file flush.options.expectedDiskRevision then
    .error .fileRevisionChanged
  else if latestDiskContent = flush.content then .error .alreadyCurrent
  else if !(flush.expectedDiskSnapshot.any fun snapshot =>
      rawContentMatchesVaultReadSnapshot latestDiskContent snapshot) then .error .diskChanged
  else if p.ytext.map Prod.snd ≠ some flush.content then .error .crdtChanged
  else if p.deleteActive then .error .remoteDeleteActive
  else match p.getOpenWriteDeferral flush.content flush.force with
    | some reason => .error (.openWriteDeferred reason)
    | none =>
      if p.isCallerAuthorityStale flush.options .beforeCommit then .error .authorityStale
      else .ok flush.content

def afterProcess (file : ℕ) : Except ExistingFileWriteAbortReason Unit → FlushProgress
  | .ok () =>
    match firstFence [
      (!p.isExactDiskFileCurrent file, diskChanged),
      (p.isPreservedUnresolvedWriteBlocked flush.options, .blocked .preservedUnresolved),
      (p.isCallerAuthorityStale flush.options .afterCommit,
        p.deferCallerAuthorityStale flush.options)] with
    | some result => .ended result
    | none => .await flush (.hash .updated file (some (p.stat file)))
  | .error .preservedUnresolved => .ended (.blocked .preservedUnresolved)
  | .error .alreadyCurrent => settleUnchangedWrite p flush file
  | .error .diskChanged | .error .fileIdentityChanged | .error .fileRevisionChanged
  | .error .remoteDeleteActive => .ended diskChanged
  | .error (.openWriteDeferred reason) => .ended (.deferred reason)
  | .error .authorityStale => .ended (p.deferCallerAuthorityStale flush.options)
  | .error .crdtChanged => .retry flush

def afterSuppressCreate : FlushProgress :=
  match firstFence [
    (p.isCallerAuthorityStale flush.options .beforeCommit,
      p.deferCallerAuthorityStale flush.options),
    (p.isPreservedUnresolvedWriteBlocked flush.options, .blocked .preservedUnresolved)] with
  | some result => .ended result
  | none =>
    if p.didCrdtChangeDuringWrite flush.content then .retry flush
    else match p.getOpenWriteDeferral flush.content flush.force with
      | some reason => .ended (.deferred reason)
      | none =>
        match firstFence [
          (p.deleteActive, diskChanged),
          (p.isPreservedUnresolvedWriteBlocked flush.options, .blocked .preservedUnresolved),
          (p.isCallerAuthorityStale flush.options .beforeCommit ||
            p.isCriticalSectionClosed flush.options,
              p.deferCallerAuthorityStale flush.options)] with
        | some result => .ended result
        | none => .await flush (.create none)

/-- The file has been created; the authority goes with it. -/
def afterCreate (file : ℕ) : MirrorPath × FlushProgress :=
  (p.deleteAuthorization,
    if p.isCallerAuthorityStale flush.options .afterCommit then
      .ended (p.deferCallerAuthorityStale flush.options)
    else .await flush (.hash .created file (some (p.stat file))))

/-- `Vault.create` has refused. -/
def createFailed : MirrorPath × FlushProgress :=
  (p.deleteAuthorization, match p.target with
    | some (.file file) =>
      if flush.options.allowCreateIfMissing then .ended diskChanged
      else .await flush (.raceRead file none)
    | some .folder => .ended diskChanged
    | none => .ended .failed)

def afterRaceRead (file : ℕ) (appeared : JsString) : FlushProgress :=
  if appeared = flush.content ∧ p.ytext.map Prod.snd = some flush.content then
    settleUnchangedWrite p flush file
  else .ended diskChanged

/-- The fences after the hash and those of `isSettledDiskSnapshotCurrent` before its read. -/
def afterHash (kind : SettleKind) (file : ℕ) (revision : Option DiskFileRevision) : FlushProgress :=
  match firstFence [
    (p.isCallerAuthorityStale flush.options kind.phase, p.deferCallerAuthorityStale flush.options),
    (p.isPreservedUnresolvedWriteBlocked flush.options, .blocked .preservedUnresolved),
    (kind ≠ .created && !p.isExactDiskFileCurrent file, diskChanged),
    (kind = .unchanged && !p.isDiskRevisionCurrent file flush.options.expectedDiskRevision,
      diskChanged)] with
  | some result => .ended result
  | none =>
    if p.isPreservedUnresolvedWriteBlocked flush.options || !p.isExactDiskFileCurrent file ||
        !p.isDiskRevisionCurrent file revision then .await flush (.settled kind file false)
    else .await flush (.readback kind file revision none)

/-- `isSettledDiskSnapshotCurrent` after its read. -/
def afterReadback (kind : SettleKind) (file : ℕ) (revision : Option DiskFileRevision)
    (actual : JsString) : FlushProgress :=
  .await flush (.settled kind file
    (p.isExactDiskFileCurrent file && p.isDiskRevisionCurrent file revision &&
      actual = flush.content && p.ytext = some (flush.ytext, flush.content) &&
      !p.isPreservedUnresolvedWriteBlocked flush.options))

/-- The baseline callback, and the result. -/
def publish (kind : SettleKind) : MirrorPath × FlushProgress :=
  let hash := contentHash flush.content
  (if flush.options.recordBaseline then { p with baseline := some hash } else p,
    .ended (match kind with
      | .updated => .written false flush.content hash flush.options.recordBaseline
      | .created => .written true flush.content hash flush.options.recordBaseline
      | .unchanged => .unchanged flush.content hash))

def afterSettled (kind : SettleKind) (file : ℕ) (isCurrent : Bool) : MirrorPath × FlushProgress :=
  match firstFence [
    (!isCurrent, diskChanged),
    (p.isCallerAuthorityStale flush.options kind.phase, p.deferCallerAuthorityStale flush.options),
    (kind = .unchanged && !p.isDiskRevisionCurrent file flush.options.expectedDiskRevision,
      diskChanged)] with
  | some result => (p, .ended result)
  | none => publish contentHash p flush kind

/-- The loop over the attempts that are left. -/
def attempts : ℕ → MirrorPath → Flush → MirrorPath × FlushProgress
  | 0, p, _ => (p, .ended (.deferred .crdtChangedDuringWrite))
  | left + 1, p, flush =>
    match beginAttempt blocksFrontmatter p { flush with attemptsLeft := left } with
    | (p, .retry flush) => attempts left p flush
    | other => other

/-- What follows the await, once its operation is done. -/
def resumePoint : FlushPoint → Option (MirrorPath × FlushProgress)
  | .read file got => got.map fun current => (p, afterRead blocksFrontmatter p flush file current)
  | .baselineHash file current baseline =>
    some (p, afterBaselineHash blocksFrontmatter contentHash p flush file current baseline)
  | .suppress file => some (p, afterSuppress p flush file)
  | .process file done => done.map fun outcome => (p, afterProcess p flush file outcome)
  | .createFolder => some (afterCreateFolder p flush)
  | .suppressCreate => some (p, afterSuppressCreate p flush)
  | .create created => created.map fun file => afterCreate p flush file
  | .raceRead file got => got.map fun appeared => (p, afterRaceRead p flush file appeared)
  | .hash kind file revision => some (p, afterHash p flush kind file revision)
  | .readback kind file revision got => got.map fun actual =>
    (p, afterReadback p flush kind file revision actual)
  | .settled kind file isCurrent => some (afterSettled contentHash p flush kind file isCurrent)

/-- What follows where the operation of the await rejects instead. -/
def rejectPoint : FlushPoint → Option (MirrorPath × FlushProgress)
  | .create none => some (createFailed p flush)
  | .raceRead _ none => some (p, .ended diskChanged)
  | .readback kind file _ none => some (p, .await flush (.settled kind file false))
  | .settled _ _ _ => none
  | .read _ (some _) | .process _ (some _) | .create (some _) | .raceRead _ (some _)
  | .readback _ _ _ (some _) => none
  | .read _ none | .baselineHash _ _ _ | .suppress _ | .process _ none | .createFolder
  | .suppressCreate | .hash _ _ _ => some (p, .ended .failed)

/-- A call that has its path's lock. -/
def flushWriteUnlocked (p : MirrorPath) (force : Bool) (options : DiskWriteOptions) :
    MirrorPath × FlushProgress :=
  match firstFence [
    (p.isPreservedUnresolvedWriteBlocked options, .blocked .preservedUnresolved),
    (p.isCallerAuthorityStale options .beforeCommit, p.deferCallerAuthorityStale options)] with
  | some result => (p, .ended result)
  | none => attempts blocksFrontmatter 3 p
    { force, options, attemptsLeft := 0, expectedDiskSnapshot := options.expectedDiskContent }

end Code

/-- What the operation of an await does to the vault, and what it comes to. A file that is created
gets a number, a file that is written a new revision. -/
def performPoint (p : MirrorPath) (flush : Flush) (created : ℕ) (stripsBom : Bool)
    (revision : DiskFileRevision) : FlushPoint → MirrorPath × FlushPoint
  | .read file none => (p, .read file (some (vaultRead stripsBom (p.content file))))
  | .raceRead file none => (p, .raceRead file (some (vaultRead stripsBom (p.content file))))
  | .readback kind file expected none =>
    (p, .readback kind file expected (some (vaultRead stripsBom (p.content file))))
  | .process file none =>
    match processCallback p flush file (p.content file) with
    | .ok content =>
      ({ p with
        content := Function.update p.content file content
        stat := Function.update p.stat file revision }, .process file (some (.ok ())))
    | .error reason => (p, .process file (some (.error reason)))
  | .create none =>
    if p.target.isSome then (p, .create none)
    else
      ({ p with
        target := some (.file created)
        content := Function.update p.content created flush.content
        stat := Function.update p.stat created revision }, .create (some created))
  | point => (p, point)

/-- The path, the calls that wait for its lock, and the one that has it. -/
structure FlushRun where
  path : MirrorPath
  queue : List (Bool × DiskWriteOptions) := []
  call : Option (Flush × FlushPoint) := none
  results : List DiskWriteResult := []
  grants : ℕ := 0

/-- `outside` is all that others do; they take a create authority away but grant it only by
`authorizeRemoteCreate`. -/
inductive FlushEvent
  | outside (path : MirrorPath)
  | authorizeRemoteCreate
  | flushWrite (force : Bool) (options : DiskWriteOptions)
  | start
  | perform (created : ℕ) (stripsBom : Bool) (revision : DiskFileRevision)
  | reject
  | resume

section Run

variable (blocksFrontmatter : Option JsString → JsString → Bool) (contentHash : JsString → JsString)

/-- Where the code has come to: a retry goes on at once. -/
def FlushRun.proceed (run : FlushRun) (after : MirrorPath × FlushProgress) : FlushRun :=
  match after with
  | (path, .await flush point) => { run with path, call := some (flush, point) }
  | (path, .ended result) => { run with path, call := none, results := run.results ++ [result] }
  | (path, .retry flush) =>
    match attempts blocksFrontmatter flush.attemptsLeft path flush with
    | (path, .await flush point) => { run with path, call := some (flush, point) }
    | (path, .ended result) => { run with path, call := none, results := run.results ++ [result] }
    | (path, .retry _) => { run with path, call := none }

/-- `flushWrite` up to the lock. -/
def FlushRun.flushWrite (run : FlushRun) (force : Bool) (options : DiskWriteOptions) : FlushRun :=
  let admission := options.remoteProjectionAdmission ||
    (options.requireRemoteProjectionAdmission && run.path.isAdmissionCaptured)
  if !run.path.isMarkdownPathSyncable then
    { run with results := run.results ++ [.deferred .pathExcluded] }
  else if options.requireRemoteProjectionAdmission &&
      (!admission || !run.path.isAdmissionCurrent) then
    { run with results := run.results ++ [.deferred .remoteProjectionNotReady] }
  else
    { run with
      queue := run.queue ++ [(force, { options with remoteProjectionAdmission := admission })] }

/-- What others make of the path; a create authority they leave is the one that was there. -/
def FlushRun.outside (run : FlushRun) (path : MirrorPath) : FlushRun :=
  { run with
    path := { path with
      remoteCreateAuthorization := run.path.remoteCreateAuthorization.filter fun authorization =>
        path.remoteCreateAuthorization = some authorization } }

def flushNext (run : FlushRun) : FlushEvent → FlushRun
  | .outside path => run.outside path
  | .authorizeRemoteCreate =>
    { run with
      path := { run.path with
        remoteCreateAuthorization := some ⟨run.grants, run.path.now + remoteCreateAuthorizationMs⟩ }
      grants := run.grants + 1 }
  | .flushWrite force options => run.flushWrite force options
  | .start =>
    match run.call, run.queue with
    | none, (force, options) :: queue =>
      { run with queue }.proceed blocksFrontmatter
        (flushWriteUnlocked blocksFrontmatter run.path force options)
    | _, _ => run
  | .perform created stripsBom revision =>
    match run.call with
    | some (flush, point) =>
      let performed := performPoint run.path flush created stripsBom revision point
      { run with path := performed.1, call := some (flush, performed.2) }
    | none => run
  | .reject =>
    match run.call with
    | some (flush, point) =>
      match rejectPoint run.path flush point with
      | some after => run.proceed blocksFrontmatter after
      | none => run
    | none => run
  | .resume =>
    match run.call with
    | some (flush, point) =>
      match resumePoint blocksFrontmatter contentHash run.path flush point with
      | some after => run.proceed blocksFrontmatter after
      | none => run
    | none => run

/-- The run before its `n`-th event; at first no create authority is held. -/
def flushAt (path : MirrorPath) (events : List FlushEvent) (n : ℕ) : FlushRun :=
  stateAt (flushNext blocksFrontmatter contentHash) { path := path.deleteAuthorization } events n

end Run

/-- A call is between its check for a creation and the creation. -/
def FlushPoint.Creates : FlushPoint → Prop
  | .createFolder | .suppressCreate | .create none => True
  | _ => False

/-- A missing file may be created. -/
def MayCreate (p : MirrorPath) (options : DiskWriteOptions) : Prop :=
  options.allowCreateIfMissing = true ∨ p.durableBaseline = none ∨ p.liveAuthorization.isSome = true

/-- While a creation is prepared, others record no baseline for a path without a create authority
and let no authority go for a path with a baseline. -/
def KeepsCreateGround (run : FlushRun) : FlushEvent → Prop
  | .outside path => ∀ flush point, run.call = some (flush, point) → point.Creates →
    MayCreate run.path flush.options → MayCreate (run.outside path).path flush.options
  | .authorizeRemoteCreate | .flushWrite _ _ | .start | .perform _ _ _ | .reject | .resume => True

section Accounting

variable (blocksFrontmatter : Option JsString → JsString → Bool) (contentHash : JsString → JsString)
  (path : MirrorPath) (events : List FlushEvent)

/-- The `n`-th event creates the missing file. -/
def CreatesFile (n : ℕ) : Prop :=
  ∃ created stripsBom revision file,
    events[n]? = some (.perform created stripsBom revision) ∧
      (flushAt blocksFrontmatter contentHash path events n).path.target = none ∧
      (flushAt blocksFrontmatter contentHash path events (n + 1)).path.target = some (.file file)

/-- The text that a call may replace: what it was told to expect, or a text whose hash was the
durable baseline. -/
def AccountedFor (n : ℕ) (options : DiskWriteOptions) (snapshot : JsString) : Prop :=
  options.expectedDiskContent = some snapshot ∨
    ∃ k ≤ n, (flushAt blocksFrontmatter contentHash path events k).path.durableBaseline =
      some (contentHash snapshot)

/-- Before the `n`-th event a file was read back with this text. -/
def ReadBack (n file : ℕ) (content : JsString) : Prop :=
  ∃ k < n, ∃ flush kind revision created stripsBom stat,
    (flushAt blocksFrontmatter contentHash path events k).call =
        some (flush, FlushPoint.readback kind file revision none) ∧
      events[k]? = some (.perform created stripsBom stat) ∧
      vaultRead stripsBom
        ((flushAt blocksFrontmatter contentHash path events k).path.content file) = content

/-- Then the file read back was still at the path, and the document still had this text. -/
def SettledBefore (n ytext : ℕ) (content : JsString) : Prop :=
  ∃ k < n, ∃ file, ReadBack blocksFrontmatter contentHash path events k file content ∧
    (flushAt blocksFrontmatter contentHash path events k).path.target = some (.file file) ∧
    (flushAt blocksFrontmatter contentHash path events k).path.ytext = some (ytext, content)

/-- No write destroys local bytes it did not account for. -/
structure AccountsForBytes : Prop where
  /-- Apart from others, only the operations of the awaits touch the vault. -/
  untouched : ∀ n event, events[n]? = some event → (∀ p, event ≠ .outside p) →
    (∀ created stripsBom revision, event ≠ .perform created stripsBom revision) →
      (flushAt blocksFrontmatter contentHash path events (n + 1)).path.target =
          (flushAt blocksFrontmatter contentHash path events n).path.target ∧
        (flushAt blocksFrontmatter contentHash path events (n + 1)).path.content =
          (flushAt blocksFrontmatter contentHash path events n).path.content
  replaced : ∀ n created stripsBom revision file,
    events[n]? = some (.perform created stripsBom revision) →
      (flushAt blocksFrontmatter contentHash path events n).path.target ≠ none →
      (flushAt blocksFrontmatter contentHash path events (n + 1)).path.content file ≠
          (flushAt blocksFrontmatter contentHash path events n).path.content file →
        (flushAt blocksFrontmatter contentHash path events n).path.target = some (.file file) ∧
        ∃ flush point,
          (flushAt blocksFrontmatter contentHash path events n).call = some (flush, point) ∧
          (∃ snapshot,
            rawContentMatchesVaultReadSnapshot
              ((flushAt blocksFrontmatter contentHash path events n).path.content file)
              snapshot = true ∧
            AccountedFor blocksFrontmatter contentHash path events n flush.options snapshot) ∧
          (flushAt blocksFrontmatter contentHash path events n).path.ytext.map Prod.snd =
            some ((flushAt blocksFrontmatter contentHash path events (n + 1)).path.content file) ∧
          (flushAt blocksFrontmatter contentHash path events n).path.deleteActive = false ∧
          ∀ episodeId,
            (flushAt blocksFrontmatter contentHash path events n).path.preservedUnresolved =
                some episodeId →
              flush.options.expectedPreservedUnresolvedEpisodeId = some episodeId
  created : ∀ n, CreatesFile blocksFrontmatter contentHash path events n →
    ∃ flush point, (flushAt blocksFrontmatter contentHash path events n).call =
        some (flush, point) ∧
      MayCreate (flushAt blocksFrontmatter contentHash path events n).path flush.options
  /-- One create authority leads to one creation at most. -/
  once : ∀ n m grant flush point flush' point',
    CreatesFile blocksFrontmatter contentHash path events n →
    CreatesFile blocksFrontmatter contentHash path events m →
    (flushAt blocksFrontmatter contentHash path events n).call = some (flush, point) →
    (flushAt blocksFrontmatter contentHash path events m).call = some (flush', point') →
    flush.authority = some grant → flush'.authority = some grant → n = m
  /-- What is reported as settled was read back, and was the document's text. -/
  settled : ∀ n result content hash,
    (flushAt blocksFrontmatter contentHash path events (n + 1)).results =
        (flushAt blocksFrontmatter contentHash path events n).results ++ [result] →
      result.settledContent = some (content, hash) →
        hash = contentHash content ∧
          ∃ ytext, SettledBefore blocksFrontmatter contentHash path events n ytext content

end Accounting

end Kaos.Sync
