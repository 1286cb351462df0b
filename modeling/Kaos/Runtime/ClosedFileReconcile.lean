import Kaos.Lib.Run
import Kaos.Sync.Diff
import Kaos.Sync.EditorMirror
import Kaos.Utils.ThreeWayMerge
import Kaos.Runtime.ClosedFilePlanner

/-! An authoritative reconciliation pass on a closed file: between two awaits of the pass the path's
disk file, its shared text, its views and its Attention entry may all change. -/
namespace Kaos.Runtime

open Kaos.Lib Kaos.Sync Kaos.Utils

/-- Without a byte order mark, and with line feeds only. -/
def normalizeEditorText (content : JsString) : JsString :=
  lineFeeds false (if content.head? = some 0xFEFF then content.tail else content)

/-- Objects are numbered here and below: an object is told from another one with the same fields. -/
structure RemoteTextRevision where
  id : ℕ
  scope : ℕ
  authorityRevision : ℕ
  remoteRevision : ℕ

structure LocalOnlyPaneEvidence where
  id : ℕ
  scope : ℕ
  authorityRevision : ℕ
  remoteRevision : ℕ
  content : JsString
  localSuccessor : Bool
  unboundFallback : Bool

/-- The content is that of the editor, if it can be read. -/
structure MarkdownView where
  id : ℕ
  content : Option JsString
  evidence : Option LocalOnlyPaneEvidence

structure DiskIndexEntry (η : Type*) where
  mtime : ℕ
  size : ℕ
  contentHash : Option η
  settledAtMs : Option ℕ

inductive DiskWriteDeferReason
  | missingYText
  | pathExcluded
  | remoteProjectionNotReady
  | openEditorMismatch
  | activeEditorUnflushed
  | recentEditorActivity
  | diskChangedDuringWrite
  | crdtChangedDuringWrite
  | authorityStale
  deriving DecidableEq

inductive DiskWriteResult (η : Type*)
  | written (content : JsString) (contentHash : η)
  | unchanged (content : JsString) (contentHash : η)
  | deferred (reason : DiskWriteDeferReason)
  | blocked
  | failed

/-- What the controller can read of a path without waiting. -/
structure PathWorld (η : Type*) where
  /-- The path's `Y.Text`. -/
  text : Option ℕ
  content : ℕ → JsString
  /-- The path's `TFile`. -/
  file : Option ℕ
  isAtPath : ℕ → Bool
  stat : ℕ → Option ℕ × Option ℕ
  /-- What a fresh read of a file gives. -/
  disk : ℕ → Option JsString
  diskRevision : ℕ
  openViews : List MarkdownView
  isBound : Bool
  /-- The episode of the path's Attention entry. -/
  preservedUnresolved : Option ℕ
  automaticRecoveryHolds : List ℕ
  isTrackedText : ℕ → Bool
  keepsLocal : Bool
  recoveryPaused : Bool
  recoveryRevision : Option RemoteTextRevision
  diskIndex : Option (DiskIndexEntry η)
  visibleAuthority : Option DeferredVisibleEditorAuthority
  hasPendingWrite : Bool
  lastDiskWriteOkHash : Option η
  hasPendingLocalCreate : Bool
  pathBindingStatus : PathBindingIntegrityStatus
  lastDiskIndexPersistedAt : Option ℕ
  baselineText : η → Option JsString
  projectionAdmitted : Bool
  reconcilePending : Bool

variable {η : Type*}

namespace PathWorld

variable (w : PathWorld η)

def setText (text : ℕ) (content : JsString) : PathWorld η :=
  { w with content := Function.update w.content text content }

def holdAutomaticRecovery (text : ℕ) : PathWorld η :=
  { w with automaticRecoveryHolds := if text ∈ w.automaticRecoveryHolds then
      w.automaticRecoveryHolds else text :: w.automaticRecoveryHolds }

def releaseAutomaticRecovery (text : ℕ) : PathWorld η :=
  { w with automaticRecoveryHolds := w.automaticRecoveryHolds.filter (· ≠ text) }

/-- Holds on texts that are no longer tracked go. -/
def pruneAutomaticRecoveryHolds : PathWorld η :=
  { w with automaticRecoveryHolds := w.automaticRecoveryHolds.filter w.isTrackedText }

def paneEvidence : List (Option LocalOnlyPaneEvidence) := w.openViews.map MarkdownView.evidence

/-- A path whose text is held needs no follow-up: the hold is rechecked. -/
def requestReconciliationFollowup : PathWorld η :=
  match w.text with
  | some text =>
    if text ∈ w.automaticRecoveryHolds then w else { w with reconcilePending := true }
  | none => { w with reconcilePending := true }

end PathWorld

def paneBlocks (revision : RemoteTextRevision) (pane : Option LocalOnlyPaneEvidence)
    (content : JsString) : Bool :=
  match pane with
  | none => true
  | some pane => pane.scope ≠ revision.scope || pane.remoteRevision ≠ revision.remoteRevision ||
    pane.authorityRevision ≠ revision.authorityRevision || !pane.localSuccessor ||
      pane.content ≠ normalizeEditorText content

/-- Whether there is a reason not to recover a text from its editors. -/
def localOnlyRecoveryBlocks (revision : Option RemoteTextRevision)
    (panes : List (Option LocalOnlyPaneEvidence)) (contents : List JsString) : Bool :=
  match revision with
  | none => true
  | some revision => panes.isEmpty || panes.length ≠ contents.length ||
    (panes.zip contents).any fun pane => paneBlocks revision pane.1 pane.2

/-- Whether every editor has the disk text and the shared text has another one. -/
def isLocalOnly (views : List MarkdownView) (disk crdt : JsString) : Bool :=
  !views.isEmpty && views.all fun view => view.content.any fun content =>
    normalizeEditorText content = normalizeEditorText disk && normalizeEditorText content ≠ crdt

/-- Either the text may be changed or it is held. -/
def admitAutomaticRecovery (text : ℕ) (disk : JsString) (w : PathWorld η) : Bool × PathWorld η :=
  let crdt := normalizeEditorText (w.content text)
  let w := w.pruneAutomaticRecoveryHolds
  let held := decide (text ∈ w.automaticRecoveryHolds)
  let localOnly := isLocalOnly w.openViews disk crdt
  if normalizeEditorText disk = crdt ∧
      w.openViews.all (fun view => view.content.any fun c => normalizeEditorText c = crdt) then
    (true, w.releaseAutomaticRecovery text)
  else if w.keepsLocal then (true, w)
  else if !held && !localOnly && !w.recoveryPaused then (true, w)
  else if held && !localOnly && w.openViews.any (fun view => view.content.all fun c =>
      normalizeEditorText c ≠ normalizeEditorText disk) then
    (false, w.holdAutomaticRecovery text)
  else if w.paneEvidence.any (fun pane => pane.any (·.unboundFallback)) &&
      (w.diskIndex.bind (·.contentHash)).isNone then
    (false, w.holdAutomaticRecovery text)
  else if w.recoveryPaused || localOnlyRecoveryBlocks w.recoveryRevision w.paneEvidence
      (w.openViews.map fun view => view.content.getD []) then
    (false, w.holdAutomaticRecovery text)
  else (true, w.releaseAutomaticRecovery text)

/-- What `captureAutomaticRecoveryFence` remembers. -/
structure RecoveryFence where
  text : ℕ
  disk : JsString
  revision : Option ℕ
  views : List ℕ
  panes : List (Option ℕ)
  initiallyBlocked : Bool

def captureAutomaticRecoveryFence (text : ℕ) (disk : JsString) (w : PathWorld η) :
    RecoveryFence where
  text := text
  disk := disk
  revision := w.recoveryRevision.map (·.id)
  views := w.openViews.map (·.id)
  panes := w.paneEvidence.map fun pane => pane.map (·.id)
  initiallyBlocked := isLocalOnly w.openViews disk (normalizeEditorText (w.content text)) &&
    localOnlyRecoveryBlocks w.recoveryRevision w.paneEvidence
      (w.openViews.map fun view => view.content.getD [])

/-- Whether the fence lets a mutation pass. -/
def RecoveryFence.passes (fence : RecoveryFence) (w : PathWorld η) : Bool × PathWorld η :=
  let changed := decide (w.recoveryRevision.map (·.id) ≠ fence.revision)
  if w.openViews.map (·.id) ≠ fence.views then
    (true, if fence.initiallyBlocked || changed then w.holdAutomaticRecovery fence.text else w)
  else
    let (admitted, w) := admitAutomaticRecovery fence.text fence.disk w
    if !admitted then (false, w)
    else if changed || w.paneEvidence.map (fun pane => pane.map (·.id)) ≠ fence.panes then
      (false, w.holdAutomaticRecovery fence.text)
    else (true, w)

/-- The evidence of a decision: what the pass has read of the path, and when. -/
structure ClosedFileDecision where
  file : Option ℕ
  diskContent : JsString
  diskRevision : Option ℕ
  diskMtime : Option ℕ
  text : ℕ
  crdtContent : JsString

/-- What is to be committed, and what is known before the disk is read again. -/
structure MutationTicket where
  fence : RecoveryFence
  stat : Option ℕ × Option ℕ
  readFails : Bool
  identityChanged : Bool

/-- The first half of `commitClosedFileReconcileMutation`, before the fresh read. -/
def captureMutationTicket (d : ClosedFileDecision) (w : PathWorld η) :
    Option MutationTicket × PathWorld η :=
  let fence := captureAutomaticRecoveryFence d.text d.diskContent w
  let (passes, w) := fence.passes w
  if !passes then (none, w)
  else
    let missing := match d.file with
      | none => true
      | some file => !w.isAtPath file || w.file ≠ some file
    (some
      { fence
        stat := (d.file.map w.stat).getD (none, none)
        readFails := missing
        identityChanged := missing && d.file.isSome }, w)

/-- The second half, once the read has given a text or failed: whether the mutation is made. -/
def isMutationCurrent (d : ClosedFileDecision) (ticket : MutationTicket) (read : Option JsString)
    (w : PathWorld η) : Bool × PathWorld η :=
  let identityChanged := ticket.identityChanged ||
    (!ticket.readFails && read.isSome && d.file.any fun file =>
      !w.isAtPath file || w.file ≠ some file)
  if some w.diskRevision ≠ d.diskRevision ∨ (d.file.any fun file => w.stat file ≠ ticket.stat) ∨
      identityChanged ∨ ticket.readFails ∨ read ≠ some d.diskContent ∨ w.openViews ≠ [] ∨
      w.isBound ∨ w.text ≠ some d.text ∨ w.content d.text ≠ d.crdtContent ∨
      w.preservedUnresolved ≠ none then
    (false, w)
  else ticket.fence.passes w

/-- What a commit makes of the text: the disk text, or a merge. -/
inductive MutationStage
  | importDisk
  | diskWins
  | autoMerge (mergedText : JsString)

def MutationStage.target (d : ClosedFileDecision) : MutationStage → JsString
  | .importDisk => d.diskContent
  | .diskWins => d.diskContent
  | .autoMerge mergedText => mergedText

/-- The base of a decision. -/
structure ClosedFilePlan (η : Type*) where
  baselineHash : Option η
  diskChangeIsSelfMirror : Bool

/-- Where the pass waits. -/
inductive LanePhase (η : Type*)
  | hashDisk
  | hashCrdt
  | visibleAuthority
  | mergeBase (plan : ClosedFilePlan η) (winner : ConflictSide)
  | discard (winner : ConflictSide)
  | backup
  | remoteBase (plan : ClosedFilePlan η) (baselineHash : η)
  | remoteDiscard (plan : ClosedFilePlan η)
  | remoteBackup
  | reading (stage : MutationStage) (ticket : MutationTicket) (read : Option (Option JsString))
  | attempted (stage : MutationStage) (committed : Bool)
  | preserveStale
  | mergeFlush (expectedDiskContent : JsString)
  | queued (provisional : Bool)
  | flush (expectedDiskContent : JsString) (provisional : Bool)
  | done

/-- The pass at the path: whether its index entry is to stay, the baseline that was recorded, and
whether the path has been flagged for Attention. -/
structure Lane (η : Type*) where
  world : PathWorld η
  phase : LanePhase η
  staleDecision : Bool := false
  settled : Option (η × JsString) := none
  flagged : Bool := false

/-- A file that the scan of the pass has read. -/
structure ClosedFileScan where
  file : Option ℕ
  diskContent : JsString
  diskRevision : Option ℕ
  diskMtime : Option ℕ

/-- The pass comes to the path, which is neither preserved nor open and has a text. -/
def beginLane (scan : ClosedFileScan) (w : PathWorld η) : Option (ClosedFileDecision × Lane η) :=
  if w.preservedUnresolved.isSome || w.isBound || !w.openViews.isEmpty then none
  else w.text.map fun text =>
    ({ file := scan.file, diskContent := scan.diskContent, diskRevision := scan.diskRevision
       diskMtime := scan.diskMtime, text, crdtContent := w.content text },
      { world := w, phase := .hashDisk })

def DiskWriteResult.isSettled : DiskWriteResult η → Bool
  | .written .. => true
  | .unchanged .. => true
  | _ => false

/-- The results after which the pass is to be repeated. -/
def DiskWriteResult.retries : DiskWriteResult η → Bool
  | .deferred reason => reason = .diskChangedDuringWrite || reason = .crdtChangedDuringWrite ||
    reason = .authorityStale || reason = .openEditorMismatch || reason = .activeEditorUnflushed ||
      reason = .recentEditorActivity
  | _ => false

namespace Lane

def followup (lane : Lane η) : Lane η :=
  { lane with staleDecision := true, world := lane.world.requestReconciliationFollowup }

/-- With the baseline goes what was seen in the editors, if it is settled. -/
def recordSettledBaseline (lane : Lane η) (hash : η) (text : JsString) : Lane η :=
  { lane with
    settled := some (hash, text)
    world := { lane.world with visibleAuthority := lane.world.visibleAuthority.filter fun marker =>
      !(marker.readComplete && decide (marker.editorContents = [text])) } }

/-- A projection that is admitted goes on. -/
def project (lane : Lane η) (phase : LanePhase η) : Lane η :=
  if lane.world.projectionAdmitted then { lane with phase }
  else { lane.followup with phase := .done }

/-- `flushWrite` has ended. -/
def flushed (lane : Lane η) (provisional : Bool) (result : DiskWriteResult η) : Lane η :=
  match result with
  | .written content contentHash | .unchanged content contentHash =>
    { lane.recordSettledBaseline contentHash content with phase := .done }
  | result =>
    let lane := if result.retries then lane.followup else { lane with staleDecision := true }
    { lane with phase := .done, flagged := lane.flagged || provisional }

/-- The first half of an attempt to commit; without the file nothing is read. -/
def attempt (lane : Lane η) (d : ClosedFileDecision) (stage : MutationStage) : Lane η :=
  match captureMutationTicket d lane.world with
  | (none, world) => { lane with world, phase := .attempted stage false }
  | (some ticket, world) =>
    { lane with
      world
      phase := if ticket.readFails then .attempted stage false else .reading stage ticket none }

end Lane

section Resume

-- `fast-diff`, and the digest of a text
variable [DecidableEq η] (fastDiff : Differ UInt16) (contentBaselineHash : JsString → η)

/-- The text is changed by a diff, merged with what has come in between and at last replaced. -/
def applyDiffToYTextWithPostcondition (ytext oldText newText : JsString) : JsString :=
  if ytext ≠ oldText then
    let concurrent := mergeConcurrentEdits fastDiff oldText ytext newText
    let afterMergedDiff := applyDiffToYText fastDiff ytext ytext concurrent.mergedText
    if afterMergedDiff = newText then afterMergedDiff else concurrent.mergedText
  else
    let afterDiff := applyDiffToYText fastDiff ytext oldText newText
    if afterDiff = newText then afterDiff else newText

namespace Lane

/-- The mutation itself, in the same step as the checks. -/
def commit (lane : Lane η) (d : ClosedFileDecision) (stage : MutationStage) : Lane η :=
  let lane := { lane with world := lane.world.setText d.text (applyDiffToYTextWithPostcondition
    fastDiff (lane.world.content d.text) d.crdtContent (stage.target d)) }
  match stage with
  | .autoMerge _ => lane
  | _ => lane.recordSettledBaseline (contentBaselineHash d.diskContent) d.diskContent

/-- The planned action is begun. -/
def execute (lane : Lane η) (d : ClosedFileDecision) (plan : ClosedFilePlan η)
    (action : ClosedFileReconcileAction) : Lane η :=
  match action with
  | .importDiskToCrdt =>
    let (admitted, world) := admitAutomaticRecovery d.text d.diskContent lane.world
    if admitted then { lane with world }.attempt d .importDisk
    else { lane with world, staleDecision := true, phase := .done }
  | .createConflictArtifact reason winner _ =>
    let (admitted, world) := if winner = .disk then
      admitAutomaticRecovery d.text d.diskContent lane.world else (true, lane.world)
    if !admitted then { lane with world, staleDecision := true, phase := .done }
    else if reason = .bothChanged ∧ plan.baselineHash ≠ none then
      { lane with world, phase := .mergeBase plan winner }
    else { lane with world, phase := .discard winner }
  | .noOp =>
    if contentBaselineHash d.diskContent ≠ contentBaselineHash d.crdtContent then
      { lane with staleDecision := true, phase := .done }
    else lane.project (.queued false)
  | .applyRemoteToDisk => match plan.baselineHash with
    | none => { lane with phase := .remoteDiscard plan }
    | some baselineHash => { lane with phase := .remoteBase plan baselineHash }
  | .deferToCrdtFlush => lane.project (.queued false)

def planInput (lane : Lane η) (d : ClosedFileDecision) : ClosedFileReconcileInput η where
  baselineHash := lane.world.diskIndex.bind (·.contentHash)
  diskHash := contentBaselineHash d.diskContent
  crdtHash := contentBaselineHash d.crdtContent
  diskChangeIsSelfMirror :=
    lane.world.lastDiskWriteOkHash = some (contentBaselineHash d.diskContent)
  diskMtime := d.diskMtime
  lastDiskIndexPersistedAt := lane.world.lastDiskIndexPersistedAt
  lastFileSettledAtMs := lane.world.diskIndex.bind (·.settledAtMs)
  authoritative := true
  isOpenOrBound := false
  hasPendingLocalCreate := lane.world.hasPendingLocalCreate
  pathBindingStatus := lane.world.pathBindingStatus

/-- The decision, once both texts have been hashed. -/
def decideAction (lane : Lane η) (d : ClosedFileDecision) : Lane η :=
  let input := planInput contentBaselineHash lane d
  let plan : ClosedFilePlan η := ⟨input.baselineHash, input.diskChangeIsSelfMirror⟩
  let execute := lane.execute contentBaselineHash d plan
  if lane.world.hasPendingWrite then { lane.followup with phase := .done }
  else match decideDeferredVisibleAuthority lane.world.visibleAuthority d.diskContent
      d.crdtContent with
  | .unresolved => { lane with phase := .visibleAuthority }
  | .diskWins => execute (.createConflictArtifact .visibleAuthorityDeferredAcrossClose .disk .crdt)
  | .crdtWins => execute (.createConflictArtifact .visibleAuthorityDeferredAcrossClose .crdt .disk)
  | .none | .settled => execute (planClosedFileReconcile input)

/-- An await ends; `result` is what `flushWrite` returns if that is what was awaited. -/
def resume (lane : Lane η) (d : ClosedFileDecision) (result : DiskWriteResult η) : Lane η :=
  match lane.phase with
  | .hashDisk => { lane with phase := .hashCrdt }
  | .hashCrdt => lane.decideAction contentBaselineHash d
  | .visibleAuthority => { lane.followup with phase := .done }
  | .mergeBase plan winner =>
    match mergeTexts3 fastDiff (plan.baselineHash.bind lane.world.baselineText) d.diskContent
      d.crdtContent with
    | .cleanMerge mergedText => lane.attempt d (.autoMerge mergedText)
    | _ => { lane with phase := .discard winner }
  | .discard .disk => lane.attempt d .diskWins
  | .discard .crdt => { lane with phase := .backup }
  | .backup => lane.project (.queued true)
  | .remoteBase plan baselineHash =>
    if (lane.world.baselineText baselineHash).isSome then lane.project (.queued false)
    else { lane with phase := .remoteDiscard plan }
  | .remoteDiscard plan =>
    if some (contentBaselineHash d.diskContent) ≠ plan.baselineHash ∧
        !plan.diskChangeIsSelfMirror then { lane with phase := .remoteBackup }
    else lane.project (.queued false)
  | .remoteBackup => lane.project (.queued false)
  | .reading _ _ none => lane
  | .reading stage ticket (some read) =>
    let (current, world) := isMutationCurrent d ticket read lane.world
    if current then
      commit fastDiff contentBaselineHash
        { lane with world, phase := .attempted stage true } d stage
    else { lane with world, phase := .attempted stage false }
  | .attempted _ false => { lane.followup with phase := .preserveStale }
  | .attempted (.autoMerge _) true => lane.project (.mergeFlush d.diskContent)
  | .attempted _ true => { lane with phase := .done }
  | .preserveStale => { lane with phase := .done }
  | .mergeFlush _ => lane.flushed false result
  | .queued provisional => { lane with phase := .flush d.diskContent provisional }
  | .flush _ provisional => lane.flushed provisional result
  | .done => lane

end Lane

/-- The environment changes what it likes, a fresh read samples the file, an await ends. -/
inductive LaneEvent (η : Type*)
  | world (w : PathWorld η)
  | read
  | resume (result : DiskWriteResult η)

def Lane.next (d : ClosedFileDecision) (lane : Lane η) : LaneEvent η → Lane η
  | .world w => { lane with world := w }
  | .read => match lane.phase with
    | .reading stage ticket none =>
      { lane with phase := .reading stage ticket (some (d.file.bind lane.world.disk)) }
    | _ => lane
  | .resume result => lane.resume fastDiff contentBaselineHash d result

end Resume

/-- `updateIndex` at one path: the entry of an excluded path is carried over. -/
def updateIndex (previous : Option (DiskIndexEntry η)) (stat : Option (ℕ × ℕ)) (excluded : Bool)
    (settledHash : Option η) (settledNow : ℕ) : Option (DiskIndexEntry η) :=
  stat.bind fun (mtime, size) =>
    if excluded then previous
    else some
      { mtime, size
        contentHash := settledHash <|> previous.bind (·.contentHash)
        settledAtMs := if settledHash.isSome then some settledNow
          else previous.bind (·.settledAtMs) }

end Kaos.Runtime
