import Kaos.Runtime.ClosedFileReconcileSafety

/-! A note's Attention entry is resolved by a choice of the user, by a fresh disk event or by the
heal of a deferred winner. Each of them chooses a text, applies it, settles the baseline and clears
the entry, and between two awaits everything may change. -/
namespace Kaos.Runtime

open Kaos.Lib Kaos.Sync Kaos.Utils

/-- What a resolution reads besides what a pass reads. -/
structure AttentionWorld (η : Type*) extends PathWorld η where
  isMarkdownPathSyncable : Bool
  isConflictWinnerDeferred : Bool
  /-- Zero is no limit. -/
  maxFileSizeBytes : ℕ
  /-- The documents and the mirror that the controller has. -/
  session : ℕ
  diskBaselineRevision : ℕ
  isActivelyEdited : Bool
  isIngestAborted : Bool
  shouldBlockFrontmatterIngest : Option JsString → JsString → Bool

/-- A vault event that was admitted after the episode had begun. -/
structure FreshDiskEvent where
  file : ℕ
  content : JsString
  stat : Option (ℕ × ℕ)
  diskRevision : ℕ
  isActiveIngest : Bool

structure MergedChoice where
  mergedText : JsString
  expectedLocalText : Option JsString
  expectedRemoteText : Option JsString

inductive AttentionOperation
  | keepLocal
  | useRemote
  | useMerged (choice : MergedChoice)
  | freshDiskEvent (event : FreshDiskEvent)
  | healFencedWinner (diskContent : JsString)

/-- The result of `readStableMarkdownFile` if it is ready. -/
structure StableAttentionRead where
  file : ℕ
  content : JsString
  stat : Option (ℕ × ℕ)

/-- What is left to do once the baseline has been settled. -/
inductive AfterSettlement
  | clears
  | keepLocal (text : ℕ)
  | useMerged (text : ℕ)
  | freshDiskEvent (text : ℕ)

/-- A call of `updateDiskIndexForPath`; the text that is expected has the content. -/
structure BaselineSettlement (η : Type*) where
  content : JsString
  stat : Option (ℕ × ℕ)
  file : ℕ
  text : Option ℕ
  startingContentHash : Option η
  startingBaselineRevision : ℕ

inductive SettlementPhase
  | stat
  | hash
  | reading (file : ℕ) (read : Option (Option JsString))
  | returned (settled : Bool)

/-- For what a disk write is awaited. -/
inductive AttentionFlush
  | useMerged (text file : ℕ) (mergedText : JsString)
  | useRemote
  | heal (file : ℕ)

/-- The texts of a merge that has been applied, with the file that was read. -/
structure AppliedMerge where
  text : ℕ
  file : ℕ
  diskContent : JsString
  mergedText : JsString

/-- Where an operation waits. A disk write carries the text it commits, with its `Y.Text`. -/
inductive AttentionPhase (η : Type*)
  | keepRead (file : ℕ)
  | keepDiscard (read : StableAttentionRead) (text : ℕ)
  | mergedRead (choice : MergedChoice) (text : ℕ) (previousContent : JsString) (file : ℕ)
    (session : ℕ)
  | mergedDiscardCrdt (merge : AppliedMerge)
  | mergedDiscardDisk (merge : AppliedMerge)
  | remoteRead (file : ℕ) (crdtContent : JsString) (read : Option (Option JsString))
  | remoteDiscard
  | freshHash (event : FreshDiskEvent) (text : ℕ) (crdtContent : JsString) (baselineHash : Option η)
  | freshDiscard (event : FreshDiskEvent) (text : ℕ) (crdtContent : JsString)
  | freshReading (event : FreshDiskEvent) (d : ClosedFileDecision) (ticket : MutationTicket)
    (read : Option (Option JsString))
  | freshAttempted (event : FreshDiskEvent) (text : ℕ)
  | healHashCrdt (file : ℕ) (diskContent crdtContent : JsString) (baselineHash : Option η)
  | healHashDisk (file : ℕ) (diskContent crdtContent : JsString) (baselineHash : Option η)
  | flushing (flush : AttentionFlush) (written : Option (ℕ × JsString))
  | settling (after : AfterSettlement) (call : BaselineSettlement η) (phase : SettlementPhase)
  | finalRead (text : ℕ) (settled : Bool) (call : BaselineSettlement η)
    (read : Option (Option JsString))
  | done

/-- An operation on the entry of `episode`: the text it has chosen, the `Y.Text` that had that text
when it was applied, and what the world was like when the entry was cleared. -/
structure AttentionLane (η : Type*) where
  world : AttentionWorld η
  episode : ℕ
  phase : AttentionPhase η
  chosen : Option JsString := none
  applied : Option (ℕ × JsString) := none
  cleared : Option (AttentionWorld η) := none

/-- What an await gives: a stable read, the text that `ensureFile` has at the path, whether a write
has settled, the path's stat, and whether the index has been saved. -/
structure AttentionAnswer where
  stableRead : Option StableAttentionRead := none
  ensuredText : Option ℕ := none
  writeSettled : Bool := false
  stat : Option (ℕ × ℕ) := none
  indexSaved : Bool := true
  now : ℕ := 0

variable {η : Type*}

namespace AttentionWorld

variable (w : AttentionWorld η)

/-- The numbers of a file's stat. -/
def fileStat (file : ℕ) : Option (ℕ × ℕ) :=
  (w.stat file).1.bind fun mtime => (w.stat file).2.map fun size => (mtime, size)

def exceedsLimit (content : JsString) : Bool :=
  0 < w.maxFileSizeBytes && w.maxFileSizeBytes < content.length

def isExactFile (file : ℕ) : Bool := w.isAtPath file && decide (w.file = some file)

def setText (text : ℕ) (content : JsString) : AttentionWorld η :=
  { w with toPathWorld := w.toPathWorld.setText text content }

end AttentionWorld

/-- `isMutationCurrent` for the path of an episode. -/
def isResolutionCurrent (episode : ℕ) (d : ClosedFileDecision) (ticket : MutationTicket)
    (read : Option JsString) (w : PathWorld η) : Bool × PathWorld η :=
  let identityChanged := ticket.identityChanged ||
    (!ticket.readFails && read.isSome && d.file.any fun file =>
      !w.isAtPath file || w.file ≠ some file)
  if some w.diskRevision ≠ d.diskRevision ∨ (d.file.any fun file => w.stat file ≠ ticket.stat) ∨
      identityChanged ∨ ticket.readFails ∨ read ≠ some d.diskContent ∨ w.openViews ≠ [] ∨
      w.isBound ∨ w.text ≠ some d.text ∨ w.content d.text ≠ d.crdtContent ∨
      w.preservedUnresolved ≠ some episode then
    (false, w)
  else ticket.fence.passes w

namespace AttentionLane

variable (lane : AttentionLane η)

def finish : AttentionLane η := { lane with phase := .done }

def awaiting (phase : AttentionPhase η) : AttentionLane η := { lane with phase }

def episodeIsCurrent : Bool := decide (lane.world.preservedUnresolved = some lane.episode)

/-- `clearPreservedUnresolved`, with which the operation ends. -/
def clear : AttentionLane η :=
  { lane with
    world := { lane.world with preservedUnresolved := none }
    phase := .done
    cleared := some lane.world }

/-- `updateDiskIndexForPath` up to its first await. -/
def settle (after : AfterSettlement) (content : JsString) (stat : Option (ℕ × ℕ)) (file : ℕ)
    (text : Option ℕ) : AttentionLane η :=
  let call : BaselineSettlement η :=
    { content, stat, file, text
      startingContentHash := lane.world.diskIndex.bind (·.contentHash)
      startingBaselineRevision := lane.world.diskBaselineRevision }
  lane.awaiting (.settling after call (if stat.isSome then .hash else .stat))

/-- `updateDiskIndexForPath` has returned. -/
def settled (after : AfterSettlement) (call : BaselineSettlement η) (settled : Bool) :
    AttentionLane η :=
  match after with
  | .clears => if settled && lane.episodeIsCurrent then lane.clear else lane.finish
  | .keepLocal text =>
    if settled then lane.awaiting (.finalRead text settled call none) else lane.finish
  | .useMerged text => lane.awaiting (.finalRead text settled call none)
  | .freshDiskEvent text =>
    if settled && lane.episodeIsCurrent then lane.awaiting (.finalRead text settled call none)
    else lane.finish

/-- The checks after the last read, in the same step as the clearing. -/
def finalChecked (text : ℕ) (settled : Bool) (call : BaselineSettlement η)
    (read : Option JsString) : AttentionLane η :=
  if settled && lane.episodeIsCurrent && decide (read = some call.content) &&
      lane.world.isExactFile call.file && decide (lane.world.text = some text) &&
        decide (lane.world.content text = call.content) then lane.clear
  else lane.finish

/-- The disk write of a merge, if nothing has changed since it was applied. -/
def flushMerge (merge : AppliedMerge) : AttentionLane η :=
  if lane.episodeIsCurrent && decide (lane.world.text = some merge.text) &&
      decide (lane.world.content merge.text = merge.mergedText) then
    lane.awaiting (.flushing (.useMerged merge.text merge.file merge.mergedText) none)
  else lane.finish

/-- The local side of a merge is recorded if it is lost. -/
def discardDisk (merge : AppliedMerge) : AttentionLane η :=
  if merge.diskContent = merge.mergedText then lane.flushMerge merge
  else lane.awaiting (.mergedDiscardDisk merge)

def flushRemote (flush : AttentionFlush) : AttentionLane η :=
  if lane.world.projectionAdmitted then lane.awaiting (.flushing flush none)
  else lane.finish

def abortsIngest (event : FreshDiskEvent) : Bool :=
  event.isActiveIngest && lane.world.isIngestAborted

/-- The first half of `commitClosedFileReconcileMutation`. -/
def attemptFresh (event : FreshDiskEvent) (text : ℕ) (crdtContent : JsString) : AttentionLane η :=
  if !lane.episodeIsCurrent || lane.abortsIngest event then lane.finish
  else
    let d : ClosedFileDecision :=
      { file := some event.file
        diskContent := event.content
        diskRevision := some event.diskRevision
        diskMtime := none
        text
        crdtContent }
    let (ticket, world) := captureMutationTicket d lane.world.toPathWorld
    let lane := { lane with world := { lane.world with toPathWorld := world } }
    match ticket with
    | none => lane.finish
    | some ticket =>
      if ticket.readFails then lane.finish
      else lane.awaiting (.freshReading event d ticket none)

/-- `resolvePreservedUnresolvedFromFreshDiskEvent` up to its first await. -/
def beginFresh (event : FreshDiskEvent) : AttentionLane η :=
  if !lane.episodeIsCurrent || lane.abortsIngest event then lane.finish
  else match lane.world.text with
  | none => lane.finish
  | some text =>
    let crdtContent := lane.world.content text
    if lane.world.shouldBlockFrontmatterIngest crdtContent event.content then lane.finish
    else if crdtContent = event.content then lane.attemptFresh event text crdtContent
    else lane.awaiting
      (.freshHash event text crdtContent (lane.world.diskIndex.bind (·.contentHash)))

/-- `tryHealFencedConflictWinnerFlush` up to its first await. -/
def beginHeal (diskContent : JsString) : AttentionLane η :=
  if !lane.world.isConflictWinnerDeferred || !lane.world.openViews.isEmpty ||
      lane.world.isBound || lane.world.exceedsLimit diskContent then lane.finish
  else match lane.world.file, lane.world.text with
  | some file, some text =>
    let crdtContent := lane.world.content text
    if crdtContent = diskContent then
      { lane with chosen := some diskContent, applied := some (text, diskContent) }.settle .clears
        diskContent (lane.world.fileStat file) file (some text)
    else lane.awaiting
      (.healHashCrdt file diskContent crdtContent (lane.world.diskIndex.bind (·.contentHash)))
  | _, _ => lane.finish

/-- The remote text is chosen at once. -/
def beginRemote : AttentionLane η :=
  match lane.world.text with
  | none => lane.finish
  | some text =>
    let crdtContent := lane.world.content text
    let lane := { lane with chosen := some crdtContent }
    match lane.world.file with
    | some file => lane.awaiting (.remoteRead file crdtContent none)
    | none => lane.flushRemote .useRemote

def beginMerged (choice : MergedChoice) : AttentionLane η :=
  if lane.world.isActivelyEdited then lane.finish
  else match lane.world.text, lane.world.file with
  | some text, some file =>
    lane.awaiting (.mergedRead choice text (lane.world.content text) file lane.world.session)
  | _, _ => lane.finish

end AttentionLane

/-- An operation up to its first await, if the path has an entry. -/
def beginAttention (operation : AttentionOperation) (w : AttentionWorld η) :
    Option (AttentionLane η) :=
  w.preservedUnresolved.map fun episode =>
    let lane : AttentionLane η := { world := w, episode, phase := .done }
    match operation with
    | .keepLocal => match w.file with
      | some file => if w.isMarkdownPathSyncable then lane.awaiting (.keepRead file) else lane
      | none => lane
    | .useRemote => if w.isMarkdownPathSyncable then lane.beginRemote else lane
    | .useMerged choice => if w.isMarkdownPathSyncable then lane.beginMerged choice else lane
    | .freshDiskEvent event => lane.beginFresh event
    | .healFencedWinner diskContent => lane.beginHeal diskContent

section Resume

-- `fast-diff`, and the digest of a text
variable [DecidableEq η] (fastDiff : Differ UInt16) (contentBaselineHash : JsString → η)

namespace AttentionLane

/-- The chosen text is applied to a `Y.Text` by a diff from what it has. -/
def apply (lane : AttentionLane η) (text : ℕ) (content : JsString) : AttentionLane η :=
  { lane with
    world := lane.world.setText text (applyDiffToYTextWithPostcondition fastDiff
      (lane.world.content text) (lane.world.content text) content)
    chosen := some content
    applied := some (text, content) }

/-- The local text is published, in the text that `ensureFile` has at the path. -/
def publishLocal (lane : AttentionLane η) (read : StableAttentionRead) (ensured : Option ℕ) :
    AttentionLane η :=
  let previous := lane.world.text.map lane.world.content
  if !lane.world.isAtPath read.file || lane.world.exceedsLimit read.content ||
      !(lane.world.openViews.all fun view => decide (view.content = some read.content)) ||
      lane.world.shouldBlockFrontmatterIngest previous read.content ||
      !lane.episodeIsCurrent then lane.finish
  else match ensured with
  | none => lane.finish
  | some text =>
    let lane := { lane with world := { lane.world with text := some text } }
    let lane := lane.apply fastDiff text read.content
    if previous.any fun previous => !previous.isEmpty && decide (previous ≠ read.content) then
      lane.awaiting (.keepDiscard read text)
    else lane.settle (.keepLocal text) read.content read.stat read.file (some text)

/-- The merge is applied to the text that the choice was made on. -/
def applyMerge (lane : AttentionLane η) (choice : MergedChoice) (text : ℕ)
    (previousContent : JsString) (file session : ℕ) (read : StableAttentionRead) :
    AttentionLane η :=
  let w := lane.world
  if w.exceedsLimit choice.mergedText ||
      w.shouldBlockFrontmatterIngest previousContent choice.mergedText ||
      !lane.episodeIsCurrent || !w.isExactFile file || decide (w.session ≠ session) ||
      decide (w.text ≠ some text) || decide (w.content text ≠ previousContent) ||
      (choice.expectedLocalText.any fun expected => decide (expected ≠ read.content)) ||
      (choice.expectedRemoteText.any fun expected => decide (expected ≠ previousContent)) ||
      w.isActivelyEdited || !w.projectionAdmitted then lane.finish
  else
    let merge : AppliedMerge := ⟨text, file, read.content, choice.mergedText⟩
    let lane := lane.apply fastDiff text choice.mergedText
    if previousContent = choice.mergedText then lane.discardDisk merge
    else lane.awaiting (.mergedDiscardCrdt merge)

/-- The second half of the commit of a fresh event: what has been decided is still true. -/
def commitFresh (lane : AttentionLane η) (event : FreshDiskEvent) (d : ClosedFileDecision)
    (ticket : MutationTicket) (read : Option JsString) : AttentionLane η :=
  let (current, world) := isResolutionCurrent lane.episode d ticket read lane.world.toPathWorld
  let lane := { lane with world := { lane.world with toPathWorld := world } }
  if current then
    (lane.apply fastDiff d.text event.content).awaiting (.freshAttempted event d.text)
  else lane.finish

/-- The heal, once both sides have been hashed. -/
def heal (lane : AttentionLane η) (file : ℕ) (diskContent crdtContent : JsString)
    (baselineHash : Option η) : AttentionLane η :=
  if baselineHash = some (contentBaselineHash crdtContent) then
    lane.beginFresh
      { file
        content := diskContent
        stat := lane.world.fileStat file
        diskRevision := lane.world.diskRevision
        isActiveIngest := false }
  else if baselineHash = some (contentBaselineHash diskContent) then lane.flushRemote (.heal file)
  else lane.finish

/-- A disk write has settled with the text that it has committed. -/
def flushed (lane : AttentionLane η) (flush : AttentionFlush) (text : ℕ) (content : JsString) :
    AttentionLane η :=
  match flush with
  | .useMerged text file mergedText =>
    if content = mergedText then
      lane.settle (.useMerged text) mergedText (lane.world.fileStat file) file (some text)
    else lane.finish
  | .useRemote =>
    let lane := { lane with applied := some (text, content) }
    match lane.world.file with
    | some file => lane.settle .clears content (lane.world.fileStat file) file none
    | none => lane.clear
  | .heal file =>
    { lane with chosen := some content, applied := some (text, content) }.settle .clears content
      (lane.world.fileStat file) file none

/-- Whether the baseline may be committed once the file has been read again. -/
def isSettlementCurrent (lane : AttentionLane η) (call : BaselineSettlement η) (file : ℕ)
    (read : Option JsString) : Bool :=
  let w := lane.world
  let currentContentHash := w.diskIndex.bind (·.contentHash)
  w.isExactFile file && decide (file = call.file) &&
    (call.text.all fun text =>
      decide (w.text = some text) && decide (w.content text = call.content)) &&
    lane.episodeIsCurrent && decide (read = some call.content) &&
    decide (w.diskBaselineRevision = call.startingBaselineRevision) &&
    (decide (currentContentHash = call.startingContentHash) ||
      decide (currentContentHash = some (contentBaselineHash call.content)))

/-- The baseline and the index entry, with which settled editors are forgotten. -/
def commitBaseline (lane : AttentionLane η) (call : BaselineSettlement η) (now : ℕ) :
    AttentionLane η :=
  { lane with
    world :=
      { lane.world with
        diskBaselineRevision := lane.world.diskBaselineRevision + 1
        diskIndex := some
          { mtime := (call.stat.getD (0, 0)).1
            size := (call.stat.getD (0, 0)).2
            contentHash := some (contentBaselineHash call.content)
            settledAtMs := some now }
        visibleAuthority := lane.world.visibleAuthority.filter fun marker =>
          !(marker.readComplete && decide (marker.editorContents = [call.content])) } }

/-- An await of `updateDiskIndexForPath` ends. -/
def resumeSettlement (lane : AttentionLane η) (after : AfterSettlement)
    (call : BaselineSettlement η) (answer : AttentionAnswer) :
    SettlementPhase → AttentionLane η
  | .stat =>
    if answer.stat.isSome then
      lane.awaiting (.settling after { call with stat := answer.stat } .hash)
    else lane.awaiting (.settling after call (.returned false))
  | .hash => match lane.world.file with
    | some file => lane.awaiting (.settling after call (.reading file none))
    | none => lane.awaiting (.settling after call (.returned false))
  | .reading _ none => lane
  | .reading file (some read) =>
    if lane.isSettlementCurrent contentBaselineHash call file read then
      (lane.commitBaseline contentBaselineHash call answer.now).awaiting
        (.settling after call (.returned true))
    else lane.awaiting (.settling after call (.returned false))
  | .returned result => lane.settled after call (result && answer.indexSaved)

/-- An await ends. -/
def resume (lane : AttentionLane η) (answer : AttentionAnswer) : AttentionLane η :=
  match lane.phase with
  | .keepRead _ => match answer.stableRead with
    | some read => lane.publishLocal fastDiff read answer.ensuredText
    | none => lane.finish
  | .keepDiscard read text =>
    lane.settle (.keepLocal text) read.content read.stat read.file (some text)
  | .mergedRead choice text previousContent file session => match answer.stableRead with
    | some read => lane.applyMerge fastDiff choice text previousContent file session read
    | none => lane.finish
  | .mergedDiscardCrdt merge => lane.discardDisk merge
  | .mergedDiscardDisk merge => lane.flushMerge merge
  | .remoteRead _ _ none => lane
  | .remoteRead _ _ (some none) => lane.finish
  | .remoteRead _ crdtContent (some (some diskContent)) =>
    if diskContent ≠ [] ∧ diskContent ≠ crdtContent then lane.awaiting .remoteDiscard
    else lane.flushRemote .useRemote
  | .remoteDiscard => lane.flushRemote .useRemote
  | .freshHash event text crdtContent baselineHash =>
    if baselineHash.any fun hash => decide (contentBaselineHash crdtContent ≠ hash) then
      lane.finish
    else lane.awaiting (.freshDiscard event text crdtContent)
  | .freshDiscard event text crdtContent => lane.attemptFresh event text crdtContent
  | .freshReading _ _ _ none => lane
  | .freshReading event d ticket (some read) => lane.commitFresh fastDiff event d ticket read
  | .freshAttempted event text =>
    if lane.episodeIsCurrent then
      lane.settle (.freshDiskEvent text) event.content event.stat event.file (some text)
    else lane.finish
  | .healHashCrdt file diskContent crdtContent baselineHash =>
    lane.awaiting (.healHashDisk file diskContent crdtContent baselineHash)
  | .healHashDisk file diskContent crdtContent baselineHash =>
    lane.heal contentBaselineHash file diskContent crdtContent baselineHash
  | .flushing flush (some (text, content)) =>
    if answer.writeSettled then lane.flushed flush text content else lane.finish
  | .flushing _ none => lane.finish
  | .settling after call phase => lane.resumeSettlement contentBaselineHash after call answer phase
  | .finalRead _ _ _ none => lane
  | .finalRead text settled call (some read) => lane.finalChecked text settled call read
  | .done => lane

end AttentionLane

/-- The environment changes what it likes, a fresh read samples the file, a disk write commits the
text that is at the path, an await ends. -/
inductive AttentionEvent (η : Type*)
  | world (w : AttentionWorld η)
  | read
  | write
  | resume (answer : AttentionAnswer)

def AttentionLane.next (lane : AttentionLane η) : AttentionEvent η → AttentionLane η
  | .world w => { lane with world := w }
  | .read => match lane.phase with
    | .remoteRead file crdtContent none =>
      lane.awaiting (.remoteRead file crdtContent (some (lane.world.disk file)))
    | .freshReading event d ticket none =>
      lane.awaiting (.freshReading event d ticket (some (lane.world.disk event.file)))
    | .settling after call (.reading file none) =>
      lane.awaiting (.settling after call (.reading file (some (lane.world.disk file))))
    | .finalRead text settled call none =>
      lane.awaiting (.finalRead text settled call (some (lane.world.disk call.file)))
    | _ => lane
  | .write => match lane.phase with
    | .flushing flush none =>
      lane.awaiting (.flushing flush
        (lane.world.text.map fun text => (text, lane.world.content text)))
    | _ => lane
  | .resume answer => lane.resume fastDiff contentBaselineHash answer

end Resume

end Kaos.Runtime
