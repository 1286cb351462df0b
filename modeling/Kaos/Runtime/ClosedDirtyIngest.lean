import Kaos.Runtime.ClosedFileReconcileSafety

/-! `syncFileFromDisk` on a closed note that has a text: a second decision between the two sides,
made when a dirty path is drained. -/
namespace Kaos.Runtime

open Kaos.Lib Kaos.Sync Kaos.Utils

/-- What is committed once both sides have been compared again. A CRDT winner changes no text. -/
inductive DirtyCommit
  | importDisk
  | diskWins
  | crdtWins
  deriving DecidableEq

inductive DirtyPhase
  | visibleAuthority
  | discard (winner : ConflictSide)
  | hashDisk
  | hashCrdt
  | reading (commit : DirtyCommit) (ticket : MutationTicket) (read : Option (Option JsString))
  | attempted (commit : DirtyCommit) (committed : Bool)
  | flushing
  | settling (retries : Bool)
  | done

/-- What the lane has done; `overwrote` gives the shared text that was replaced. -/
inductive DirtyEffect
  | discarded (content : JsString)
  | overwrote (content : JsString)
  | projected
  | followup
  deriving DecidableEq

/-- The lane at the path, with its effects, the last one first. -/
structure DirtyLane (η : Type*) where
  world : PathWorld η
  phase : DirtyPhase
  log : List DirtyEffect := []

/-- The evidence of the lane, with the baseline and what the editors say when it is taken. -/
structure DirtyDecision (η : Type*) extends ClosedFileDecision where
  baselineHash : Option η
  visible : DeferredVisibleAuthorityDecision

/-- A read of the file that found it unchanged for a while. -/
structure StableMarkdownRead where
  file : ℕ
  content : JsString
  diskRevision : ℕ

/-- What an await gives: a disk write, a baseline that is recorded, an ingest that is aborted. -/
structure DirtyAnswer (η : Type*) where
  write : DiskWriteResult η
  baselineSettled : Bool
  aborted : Bool

variable {η : Type*}

/-- The ticket of a commit that changes no text: there is no fence. -/
def captureAdmissionTicket (d : ClosedFileDecision) (w : PathWorld η) : MutationTicket :=
  let missing := match d.file with
    | none => true
    | some file => !w.isAtPath file || w.file ≠ some file
  { fence := captureAutomaticRecoveryFence d.text d.diskContent w
    stat := (d.file.map w.stat).getD (none, none)
    readFails := missing
    identityChanged := missing && d.file.isSome }

/-- The checks of such a commit after the fresh read. -/
def isAdmissionCurrent (d : ClosedFileDecision) (ticket : MutationTicket) (read : Option JsString)
    (w : PathWorld η) : Bool :=
  let identityChanged := ticket.identityChanged ||
    (!ticket.readFails && read.isSome && d.file.any fun file =>
      !w.isAtPath file || w.file ≠ some file)
  !decide (some w.diskRevision ≠ d.diskRevision ∨
    (d.file.any fun file => w.stat file ≠ ticket.stat) ∨ identityChanged ∨ ticket.readFails ∨ read ≠ some d.diskContent ∨ w.openViews ≠ [] ∨
    w.isBound ∨ w.text ≠ some d.text ∨ w.content d.text ≠ d.crdtContent ∨
    w.preservedUnresolved ≠ none)

namespace DirtyLane

def followup (lane : DirtyLane η) : DirtyLane η where
  world := lane.world.requestReconciliationFollowup
  phase := .done
  log := .followup :: lane.log

/-- The first half of an attempt to commit. -/
def attempt (lane : DirtyLane η) (d : DirtyDecision η) (commit : DirtyCommit) : DirtyLane η :=
  let captured := match commit with
    | .crdtWins => (some (captureAdmissionTicket d.toClosedFileDecision lane.world), lane.world)
    | _ => captureMutationTicket d.toClosedFileDecision lane.world
  match captured with
  | (none, world) => { lane with world, phase := .attempted commit false }
  | (some ticket, world) =>
    { lane with
      world
      phase := if ticket.readFails then .attempted commit false else .reading commit ticket none }

/-- A projection that is not ready is not asked for again. -/
def project (lane : DirtyLane η) : DirtyLane η :=
  if lane.world.projectionAdmitted then
    { lane with phase := .flushing, log := .projected :: lane.log }
  else { lane with phase := .done }

/-- The lane up to its first await. -/
def start (lane : DirtyLane η) (d : DirtyDecision η) : DirtyLane η :=
  match d.visible with
  | .unresolved => { lane with phase := .visibleAuthority }
  | .diskWins =>
    let (admitted, world) := admitAutomaticRecovery d.text d.diskContent lane.world
    { lane with world, phase := if admitted then .discard .disk else .done }
  | .crdtWins => { lane with phase := .discard .crdt }
  | .none | .settled =>
    { lane with phase := if d.crdtContent = d.diskContent then .settling false else .hashDisk }

end DirtyLane

/-- The drained path is neither in Attention nor open, and it has a text. -/
def beginDirtyLane (read : StableMarkdownRead) (w : PathWorld η) :
    Option (DirtyDecision η × DirtyLane η) :=
  if w.preservedUnresolved.isSome || w.isBound || !w.openViews.isEmpty then none
  else w.text.map fun text =>
    let crdtContent := w.content text
    let world := if text ∈ w.automaticRecoveryHolds ∧
        normalizeEditorText crdtContent = normalizeEditorText read.content then
      (admitAutomaticRecovery text read.content w).2 else w
    let d : DirtyDecision η :=
      { file := some read.file
        diskContent := read.content
        diskRevision := some read.diskRevision
        diskMtime := none
        text
        crdtContent
        baselineHash := world.diskIndex.bind (·.contentHash)
        visible := decideDeferredVisibleAuthority world.visibleAuthority read.content crdtContent }
    (d, DirtyLane.start { world, phase := .done } d)

section Resume

-- `fast-diff`, the digest of a text, and the frontmatter guard on the CRDT text and the disk text
variable [DecidableEq η] (fastDiff : Differ UInt16) (contentBaselineHash : JsString → η)
  (shouldBlockFrontmatterIngest : JsString → JsString → Bool)

namespace DirtyLane

/-- The mutation, in the same step as the checks. -/
def overwrite (lane : DirtyLane η) (d : DirtyDecision η) (commit : DirtyCommit) : DirtyLane η :=
  let ytext := lane.world.content d.text
  let content := match commit with
    | .importDisk => applyDiffToYText fastDiff ytext d.crdtContent d.diskContent
    | _ => applyDiffToYTextWithPostcondition fastDiff ytext d.crdtContent d.diskContent
  { world := lane.world.setText d.text content
    phase := .attempted commit true
    log := .overwrote ytext :: lane.log }

/-- The guarded import of the disk text. -/
def importDisk (lane : DirtyLane η) (d : DirtyDecision η) (aborted : Bool) : DirtyLane η :=
  if lane.world.text ≠ some d.text ∨ lane.world.content d.text ≠ d.crdtContent then lane.followup
  else if shouldBlockFrontmatterIngest d.crdtContent d.diskContent then
    { lane with phase := .settling false }
  else if aborted then { lane with phase := .done }
  else lane.attempt d .importDisk

/-- The decision, once both texts have been hashed. -/
def decideAction (lane : DirtyLane η) (d : DirtyDecision η) (aborted : Bool) : DirtyLane η :=
  let diskChanged := d.baselineHash.all fun baselineHash =>
    contentBaselineHash d.diskContent ≠ baselineHash
  let crdtChanged := d.baselineHash.any fun baselineHash =>
    contentBaselineHash d.crdtContent ≠ baselineHash
  if d.baselineHash.isSome && !diskChanged && crdtChanged then lane.project
  else if d.baselineHash.isSome && diskChanged && crdtChanged then lane.followup
  else if d.baselineHash.isSome && !diskChanged && !crdtChanged then lane.followup
  else lane.importDisk shouldBlockFrontmatterIngest d aborted

/-- An await ends. -/
def resume (lane : DirtyLane η) (d : DirtyDecision η) (answer : DirtyAnswer η) : DirtyLane η :=
  match lane.phase with
  | .visibleAuthority => lane.followup
  | .discard .disk => { lane with log := .discarded d.crdtContent :: lane.log }.attempt d .diskWins
  | .discard .crdt => { lane with log := .discarded d.diskContent :: lane.log }.attempt d .crdtWins
  | .hashDisk => { lane with phase := .hashCrdt }
  | .hashCrdt => lane.decideAction contentBaselineHash shouldBlockFrontmatterIngest d answer.aborted
  | .reading _ _ none => lane
  | .reading .crdtWins ticket (some read) =>
    let current := isAdmissionCurrent d.toClosedFileDecision ticket read lane.world
    { lane with phase := .attempted .crdtWins current }
  | .reading commit ticket (some read) =>
    let (current, world) := isMutationCurrent d.toClosedFileDecision ticket read lane.world
    if current then overwrite fastDiff { lane with world } d commit
    else { lane with world, phase := .attempted commit false }
  | .attempted _ false => lane.followup
  | .attempted .crdtWins true => lane.project
  | .attempted _ true => { lane with phase := .settling true }
  | .flushing =>
    if answer.write.isSettled then { lane with phase := .settling false }
    else if answer.write.retries then lane.followup
    else { lane with phase := .done }
  | .settling retries =>
    if retries && !answer.baselineSettled then lane.followup else { lane with phase := .done }
  | .done => lane

end DirtyLane

/-- The environment changes what it likes, a fresh read samples the file, an await ends. -/
inductive DirtyLaneEvent (η : Type*)
  | world (w : PathWorld η)
  | read
  | resume (answer : DirtyAnswer η)

def DirtyLane.next (d : DirtyDecision η) (lane : DirtyLane η) : DirtyLaneEvent η → DirtyLane η
  | .world w => { lane with world := w }
  | .read => match lane.phase with
    | .reading commit ticket none =>
      { lane with phase := .reading commit ticket (some (d.file.bind lane.world.disk)) }
    | _ => lane
  | .resume answer => lane.resume fastDiff contentBaselineHash shouldBlockFrontmatterIngest d answer

def DirtyLane.run (d : DirtyDecision η) (lane : DirtyLane η) (events : List (DirtyLaneEvent η)) :
    DirtyLane η :=
  events.foldl (DirtyLane.next fastDiff contentBaselineHash shouldBlockFrontmatterIngest d) lane

end Resume

end Kaos.Runtime
