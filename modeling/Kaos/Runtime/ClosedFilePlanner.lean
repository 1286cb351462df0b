import Mathlib.Data.Nat.Notation
import Kaos.Lib.JsString

/-! What is to be done with a closed file whose disk text and CRDT text may differ. -/
namespace Kaos.Runtime

open Kaos.Lib

inductive ConflictSide
  | disk
  | crdt
  deriving DecidableEq

inductive ConflictReason
  | bothChanged
  | missingBaseline
  | pathBindingIntegrity
  | visibleAuthorityDeferredAcrossClose
  deriving DecidableEq

inductive ClosedFileConflictDecision
  | noOp
  | applyRemoteToDisk
  | importDiskToCrdt
  | preserveConflict (reason : ConflictReason) (winner preserve : ConflictSide)
  deriving DecidableEq

structure ClosedFileConflictInput (η : Type*) where
  baselineHash : Option η
  diskHash : η
  crdtHash : η
  diskChangeIsSelfMirror : Bool
  diskMtime : Option ℕ
  lastDiskIndexPersistedAt : Option ℕ
  lastFileSettledAtMs : Option ℕ

inductive PathBindingIntegrityStatus
  | ok
  | duplicateActivePath
  | fileIdPathDrift
  | ambiguousStructuralRename
  | missingBaselineRisk
  | unknown
  deriving DecidableEq

structure ClosedFileReconcileInput (η : Type*) extends ClosedFileConflictInput η where
  authoritative : Bool
  isOpenOrBound : Bool
  hasPendingLocalCreate : Bool
  pathBindingStatus : PathBindingIntegrityStatus

inductive ClosedFileReconcileAction
  | noOp
  | applyRemoteToDisk
  | importDiskToCrdt
  | createConflictArtifact (reason : ConflictReason) (winner preserveSide : ConflictSide)
  | deferToCrdtFlush
  deriving DecidableEq

/-- What the editors of a path held when it was last seen open. -/
structure DeferredVisibleEditorAuthority where
  readComplete : Bool
  editorContents : List JsString

inductive DeferredVisibleAuthorityDecision
  | none
  | unresolved
  | settled
  | diskWins
  | crdtWins
  deriving DecidableEq

section Planner

variable {η : Type*} [DecidableEq η]

/-- Without a baseline the later of disk and last settlement wins, the CRDT if there is no time. -/
def missingBaselineDecision (newer : Bool) : ClosedFileConflictDecision :=
  if newer then .preserveConflict .missingBaseline .disk .crdt
  else .preserveConflict .missingBaseline .crdt .disk

def decideClosedFileConflict (input : ClosedFileConflictInput η) : ClosedFileConflictDecision :=
  if input.diskHash = input.crdtHash then .noOp
  else if input.diskChangeIsSelfMirror then .applyRemoteToDisk
  else match input.baselineHash with
  | none => match input.diskMtime, input.lastFileSettledAtMs, input.lastDiskIndexPersistedAt with
    | some diskMtime, some settledAt, _ => missingBaselineDecision (settledAt < diskMtime)
    | some diskMtime, none, some persistedAt => missingBaselineDecision (persistedAt < diskMtime)
    | _, _, _ => missingBaselineDecision false
  | some baselineHash =>
    if input.diskHash = baselineHash ∧ input.crdtHash ≠ baselineHash then .applyRemoteToDisk
    else if input.crdtHash = baselineHash ∧ input.diskHash ≠ baselineHash then .importDiskToCrdt
    else .preserveConflict .bothChanged .disk .crdt

def mapConflictDecisionToAction : ClosedFileConflictDecision → ClosedFileReconcileAction
  | .noOp => .noOp
  | .applyRemoteToDisk => .applyRemoteToDisk
  | .importDiskToCrdt => .importDiskToCrdt
  | .preserveConflict reason winner preserve => .createConflictArtifact reason winner preserve

def planClosedFileReconcile (input : ClosedFileReconcileInput η) : ClosedFileReconcileAction :=
  if input.diskHash = input.crdtHash then .noOp
  else if !input.authoritative then .noOp
  else if input.isOpenOrBound then .deferToCrdtFlush
  else if input.pathBindingStatus ≠ .ok ∧ input.pathBindingStatus ≠ .unknown then
    .createConflictArtifact .pathBindingIntegrity .disk .crdt
  else if input.baselineHash = none ∧ input.hasPendingLocalCreate then
    .createConflictArtifact .missingBaseline .disk .crdt
  else mapConflictDecisionToAction (decideClosedFileConflict input.toClosedFileConflictInput)

/-- The editor content decides if there was one and it is on one side. -/
def decideDeferredVisibleAuthority (marker : Option DeferredVisibleEditorAuthority)
    (diskContent crdtContent : JsString) : DeferredVisibleAuthorityDecision :=
  match marker with
  | none => .none
  | some marker => match marker.readComplete, marker.editorContents with
    | true, [content] =>
      if diskContent = content ∧ crdtContent = content then .settled
      else if diskContent = content then .diskWins
      else if crdtContent = content then .crdtWins
      else .unresolved
    | _, _ => .unresolved

/-- An authoritative plan for a closed file does nothing only where the hashes agree. -/
theorem plan_ne_noOp (input : ClosedFileReconcileInput η) (haut : input.authoritative)
    (hclosed : input.isOpenOrBound = false) (hne : input.diskHash ≠ input.crdtHash) :
    planClosedFileReconcile input ≠ .noOp := by
  have hdec : decideClosedFileConflict input.toClosedFileConflictInput ≠ .noOp := by
    unfold decideClosedFileConflict missingBaselineDecision
    grind
  unfold planClosedFileReconcile mapConflictDecisionToAction
  grind

end Planner

end Kaos.Runtime
