import Kaos.Runtime.ClosedFilePlanner

/-! What is to be done with a note that an editor shows and whose disk and CRDT texts differ. -/
namespace Kaos.Runtime

inductive MissingBaselineWinnerPolicy
  | diskMtimeAfterLastFileSettlement
  | diskMtimeAfterLastIndexSave
  | crdtDefaultNoEvidence
  | crdtDefaultDiskNotNewer
  deriving DecidableEq

inductive OpenBoundMissingBaselinePolicy
  | winner (policy : MissingBaselineWinnerPolicy)
  | openBoundVisibleAuthority
  deriving DecidableEq

/-- The sides whose text the one visible editor content equals. -/
inductive EditorRelation
  | disk
  | crdt
  | both
  | distinct
  deriving DecidableEq

inductive OpenBoundEditorAuthority
  | single (relation : EditorRelation)
  | multiple
  | readFailed
  | none
  deriving DecidableEq

structure OpenBoundFileReconcileInput (η : Type*) extends ClosedFileConflictInput η where
  editorAuthority : OpenBoundEditorAuthority
  hasRecentEditorActivity : Bool
  editorMatchesBaseline : Bool

inductive OpenBoundReason
  | diskAtBaseline
  | crdtAtBaseline
  | selfMirrorLag
  | conflict (reason : ConflictReason)
  deriving DecidableEq

inductive OpenBoundAmbiguity
  | multipleEditorAuthorities
  | editorReadFailed
  | missingEditorAuthority
  deriving DecidableEq

inductive OpenBoundFileReconcileAction
  | noOp
  | deferRecentEditor
  | importDiskToCrdt (reason : OpenBoundReason) (preserveCrdt : Bool)
      (missingBaselinePolicy : Option OpenBoundMissingBaselinePolicy)
  | applyCrdtToDisk (reason : OpenBoundReason) (preserveDisk : Bool)
      (missingBaselinePolicy : Option OpenBoundMissingBaselinePolicy)
  | editorWinsPreserve (reason : OpenBoundReason) (preserveCrdt preserveDisk : Bool)
      (missingBaselinePolicy : Option OpenBoundMissingBaselinePolicy)
  | ambiguousConflict (reason : OpenBoundAmbiguity)
  deriving DecidableEq

section Planner

variable {η : Type*} [DecidableEq η]

/-- The `_missingBaselinePolicy` of a decision of `decideClosedFileConflict`. -/
def missingBaselinePolicy (input : ClosedFileConflictInput η) :
    Option MissingBaselineWinnerPolicy :=
  if input.diskHash = input.crdtHash ∨ input.diskChangeIsSelfMirror ∨
      input.baselineHash ≠ none then none
  else match input.diskMtime, input.lastFileSettledAtMs, input.lastDiskIndexPersistedAt with
  | some diskMtime, some settledAt, _ =>
    if settledAt < diskMtime then some .diskMtimeAfterLastFileSettlement
    else some .crdtDefaultDiskNotNewer
  | some diskMtime, none, some persistedAt =>
    if persistedAt < diskMtime then some .diskMtimeAfterLastIndexSave
    else some .crdtDefaultDiskNotNewer
  | _, _, _ => some .crdtDefaultNoEvidence

/-- The `reason` of a decision of `decideClosedFileConflict` to take the remote text. -/
def applyRemoteReason (input : ClosedFileConflictInput η) : OpenBoundReason :=
  if input.diskChangeIsSelfMirror then .selfMirrorLag else .diskAtBaseline

/-- An editor that still renders the baseline is left out of the decision. -/
def planStaleEditor (input : ClosedFileConflictInput η) : OpenBoundFileReconcileAction :=
  match decideClosedFileConflict input with
  | .noOp => .noOp
  | .applyRemoteToDisk => .applyCrdtToDisk (applyRemoteReason input) false none
  | .importDiskToCrdt => .importDiskToCrdt .crdtAtBaseline false none
  | .preserveConflict reason .disk preserve =>
    .importDiskToCrdt (.conflict reason) (preserve = .crdt) none
  | .preserveConflict reason .crdt preserve =>
    .applyCrdtToDisk (.conflict reason) (preserve = .disk) none

/-- The decision for one changed side, where the editor may stand with the CRDT. -/
def planOneChangedSide (input : ClosedFileConflictInput η) (relation : EditorRelation) :
    OpenBoundFileReconcileAction :=
  let policy := (missingBaselinePolicy input).map OpenBoundMissingBaselinePolicy.winner
  match decideClosedFileConflict input with
  | .noOp => .noOp
  | .importDiskToCrdt => .importDiskToCrdt .crdtAtBaseline false none
  | .applyRemoteToDisk => .applyCrdtToDisk (applyRemoteReason input) false none
  | .preserveConflict reason .disk preserve =>
    .importDiskToCrdt (.conflict reason) (preserve = .crdt) policy
  | .preserveConflict reason .crdt preserve =>
    if relation = .crdt ∨ relation = .both then
      .editorWinsPreserve (.conflict reason) false true policy
    else .applyCrdtToDisk (.conflict reason) (preserve = .disk) policy

/-- Without a baseline the visible editor decides and the other side is preserved. -/
def planMissingBaseline (input : ClosedFileConflictInput η) (relation : EditorRelation) :
    OpenBoundFileReconcileAction :=
  if relation = .crdt ∨ relation = .both then
    .editorWinsPreserve (.conflict .missingBaseline) false true (some .openBoundVisibleAuthority)
  else .importDiskToCrdt (.conflict .missingBaseline) true
    (if missingBaselinePolicy input = some .diskMtimeAfterLastIndexSave then
      some (.winner .diskMtimeAfterLastIndexSave)
    else some .openBoundVisibleAuthority)

def planBothChanged (relation : EditorRelation) : OpenBoundFileReconcileAction :=
  if relation = .crdt ∨ relation = .both then
    .editorWinsPreserve (.conflict .bothChanged) false true none
  else .importDiskToCrdt (.conflict .bothChanged) true none

/-- The plan where one editor content is visible and no one typed of late. -/
def planSingleEditor (input : OpenBoundFileReconcileInput η) (relation : EditorRelation) :
    OpenBoundFileReconcileAction :=
  match relation, input.baselineHash with
  | .distinct, none => .editorWinsPreserve (.conflict .missingBaseline) true true none
  | .distinct, some _ =>
    if input.editorMatchesBaseline then planStaleEditor input.toClosedFileConflictInput
    else .editorWinsPreserve (.conflict .bothChanged) true true none
  | relation, none => planMissingBaseline input.toClosedFileConflictInput relation
  | relation, some baselineHash =>
    if input.diskHash ≠ baselineHash ∧ input.crdtHash ≠ baselineHash then planBothChanged relation
    else planOneChangedSide input.toClosedFileConflictInput relation

def planOpenBoundFileReconcile (input : OpenBoundFileReconcileInput η) :
    OpenBoundFileReconcileAction :=
  if input.diskHash = input.crdtHash then .noOp
  else if input.hasRecentEditorActivity then .deferRecentEditor
  else match input.editorAuthority with
  | .multiple => .ambiguousConflict .multipleEditorAuthorities
  | .readFailed => .ambiguousConflict .editorReadFailed
  | .none => .ambiguousConflict .missingEditorAuthority
  | .single relation => planSingleEditor input relation

end Planner

end Kaos.Runtime
