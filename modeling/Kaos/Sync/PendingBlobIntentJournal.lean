import Kaos.Lib.FirstMatch
import Kaos.Sync.PendingBlobIntent

/-! The durable journal of local attachment mutations. -/
namespace Kaos.Sync

open Kaos.Lib PendingBlobIntent

def toString36 : ℤ → JsString
  | .ofNat n => natText 36 n
  | .negSucc n => js "-" ++ natText 36 (n + 1)

/-- The entries, and the counter of the module that makes their ids. -/
structure PendingBlobIntentJournal where
  entries : List PendingBlobIntent := []
  intentSequence : ℕ := 0

/-- `random` is what `Math.random().toString(36).slice(2, 10)` gives. -/
def createIntentId (intentSequence : ℕ) (recordedAt : ℤ) (random : JsString) : JsString :=
  toString36 recordedAt ++ js "-" ++ natText 36 intentSequence ++ js "-" ++ random

def nextSequence (intentSequence : ℕ) : ℕ := (intentSequence + 1) % (2 ^ 53 - 1)

/-- `JSON.parse(JSON.stringify(entry))`: what is undefined is left out. -/
def optionalField (key : String) : Option JsonValue → JsonFields
  | none => []
  | some value => [(key, value)]

def BlobRef.toJson (ref : BlobRef) : JsonValue :=
  .obj ([("hash", .str ref.hash), ("size", .num (some ref.size))] ++
    optionalField "priorHashes"
      (if ref.priorHashes = [] then none else some (.arr (ref.priorHashes.map .str))))

def PendingBlobIntentScope.toJson (scope : PendingBlobIntentScope) : JsonValue :=
  .obj [("host", .str scope.host), ("vaultId", .str scope.vaultId),
    ("localDeviceId", .str scope.localDeviceId)]

def PendingBlobIntentKind.toFields : PendingBlobIntentKind → JsonFields
  | .delete path => [("kind", .str (js "delete")), ("path", .str path)]
  | .rename oldPath newPath =>
    [("kind", .str (js "rename")), ("oldPath", .str oldPath), ("newPath", .str newPath)]

def PendingBlobIntent.toJson (intent : PendingBlobIntent) : JsonValue :=
  .obj (("id", .str intent.id) :: intent.kind.toFields ++
    [("recordedAt", .num (some intent.recordedAt)), ("scope", intent.scope.toJson),
      ("baseRefKnown", .bool intent.baseRefKnown)] ++
    optionalField "expectedSourceRef" (intent.expectedSourceRef.map BlobRef.toJson) ++
    [("sourceVersionKnown", .bool intent.sourceVersionKnown)] ++
    optionalField "expectedSourceVersion" (intent.expectedSourceVersion.map .str) ++
    optionalField "commitAttemptId" (intent.commitAttemptId.map .str) ++
    optionalField "attemptedAt" (intent.attemptedAt.map fun at' : ℤ => .num (some at')) ++
    optionalField "attemptSessionId" (intent.attemptSessionId.map .str) ++
    optionalField "committedAt" (intent.committedAt.map fun at' : ℤ => .num (some at')) ++
    optionalField "receiptCandidateId" (intent.receiptCandidateId.map .str) ++
    optionalField "commitSessionId" (intent.commitSessionId.map .str) ++
    optionalField "commitDeleteFingerprint" (intent.commitDeleteFingerprint.map .str))

/-- A rename to the path. -/
def PendingBlobIntentKind.leadsTo (path : JsString) : PendingBlobIntentKind → Bool
  | .rename _ newPath => newPath = path
  | .delete _ => false

/-- A rename of the path. -/
def PendingBlobIntentKind.startsAt (path : JsString) : PendingBlobIntentKind → Bool
  | .rename oldPath _ => oldPath = path
  | .delete _ => false

namespace PendingBlobIntent

/-- A deletion of the path that may still be collapsed. -/
def isReadyDelete (scope : PendingBlobIntentScope) (path : JsString) (intent : PendingBlobIntent) :
    Bool :=
  intent.kind = .delete path && intent.scope = scope && intent.isReadyToCommit

def isReadyRenameTo (scope : PendingBlobIntentScope) (path : JsString)
    (intent : PendingBlobIntent) : Bool :=
  intent.kind.leadsTo path && intent.scope = scope && intent.isReadyToCommit

def isReadyRenameFrom (scope : PendingBlobIntentScope) (path : JsString)
    (intent : PendingBlobIntent) : Bool :=
  intent.kind.startsAt path && intent.scope = scope && intent.isReadyToCommit

/-- The path a rename started at; a deletion's own path. -/
def source (intent : PendingBlobIntent) : JsString :=
  match intent.kind with
  | .delete path => path
  | .rename oldPath _ => oldPath

def base (intent : PendingBlobIntent) : PendingBlobMutationBase :=
  { known := intent.baseRefKnown, ref := cloneBlobRef intent.expectedSourceRef,
    sourceVersionKnown := intent.sourceVersionKnown,
    expectedSourceVersion := intent.expectedSourceVersion }

end PendingBlobIntent

/-- A new intent, ready to commit. -/
def newIntent (id : JsString) (kind : PendingBlobIntentKind) (recordedAt : ℤ)
    (scope : PendingBlobIntentScope) (base : PendingBlobMutationBase) : PendingBlobIntent where
  id := id
  kind := kind
  recordedAt := recordedAt
  scope := scope
  baseRefKnown := base.known
  expectedSourceRef := if base.known then cloneBlobRef base.ref else none
  sourceVersionKnown := base.sourceVersionKnown
  expectedSourceVersion := if base.sourceVersionKnown then base.expectedSourceVersion else none

def removeIntent (id : JsString) (entries : List PendingBlobIntent) : List PendingBlobIntent :=
  entries.eraseP fun entry => entry.id = id

/-- The loop of `recordDelete`: it goes back along the renames and drops them. Every round drops
an entry, so `rounds` need not be more than there are entries. -/
def collapseRenames (scope : PendingBlobIntentScope) : ℕ → List PendingBlobIntent → JsString →
    PendingBlobMutationBase → List PendingBlobIntent × JsString × PendingBlobMutationBase
  | 0, entries, normalized, base => (entries, normalized, base)
  | rounds + 1, entries, normalized, base =>
    match entries.find? (isReadyRenameTo scope normalized) with
    | none => (entries, normalized, base)
    | some sourceRename =>
      collapseRenames scope rounds (removeIntent sourceRename.id entries) sourceRename.source
        sourceRename.base

/-- What a round of the loop keeps, the loop keeps. -/
theorem collapseRenames_invariant {scope : PendingBlobIntentScope}
    {P : List PendingBlobIntent → JsString → PendingBlobMutationBase → Prop}
    (hround : ∀ entries path base entry, P entries path base →
      entries.find? (isReadyRenameTo scope path) = some entry →
      P (removeIntent entry.id entries) entry.source entry.base) (rounds : ℕ)
    {entries : List PendingBlobIntent} {path : JsString} {base : PendingBlobMutationBase}
    (h : P entries path base) :
    P (collapseRenames scope rounds entries path base).1
      (collapseRenames scope rounds entries path base).2.1
      (collapseRenames scope rounds entries path base).2.2 := by
  induction rounds generalizing entries path base with
  | zero => exact h
  | succ rounds ih =>
    rw [collapseRenames]
    split
    · exact h
    · next entry hf => exact ih (hround entries path base entry h hf)

namespace PendingBlobIntentJournal

variable (normalizePath : JsString → JsString)

/-- The journal with one more entry. -/
def push (journal : PendingBlobIntentJournal) (entries : List PendingBlobIntent)
    (kind : PendingBlobIntentKind) (scope : PendingBlobIntentScope)
    (base : PendingBlobMutationBase) (recordedAt : ℤ) (random : JsString) :
    PendingBlobIntentJournal :=
  let sequence := nextSequence journal.intentSequence
  { entries := entries ++
      [newIntent (createIntentId sequence recordedAt random) kind recordedAt scope base]
    intentSequence := sequence }

def recordDelete (journal : PendingBlobIntentJournal) (path : JsString)
    (scope : PendingBlobIntentScope) (base : PendingBlobMutationBase) (recordedAt : ℤ)
    (random : JsString) : PendingBlobIntentJournal :=
  let collapsed := collapseRenames scope journal.entries.length journal.entries
    (normalizePath path) base
  let normalized := collapsed.2.1
  if collapsed.1.any (isReadyDelete scope normalized) then
    { journal with entries := collapsed.1 }
  else
    journal.push (collapsed.1.filter fun entry => !entry.isReadyRenameFrom scope normalized)
      (.delete normalized) scope collapsed.2.2 recordedAt random

/-- The rename a new one continues: one that leads to its source, or one that starts there. -/
def renameToContinue (entries : List PendingBlobIntent) (scope : PendingBlobIntentScope)
    (normalizedOld : JsString) : PendingBlobIntent → Bool :=
  if entries.any (isReadyRenameTo scope normalizedOld) then
    isReadyRenameTo scope normalizedOld
  else isReadyRenameFrom scope normalizedOld

def recordRename (journal : PendingBlobIntentJournal) (oldPath newPath : JsString)
    (scope : PendingBlobIntentScope) (base : PendingBlobMutationBase) (recordedAt : ℤ)
    (random : JsString) : PendingBlobIntentJournal :=
  let normalizedOld := normalizePath oldPath
  let normalizedNew := normalizePath newPath
  if normalizedOld = [] ∨ normalizedNew = [] ∨ normalizedOld = normalizedNew then journal
  -- a deletion at the source owns the remote postcondition
  else if journal.entries.any (isReadyDelete scope normalizedOld) then journal
  else
    let continues := renameToContinue journal.entries scope normalizedOld
    match journal.entries.find? continues with
    | some existing =>
      if existing.source = normalizedNew then
        { journal with entries := removeIntent existing.id journal.entries }
      else
        { journal with
          entries := updateFirst continues
            (fun entry => { entry with
              kind := .rename entry.source normalizedNew, recordedAt := recordedAt })
            journal.entries }
    | none => journal.push journal.entries (.rename normalizedOld normalizedNew) scope base
        recordedAt random

/-- With whether there was such an entry. -/
def remove (journal : PendingBlobIntentJournal) (id : JsString) : PendingBlobIntentJournal × Bool :=
  ({ journal with entries := removeIntent id journal.entries },
    journal.entries.any fun entry => entry.id = id)

def restore (journal : PendingBlobIntentJournal) (intent : PendingBlobIntent) :
    PendingBlobIntentJournal :=
  if journal.entries.any fun entry => entry.id = intent.id then journal
  else { journal with entries := journal.entries ++ [intent.clone] }

/-- Changes the first entry with the id if it passes the test; whether it did. -/
def mark (journal : PendingBlobIntentJournal) (id : JsString) (test : PendingBlobIntent → Bool)
    (change : PendingBlobIntent → PendingBlobIntent) : PendingBlobIntentJournal × Bool :=
  if (journal.entries.find? fun entry => entry.id = id).any test then
    ({ journal with entries := updateFirst (fun entry => entry.id = id) change journal.entries },
      true)
  else (journal, false)

/-- `null` and `undefined` pass. -/
def isValidOptional (value : Option JsString) : Bool := value.all isNonEmptyString

def withCommit (committedAt : ℤ) (commitSessionId : JsString)
    (receiptCandidateId commitDeleteFingerprint : Option JsString) (entry : PendingBlobIntent) :
    PendingBlobIntent :=
  { entry with
    committedAt := some committedAt, commitSessionId := some commitSessionId, receiptCandidateId,
    commitDeleteFingerprint }

def withoutAttempt (entry : PendingBlobIntent) : PendingBlobIntent :=
  { entry with commitAttemptId := none, attemptedAt := none, attemptSessionId := none }

def markCommitted (journal : PendingBlobIntentJournal) (id : JsString) (committedAt : ℤ)
    (commitSessionId : JsString) (receiptCandidateId commitDeleteFingerprint : Option JsString) :
    PendingBlobIntentJournal × Bool :=
  if ¬ isValidTimestamp committedAt ∨ ¬ isNonEmptyString commitSessionId ∨
      ¬ isValidOptional receiptCandidateId ∨ ¬ isValidOptional commitDeleteFingerprint then
    (journal, false)
  else
    journal.mark id isReadyToCommit
      (withCommit committedAt commitSessionId receiptCandidateId commitDeleteFingerprint)

def markCommitAttempted (journal : PendingBlobIntentJournal) (id commitAttemptId : JsString)
    (attemptedAt : ℤ) (attemptSessionId : JsString) : PendingBlobIntentJournal × Bool :=
  if ¬ isNonEmptyString commitAttemptId ∨ ¬ isValidTimestamp attemptedAt ∨
      ¬ isNonEmptyString attemptSessionId then (journal, false)
  else
    journal.mark id isReadyToCommit fun entry => { entry with
      commitAttemptId := some commitAttemptId, attemptedAt := some attemptedAt,
      attemptSessionId := some attemptSessionId }

def clearCommitAttempt (journal : PendingBlobIntentJournal) (id commitAttemptId : JsString) :
    PendingBlobIntentJournal × Bool :=
  if ¬ isNonEmptyString commitAttemptId then (journal, false)
  else journal.mark id (fun entry => entry.hasExactCommitAttempt commitAttemptId) withoutAttempt

def markCommittedFromAttempt (journal : PendingBlobIntentJournal) (id commitAttemptId : JsString)
    (committedAt : ℤ) (commitSessionId : JsString)
    (receiptCandidateId commitDeleteFingerprint : Option JsString) :
    PendingBlobIntentJournal × Bool :=
  if ¬ isNonEmptyString commitAttemptId ∨ ¬ isValidTimestamp committedAt ∨
      ¬ isNonEmptyString commitSessionId ∨ ¬ isValidOptional receiptCandidateId ∨
      ¬ isValidOptional commitDeleteFingerprint then (journal, false)
  else
    journal.mark id (fun entry => entry.hasExactCommitAttempt commitAttemptId) fun entry =>
      withCommit committedAt commitSessionId receiptCandidateId commitDeleteFingerprint
        (withoutAttempt entry)

def getEntries (journal : PendingBlobIntentJournal) : List PendingBlobIntent :=
  journal.entries.map clone

/-- The entries of a new journal. -/
def hydrate (entries : JsonValue) : List PendingBlobIntent :=
  match entries with
  | .arr entries => entries.filterMap (readIntent normalizePath)
  | _ => []

end PendingBlobIntentJournal

end Kaos.Sync
