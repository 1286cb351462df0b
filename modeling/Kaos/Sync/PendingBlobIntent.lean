import Kaos.Lib.Digits
import Kaos.Lib.Rx
import Kaos.Paths.CanonicalPath

/-! Intents of local attachment mutations: their phases, what a reader of stored intents accepts
and what happens to an intent whose path has become a document. -/
namespace Kaos.Sync

open Kaos.Lib

/-- A parsed JSON value with its keys in order; a number too large for a double is infinite. -/
inductive JsonValue
  | null
  | bool (value : Bool)
  | num (value : Option ℚ)
  | str (value : JsString)
  | arr (entries : List JsonValue)
  | obj (fields : List (String × JsonValue))

abbrev JsonFields := List (String × JsonValue)

/-- A field, `none` where it is `undefined`. -/
def JsonFields.get (fields : JsonFields) (key : String) : Option JsonValue :=
  (fields.find? fun field => field.1 = key).map Prod.snd

structure PendingBlobIntentScope where
  host : JsString
  vaultId : JsString
  localDeviceId : JsString
  deriving DecidableEq

/-- No hash before this one is an empty list. -/
structure BlobRef where
  hash : JsString
  size : ℤ
  priorHashes : List JsString := []
  deriving DecidableEq

structure PendingBlobMutationBase where
  known : Bool
  ref : Option BlobRef := none
  sourceVersionKnown : Bool := false
  expectedSourceVersion : Option JsString := none
  deriving DecidableEq

inductive PendingBlobIntentKind
  | delete (path : JsString)
  | rename (oldPath newPath : JsString)
  deriving DecidableEq

/-- A missing `sourceVersionKnown` reads as `false` everywhere. -/
structure PendingBlobIntent where
  id : JsString
  kind : PendingBlobIntentKind
  recordedAt : ℤ
  scope : PendingBlobIntentScope
  baseRefKnown : Bool
  expectedSourceRef : Option BlobRef := none
  sourceVersionKnown : Bool := false
  expectedSourceVersion : Option JsString := none
  commitAttemptId : Option JsString := none
  attemptedAt : Option ℤ := none
  attemptSessionId : Option JsString := none
  committedAt : Option ℤ := none
  receiptCandidateId : Option JsString := none
  commitSessionId : Option JsString := none
  commitDeleteFingerprint : Option JsString := none
  deriving DecidableEq

def maxSafeInteger : ℤ := 2 ^ 53 - 1

def isSafeInteger (value : ℤ) : Bool := -maxSafeInteger ≤ value ∧ value ≤ maxSafeInteger

def isNonEmptyString (value : JsString) : Bool := value.length > 0

def isValidTimestamp (value : ℤ) : Bool := isSafeInteger value ∧ value ≥ 0

def isSha256Hex (value : JsString) : Bool := value.length = 64 ∧ value.all JsString.isHexChar

/-- `/^\d+:\d+$/` with two safe integers. -/
def isBlobSourceVersion (value : JsString) : Bool :=
  match value.dropWhile Rx.isDigit with
  | 58 :: clock =>
    value.takeWhile Rx.isDigit ≠ [] ∧ clock ≠ [] ∧ clock.all Rx.isDigit ∧
      isSafeInteger (decimal (value.takeWhile Rx.isDigit)) ∧ isSafeInteger (decimal clock)
  | _ => false

def maxBlobRefPriorHashes : ℕ := 16

def getBlobRefPriorHashes (ref : BlobRef) : List JsString :=
  if ref.priorHashes.length > maxBlobRefPriorHashes ∨
      ref.priorHashes.any fun hash => !isSha256Hex hash then []
  else ref.priorHashes.eraseDups

def cloneBlobRef (ref : Option BlobRef) : Option BlobRef :=
  ref.map fun ref => { ref with priorHashes := getBlobRefPriorHashes ref }

namespace PendingBlobIntent

def isReadyToCommit (intent : PendingBlobIntent) : Bool :=
  intent.commitAttemptId = none ∧ intent.attemptedAt = none ∧ intent.attemptSessionId = none ∧
    intent.committedAt = none ∧ intent.receiptCandidateId = none ∧
    intent.commitSessionId = none ∧ intent.commitDeleteFingerprint = none

def hasExactCommitAttempt (intent : PendingBlobIntent) (commitAttemptId : JsString) : Bool :=
  intent.commitAttemptId = some commitAttemptId ∧ intent.attemptedAt ≠ none ∧
    intent.attemptSessionId ≠ none ∧ intent.committedAt = none ∧
    intent.receiptCandidateId = none ∧ intent.commitSessionId = none ∧
    intent.commitDeleteFingerprint = none

/-- Intents are values here; what a copy still does is to clone the reference. -/
def clone (intent : PendingBlobIntent) : PendingBlobIntent :=
  { intent with expectedSourceRef := cloneBlobRef intent.expectedSourceRef }

end PendingBlobIntent

/-- `.md` and `.base` -/
def isCrdtDocumentPath (path : JsString) : Bool :=
  (js ".md").isSuffixOf path || (js ".base").isSuffixOf path

/-- `\d{4}-\d{2}-\d{2}T\d{2}-\d{2}-\d{2}Z` -/
def stampRx : Rx :=
  .seqs [.digits 4, .text (js "-"), .digits 2, .text (js "-"), .digits 2, .text (js "T"),
    .digits 2, .text (js "-"), .digits 2, .text (js "-"), .digits 2, .text (js "Z")]

/-- `(?: \d+)?` -/
def copyIndexRx : Rx := .opt (.seq (.text (js " ")) (.some' Rx.isDigit))

/-- `(\.[^/.]+)?` -/
def extensionRx : Rx := .opt (.seq (.text (js ".")) (.some' fun c => c ≠ 47 ∧ c ≠ 46))

/-- `MARKDOWN_CONFLICT_ARTIFACT_NAME_RE` -/
def markdownConflictArtifactNameRx : Rx :=
  .seqs [.some' Rx.isAny, .text (js " (KAOS conflict"),
    .opt (.seq (.text (js " - "))
      (.alt (.text (js "crdt")) (.alt (.text (js "disk")) (.text (js "editor"))))),
    .text (js " from "), .some' Rx.isAny, .text (js " "), stampRx, .text (js ")"), copyIndexRx,
    .alt (.text (js ".md")) (.text (js ".base"))]

/-- `BLOB_CONFLICT_ARTIFACT_NAME_RE` -/
def blobConflictArtifactNameRx : Rx :=
  .seqs [.some' Rx.isAny, .text (js " (KAOS remote conflict "), stampRx, .text (js ")"),
    copyIndexRx, extensionRx]

/-- `BLOB_LOCAL_BACKUP_ARTIFACT_NAME_RE` -/
def blobLocalBackupArtifactNameRx : Rx :=
  .seqs [.some' Rx.isAny, .text (js " (KAOS local backup "), stampRx, .text (js " "),
    .times (.unit JsString.isHexChar) 16, .text (js ")"), extensionRx]

def isLocalSafetyArtifactPath (path : JsString) : Bool :=
  (((Paths.forwardSlashes path).splitOn 47).filter fun segment => segment.length > 0).any
    fun segment => markdownConflictArtifactNameRx.test segment ||
      blobConflictArtifactNameRx.test segment || blobLocalBackupArtifactNameRx.test segment

/-- Drops intents of documents and of local safety copies; of a rename to a document the deletion
of the old path is left. -/
def migratePendingBlobIntentDocumentOwnership (intent : PendingBlobIntent) :
    Option PendingBlobIntent :=
  match intent.kind with
  | .delete path =>
    if isCrdtDocumentPath path ∨ isLocalSafetyArtifactPath path then none else some intent
  | .rename oldPath newPath =>
    if isLocalSafetyArtifactPath oldPath ∨ isLocalSafetyArtifactPath newPath then none
    else if isCrdtDocumentPath oldPath then none
    else if ¬ isCrdtDocumentPath newPath then some intent
    else some { intent with kind := .delete oldPath }

section Reader

/-- A field that may be missing, `none` where it is there and does not pass. -/
def readOptional {α : Type*} (read : JsonValue → Option α) : Option JsonValue → Option (Option α)
  | none => some none
  | some value => (read value).map some

def readBool : JsonValue → Option Bool
  | .bool value => some value
  | _ => none

def readString : JsonValue → Option JsString
  | .str value => some value
  | _ => none

def readNonEmptyString : JsonValue → Option JsString
  | .str value => if isNonEmptyString value then some value else none
  | _ => none

def readSafeInteger : JsonValue → Option ℤ
  | .num (some value) =>
    if value.den = 1 ∧ isSafeInteger value.num then some value.num else none
  | _ => none

def readTimestamp (value : JsonValue) : Option ℤ :=
  (readSafeInteger value).filter fun value => value ≥ 0

def readSourceVersion : JsonValue → Option JsString
  | .str value => if isBlobSourceVersion value then some value else none
  | _ => none

def readScope : JsonValue → Option PendingBlobIntentScope
  | .obj fields => do
    let host ← (JsonFields.get fields "host").bind readNonEmptyString
    let vaultId ← (JsonFields.get fields "vaultId").bind readNonEmptyString
    let localDeviceId ← (JsonFields.get fields "localDeviceId").bind readNonEmptyString
    some { host, vaultId, localDeviceId }
  | _ => none

/-- The hashes of a list, each a valid one that is neither the ref's own nor there before. -/
def readPriorHashes (hash : JsString) : List JsString → List JsonValue → Option (List JsString)
  | priorHashes, [] => some priorHashes
  | priorHashes, .str prior :: rest =>
    if ¬ isSha256Hex prior ∨ prior = hash ∨ prior ∈ priorHashes then none
    else readPriorHashes hash (priorHashes ++ [prior]) rest
  | _, _ => none

def readBlobRef : JsonValue → Option BlobRef
  | .obj fields => do
    if ¬ fields.all fun field => ["hash", "size", "priorHashes"].contains field.1 then none
    let hash ← ((JsonFields.get fields "hash").bind readString).filter isSha256Hex
    let size ← ((JsonFields.get fields "size").bind readSafeInteger).filter fun size => size ≥ 0
    match JsonFields.get fields "priorHashes" with
    | none => some { hash, size }
    | some (.arr entries) =>
      if entries.length > maxBlobRefPriorHashes then none
      else do
        let priorHashes ← readPriorHashes hash [] entries
        some { hash, size, priorHashes }
    | some _ => none
  | _ => none

def commonKeys : List String :=
  ["id", "kind", "recordedAt", "scope", "baseRefKnown", "expectedSourceRef", "sourceVersionKnown",
    "expectedSourceVersion", "commitAttemptId", "attemptedAt", "attemptSessionId", "committedAt",
    "receiptCandidateId", "commitSessionId", "commitDeleteFingerprint"]

/-- Attempt metadata is whole and alone; commit metadata has its time and its session. -/
def PendingBlobIntent.phaseIsReadable (intent : PendingBlobIntent) : Bool :=
  if intent.commitAttemptId ≠ none ∨ intent.attemptedAt ≠ none ∨ intent.attemptSessionId ≠ none then
    intent.commitAttemptId ≠ none ∧ intent.attemptedAt ≠ none ∧ intent.attemptSessionId ≠ none ∧
      ¬ (intent.committedAt ≠ none ∨ intent.receiptCandidateId ≠ none ∨
        intent.commitSessionId ≠ none ∨ intent.commitDeleteFingerprint ≠ none)
  else if intent.committedAt ≠ none ∨ intent.receiptCandidateId ≠ none ∨
      intent.commitSessionId ≠ none ∨ intent.commitDeleteFingerprint ≠ none then
    intent.committedAt ≠ none ∧ intent.commitSessionId ≠ none
  else true

variable (normalizePath : JsString → JsString)

/-- The kind with its normalized paths. -/
def readKind (kind : Option JsonValue) (fields : JsonFields) : Option PendingBlobIntentKind :=
  match kind with
  | some (.str kind) =>
    if kind = js "delete" then do
      let path ← (JsonFields.get fields "path").bind readString
      if normalizePath path = [] then none else some (.delete (normalizePath path))
    else if kind = js "rename" then do
      let oldPath ← (JsonFields.get fields "oldPath").bind readString
      let newPath ← (JsonFields.get fields "newPath").bind readString
      if normalizePath oldPath = [] ∨ normalizePath newPath = [] ∨
          normalizePath oldPath = normalizePath newPath then none
      else some (.rename (normalizePath oldPath) (normalizePath newPath))
    else none
  | _ => none

def pathKeys : Option JsonValue → Option (List String)
  | some (.str kind) =>
    if kind = js "delete" then some (commonKeys ++ ["path"])
    else if kind = js "rename" then some (commonKeys ++ ["oldPath", "newPath"])
    else none
  | _ => none

def readIntent : JsonValue → Option PendingBlobIntent
  | .obj fields => do
    let field := JsonFields.get fields
    let keys ← pathKeys (field "kind")
    if ¬ fields.all fun field => keys.contains field.1 then none
    let scope ← (field "scope").bind readScope
    let id ← (field "id").bind readNonEmptyString
    let recordedAt ← (field "recordedAt").bind readTimestamp
    let baseRefKnown ← (field "baseRefKnown").bind readBool
    if baseRefKnown = false ∧ (field "expectedSourceRef").isSome then none
    let expectedSourceRef ← readOptional readBlobRef (field "expectedSourceRef")
    let sourceVersionKnown ← readOptional readBool (field "sourceVersionKnown")
    let sourceVersionKnown := sourceVersionKnown.getD false
    let expectedSourceVersion ← readOptional readSourceVersion (field "expectedSourceVersion")
    if sourceVersionKnown = false ∧ expectedSourceVersion ≠ none then none
    if sourceVersionKnown ∧ expectedSourceRef ≠ none ∧ expectedSourceVersion = none then none
    if expectedSourceVersion ≠ none ∧ expectedSourceRef = none then none
    let commitAttemptId ← readOptional readNonEmptyString (field "commitAttemptId")
    let attemptedAt ← readOptional readTimestamp (field "attemptedAt")
    let attemptSessionId ← readOptional readNonEmptyString (field "attemptSessionId")
    let committedAt ← readOptional readTimestamp (field "committedAt")
    let receiptCandidateId ← readOptional readNonEmptyString (field "receiptCandidateId")
    let commitSessionId ← readOptional readNonEmptyString (field "commitSessionId")
    let commitDeleteFingerprint ← readOptional readNonEmptyString (field "commitDeleteFingerprint")
    let kind ← readKind normalizePath (field "kind") fields
    let intent : PendingBlobIntent :=
      { id, kind, recordedAt, scope, baseRefKnown, expectedSourceRef, sourceVersionKnown,
        expectedSourceVersion, commitAttemptId, attemptedAt, attemptSessionId, committedAt,
        receiptCandidateId, commitSessionId, commitDeleteFingerprint }
    if intent.phaseIsReadable then some intent else none
  | _ => none

end Reader

end Kaos.Sync
