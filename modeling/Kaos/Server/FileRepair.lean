import Kaos.Server.RecoveryBucket
import Kaos.Yjs.Update

/-! The repair of one file in a room's document from a client's pending update. Between the awaits
of a repair the document may change. -/
namespace Kaos.Server

open Kaos.Lib Kaos.Yjs

def MAX_FILE_REPAIR_BYTES : ℕ := 8 * 1024 * 1024

structure FileRepairError where
  status : ℕ
  message : String
  deriving DecidableEq

/-- A size that is no finite number is `none`. -/
structure ServerBlobRef where
  hash : JsString
  size : Option ℚ
  priorHashes : Option (List JsString)
  deriving DecidableEq

inductive ServerFileState
  | text (fileId content : JsString)
  | blob (ref : ServerBlobRef)
  | missing
  | deleted
  deriving DecidableEq

structure ServerFileVersion where
  path : JsString
  token : JsString
  schema : ℚ
  oversized : Bool
  state : ServerFileState

/-- A metadata entry and what `JSON.stringify` makes of it. -/
structure SharedMeta where
  value : MetaValue
  json : JsString
  deriving DecidableEq

/-- A value of `idToText`: a `Y.Text`, or another value that counts as true or not. -/
inductive SharedText
  | text (content : JsString)
  | other (truthy : Bool)
  deriving DecidableEq

/-- The shared maps of a document as far as a repair reads them. -/
structure RepairView where
  fileMeta : YMap JsString SharedMeta
  pathToId : YMap JsString JsString
  idToText : YMap JsString SharedText
  pathToBlob : YMap JsString ServerBlobRef
  blobTombstones : YMap JsString Unit
  schemaVersion : Json
  sysJson : JsString

/-- The writes of the correcting transaction. -/
inductive RepairWrite
  | deleteMeta (fileId : JsString)
  | setMeta (fileId : JsString) (entry : SharedMeta)
  | setPathToId (path fileId : JsString)
  | setText (fileId : JsString)
  | replaceText (fileId content : JsString)
  | setBlob (path : JsString) (ref : ServerBlobRef)

/-- What Yjs shows of a document and adds to it, whether items of it wait for others, the length of
encodings, and SHA-256 in hex of an encoding and of a state. -/
structure RepairPlatform where
  view : Doc → RepairView
  write : Doc → RepairWrite → Doc
  le_write : ∀ doc write', doc ≤ write doc write'
  view_setBlob : ∀ {doc trial path ref}, doc ≤ trial →
    (view doc).pathToBlob.get? path = some ref →
      (view (write trial (.setBlob path ref))).pathToBlob.get? path = some ref
  hasPending : Doc → Bool
  encoding : Encoding
  sha256Hex : Update → JsString
  sha256HexState : JsString → ℚ → ServerFileState → JsString

def validateRepairPath : Json → Except FileRepairError JsString
  | .str value =>
    if value.length = 0 ∨ value.length > 4096 ∨ 92 ∈ value ∨ value.any (· < 32) ∨
        value.head? = some 47 ∨
        (value.splitOn 47).any (fun part => part = [] ∨ part = js "." ∨ part = js "..") then
      .error ⟨400, "invalid-path"⟩
    else .ok value
  | _ => .error ⟨400, "invalid-path"⟩

/-- `/\.(md|base)$/` -/
def isTextPath (path : JsString) : Bool :=
  (js ".md").isSuffixOf path || (js ".base").isSuffixOf path

def isSafeNumber : Option ℚ → Bool
  | some value => value.den = 1 ∧ value.num.natAbs ≤ 2 ^ 53 - 1
  | none => false

def fileState (doc : RepairView) (path : JsString) : Except FileRepairError ServerFileState :=
  if isTextPath path then
    let named := doc.fileMeta.entries.filterMap fun entry =>
      (decodeRecoveryFileMeta entry.2.value).bind fun decoded =>
        if decoded.path = some path then some (entry.1, decoded.deleted || decoded.deletedAt.isSome)
        else none
    let deleted := named.any Prod.snd
    let candidates := (named.filter fun entry => !entry.2).map Prod.fst
    -- older rooms may have no metadata for a path in use
    let legacy := (doc.pathToId.get? path).filter fun fileId =>
      candidates = [] ∧ fileId ≠ [] ∧ !deleted
    let candidates := candidates ++ legacy.toList
    if candidates.length > 1 then .error ⟨409, "path-collision"⟩
    else match candidates.head?.filter (· ≠ []) with
      | none => .ok (if deleted then .deleted else .missing)
      | some fileId =>
        match doc.idToText.get? fileId with
        | some (.text content) => .ok (.text fileId content)
        | _ => .error ⟨409, "missing-server-text"⟩
  else match doc.pathToBlob.get? path with
    | none => .ok (if (doc.blobTombstones.get? path).isSome then .deleted else .missing)
    | some ref =>
      if isContentHash ref.hash ∧ isSafeNumber ref.size ∧ ref.size.any (0 ≤ ·) then .ok (.blob ref)
      else .error ⟨409, "invalid-server-blob"⟩

/-- What an inspection has read before its await. -/
structure Inspection where
  path : JsString
  schema : ℚ
  state : ServerFileState
  snapshot : Update

/-- The bytes of an update: their number, and what they decode to unless they are malformed. -/
structure LocalUpdate where
  length : ℕ
  decoded : Option Update

/-- A repair waits for the hash, or has its version and waits to go on. -/
inductive RepairPhase
  | hashing (inspection : Inspection)
  | inspected (version : ServerFileVersion) (snapshot : Update)
  | failed (error : FileRepairError)
  | done (result : Update)

structure RepairCall where
  token : Option JsString
  localUpdate : LocalUpdate
  phase : RepairPhase

structure RepairServer where
  doc : Doc
  calls : List RepairCall := []

/-- An ordinary update, a new call, the hash of a call comes, a call goes on with its version. -/
inductive RepairEvent
  | update (update : Update)
  | call (rawPath : Json) (token : Option JsString) (localUpdate : LocalUpdate)
  | hashed (i : ℕ)
  | resume (i : ℕ)

section Commit

variable (platform : RepairPlatform)

/-- `inspectServerFile` as far as its await. -/
def beginInspection (doc : Doc) (rawPath : Json) : Except FileRepairError Inspection :=
  match validateRepairPath rawPath with
  | .error error => .error error
  | .ok path =>
    match fileState (platform.view doc) path with
    | .error error => .error error
    | .ok state =>
      match (platform.view doc).schemaVersion with
      | .num (some schema) =>
        if isSafeNumber (some schema) ∧ 1 ≤ schema then
          .ok { path, schema, state, snapshot := encodeStateAsUpdate doc none }
        else .error ⟨409, "unknown-server-schema"⟩
      | _ => .error ⟨409, "unknown-server-schema"⟩

/-- `inspectServerFile` after its await. -/
def finishInspection (doc : Doc) (inspection : Inspection) :
    Except FileRepairError ServerFileVersion :=
  let { path, schema, state, snapshot } := inspection
  if platform.encoding.byteLength snapshot > MAX_FILE_REPAIR_BYTES then
    .ok { path, schema, state, oversized := true
          token := platform.sha256HexState path schema state }
  else if snapshot ≠ encodeStateAsUpdate doc none then .error ⟨409, "server-changed"⟩
  else .ok { path, schema, state, oversized := false, token := platform.sha256Hex snapshot }

/-- `commitServerFileRepair` as far as its await. -/
def startRepair (doc : Doc) (rawPath : Json) (localUpdate : LocalUpdate) :
    Except FileRepairError Inspection :=
  if localUpdate.length > MAX_FILE_REPAIR_BYTES then .error ⟨413, "repair-update-too-large"⟩
  else beginInspection platform doc rawPath

/-- The text of a file in the trial, made if there is none; other values have no such methods. -/
def trialText (trial : Doc) (fileId : JsString) : Option (Doc × JsString) :=
  match (platform.view trial).idToText.get? fileId with
  | none | some (.other false) => some (platform.write trial (.setText fileId), [])
  | some (.text content) => some (trial, content)
  | some (.other true) => none

/-- The metadata of a file as the document has it. -/
def restoreMeta (doc trial : Doc) (fileId : JsString) : Doc :=
  let entry := (platform.view doc).fileMeta.get? fileId
  if ((platform.view trial).fileMeta.get? fileId).map SharedMeta.json ≠
      entry.map SharedMeta.json then
    match entry with
    | none => platform.write trial (.deleteMeta fileId)
    | some entry => platform.write trial (.setMeta fileId entry)
  else trial

/-- The path in the older index as the document has it. -/
def restoreLegacy (doc trial : Doc) (path : JsString) : Doc :=
  match (platform.view doc).pathToId.get? path with
  | some legacy =>
    if (platform.view trial).pathToId.get? path ≠ some legacy then
      platform.write trial (.setPathToId path legacy)
    else trial
  | none => trial

/-- The transaction that puts the selected file back; `none` where it throws. -/
def correctFile (doc trial : Doc) (version : ServerFileVersion) : Option Doc :=
  match version.state with
  | .text fileId content =>
    let trial := restoreLegacy platform doc (restoreMeta platform doc trial fileId) version.path
    (trialText platform trial fileId).map fun (trial, current) =>
      if current ≠ content then platform.write trial (.replaceText fileId content) else trial
  | .blob ref => some (platform.write trial (.setBlob version.path ref))
  | .missing | .deleted => some trial

/-- The same kind, and for a text the same file and content. -/
def isSameFile : ServerFileState → ServerFileState → Bool
  | .text fileId content, .text fileId' content' => fileId' = fileId ∧ content' = content
  | .blob _, .blob _ => true
  | .missing, .missing => true
  | .deleted, .deleted => true
  | _, _ => false

/-- The trial document: the original, the client's update, and the selected file put back. -/
def buildTrial (doc original : Doc) (localUpdate : LocalUpdate) (version : ServerFileVersion) :
    Except FileRepairError Doc :=
  match localUpdate.decoded with
  | none => .error ⟨400, "invalid-local-update"⟩
  | some update =>
    let trial := applyUpdate (applyUpdate ⊥ original) update
    if platform.hasPending trial then .error ⟨409, "incomplete-local-update"⟩
    else if (platform.view trial).sysJson ≠ (platform.view doc).sysJson then
      .error ⟨409, "room-schema-changed"⟩
    else match correctFile platform doc trial version with
      | none => .error ⟨400, "invalid-local-update"⟩
      | some trial => .ok trial

/-- `commitServerFileRepair` after its await: the document with the repair. -/
def commitServerFileRepair (doc : Doc) (token : Option JsString) (localUpdate : LocalUpdate)
    (version : ServerFileVersion) : Except FileRepairError Doc :=
  if version.oversized then .error ⟨413, "repair-state-too-large"⟩
  else if some version.token ≠ token then .error ⟨409, "server-changed"⟩
  else if version.state = .missing then .error ⟨404, "missing"⟩
  else if version.state = .deleted then .error ⟨404, "deleted"⟩
  else
    let original := encodeStateAsUpdate doc none
    match buildTrial platform doc original localUpdate version with
    | .error error => .error error
    | .ok trial =>
      match fileState (platform.view trial) version.path with
      | .error error => .error error
      | .ok resolved =>
        if !isSameFile version.state resolved then .error ⟨409, "local-path-identity-changed"⟩
        else if original ≠ encodeStateAsUpdate doc none then .error ⟨409, "server-changed"⟩
        else if platform.encoding.byteLength (encodeStateAsUpdate trial none) >
            MAX_FILE_REPAIR_BYTES then .error ⟨413, "repair-result-too-large"⟩
        else .ok (applyUpdate doc (encodeStateAsUpdate trial (some (encodeStateVector doc))))

namespace RepairServer

variable (s : RepairServer)

def setPhase (i : ℕ) (phase : RepairPhase) : RepairServer :=
  { s with calls := s.calls.modify i fun call => { call with phase } }

/-- A call that is hashing goes on to its version. -/
def finishHash (i : ℕ) : RepairPhase → RepairServer
  | .hashing inspection =>
    match finishInspection platform s.doc inspection with
    | .error error => s.setPhase i (.failed error)
    | .ok version => s.setPhase i (.inspected version inspection.snapshot)
  | .inspected _ _ | .failed _ | .done _ => s

/-- A call that has its version goes on to its end. -/
def finishRepair (i : ℕ) (call : RepairCall) : RepairServer :=
  match call.phase with
  | .inspected version _ =>
    match commitServerFileRepair platform s.doc call.token call.localUpdate version with
    | .error error => s.setPhase i (.failed error)
    | .ok doc => { s.setPhase i (.done (encodeStateAsUpdate doc none)) with doc }
  | .hashing _ | .failed _ | .done _ => s

def next : RepairEvent → RepairServer
  | .update update => { s with doc := applyUpdate s.doc update }
  | .call rawPath token localUpdate =>
    let phase := match startRepair platform s.doc rawPath localUpdate with
      | .error error => .failed error
      | .ok inspection => .hashing inspection
    { s with calls := s.calls ++ [{ token, localUpdate, phase }] }
  | .hashed i =>
    match s.calls[i]? with
    | some call => s.finishHash platform i call.phase
    | none => s
  | .resume i =>
    match s.calls[i]? with
    | some call => s.finishRepair platform i call
    | none => s

end RepairServer

end Commit

end Kaos.Server
