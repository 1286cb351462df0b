import Mathlib.Data.List.Sort
import Kaos.Lib.JsString
import Kaos.Yjs.YMap

/-! The file part of a room's document and the recovery state built from it. -/
namespace Kaos.Server

open Kaos.Lib Kaos.Yjs

/-- The metadata fields of a file as far as their types are right; a number may be infinite. -/
structure FileMetaLike where
  path : Option JsString
  deleted : Bool
  deletedAt : Option (Option ℚ)
  mtime : Option (Option ℚ)
  device : Option JsString
  deriving DecidableEq

/-- A `meta` entry is a nested shared map, a plain object, or no object at all. -/
inductive MetaValue
  | nested (fields : FileMetaLike)
  | flat (fields : FileMetaLike)
  | other
  deriving DecidableEq

/-- The shared maps of the document that file history reads; a text that is no string is `none`. -/
structure FileDoc where
  schemaVersion : Option ℕ
  fileMeta : YMap JsString MetaValue
  idToText : YMap JsString (Option JsString)
  pathToId : YMap JsString JsString
  deriving DecidableEq

structure RecoveryStateEntry where
  fileId : JsString
  path : JsString
  contentHash : Option JsString
  deleted : Option Bool
  size : Option ℕ
  mtime : Option (Option ℚ)
  device : Option JsString
  deriving DecidableEq

structure InternalStateEntry extends RecoveryStateEntry where
  content : Option JsString
  deriving DecidableEq

inductive FileHistoryEntryKind
  | created | modified | renamed | deleted | restored
  deriving DecidableEq

structure FileHistoryEntry where
  fileId : JsString
  kind : FileHistoryEntryKind
  path : JsString
  oldPath : Option JsString := none
  newPath : Option JsString := none
  contentHash : Option JsString := none
  previousContentHash : Option JsString := none
  deleted : Option Bool
  size : Option ℕ
  mtime : Option (Option ℚ)
  device : Option JsString
  deriving DecidableEq

inductive FileHistoryReason
  | automatic | manual | preUpgrade | preMigration | preBulkOperation
  deriving DecidableEq

/-- The fields of a manifest that its index repeats. -/
structure FileHistoryManifestIndex where
  storageVersion : JsString
  manifestId : JsString
  vaultId : JsString
  kind : JsString
  createdAt : JsString
  day : JsString
  reason : FileHistoryReason
  pinned : Bool
  changedCount : ℕ
  contentHashes : List JsString
  changedEntries : List FileHistoryEntry
  stateHash : JsString
  manifestHash : JsString
  crdtSchemaVersion : Option ℕ
  deriving DecidableEq

structure FileHistoryManifest extends FileHistoryManifestIndex where
  schemaVersion : ℕ
  deriving DecidableEq

/-- SHA-256 in hex, the collation order of `localeCompare`, `JSON.stringify` on the stable form of
a state and on a manifest, `Number` where it gives a safe integer above zero, and `Date.getTime`. -/
structure RecoveryPlatform where
  sha256Hex : JsString → JsString
  sha256Hex_length : ∀ s, (sha256Hex s).length = 64
  localeLe : JsString → JsString → Bool
  stringifyState : List RecoveryStateEntry → JsString
  stringifyManifest : FileHistoryManifest → JsString
  toPositiveInteger : JsString → Option ℕ
  getTime : JsString → Option ℤ

/-- The collation order as one fixed total order. -/
structure RecoveryPlatform.TotalOrder (platform : RecoveryPlatform) : Prop where
  total : ∀ s t, platform.localeLe s t = true ∨ platform.localeLe t s = true
  trans : ∀ s t u, platform.localeLe s t = true → platform.localeLe t u = true →
    platform.localeLe s u = true
  antisymm : ∀ s t, platform.localeLe s t = true → platform.localeLe t s = true → s = t

def isDeletedMeta (fields : FileMetaLike) : Bool :=
  fields.deleted || fields.deletedAt.any Option.isSome

def usesV2MetaPathModel (doc : FileDoc) : Bool := doc.schemaVersion.any (2 ≤ ·)

/-- Runs of slashes become one. -/
def collapseSlashes : JsString → JsString
  | c :: d :: rest =>
    if c = 47 ∧ d = 47 then collapseSlashes (d :: rest) else c :: collapseSlashes (d :: rest)
  | s => s

def normalizeVaultPath (path : JsString) : JsString :=
  let slashed := collapseSlashes (path.map fun c => if c = 92 then 47 else c)
  let relative := if (js "./").isPrefixOf slashed then slashed.drop 2 else slashed
  relative.dropWhile (· = 47)

def decodeRecoveryFileMeta : MetaValue → Option FileMetaLike
  | .nested fields =>
    if fields.path.all (· = []) then none
    else some { fields with
      deletedAt := fields.deletedAt.filter Option.isSome
      mtime := fields.mtime.filter Option.isSome }
  | .flat fields => some fields
  | .other => none

section Build

variable (platform : RecoveryPlatform)

/-- The entry that metadata alone gives, without its content. -/
def metaEntry (fileId : JsString) (raw : MetaValue) : Option RecoveryStateEntry :=
  (decodeRecoveryFileMeta raw).bind fun decoded => decoded.path.bind fun rawPath =>
    let path := normalizeVaultPath rawPath
    if path = [] then none
    else some
      { fileId
        path
        contentHash := none
        deleted := if isDeletedMeta decoded then some true else none
        size := none
        mtime := decoded.mtime
        device := decoded.device }

abbrev EntryMap := OrderedMap JsString RecoveryStateEntry

def addMetaEntry (entries : EntryMap) (fileId : JsString) (raw : Option MetaValue) : EntryMap :=
  match raw.bind (metaEntry fileId) with
  | some entry => entries.set fileId entry
  | none => entries

/-- The entry of a path in the first schema, over what metadata gave. -/
def pathEntry (fileId rawPath : JsString) (existing : Option RecoveryStateEntry) :
    Option RecoveryStateEntry :=
  let path := normalizeVaultPath rawPath
  if path = [] then existing
  else match existing with
    | some entry =>
      if entry.deleted = some true then some entry else some { entry with path, deleted := none }
    | none => some ⟨fileId, path, none, none, none, none, none⟩

def addPathEntry (fileIds : Option (List JsString)) (entries : EntryMap)
    (mapping : JsString × JsString) : EntryMap :=
  if fileIds.any (fun ids => ¬ ids.contains mapping.2) then entries
  else match pathEntry mapping.2 mapping.1 (entries.get? mapping.2) with
    | some entry => entries.set mapping.2 entry
    | none => entries

def selectMeta (doc : FileDoc) (fileIds : Option (List JsString)) : EntryMap :=
  match fileIds with
  | some ids => ids.foldl (fun entries id => addMetaEntry entries id (doc.fileMeta.get? id)) .empty
  | none => doc.fileMeta.entries.foldl
    (fun entries entry => addMetaEntry entries entry.1 (some entry.2)) .empty

/-- The first part of `buildRecoveryStateSelection`, which reads metadata and paths. -/
def selectEntries (doc : FileDoc) (fileIds : Option (List JsString)) : EntryMap :=
  if usesV2MetaPathModel doc then selectMeta doc fileIds
  else doc.pathToId.entries.foldl (addPathEntry fileIds) (selectMeta doc fileIds)

/-- What `selectEntries` finds for one file: its metadata, then its paths in turn. -/
def docEntry (doc : FileDoc) (fileId : JsString) : Option RecoveryStateEntry :=
  let fromMeta := (doc.fileMeta.get? fileId).bind (metaEntry fileId)
  if usesV2MetaPathModel doc then fromMeta
  else doc.pathToId.entries.foldl (fun existing mapping =>
    if mapping.2 = fileId then pathEntry fileId mapping.1 existing else existing) fromMeta

/-- The text of a file, where its value is one. -/
def readText (doc : FileDoc) (fileId : JsString) : Option JsString := (doc.idToText.get? fileId).join

/-- The second part completes each entry with its text. -/
def completeEntry (text : Option JsString) (entry : RecoveryStateEntry) : InternalStateEntry :=
  match text with
  | some content =>
    { entry with
      content := some content
      contentHash := some (platform.sha256Hex content)
      size := some (JsString.utf8Length content) }
  | none => { entry with content := none }

/-- The recovery entry of one file. -/
def fileEntry (doc : FileDoc) (text : JsString → Option JsString) (fileId : JsString) :
    Option InternalStateEntry :=
  (docEntry doc fileId).map (completeEntry platform (text fileId))

/-- Sorting by `localeCompare` on file ids. -/
def sortByFileId {α : Type*} (fileId : α → JsString) (entries : List α) : List α :=
  entries.insertionSort fun a b => platform.localeLe (fileId a) (fileId b) = true

/-- The texts are read one by one, after the entries; `text` is what each read finds. -/
def buildRecoveryStateSelection (doc : FileDoc) (text : JsString → Option JsString)
    (fileIds : Option (List JsString)) : List InternalStateEntry :=
  sortByFileId platform (·.fileId)
    ((selectEntries doc fileIds).values.map fun entry =>
      completeEntry platform (text entry.fileId) entry)

/-- Hash of the entries in stable form. -/
def stateHash (entries : List RecoveryStateEntry) : JsString :=
  platform.sha256Hex (platform.stringifyState (sortByFileId platform RecoveryStateEntry.fileId
    (entries.map fun entry => { entry with deleted := some (entry.deleted = some true) })))

end Build

def buildChangeEntry (current : InternalStateEntry) (previous : Option RecoveryStateEntry) :
    Option FileHistoryEntry :=
  match previous with
  | none => some
    { fileId := current.fileId
      kind := if current.deleted = some true then .deleted else .created
      path := current.path
      contentHash := current.contentHash
      deleted := current.deleted
      size := current.size
      mtime := current.mtime
      device := current.device }
  | some previous =>
    if previous.deleted = some true ∧ current.deleted ≠ some true then some
      { fileId := current.fileId
        kind := .restored
        path := current.path
        oldPath := some previous.path
        newPath := some current.path
        contentHash := current.contentHash
        previousContentHash := previous.contentHash
        deleted := current.deleted
        size := current.size
        mtime := current.mtime
        device := current.device }
    else if previous.deleted ≠ some true ∧ current.deleted = some true then some
      { fileId := current.fileId
        kind := .deleted
        path := current.path
        oldPath := some previous.path
        previousContentHash := previous.contentHash
        deleted := some true
        size := current.size.or previous.size
        mtime := current.mtime
        device := current.device }
    else if previous.path ≠ current.path then some
      { fileId := current.fileId
        kind := .renamed
        path := current.path
        oldPath := some previous.path
        newPath := some current.path
        contentHash := current.contentHash
        previousContentHash := previous.contentHash
        deleted := current.deleted
        size := current.size
        mtime := current.mtime
        device := current.device }
    else if previous.contentHash ≠ current.contentHash then some
      { fileId := current.fileId
        kind := .modified
        path := current.path
        contentHash := current.contentHash
        previousContentHash := previous.contentHash
        deleted := current.deleted
        size := current.size
        mtime := current.mtime
        device := current.device }
    else none

def buildDeletionEntry (previous : RecoveryStateEntry) : FileHistoryEntry where
  fileId := previous.fileId
  kind := .deleted
  path := previous.path
  oldPath := some previous.path
  previousContentHash := previous.contentHash
  deleted := some true
  size := previous.size
  mtime := previous.mtime
  device := previous.device

end Kaos.Server
