import Kaos.Paths.NormalizePath
import Kaos.Sync.VaultTransactions

/-! The migration of a vault from the path map to paths in the metadata. -/
namespace Kaos.Sync

open Kaos.Lib Kaos.Paths Kaos.Yjs

def optionalNumber : Option ℚ → Json
  | some value => .num (some value)
  | none => .undefined

/-- The entry made for a file that has none. -/
def flatActiveMeta (path : JsString) (mtime : ℚ) (device : Option JsString) : MetaValue :=
  .plain (.obj (setField (setField (setField emptyRecord "path" (.str path)) "mtime"
    (.num (some mtime))) "device" (optionalString device)))

def flatDeletedMeta (path : JsString) (deletedAt : ℚ) : MetaValue :=
  .plain (.obj (setField (setField emptyRecord "path" (.str path)) "deletedAt"
    (.num (some deletedAt))))

/-- A file's entry with its canonical path: a nested one in place, a flat one anew. -/
def movedEntry (now : ℚ) (device : Option JsString) (path : JsString) (current : DecodedFileMeta) :
    MetaValue → MetaValue
  | .nested fields => .nested (setField fields "path" (.str path))
  | .plain _ => .plain (.obj (setField (setField (setField (setField emptyRecord
      "shape" (.str (js "flat"))) "path" (.str path))
      "mtime" (optionalNumber (current.mtime.or (some now))))
      "device" (optionalString (current.device.or device))))

section Migration

variable (normalizePath : JsString → JsString)

/-- The paths of each file of the legacy map. -/
def mappedPaths (doc : VaultDoc) : OrderedMap JsString (List JsString) :=
  pathsByFileId (doc.pathToId.entries.map fun entry => (normalizePath entry.1, entry.2))

/-- The path of its metadata if it is among its paths, otherwise the least of them. -/
def canonicalPath (metaMap : SharedMeta) (fileId : JsString) (paths : List JsString) : JsString :=
  match (metaMap.get? fileId).bind getMetaPath with
  | some metaPath =>
    if normalizePath metaPath ∈ paths then normalizePath metaPath
    else (paths.mergeSort JsString.le).headD []
  | none => (paths.mergeSort JsString.le).headD []

def canonicalPathById (doc : VaultDoc) : List (JsString × JsString) :=
  (mappedPaths normalizePath doc).entries.map fun entry =>
    (entry.1, canonicalPath normalizePath doc.metaMap entry.1 entry.2)

def loserPaths (doc : VaultDoc) : List JsString :=
  (mappedPaths normalizePath doc).entries.flatMap fun entry =>
    entry.2.filter (· ≠ canonicalPath normalizePath doc.metaMap entry.1 entry.2)

/-- The loop over the mapped files, and whether it comes to its end: at the first file without
metadata the whole transaction returns. -/
def migrateMapped (now : ℚ) (device : Option JsString) :
    Txn → List (JsString × JsString) → Txn × Bool
  | txn, [] => (txn, true)
  | txn, (fileId, path) :: rest =>
    match txn.doc.metaMap.get? fileId with
    | none => (txn.putMeta fileId (some (flatActiveMeta path now device)), false)
    | some value => match decodeFileMeta value with
      | none => (txn.putMeta fileId (some (flatActiveMeta path now device)), false)
      | some current =>
        migrateMapped now device
          (if !current.isDeleted ∧ current.path ≠ path then
            txn.putMeta fileId (some (movedEntry now device path current value))
          else txn) rest

/-- A deleted entry is left with its path and its date. -/
def migrateTombstone (now : ℚ) (txn : Txn) (entry : JsString × MetaValue) : Txn :=
  match decodeFileMeta entry.2 with
  | none => txn
  | some decoded =>
    if decoded.deleted ∧ decoded.deletedAt = none then
      txn.putMeta entry.1
        (some (flatDeletedMeta (normalizePath decoded.path) (decoded.mtime.getD now)))
    else if decoded.isDeleted ∧
        (decoded.deleted ∨ decoded.mtime.isSome ∨ decoded.device.isSome) then
      txn.putMeta entry.1
        (some (flatDeletedMeta (normalizePath decoded.path) (decoded.deletedAt.getD now)))
    else txn

def existingActivePaths (metaMap : SharedMeta) : List JsString :=
  metaMap.entries.filterMap fun entry =>
    if isFileMetaDeletedValue entry.2 then none else (getMetaPath entry.2).map normalizePath

/-- Each dropped path at which nothing is active gets a tombstone. -/
def tombstoneLosers (now : ℚ) (ids : ℕ → JsString) (active losers : List JsString) (txn : Txn) :
    Txn :=
  ((losers.filter (· ∉ active)).foldl (fun acc loser =>
    (acc.1.putMeta (ids acc.2) (some (flatDeletedMeta loser now)), acc.2 + 1)) (txn, 0)).1

def migrateBody (now : ℚ) (ids : ℕ → JsString) (device : Option JsString) (txn : Txn) : Txn :=
  let losers := loserPaths normalizePath txn.doc
  let mapped := migrateMapped now device txn (canonicalPathById normalizePath txn.doc)
  if mapped.2 then
    let txn := mapped.1
    let txn := txn.doc.metaMap.entries.foldl (migrateTombstone normalizePath now) txn
    let txn := tombstoneLosers now ids (existingActivePaths normalizePath txn.doc.metaMap) losers txn
    { txn with doc := { txn.doc with schemaVersion := .num (some 2) } }
  else mapped.1

/-- The client afterwards, and the paths whose local files are then trashed. -/
def VaultSync.migrateSchemaToV2 (sync : VaultSync) (now : ℚ) (ids : ℕ → JsString)
    (device : Option JsString) : VaultSync × List JsString :=
  ({ sync.transact (migrateBody normalizePath now ids device) with pathIndexesDirty := true },
    loserPaths normalizePath sync.doc)

end Migration

end Kaos.Sync
