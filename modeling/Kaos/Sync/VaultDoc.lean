import Kaos.Yjs.YMap
import Kaos.Sync.FileMeta
import Kaos.Sync.PendingBlobIntent

/-! The shared maps of a vault, and the readers and writers of its metadata entries. -/
namespace Kaos.Sync

open Kaos.Lib Kaos.Yjs

/-- The fields of an entry; a value that is no record has none. -/
def MetaValue.fields : MetaValue → Option Record
  | .nested fields => some fields
  | .plain value => asRecord value

/-- A non-empty string. -/
def readPath (fields : Record) : Option JsString :=
  match fields "path" with
  | .str path => if path.length = 0 then none else some path
  | _ => none

def getMetaPath (value : MetaValue) : Option JsString := value.fields.bind readPath

def isDeletedRecord (fields : Record) : Bool :=
  if (readFinite (fields "deletedAt")).isSome then true
  else match fields "deleted" with
    | .bool true => true
    | _ => false

def isFileMetaDeletedValue (value : MetaValue) : Bool := (value.fields.map isDeletedRecord).getD false

def getMetaDeletedAt (value : MetaValue) : Option ℚ :=
  value.fields.bind fun fields => readFinite (fields "deletedAt")

def setField (fields : Record) (key : String) (value : Json) : Record := fun key' =>
  if key' = key then value else fields key'

def emptyRecord : Record := fun _ => .undefined

/-- A device that is given and has a name. -/
def namedDevice (device : Option JsString) : Option JsString := device.filter (· ≠ [])

def optionalString : Option JsString → Json
  | some value => .str value
  | none => .undefined

def createNestedActiveMeta (path : JsString) (mtime : ℚ) (device : Option JsString) : MetaValue :=
  .nested (setField (setField (setField emptyRecord "path" (.str path)) "mtime" (.num (some mtime)))
    "device" (optionalString (namedDevice device)))

/-- A deleted entry keeps its date, or takes the present one. -/
def createNestedMetaFromDecoded (now : ℚ) (decoded : DecodedFileMeta) : Record :=
  let entry := setField emptyRecord "path" (.str decoded.path)
  if decoded.isDeleted then setField entry "deletedAt" (.num (some (decoded.deletedAt.getD now)))
  else
    let entry := match decoded.mtime with
      | some mtime => setField entry "mtime" (.num (some mtime))
      | none => entry
    match decoded.device with
      | some device => setField entry "device" (.str device)
      | none => entry

abbrev SharedMeta := YMap JsString MetaValue

/-- The time of a file's entry. -/
def entryMtime (metaMap : SharedMeta) (fileId : JsString) : ℚ :=
  (((metaMap.get? fileId).bind decodeFileMeta).bind DecodedFileMeta.mtime).getD 0

/-- The nested entry that a file has, or that is made of its flat one or of the fallback. -/
def ensureNestedMetaEntry (now : ℚ) (metaMap : SharedMeta) (fileId : JsString)
    (fallback : DecodedFileMeta) : Record :=
  match metaMap.get? fileId with
  | some (.nested fields) => fields
  | some (.plain value) =>
    createNestedMetaFromDecoded now ((decodeFileMeta (.plain value)).getD fallback)
  | none => createNestedMetaFromDecoded now fallback

/-- What `setMetaActive` leaves as the entry; the path is normalized. -/
def activeEntry (now : ℚ) (metaMap : SharedMeta) (fileId path : JsString)
    (device : Option JsString) : MetaValue :=
  let entry := ensureNestedMetaEntry now metaMap fileId
    { shape := .flat, path, mtime := some now, device := namedDevice device }
  let entry := setField entry "path" (.str path)
  let entry := setField entry "deleted" .undefined
  let entry := setField entry "deletedAt" .undefined
  let entry := setField entry "mtime" (.num (some now))
  .nested (setField entry "device" (optionalString (namedDevice device)))

/-- What `setMetaDeleted` leaves as the entry. -/
def deletedEntry (now : ℚ) (metaMap : SharedMeta) (fileId path : JsString) : MetaValue :=
  let entry := ensureNestedMetaEntry now metaMap fileId
    { shape := .flat, path, deletedAt := some now }
  let entry := setField entry "path" (.str path)
  let entry := setField entry "deletedAt" (.num (some now))
  let entry := setField entry "deleted" .undefined
  let entry := setField entry "mtime" .undefined
  .nested (setField entry "device" .undefined)

/-- A `Y.Text`, told from others by the item that holds it. -/
structure YText where
  item : ℕ
  content : JsString
  deriving DecidableEq

structure BlobTombstone where
  deletedAt : ℚ
  device : Option JsString := none
  deletedRef : Option BlobRef := none
  deriving DecidableEq

/-- The maps of the document; `schemaVersion` is the field of `sys`. -/
structure VaultDoc where
  pathToId : YMap JsString JsString := .empty
  idToText : YMap JsString YText := .empty
  metaMap : SharedMeta := .empty
  schemaVersion : Json := .undefined
  pathToBlob : YMap JsString BlobRef := .empty
  blobTombstones : YMap JsString BlobTombstone := .empty
  markdownPathRetirements : YMap JsString Json := .empty

/-- A natural number; anything else is no version. -/
def VaultDoc.storedSchemaVersion (doc : VaultDoc) : Option ℕ :=
  match doc.schemaVersion with
  | .num (some version) => if version.isInt ∧ 0 ≤ version then some version.num.toNat else none
  | _ => none

def VaultDoc.usesV2PathModel (doc : VaultDoc) : Bool := 2 ≤ doc.storedSchemaVersion.getD 1

section Lemmas

variable {value : MetaValue} {fields : Record} {decoded : DecodedFileMeta} {key key' : String}
  {json : Json} {now mtime deletedAt : ℚ} {metaMap : SharedMeta} {fileId path : JsString}
  {device : Option JsString}

@[simp] theorem setField_apply :
    setField fields key json key' = if key' = key then json else fields key' := rfl

theorem decodeFileMeta_eq_none : decodeFileMeta value = none ↔ getMetaPath value = none := by
  have hfields : ∀ shape fields, decodeFields shape fields = none ↔ readPath fields = none := by
    intro shape fields
    unfold decodeFields readPath
    cases fields "path" with
    | str path => by_cases h : path.length = 0 <;> simp [h]
    | _ => simp
  cases value with
  | nested fields => exact hfields .nested fields
  | plain value =>
    unfold getMetaPath
    rw [decodeFileMeta, MetaValue.fields]
    cases asRecord value with
    | none => exact ⟨fun _ => rfl, fun _ => rfl⟩
    | some fields => exact hfields .flat fields

/-- The readers of single fields agree with the decoder. -/
theorem read_of_decodeFileMeta (h : decodeFileMeta value = some decoded) :
    getMetaPath value = some decoded.path ∧ isFileMetaDeletedValue value = decoded.isDeleted ∧
      getMetaDeletedAt value = decoded.deletedAt := by
  have hfields : ∀ shape fields, decodeFields shape fields = some decoded →
      readPath fields = some decoded.path ∧ isDeletedRecord fields = decoded.isDeleted ∧
        readFinite (fields "deletedAt") = decoded.deletedAt := by
    intro shape fields h
    unfold decodeFields at h
    unfold readPath isDeletedRecord DecodedFileMeta.isDeleted
    cases hp : fields "path" with
    | str path =>
      simp only [hp] at h ⊢
      split at h
      · cases h
      · next hlen =>
        cases h
        simp only [if_neg hlen, true_and, and_true]
        cases hdel : readFinite (fields "deletedAt") with
        | none =>
          cases fields "deleted" with
          | bool flag => cases flag <;> simp
          | _ => simp
        | some deletedAt => simp
    | _ =>
      simp only [hp] at h
      cases h
  cases value with
  | nested fields => exact hfields .nested fields h
  | plain value =>
    obtain ⟨fields, hr, hd⟩ := Option.bind_eq_some_iff.mp h
    obtain ⟨hp, hdel, hdate⟩ := hfields .flat fields hd
    simp only [getMetaPath, isFileMetaDeletedValue, getMetaDeletedAt, MetaValue.fields, hr]
    exact ⟨hp, hdel, hdate⟩

theorem decodeFileMeta_activeEntry (hp : path ≠ []) :
    decodeFileMeta (activeEntry now metaMap fileId path device) =
      some { shape := .nested, path, mtime := some now, device := namedDevice device } := by
  have hlen : path.length ≠ 0 := fun h => hp (List.length_eq_zero_iff.mp h)
  unfold activeEntry
  cases h : namedDevice device with
  | none | some name => simp [decodeFileMeta, decodeFields, hlen, readFinite, optionalString]

theorem decodeFileMeta_deletedEntry (hp : path ≠ []) :
    decodeFileMeta (deletedEntry now metaMap fileId path) =
      some { shape := .nested, path, deletedAt := some now } := by
  have hlen : path.length ≠ 0 := fun h => hp (List.length_eq_zero_iff.mp h)
  simp [deletedEntry, decodeFileMeta, decodeFields, hlen, readFinite]

theorem decodeFileMeta_createNestedActiveMeta (hp : path ≠ []) :
    decodeFileMeta (createNestedActiveMeta path mtime device) =
      some { shape := .nested, path, mtime := some mtime, device := namedDevice device } := by
  have hlen : path.length ≠ 0 := fun h => hp (List.length_eq_zero_iff.mp h)
  unfold createNestedActiveMeta
  cases h : namedDevice device with
  | none | some name => simp [decodeFileMeta, decodeFields, hlen, readFinite, optionalString, emptyRecord]

end Lemmas

end Kaos.Sync
