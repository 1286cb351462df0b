import Kaos.Server.RecoveryManifestTimes

/-! Snapshots of the whole document, stored under a day and an id and fetched by the id alone. -/
namespace Kaos.Server

open Kaos.Lib

inductive SnapshotReason
  | daily
  | manual
  | preUpgrade
  | preMigration
  | preBulkOperation
  deriving DecidableEq

structure SnapshotIndex where
  snapshotId : JsString
  vaultId : JsString
  createdAt : JsString
  day : JsString
  schemaVersion : Option ℕ
  markdownFileCount : ℕ
  blobFileCount : ℕ
  crdtSizeBytes : ℕ
  crdtRawSizeBytes : ℕ
  referencedBlobHashes : List JsString
  triggeredBy : Option JsString
  fullUpdateHash : Option JsString
  structureHash : Option JsString
  pinned : Option Bool
  reason : Option SnapshotReason
  deriving DecidableEq

structure CreateSnapshotOptions where
  triggeredBy : Option JsString := none
  reason : Option SnapshotReason := none
  pinned : Option Bool := none
  precomputedRawUpdate : Option (List UInt8) := none
  precomputedFullUpdateHash : Option JsString := none

/-- The maps of the document that a snapshot reads, and its whole state as an update. -/
structure SnapshotDoc where
  encodeStateAsUpdate : List UInt8
  pathToId : List (JsString × JsString)
  pathToBlob : List (JsString × Json)
  schemaVersion : Option ℕ

/-- What the code calls: the two digests and `gzipSync`. -/
structure SnapshotPlatform where
  gzipSync : List UInt8 → List UInt8
  sha256Hex : List UInt8 → JsString
  sha256HexOfText : JsString → JsString

/-- An object of the bucket: bytes, the JSON text of an index, or text that is no JSON. -/
inductive SnapshotObject
  | bytes (data : List UInt8)
  | json (index : SnapshotIndex)
  | malformed

abbrev SnapshotBucket := JsString → Option SnapshotObject

def SnapshotObject.size : SnapshotObject → Option ℕ
  | .bytes data => some data.length
  | _ => none

/-- `JSON.parse` of the text of an object. -/
def SnapshotObject.parse : SnapshotObject → Option SnapshotIndex
  | .json index => some index
  | _ => none

/-- The three times at which `createSnapshot` reads the clock, in order. -/
structure SnapshotClock where
  day : ℕ
  id : ℕ
  created : ℕ
  day_le_id : day ≤ id
  id_le_created : id ≤ created
  inRange : created ≤ MAX_DATE_MS

def today (now : ℕ) : JsString := (toISOString now).take 10

def generateSnapshotId (now : ℕ) (bytes : Fin 4 → UInt8) : JsString :=
  generateRecoveryManifestId now bytes

def snapshotsKey (vaultId : JsString) : JsString := js "v1/" ++ vaultId ++ js "/snapshots/"

def snapshotPrefix (vaultId day snapshotId : JsString) : JsString :=
  snapshotsKey vaultId ++ day ++ js "/" ++ snapshotId

def snapshotLatestIndexKey (vaultId : JsString) : JsString :=
  snapshotsKey vaultId ++ js "latest-index.json"

def payloadKey (vaultId day snapshotId : JsString) : JsString :=
  snapshotPrefix vaultId day snapshotId ++ js "/crdt.bin.gz"

def indexKey (vaultId day snapshotId : JsString) : JsString :=
  snapshotPrefix vaultId day snapshotId ++ js "/index.json"

/-- `[0-9a-z]` -/
def isLowerBase36 (c : UInt16) : Bool := (48 ≤ c ∧ c ≤ 57) ∨ (97 ≤ c ∧ c ≤ 122)

/-- `^([0-9a-z]+)-([0-9a-f]{8,})$`: the first group. -/
def snapshotIdGroup (s : JsString) : Option JsString :=
  let group := s.takeWhile isLowerBase36
  match s.drop group.length with
  | dash :: suffix =>
    if dash = 45 ∧ group ≠ [] ∧ 8 ≤ suffix.length ∧ suffix.all JsString.isHexChar then some group
    else none
  | [] => none

def dayFromSnapshotId (snapshotId : JsString) : Option JsString :=
  (snapshotIdGroup snapshotId).bind fun group =>
    (isoTime (parseBase36 group)).map (List.take 10)

/-- The `hash` of a blob reference, where it has one. -/
def referencedHash : Json → Option JsString
  | .obj fields =>
    match fields "hash" with
    | .str hash => some hash
    | _ => none
  | _ => none

def structureEntries (doc : SnapshotDoc) : List JsString :=
  let markdown := doc.pathToId.map fun entry => js "md:" ++ entry.1 ++ js ":" ++ entry.2
  let blobs := doc.pathToBlob.filterMap fun entry =>
    (referencedHash entry.2).map fun hash => js "blob:" ++ entry.1 ++ js ":" ++ hash
  (markdown ++ blobs).insertionSort fun s t => JsString.le s t = true

section Operations

variable (platform : SnapshotPlatform)

def computeStructureHash (doc : SnapshotDoc) : JsString :=
  platform.sha256HexOfText ((js "\n").intercalate (structureEntries doc))

def defaultPinned (reason : SnapshotReason) : Bool :=
  reason = .manual ∨ reason = .preUpgrade ∨ reason = .preMigration

def rawUpdateOf (doc : SnapshotDoc) (options : CreateSnapshotOptions) : List UInt8 :=
  options.precomputedRawUpdate.getD doc.encodeStateAsUpdate

/-- An empty precomputed hash counts as none. -/
def fullUpdateHashOf (doc : SnapshotDoc) (options : CreateSnapshotOptions) : JsString :=
  match options.precomputedFullUpdateHash with
  | some (c :: hash) => c :: hash
  | _ => platform.sha256Hex (rawUpdateOf doc options)

def snapshotIndexOf (doc : SnapshotDoc) (vaultId : JsString) (options : CreateSnapshotOptions)
    (clock : SnapshotClock) (bytes : Fin 4 → UInt8) : SnapshotIndex where
  snapshotId := generateSnapshotId clock.id bytes
  vaultId
  createdAt := toISOString clock.created
  day := today clock.day
  schemaVersion := doc.schemaVersion
  markdownFileCount := doc.pathToId.length
  blobFileCount := doc.pathToBlob.length
  crdtSizeBytes := (platform.gzipSync (rawUpdateOf doc options)).length
  crdtRawSizeBytes := (rawUpdateOf doc options).length
  referencedBlobHashes := doc.pathToBlob.filterMap fun entry => referencedHash entry.2
  triggeredBy := options.triggeredBy
  fullUpdateHash := some (fullUpdateHashOf platform doc options)
  structureHash := some (computeStructureHash platform doc)
  pinned := some (options.pinned.getD (defaultPinned (options.reason.getD .daily)))
  reason := some (options.reason.getD .daily)

/-- Payload and index are written first, then the pointer to the latest index. -/
def createSnapshot (doc : SnapshotDoc) (vaultId : JsString) (options : CreateSnapshotOptions)
    (clock : SnapshotClock) (bytes : Fin 4 → UInt8) (bucket : SnapshotBucket) :
    SnapshotBucket × SnapshotIndex :=
  let index := snapshotIndexOf platform doc vaultId options clock bytes
  let compressed := platform.gzipSync (rawUpdateOf doc options)
  let written := Function.update
    (Function.update bucket (payloadKey vaultId index.day index.snapshotId)
      (some (.bytes compressed)))
    (indexKey vaultId index.day index.snapshotId) (some (.json index))
  (Function.update written (snapshotLatestIndexKey vaultId) (some (.json index)), index)

end Operations

/-- Text that does not parse is thrown as an error. -/
inductive SnapshotParseError
  | syntaxError

/-- `normalizeBytes` of an object that holds bytes; the text of others stays out of the model. -/
def SnapshotObject.body : SnapshotObject → List UInt8
  | .bytes data => data
  | _ => []

def getSnapshotPayload (vaultId snapshotId : JsString) (bucket : SnapshotBucket) :
    Except SnapshotParseError (Option (SnapshotIndex × List UInt8)) :=
  match dayFromSnapshotId snapshotId with
  | none => .ok none
  | some day =>
    match bucket (indexKey vaultId day snapshotId), bucket (payloadKey vaultId day snapshotId) with
    | some indexObject, some payloadObject =>
      match indexObject.parse with
      | some index => .ok (some (index, payloadObject.body))
      | none => .error .syntaxError
    | _, _ => .ok none

/-- Empty hashes are not compared. -/
def hashesDiffer : Option JsString → Option JsString → Bool
  | some (c :: s), some (d :: t) => c :: s ≠ d :: t
  | _, _ => false

def verifySnapshotExists (vaultId : JsString) (index : SnapshotIndex) (bucket : SnapshotBucket) :
    Bool :=
  match bucket (payloadKey vaultId index.day index.snapshotId),
    bucket (indexKey vaultId index.day index.snapshotId) with
  | some payloadHead, some indexObject =>
    match indexObject.parse with
    | none => false
    | some storedIndex =>
      if storedIndex.snapshotId ≠ index.snapshotId then false
      else if hashesDiffer storedIndex.fullUpdateHash index.fullUpdateHash then false
      else if 0 < storedIndex.crdtSizeBytes ∧
          payloadHead.size.any (· ≠ storedIndex.crdtSizeBytes) then false
      else true
  | _, _ => false

end Kaos.Server
