import Mathlib.Data.List.Dedup
import Kaos.Lib.Chunking
import Kaos.Lib.OrderedMap
import Kaos.Server.DocStore

/-! The chunked document store over a Durable Object's key-value storage. -/
namespace Kaos.Server

open Kaos.Lib

abbrev Bytes := List UInt8

/-- The keys the store uses, one constructor for each key function of the source. -/
inductive StorageKey
  | checkpointPointer
  | checkpointManifest (version : ℕ)
  | checkpointChunk (version index : ℕ)
  | checkpointStateVector (version : ℕ)
  | checkpointStateVectorDescriptor (version : ℕ)
  | checkpointStateVectorChunk (version index : ℕ)
  | journalMeta
  | journalManifest (seq : ℕ)
  | journalChunk (seq index : ℕ)
  deriving DecidableEq

/-- The string a key is stored under. -/
def StorageKey.render : StorageKey → String
  | .checkpointPointer => "document:checkpoint:current"
  | .checkpointManifest version => s!"document:checkpoint:manifest:{version}"
  | .checkpointChunk version index => s!"document:checkpoint:chunk:{version}:{index}"
  | .checkpointStateVector version => s!"document:checkpoint:state-vector:{version}"
  | .checkpointStateVectorDescriptor version =>
    s!"document:checkpoint:state-vector-descriptor:{version}"
  | .checkpointStateVectorChunk version index =>
    s!"document:checkpoint:state-vector-chunk:{version}:{index}"
  | .journalMeta => "document:journal:meta"
  | .journalManifest seq => s!"document:journal:manifest:{seq}"
  | .journalChunk seq index => s!"document:journal:chunk:{seq}:{index}"

/-- What `Date.toISOString` returns is never empty. -/
structure IsoTime where
  iso : String
  ne_empty : iso ≠ ""
  deriving DecidableEq

structure ManifestPointer where
  version : ℕ
  deriving DecidableEq

inductive StateVectorStorage
  | direct | chunked
  deriving DecidableEq

structure CheckpointManifest where
  version : ℕ
  chunkSizeBytes : ℕ
  chunkCount : ℕ
  byteLength : ℕ
  sha256 : String
  stateVectorByteLength : ℕ
  stateVectorSha256 : String
  stateVectorStorage : Option StateVectorStorage
  updatedAt : String
  deriving DecidableEq

structure StateVectorDescriptor where
  version : ℕ
  chunkSizeBytes : ℕ
  chunkCount : ℕ
  byteLength : ℕ
  sha256 : String
  updatedAt : String
  deriving DecidableEq

structure JournalMeta where
  nextSeq : ℕ
  entryCount : ℕ
  totalBytes : ℕ
  updatedAt : String
  deriving DecidableEq

structure JournalEntryManifest where
  seq : ℕ
  chunkSizeBytes : ℕ
  chunkCount : ℕ
  byteLength : ℕ
  sha256 : String
  updatedAt : String
  deriving DecidableEq

/-- What is stored under a key. The `format` field of a record is its constructor here. -/
inductive StorageValue
  | pointer (pointer : ManifestPointer)
  | manifest (manifest : CheckpointManifest)
  | stateVectorDescriptor (descriptor : StateVectorDescriptor)
  | journalMeta (journalMeta : JournalMeta)
  | journalManifest (manifest : JournalEntryManifest)
  | bytes (bytes : Bytes)
  deriving DecidableEq

abbrev Storage := StorageKey → Option StorageValue

namespace Storage

def empty : Storage := fun _ => none

/-- A `put` of one record. -/
def put (storage : Storage) (record : List (StorageKey × StorageValue)) : Storage :=
  record.foldl (fun storage entry => Function.update storage entry.1 (some entry.2)) storage

def delete (storage : Storage) (keys : List StorageKey) : Storage :=
  keys.foldl (fun storage key => Function.update storage key none) storage

/-- A `get` of several keys answers with those that are present. -/
def getMany (storage : Storage) (keys : List StorageKey) : List (StorageKey × StorageValue) :=
  keys.filterMap fun key => (storage key).map fun value => (key, value)

end Storage

/-- SHA-256 as the store uses it: some function into 64 lower-case hex digits. -/
def isSha256Hex (s : String) : Bool :=
  s.toList.length = 64 && s.toList.all fun c => c ∈ "0123456789abcdef".toList

structure Digest where
  sha256Hex : Bytes → String
  isSha256Hex_sha256Hex : ∀ bytes, isSha256Hex (sha256Hex bytes) = true

def MAX_CHUNK_BYTES_PER_PUT : ℕ := 4 * 1024 * 1024
def DIRECT_STATE_VECTOR_MAX_BYTES : ℕ := 1024 * 1024
def DEFAULT_CHUNK_SIZE_BYTES : ℕ := 512 * 1024
def DEFAULT_MAX_KEYS_PER_OPERATION : ℕ := 128

/-- Only positive sizes pass the constructor's assertions. -/
structure ChunkedDocStore where
  chunkSizeBytes : ℕ := DEFAULT_CHUNK_SIZE_BYTES
  maxKeysPerOperation : ℕ := DEFAULT_MAX_KEYS_PER_OPERATION
  chunkSizeBytes_pos : 0 < chunkSizeBytes := by decide
  maxKeysPerOperation_pos : 0 < maxKeysPerOperation := by decide

structure ChunkWriteStats where
  chunkCount : ℕ
  maxChunkBytes : ℕ := 0
  maxPutBytes : ℕ := 0
  putCount : ℕ := 0
  deriving DecidableEq

structure LoadedDocState where
  checkpoint : Option Bytes
  checkpointStateVector : Option Bytes
  journalUpdates : List Bytes
  journalStats : JournalStats
  deriving DecidableEq

def normalizeBytes (data : StorageValue) (label : String) : Except String Bytes :=
  match data with
  | .bytes bytes => .ok bytes
  | _ => .error s!"invalid binary payload for {label}"

/-- Any stored object with a positive version passes this guard. -/
def isManifestPointer (value : StorageValue) : Option ManifestPointer :=
  let ofVersion version := if version > 0 then some ⟨version⟩ else none
  match value with
  | .pointer pointer => ofVersion pointer.version
  | .manifest manifest => ofVersion manifest.version
  | .stateVectorDescriptor descriptor => ofVersion descriptor.version
  | _ => none

def isChunkedManifest (value : Option StorageValue) : Option CheckpointManifest :=
  match value with
  | some (.manifest m) =>
    if m.version > 0 ∧ m.chunkSizeBytes > 0 ∧ isSha256Hex m.sha256 ∧
      isSha256Hex m.stateVectorSha256 ∧ m.updatedAt ≠ "" then some m else none
  | _ => none

def isStateVectorDescriptor (value : Option StorageValue) : Option StateVectorDescriptor :=
  match value with
  | some (.stateVectorDescriptor d) =>
    if d.version > 0 ∧ d.chunkSizeBytes > 0 ∧ isSha256Hex d.sha256 ∧ d.updatedAt ≠ "" then some d
    else none
  | _ => none

def isJournalMeta (value : StorageValue) : Option JournalMeta :=
  match value with
  | .journalMeta m => if m.nextSeq ≥ 1 ∧ m.updatedAt ≠ "" then some m else none
  | _ => none

def isJournalEntryManifest (value : Option StorageValue) : Option JournalEntryManifest :=
  match value with
  | some (.journalManifest m) =>
    if m.seq ≥ 1 ∧ m.chunkSizeBytes > 0 ∧ isSha256Hex m.sha256 ∧ m.updatedAt ≠ "" then some m
    else none
  | _ => none

/-- `chunkArray`: consecutive slices of at most `size` elements. -/
def chunkArray {α : Type*} (arr : List α) (size : ℕ) : List (List α) := pieces size arr

def getManyBatched (storage : Storage) (keys : List StorageKey) (maxKeysPerOperation : ℕ) :
    OrderedMap StorageKey StorageValue :=
  (chunkArray keys maxKeysPerOperation).foldl
    (fun merged batch => merged.setAll (storage.getMany batch)) .empty

def putEntriesBatched (target : Storage) (entries : List (StorageKey × StorageValue))
    (maxKeysPerOperation : ℕ) : Storage :=
  (chunkArray entries maxKeysPerOperation).foldl Storage.put target

def deleteKeysBatched (target : Storage) (keys : List StorageKey) (maxKeysPerOperation : ℕ) :
    Storage :=
  if keys.length = 0 then target
  else (chunkArray keys maxKeysPerOperation).foldl Storage.delete target

def copyChunk (bytes : Bytes) (start stop : ℕ) : Bytes := (bytes.drop start).take (stop - start)

/-- The record one `put` collects. -/
structure ChunkRecord where
  record : List (StorageKey × StorageValue) := []
  recordBytes : ℕ := 0
  recordKeys : ℕ := 0

/-- The inner loop of `putChunkedPayloadBatched` over the chunk numbers still to write: it fills
one record and hands back the numbers it left. -/
def fillRecord (bytes : Bytes) (chunkSizeBytes : ℕ) (chunkKeyForIndex : ℕ → StorageKey)
    (maxKeysPerOperation : ℕ) : List ℕ → ChunkRecord → ChunkWriteStats →
      ChunkRecord × ChunkWriteStats × List ℕ
  | [], r, stats => (r, stats, [])
  | i :: rest, r, stats =>
    let start := i * chunkSizeBytes
    let stop := min (start + chunkSizeBytes) bytes.length
    let chunkBytes := stop - start
    if r.recordKeys < maxKeysPerOperation ∧
        ¬ (r.recordKeys > 0 ∧ r.recordBytes + chunkBytes > MAX_CHUNK_BYTES_PER_PUT) then
      let chunk := copyChunk bytes start stop
      fillRecord bytes chunkSizeBytes chunkKeyForIndex maxKeysPerOperation rest
        { record := r.record ++ [(chunkKeyForIndex i, .bytes chunk)]
          recordBytes := r.recordBytes + chunkBytes
          recordKeys := r.recordKeys + 1 }
        { stats with maxChunkBytes := max stats.maxChunkBytes chunk.length }
    else (r, stats, i :: rest)

/-- The outer loop. Every round writes at least one chunk, so the number of chunks bounds it. -/
def putRecords (bytes : Bytes) (chunkSizeBytes : ℕ) (chunkKeyForIndex : ℕ → StorageKey)
    (maxKeysPerOperation : ℕ) : ℕ → List ℕ → Storage × ChunkWriteStats → Storage × ChunkWriteStats
  | 0, _, out => out
  | _, [], out => out
  | fuel + 1, indices, (target, stats) =>
    let (r, stats, rest) :=
      fillRecord bytes chunkSizeBytes chunkKeyForIndex maxKeysPerOperation indices {} stats
    putRecords bytes chunkSizeBytes chunkKeyForIndex maxKeysPerOperation fuel rest
      (target.put r.record, { stats with
        maxPutBytes := max stats.maxPutBytes r.recordBytes
        putCount := stats.putCount + 1 })

def putChunkedPayloadBatched (target : Storage) (bytes : Bytes) (chunkSizeBytes : ℕ)
    (chunkKeyForIndex : ℕ → StorageKey) (maxKeysPerOperation : ℕ) : Storage × ChunkWriteStats :=
  let chunkCount := if bytes.length = 0 then 0 else pieceCount chunkSizeBytes bytes.length
  putRecords bytes chunkSizeBytes chunkKeyForIndex maxKeysPerOperation chunkCount
    (List.range chunkCount) (target, { chunkCount })

def emptyJournalMeta (now : IsoTime) : JournalMeta where
  nextSeq := 1
  entryCount := 0
  totalBytes := 0
  updatedAt := now.iso

def journalStatsFromMeta (journalMeta : JournalMeta) : JournalStats where
  entryCount := journalMeta.entryCount
  totalBytes := journalMeta.totalBytes
  nextSeq := journalMeta.nextSeq

/-- The metadata of an absent record carries the time of the read. -/
def readJournalMeta (now : IsoTime) (source : Storage) : Except String JournalMeta :=
  match source .journalMeta with
  | none => .ok (emptyJournalMeta now)
  | some raw =>
    match isJournalMeta raw with
    | none => .error "journal metadata is invalid"
    | some journalMeta => .ok journalMeta

def expectedJournalSeqs (journalMeta : JournalMeta) : Except String (List ℕ) :=
  if journalMeta.nextSeq < journalMeta.entryCount + 1 then
    .error (s!"journal metadata is inconsistent (nextSeq={journalMeta.nextSeq}, " ++
      s!"entryCount={journalMeta.entryCount})")
  else .ok ((List.range journalMeta.entryCount).map fun i =>
    journalMeta.nextSeq - journalMeta.entryCount + i)

structure ChunkDescriptor where
  chunkCount : ℕ
  chunkSizeBytes : ℕ
  byteLength : ℕ
  sha256 : String

def CheckpointManifest.descriptor (m : CheckpointManifest) : ChunkDescriptor :=
  ⟨m.chunkCount, m.chunkSizeBytes, m.byteLength, m.sha256⟩

def StateVectorDescriptor.descriptor (d : StateVectorDescriptor) : ChunkDescriptor :=
  ⟨d.chunkCount, d.chunkSizeBytes, d.byteLength, d.sha256⟩

def JournalEntryManifest.descriptor (m : JournalEntryManifest) : ChunkDescriptor :=
  ⟨m.chunkCount, m.chunkSizeBytes, m.byteLength, m.sha256⟩

/-- The loop of `readChunkedPayload`: `read` holds the bytes copied so far. -/
def readChunks (chunks : OrderedMap StorageKey StorageValue) (descriptor : ChunkDescriptor)
    (chunkKeyForIndex : ℕ → StorageKey) (contextLabel : String) :
    List ℕ → Bytes → Except String Bytes
  | [], read => .ok read
  | i :: rest, read =>
    match chunks.get? (chunkKeyForIndex i) with
    | none => .error s!"{contextLabel} load failed: missing chunk {i}"
    | some rawChunk =>
      match normalizeBytes rawChunk (chunkKeyForIndex i).render with
      | .error err => .error err
      | .ok bytes =>
        if i + 1 < descriptor.chunkCount ∧ bytes.length ≠ descriptor.chunkSizeBytes then
          .error s!"{contextLabel} load failed: chunk {i} has invalid length {bytes.length}"
        else if i + 1 = descriptor.chunkCount ∧ bytes.length > descriptor.chunkSizeBytes then
          .error s!"{contextLabel} load failed: final chunk is too large ({bytes.length})"
        else if read.length + bytes.length > descriptor.byteLength then
          .error s!"{contextLabel} load failed: chunk bytes exceed manifest size"
        else readChunks chunks descriptor chunkKeyForIndex contextLabel rest (read ++ bytes)

def readChunkedPayload (digest : Digest) (storage : Storage) (descriptor : ChunkDescriptor)
    (chunkKeyForIndex : ℕ → StorageKey) (contextLabel : String) (maxKeysPerOperation : ℕ) :
    Except String Bytes := do
  let keys := (List.range descriptor.chunkCount).map chunkKeyForIndex
  let chunks := getManyBatched storage keys maxKeysPerOperation
  if chunks.size ≠ descriptor.chunkCount then
    throw (s!"{contextLabel} load failed: expected {descriptor.chunkCount} chunks, " ++
      s!"found {chunks.size}")
  let fullUpdate ← readChunks chunks descriptor chunkKeyForIndex contextLabel
    (List.range descriptor.chunkCount) []
  if fullUpdate.length ≠ descriptor.byteLength then
    throw (s!"{contextLabel} load failed: expected {descriptor.byteLength} bytes, " ++
      s!"reconstructed {fullUpdate.length}")
  if digest.sha256Hex fullUpdate ≠ descriptor.sha256 then
    throw s!"{contextLabel} load failed: sha256 mismatch"
  return fullUpdate

namespace ChunkedDocStore

/-- `appendUpdate` with the journal statistics it answers with. -/
def appendUpdate (digest : Digest) (self : ChunkedDocStore) (now : IsoTime) (update : Bytes)
    (storage : Storage) : Except String (JournalStats × Storage) := do
  let journalMeta ← readJournalMeta now storage
  let storage :=
    if update.length = 0 then storage else
      let seq := journalMeta.nextSeq
      let (txn, writeStats) := putChunkedPayloadBatched storage update self.chunkSizeBytes
        (.journalChunk seq) self.maxKeysPerOperation
      let manifest : JournalEntryManifest :=
        { seq, chunkSizeBytes := self.chunkSizeBytes, chunkCount := writeStats.chunkCount
          byteLength := update.length, sha256 := digest.sha256Hex update, updatedAt := now.iso }
      let updatedMeta : JournalMeta :=
        { nextSeq := seq + 1, entryCount := journalMeta.entryCount + 1
          totalBytes := journalMeta.totalBytes + update.length, updatedAt := now.iso }
      putEntriesBatched txn [(.journalManifest seq, .journalManifest manifest),
        (.journalMeta, .journalMeta updatedMeta)] self.maxKeysPerOperation
  let journalMeta ← readJournalMeta now storage
  return (journalStatsFromMeta journalMeta, storage)

/-- The pointer a rewrite starts from. -/
def existingPointer (txn : Storage) : Except String (Option ManifestPointer) :=
  match txn .checkpointPointer with
  | none => .ok none
  | some raw =>
    match isManifestPointer raw with
    | none => .error "checkpoint pointer is invalid"
    | some pointer => .ok (some pointer)

/-- The keys of the checkpoint that a rewrite replaces. -/
def checkpointCleanupKeys (txn : Storage) : Option ManifestPointer → Except String (List StorageKey)
  | none => .ok []
  | some existing => do
    let oldManifestKey := StorageKey.checkpointManifest existing.version
    let some oldManifest := isChunkedManifest (txn oldManifestKey)
      | throw s!"checkpoint manifest missing or invalid for version {existing.version}"
    let stateVectorKeys ←
      if oldManifest.stateVectorStorage.getD .direct = .chunked then
        let descriptorKey := StorageKey.checkpointStateVectorDescriptor existing.version
        match isStateVectorDescriptor (txn descriptorKey) with
        | none => throw (s!"checkpoint state vector descriptor missing or invalid for " ++
            s!"version {existing.version}")
        | some descriptor => pure (descriptorKey :: (List.range descriptor.chunkCount).map
            (.checkpointStateVectorChunk existing.version))
      else pure []
    return oldManifestKey :: .checkpointStateVector existing.version :: stateVectorKeys ++
      (List.range oldManifest.chunkCount).map (.checkpointChunk oldManifest.version)

/-- The keys of one journal entry. -/
def journalEntryKeys (manifests : OrderedMap StorageKey StorageValue) (seq : ℕ) :
    Except String (List StorageKey) :=
  match isJournalEntryManifest (manifests.get? (.journalManifest seq)) with
  | none => .error s!"journal compact failed: invalid manifest for seq {seq}"
  | some manifest =>
    if manifest.seq ≠ seq then
      .error s!"journal compact failed: invalid manifest for seq {seq}"
    else .ok (.journalManifest seq :: (List.range manifest.chunkCount).map (.journalChunk seq))

/-- The keys of the journal that a rewrite folds into the checkpoint. -/
def journalCleanupKeys (self : ChunkedDocStore) (txn : Storage) (journalMeta : JournalMeta) :
    Except String (List StorageKey) := do
  if journalMeta.entryCount > 0 then
    let seqs ← expectedJournalSeqs journalMeta
    let manifestKeys := seqs.map StorageKey.journalManifest
    let manifests := getManyBatched txn manifestKeys self.maxKeysPerOperation
    if manifests.size ≠ manifestKeys.length then
      throw (s!"journal compact failed: expected {manifestKeys.length} manifests, " ++
        s!"found {manifests.size}")
    let keys ← seqs.mapM (journalEntryKeys manifests)
    return keys.flatten
  else return []

def nextVersion : Option ManifestPointer → ℕ
  | none => 1
  | some pointer => pointer.version + 1

/-- The writes of a rewrite, before its deletes. -/
def writeCheckpoint (digest : Digest) (self : ChunkedDocStore) (now : IsoTime) (newVersion : ℕ)
    (update stateVector : Bytes) (txn : Storage) : Storage :=
  let (txn, updateWriteStats) := putChunkedPayloadBatched txn update self.chunkSizeBytes
    (.checkpointChunk newVersion) self.maxKeysPerOperation
  let (txn, stateVectorStorage, stateVectorEntries) :=
    if stateVector.length > DIRECT_STATE_VECTOR_MAX_BYTES then
      let (txn, stateVectorWriteStats) := putChunkedPayloadBatched txn stateVector
        self.chunkSizeBytes (.checkpointStateVectorChunk newVersion) self.maxKeysPerOperation
      let descriptor : StateVectorDescriptor :=
        { version := newVersion, chunkSizeBytes := self.chunkSizeBytes
          chunkCount := stateVectorWriteStats.chunkCount, byteLength := stateVector.length
          sha256 := digest.sha256Hex stateVector, updatedAt := now.iso }
      (txn, StateVectorStorage.chunked, [(StorageKey.checkpointStateVectorDescriptor newVersion,
        StorageValue.stateVectorDescriptor descriptor)])
    else
      (txn, StateVectorStorage.direct, [(StorageKey.checkpointStateVector newVersion,
        StorageValue.bytes (copyChunk stateVector 0 stateVector.length))])
  let manifest : CheckpointManifest :=
    { version := newVersion, chunkSizeBytes := self.chunkSizeBytes
      chunkCount := updateWriteStats.chunkCount, byteLength := update.length
      sha256 := digest.sha256Hex update, stateVectorByteLength := stateVector.length
      stateVectorSha256 := digest.sha256Hex stateVector
      stateVectorStorage := some stateVectorStorage, updatedAt := now.iso }
  putEntriesBatched txn (stateVectorEntries ++
    [(.checkpointManifest newVersion, .manifest manifest),
      (.checkpointPointer, .pointer ⟨newVersion⟩),
      (.journalMeta, .journalMeta (emptyJournalMeta now))]) self.maxKeysPerOperation

def rewriteCheckpoint (digest : Digest) (self : ChunkedDocStore) (now : IsoTime)
    (update stateVector : Bytes) (storage : Storage) : Except String Storage := do
  let existing ← existingPointer storage
  let checkpointKeys ← checkpointCleanupKeys storage existing
  let journalMeta ← readJournalMeta now storage
  let journalKeys ← self.journalCleanupKeys storage journalMeta
  let txn := self.writeCheckpoint digest now (nextVersion existing) update stateVector storage
  return deleteKeysBatched txn (checkpointKeys ++ journalKeys).dedup self.maxKeysPerOperation

def loadCheckpoint (digest : Digest) (self : ChunkedDocStore) (storage : Storage) :
    Except String (Option (Bytes × Bytes)) := do
  let some rawPointer := storage .checkpointPointer | return none
  let some pointer := isManifestPointer rawPointer | throw "checkpoint pointer is invalid"
  let some manifest := isChunkedManifest (storage (.checkpointManifest pointer.version))
    | throw s!"checkpoint manifest missing or invalid for version {pointer.version}"
  if manifest.version ≠ pointer.version then
    throw (s!"checkpoint version mismatch (pointer={pointer.version}, " ++
      s!"manifest={manifest.version})")
  let update ← readChunkedPayload digest storage manifest.descriptor
    (.checkpointChunk manifest.version) "checkpoint" self.maxKeysPerOperation
  let stateVector ←
    if manifest.stateVectorStorage.getD .direct = .chunked then do
      let some descriptor :=
        isStateVectorDescriptor (storage (.checkpointStateVectorDescriptor manifest.version))
        | throw (s!"checkpoint state vector descriptor missing or invalid for " ++
            s!"version {manifest.version}")
      if descriptor.byteLength ≠ manifest.stateVectorByteLength then
        throw (s!"checkpoint state vector descriptor length mismatch " ++
          s!"(expected {manifest.stateVectorByteLength}, got {descriptor.byteLength})")
      if descriptor.sha256 ≠ manifest.stateVectorSha256 then
        throw "checkpoint state vector descriptor sha256 mismatch"
      readChunkedPayload digest storage descriptor.descriptor
        (.checkpointStateVectorChunk manifest.version) "checkpoint state vector"
        self.maxKeysPerOperation
    else
      match storage (.checkpointStateVector manifest.version) with
      | none => throw s!"checkpoint state vector missing for version {manifest.version}"
      | some raw => normalizeBytes raw (StorageKey.checkpointStateVector manifest.version).render
  if stateVector.length ≠ manifest.stateVectorByteLength then
    throw (s!"checkpoint state vector length mismatch " ++
      s!"(expected {manifest.stateVectorByteLength}, got {stateVector.length})")
  if digest.sha256Hex stateVector ≠ manifest.stateVectorSha256 then
    throw "checkpoint state vector sha256 mismatch"
  return some (update, stateVector)

/-- One entry of the loop of `loadJournal`. -/
def loadEntry (digest : Digest) (self : ChunkedDocStore) (storage : Storage)
    (manifests : OrderedMap StorageKey StorageValue) (seq : ℕ) : Except String Bytes :=
  match isJournalEntryManifest (manifests.get? (.journalManifest seq)) with
  | none => .error s!"journal load failed: invalid manifest for seq {seq}"
  | some manifest =>
    if manifest.seq ≠ seq then .error s!"journal load failed: invalid manifest for seq {seq}"
    else readChunkedPayload digest storage manifest.descriptor (.journalChunk seq)
      s!"journal entry {seq}" self.maxKeysPerOperation

def loadJournal (digest : Digest) (self : ChunkedDocStore) (now : IsoTime) (storage : Storage) :
    Except String (JournalMeta × List Bytes) := do
  let journalMeta ← readJournalMeta now storage
  if journalMeta.entryCount = 0 then
    if journalMeta.totalBytes ≠ 0 then
      throw "journal metadata is inconsistent (entryCount=0 but totalBytes>0)"
    return (journalMeta, [])
  let seqs ← expectedJournalSeqs journalMeta
  let manifestKeys := seqs.map StorageKey.journalManifest
  let manifests := getManyBatched storage manifestKeys self.maxKeysPerOperation
  if manifests.size ≠ manifestKeys.length then
    throw (s!"journal load failed: expected {manifestKeys.length} manifests, " ++
      s!"found {manifests.size}")
  let entries ← seqs.mapM (loadEntry digest self storage manifests)
  let totalBytes := (entries.map List.length).sum
  if totalBytes ≠ journalMeta.totalBytes then
    throw (s!"journal load failed: metadata totalBytes mismatch " ++
      s!"(expected {journalMeta.totalBytes}, got {totalBytes})")
  return (journalMeta, entries)

def loadState (digest : Digest) (self : ChunkedDocStore) (now : IsoTime) (storage : Storage) :
    Except String LoadedDocState := do
  let checkpoint ← self.loadCheckpoint digest storage
  let (journalMeta, entries) ← self.loadJournal digest now storage
  return { checkpoint := checkpoint.map Prod.fst
           checkpointStateVector := checkpoint.map Prod.snd
           journalUpdates := entries
           journalStats := journalStatsFromMeta journalMeta }

end ChunkedDocStore

end Kaos.Server
