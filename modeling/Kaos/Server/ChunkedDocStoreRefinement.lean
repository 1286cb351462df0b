import Kaos.Server.ChunkedDocStoreBatches

/-! The chunked store refines the abstract one and keeps no key it does not need. -/
namespace Kaos.Server

open Kaos.Lib ChunkedDocStore Storage StorageKey List

theorem journalChunk_injective (seq : ℕ) : Function.Injective (journalChunk seq) :=
  fun _ _ h => by injection h

theorem checkpointChunk_injective (version : ℕ) :
    Function.Injective (checkpointChunk version) := fun _ _ h => by injection h

theorem checkpointStateVectorChunk_injective (version : ℕ) :
    Function.Injective (checkpointStateVectorChunk version) :=
  fun _ _ h => by injection h

/-- A journaled update with the instance that wrote it. -/
structure JournalEntry where
  writer : ChunkedDocStore
  update : Bytes
  updatedAt : IsoTime

structure Checkpoint where
  version : ℕ
  writer : ChunkedDocStore
  update : Bytes
  stateVector : Bytes
  updatedAt : IsoTime
  version_pos : 0 < version

open Checkpoint

/-- What the storage of a room holds, without its keys. Entries are numbered from 1. -/
structure Layout where
  checkpoint : Option Checkpoint
  journal : List JournalEntry

/-- One chunk of a stored payload. -/
def payloadAt (chunkSize : ℕ) (bytes : Bytes) (i : ℕ) : Option StorageValue :=
  if i < pieceCount chunkSize bytes.length then some (.bytes (piece chunkSize bytes i)) else none

theorem isSome_ite_payloadAt {p : Prop} [Decidable p] {chunkSize : ℕ} {bytes : Bytes} {i : ℕ} :
    (if p then payloadAt chunkSize bytes i else none).isSome ↔
      p ∧ i < pieceCount chunkSize bytes.length := by
  by_cases hp : p <;> by_cases hi : i < pieceCount chunkSize bytes.length <;>
    simp [payloadAt, hp, hi]

def JournalEntry.manifest (digest : Digest) (entry : JournalEntry) (seq : ℕ) :
    JournalEntryManifest where
  seq
  chunkSizeBytes := entry.writer.chunkSizeBytes
  chunkCount := pieceCount entry.writer.chunkSizeBytes entry.update.length
  byteLength := entry.update.length
  sha256 := digest.sha256Hex entry.update
  updatedAt := entry.updatedAt.iso

namespace Checkpoint

def stateVectorStorage (c : Checkpoint) : StateVectorStorage :=
  if c.stateVector.length > DIRECT_STATE_VECTOR_MAX_BYTES then .chunked else .direct

def manifest (digest : Digest) (c : Checkpoint) : CheckpointManifest where
  version := c.version
  chunkSizeBytes := c.writer.chunkSizeBytes
  chunkCount := pieceCount c.writer.chunkSizeBytes c.update.length
  byteLength := c.update.length
  sha256 := digest.sha256Hex c.update
  stateVectorByteLength := c.stateVector.length
  stateVectorSha256 := digest.sha256Hex c.stateVector
  stateVectorStorage := some c.stateVectorStorage
  updatedAt := c.updatedAt.iso

def stateVectorDescriptor (digest : Digest) (c : Checkpoint) : StateVectorDescriptor where
  version := c.version
  chunkSizeBytes := c.writer.chunkSizeBytes
  chunkCount := pieceCount c.writer.chunkSizeBytes c.stateVector.length
  byteLength := c.stateVector.length
  sha256 := digest.sha256Hex c.stateVector
  updatedAt := c.updatedAt.iso

def storage (digest : Digest) (c : Checkpoint) : Storage
  | .checkpointPointer => some (.pointer ⟨c.version⟩)
  | .checkpointManifest version =>
    if version = c.version then some (.manifest (c.manifest digest)) else none
  | .checkpointChunk version i =>
    if version = c.version then payloadAt c.writer.chunkSizeBytes c.update i else none
  | .checkpointStateVector version =>
    if version = c.version ∧ c.stateVectorStorage = .direct then some (.bytes c.stateVector)
    else none
  | .checkpointStateVectorDescriptor version =>
    if version = c.version ∧ c.stateVectorStorage = .chunked then
      some (.stateVectorDescriptor (c.stateVectorDescriptor digest)) else none
  | .checkpointStateVectorChunk version i =>
    if version = c.version ∧ c.stateVectorStorage = .chunked then
      payloadAt c.writer.chunkSizeBytes c.stateVector i else none
  | _ => none

/-- The keys a checkpoint occupies besides the pointer. -/
def keys (c : Checkpoint) : List StorageKey :=
  (.checkpointManifest c.version ::
    match c.stateVectorStorage with
    | .direct => [.checkpointStateVector c.version]
    | .chunked => .checkpointStateVectorDescriptor c.version ::
        (List.range (pieceCount c.writer.chunkSizeBytes c.stateVector.length)).map
          (.checkpointStateVectorChunk c.version)) ++
  (List.range (pieceCount c.writer.chunkSizeBytes c.update.length)).map (.checkpointChunk c.version)

/-- What a rewrite puts: the checkpoint, the pointer to it and empty journal metadata. -/
def put (digest : Digest) (c : Checkpoint) (storage : Storage) : Storage :=
  let txn := storage.put (chunkEntries c.update c.writer.chunkSizeBytes
    (.checkpointChunk c.version) (List.range (pieceCount c.writer.chunkSizeBytes c.update.length)))
  let tail := [(checkpointManifest c.version, StorageValue.manifest (c.manifest digest)),
    (.checkpointPointer, .pointer ⟨c.version⟩),
    (.journalMeta, .journalMeta (emptyJournalMeta c.updatedAt))]
  match c.stateVectorStorage with
  | .direct => txn.put ((.checkpointStateVector c.version, .bytes c.stateVector) :: tail)
  | .chunked => (txn.put (chunkEntries c.stateVector c.writer.chunkSizeBytes
      (.checkpointStateVectorChunk c.version)
      (List.range (pieceCount c.writer.chunkSizeBytes c.stateVector.length)))).put
        ((.checkpointStateVectorDescriptor c.version,
          .stateVectorDescriptor (c.stateVectorDescriptor digest)) :: tail)

variable {digest : Digest} {k : StorageKey}

/-- A family of chunks is put under the keys of one version. -/
theorem put_chunkEntries_apply {storage : Storage} {bytes : Bytes} {chunkSize version : ℕ}
    {key : ℕ → ℕ → StorageKey} (hkey : Function.Injective2 key) (version' i : ℕ) :
    storage.put (chunkEntries bytes chunkSize (key version)
      (List.range (pieceCount chunkSize bytes.length))) (key version' i) =
    (if version' = version then payloadAt chunkSize bytes i else none).or
      (storage (key version' i)) := by
  unfold chunkEntries
  by_cases h : version' = version
  · rw [h, put_range_apply (hkey.right version), if_pos rfl, payloadAt]
    split <;> rfl
  · rw [put_range_of_ne _ fun i' heq => h (hkey heq).1.symm, if_neg h, Option.none_or]

theorem ite_some_or {p : Prop} [Decidable p] {value : StorageValue} {o : Option StorageValue} :
    (if p then some value else none).or o = if p then some value else o := by
  split <;> rfl

theorem put_apply {c : Checkpoint} (txn : Storage) : c.put digest txn k =
    (c.storage digest k).or (if k = .journalMeta then
      some (.journalMeta (emptyJournalMeta c.updatedAt)) else txn k) := by
  have ho : ∀ (key : ℕ → StorageKey) (bytes : Bytes) (txn : Storage), (∀ i, key i ≠ k) →
      txn.put (chunkEntries bytes c.writer.chunkSizeBytes key
        (List.range (pieceCount c.writer.chunkSizeBytes bytes.length))) k = txn k :=
    fun key bytes txn h => put_range_of_ne _ h
  have hchunk : Function.Injective2 checkpointChunk := fun _ _ _ _ h => by simpa using h
  have hsv : Function.Injective2 checkpointStateVectorChunk :=
    fun _ _ _ _ h => by simpa using h
  unfold put
  cases hk : c.stateVectorStorage <;>
    simp only [put_cons, put_nil, Function.update_apply] <;>
    cases k <;>
    simp [Checkpoint.storage, hk, ho, ite_some_or, put_chunkEntries_apply hchunk,
      put_chunkEntries_apply hsv]

end Checkpoint

/-- The keys of the journal entry with number `seq`. -/
def JournalEntry.keys (entry : JournalEntry) (seq : ℕ) : List StorageKey :=
  .journalManifest seq ::
    (List.range (pieceCount entry.writer.chunkSizeBytes entry.update.length)).map
      (.journalChunk seq)

namespace Layout

def empty : Layout := ⟨none, []⟩

def entry (l : Layout) : ℕ → Option JournalEntry
  | 0 => none
  | i + 1 => l.journal[i]?

def totalBytes (l : Layout) : ℕ := (l.journal.map fun entry => entry.update.length).sum

/-- The last write that touched the journal metadata. -/
def metaUpdatedAt (l : Layout) : Option IsoTime :=
  (l.journal.getLast?.map JournalEntry.updatedAt).or (l.checkpoint.map updatedAt)

def storage (digest : Digest) (l : Layout) : Storage
  | .journalMeta => l.metaUpdatedAt.map fun updatedAt => .journalMeta
      ⟨l.journal.length + 1, l.journal.length, l.totalBytes, updatedAt.iso⟩
  | .journalManifest seq => (l.entry seq).map fun entry =>
      .journalManifest (entry.manifest digest seq)
  | .journalChunk seq i => (l.entry seq).bind fun entry =>
      payloadAt entry.writer.chunkSizeBytes entry.update i
  | key => l.checkpoint.bind fun c => c.storage digest key

/-- The keys of a representation: the pointer and the checkpoint's own keys, the journal metadata
once anything was written, and the keys of every journal entry. -/
def keys (l : Layout) : List StorageKey :=
  (match l.checkpoint with
    | none => []
    | some c => .checkpointPointer :: c.keys) ++
  (if l.checkpoint.isNone ∧ l.journal = [] then [] else [.journalMeta]) ++
  (l.journal.zipIdx 1).flatMap fun entry => entry.1.keys entry.2

def append (self : ChunkedDocStore) (now : IsoTime) (update : Bytes) (l : Layout) : Layout :=
  if update.length = 0 then l else { l with journal := l.journal ++ [⟨self, update, now⟩] }

/-- The checkpoint a rewrite makes: versions count the rewrites. -/
def nextCheckpoint (self : ChunkedDocStore) (now : IsoTime) (update stateVector : Bytes)
    (l : Layout) : Checkpoint where
  version := (l.checkpoint.map version).getD 0 + 1
  writer := self
  update
  stateVector
  updatedAt := now
  version_pos := Nat.succ_pos _

def rewrite (self : ChunkedDocStore) (now : IsoTime) (update stateVector : Bytes) (l : Layout) :
    Layout :=
  ⟨some (l.nextCheckpoint self now update stateVector), []⟩

/-- The abstract store a layout stands for. -/
def docStore (l : Layout) : DocStore Bytes Bytes where
  checkpoint := l.checkpoint.map fun c => (c.update, c.stateVector)
  journal := l.journal.map JournalEntry.update

variable {digest : Digest} {self : ChunkedDocStore} {now : IsoTime} {update stateVector : Bytes}
  {l : Layout} {k : StorageKey}

theorem docStore_append :
    (l.append self now update).docStore = l.docStore.appendUpdate List.length update := by
  unfold append DocStore.appendUpdate
  split <;> simp [docStore]

theorem docStore_rewrite : (l.rewrite self now update stateVector).docStore =
    DocStore.rewriteCheckpoint update stateVector := rfl

theorem storage_empty : empty.storage digest = Storage.empty := by
  funext k
  cases k with
  | journalManifest seq | journalChunk seq i => cases seq <;> rfl
  | _ => rfl

/-- The stored metadata counts the entries; absent metadata counts none. -/
theorem readJournalMeta_storage (digest : Digest) (now : IsoTime) (l : Layout) :
    ∃ updatedAt, readJournalMeta now (l.storage digest) =
    .ok ⟨l.journal.length + 1, l.journal.length, l.totalBytes, updatedAt⟩ := by
  unfold readJournalMeta
  cases h : l.metaUpdatedAt with
  | none =>
    have hjour : l.journal = [] := by
      simp only [metaUpdatedAt, Option.or_eq_none_iff, Option.map_eq_none_iff,
        getLast?_eq_none_iff] at h
      exact h.1
    exact ⟨now.iso, by simp [storage, h, emptyJournalMeta, hjour, totalBytes]⟩
  | some updatedAt => exact ⟨updatedAt.iso, by simp [storage, h, isJournalMeta, updatedAt.ne_empty]⟩

theorem entry_length_succ : l.entry (l.journal.length + 1) = none := by
  simp [entry]

theorem entry_append (h : ¬ update.length = 0) (seq : ℕ) : (l.append self now update).entry seq =
    if seq = l.journal.length + 1 then some ⟨self, update, now⟩ else l.entry seq := by
  cases seq with
  | zero => simp [entry]
  | succ i =>
    rcases Nat.lt_trichotomy i l.journal.length with hi | hi | hi
    · simp [append, h, entry, getElem?_append_left hi, hi.ne]
    · simp [append, h, entry, hi]
    · simp [append, h, entry, hi.le, hi.ne']
      omega

/-- The writes of an append to a layout's storage make the storage of the longer layout. -/
theorem put_journalEntry (digest : Digest) (self : ChunkedDocStore) (now : IsoTime) (l : Layout)
    {update : Bytes} (h : ¬ update.length = 0) :
    ((l.storage digest).put (chunkEntries update self.chunkSizeBytes
        (.journalChunk (l.journal.length + 1))
        (List.range (pieceCount self.chunkSizeBytes update.length)))).put
      [(.journalManifest (l.journal.length + 1), .journalManifest
          (JournalEntry.manifest digest ⟨self, update, now⟩ (l.journal.length + 1))),
        (.journalMeta, .journalMeta ⟨l.journal.length + 1 + 1, l.journal.length + 1,
          l.totalBytes + update.length, now.iso⟩)] =
      (l.append self now update).storage digest := by
  funext k
  rw [put_cons, put_cons, put_nil, Function.update_apply, Function.update_apply, chunkEntries]
  cases k with
  | journalMeta => simp [storage, metaUpdatedAt, append, h, totalBytes]
  | journalManifest seq =>
    rw [put_range_of_ne _ (by simp)]
    by_cases hseq : seq = l.journal.length + 1 <;> simp [storage, entry_append h, hseq]
  | journalChunk seq i =>
    by_cases hseq : seq = l.journal.length + 1
    · subst hseq
      rw [put_range_apply (journalChunk_injective _)]
      simp [storage, entry_append h, entry_length_succ, payloadAt]
    rw [put_range_of_ne _ (by simp [Ne.symm hseq])]
    simp [storage, entry_append h, hseq]
  | _ =>
    rw [put_range_of_ne _ (by simp)]
    simp [storage, append, h]

/-- Appending to the storage of a layout gives the storage of the longer layout. -/
theorem appendUpdate_storage : self.appendUpdate digest now update (l.storage digest) =
    .ok ((l.append self now update).docStore.journalStats List.length,
      (l.append self now update).storage digest) := by
  obtain ⟨updatedAt, hm⟩ := readJournalMeta_storage digest now l
  obtain ⟨updatedAt', hm'⟩ := readJournalMeta_storage digest now (l.append self now update)
  have hstats : journalStatsFromMeta ⟨(l.append self now update).journal.length + 1,
      (l.append self now update).journal.length, (l.append self now update).totalBytes,
      updatedAt'⟩ = (l.append self now update).docStore.journalStats List.length := by
    simp [journalStatsFromMeta, docStore, DocStore.journalStats, totalBytes, Function.comp_def]
  rw [← hstats]
  by_cases h : update.length = 0
  · have happ : l.append self now update = l := by simp [append, h]
    rw [happ] at hm' ⊢
    simp [ChunkedDocStore.appendUpdate, h, hm', bind, Except.bind, pure, Except.pure]
  obtain ⟨hput, hc⟩ := putChunkedPayloadBatched_spec (l.storage digest) update
    (.journalChunk (l.journal.length + 1)) self.chunkSizeBytes_pos self.maxKeysPerOperation_pos
  have hstor := put_journalEntry digest self now l h
  simp only [ChunkedDocStore.appendUpdate, hm, bind, Except.bind, h, if_false]
  rw [putEntriesBatched_eq self.maxKeysPerOperation_pos, hput, hc]
  simp only [JournalEntry.manifest] at hstor
  rw [hstor, hm']
  rfl

/-- The journal entries with their numbers. -/
def numbered (l : Layout) : List (JournalEntry × ℕ) := l.journal.zipIdx 1

variable {p : JournalEntry × ℕ}

theorem mem_numbered : p ∈ l.numbered ↔ l.entry p.2 = some p.1 := by
  obtain ⟨entry, seq⟩ := p
  rw [numbered, mem_zipIdx_iff_le_and_getElem?_sub]
  cases seq with
  | zero | succ i => simp [Layout.entry]

theorem updates_numbered :
    (l.numbered.map fun p => p.1.update) = l.journal.map JournalEntry.update := by
  rw [← zipIdx_map_fst 1 l.journal, map_map]
  rfl

theorem expectedJournalSeqs_numbered (updatedAt : String) : expectedJournalSeqs
    ⟨l.journal.length + 1, l.journal.length, l.totalBytes, updatedAt⟩ =
      .ok (l.numbered.map Prod.snd) := by
  rw [expectedJournalSeqs, if_neg (lt_irrefl _), numbered, zipIdx_map_snd, List.range'_eq_map_range]
  congr 2
  funext i
  exact congrArg (· + i) (Nat.add_sub_cancel_left ..)

theorem isJournalEntryManifest_manifest (h : p ∈ l.numbered) :
    isJournalEntryManifest (some (.journalManifest (p.1.manifest digest p.2))) =
      some (p.1.manifest digest p.2) := by
  have hseq : 1 ≤ p.2 := (mem_zipIdx_iff_le_and_getElem?_sub.mp h).1
  simp [isJournalEntryManifest, JournalEntry.manifest, hseq, p.1.writer.chunkSizeBytes_pos,
    digest.isSha256Hex_sha256Hex, p.1.updatedAt.ne_empty]

theorem storage_journalManifest (h : p ∈ l.numbered) :
    l.storage digest (.journalManifest p.2) = some (.journalManifest (p.1.manifest digest p.2)) := by
  simp [storage, mem_numbered.mp h]

theorem nodup_manifestKeys : ((l.numbered.map Prod.snd).map journalManifest).Nodup := by
  rw [numbered, zipIdx_map_snd]
  exact (nodup_range' ..).map fun i j hij => by simpa using hij

theorem size_manifests : (getManyBatched (l.storage digest)
    ((l.numbered.map Prod.snd).map journalManifest) self.maxKeysPerOperation).size =
      ((l.numbered.map Prod.snd).map journalManifest).length := by
  refine size_getManyBatched self.maxKeysPerOperation_pos nodup_manifestKeys fun key hkey => ?_
  rw [map_map, mem_map] at hkey
  obtain ⟨p, hp, rfl⟩ := hkey
  exact Option.isSome_of_eq_some (storage_journalManifest hp)

theorem get?_manifests (h : p ∈ l.numbered) : (getManyBatched (l.storage digest)
      ((l.numbered.map Prod.snd).map journalManifest) self.maxKeysPerOperation).get?
        (.journalManifest p.2) = some (.journalManifest (p.1.manifest digest p.2)) := by
  rw [get?_getManyBatched self.maxKeysPerOperation_pos nodup_manifestKeys]
  · exact storage_journalManifest h
  · exact mem_map_of_mem (mem_map_of_mem h)

/-- A rewrite finds the keys of every journal entry. -/
theorem journalCleanupKeys_storage (updatedAt : String) :
    self.journalCleanupKeys (l.storage digest)
      ⟨l.journal.length + 1, l.journal.length, l.totalBytes, updatedAt⟩ =
        .ok (l.numbered.flatMap fun p => p.1.keys p.2) := by
  unfold journalCleanupKeys
  split
  · rw [expectedJournalSeqs_numbered]
    have hk : (l.numbered.map Prod.snd).mapM (journalEntryKeys
        (getManyBatched (l.storage digest) ((l.numbered.map Prod.snd).map .journalManifest)
          self.maxKeysPerOperation)) = .ok (l.numbered.map fun p => p.1.keys p.2) := by
      rw [mapM_map]
      refine mapM_eq_ok fun p hp => ?_
      rw [Function.comp_apply, journalEntryKeys, get?_manifests hp,
        isJournalEntryManifest_manifest hp]
      simp [JournalEntry.manifest, JournalEntry.keys]
    simp only [bind, Except.bind, size_manifests, ne_eq, not_true_eq_false, if_false, pure,
      Except.pure, hk]
    rfl
  · next h =>
    have hjour : l.journal = [] := eq_nil_of_length_eq_zero (by simpa using h)
    simp [numbered, hjour, pure, Except.pure]

/-- A load returns the journaled updates in order. -/
theorem loadJournal_storage (digest : Digest) (self : ChunkedDocStore) (now : IsoTime)
    (l : Layout) : ∃ updatedAt, self.loadJournal digest now (l.storage digest) =
    .ok (⟨l.journal.length + 1, l.journal.length, l.totalBytes, updatedAt⟩,
      l.journal.map JournalEntry.update) := by
  obtain ⟨updatedAt, hm⟩ := readJournalMeta_storage digest now l
  refine ⟨updatedAt, ?_⟩
  unfold loadJournal
  simp only [hm, bind, Except.bind]
  split
  · next h =>
    have hjour : l.journal = [] := eq_nil_of_length_eq_zero h
    simp [hjour, totalBytes, pure, Except.pure]
  have he : (l.numbered.map Prod.snd).mapM (self.loadEntry digest (l.storage digest)
      (getManyBatched (l.storage digest) ((l.numbered.map Prod.snd).map .journalManifest)
        self.maxKeysPerOperation)) = .ok (l.numbered.map fun p => p.1.update) := by
    rw [mapM_map]
    refine mapM_eq_ok fun p hp => ?_
    rw [Function.comp_apply, loadEntry, get?_manifests hp, isJournalEntryManifest_manifest hp]
    refine (if_neg (not_not.mpr rfl)).trans (readChunkedPayload_ok p.1.writer.chunkSizeBytes_pos
      self.maxKeysPerOperation_pos (journalChunk_injective p.2) fun i hi => ?_)
    simp [storage, mem_numbered.mp hp, payloadAt, hi]
  rw [updates_numbered] at he
  rw [expectedJournalSeqs_numbered]
  simp only [size_manifests, ne_eq, not_true_eq_false, if_false, pure, Except.pure, he]
  simp [totalBytes, Function.comp_def]

/-- The two validators accept what a rewrite writes. -/
theorem isChunkedManifest_manifest (digest : Digest) (c : Checkpoint) :
    isChunkedManifest (some (.manifest (c.manifest digest))) = some (c.manifest digest) := by
  simp [isChunkedManifest, manifest, c.version_pos, c.writer.chunkSizeBytes_pos,
    digest.isSha256Hex_sha256Hex, c.updatedAt.ne_empty]

theorem isStateVectorDescriptor_stateVectorDescriptor (digest : Digest) (c : Checkpoint) :
    isStateVectorDescriptor (some (.stateVectorDescriptor (c.stateVectorDescriptor digest))) =
      some (c.stateVectorDescriptor digest) := by
  simp [isStateVectorDescriptor, stateVectorDescriptor, c.version_pos,
    c.writer.chunkSizeBytes_pos, digest.isSha256Hex_sha256Hex, c.updatedAt.ne_empty]

theorem existingPointer_storage : existingPointer (l.storage digest) =
    .ok (l.checkpoint.map fun c => ⟨c.version⟩) := by
  unfold existingPointer
  cases h : l.checkpoint with
  | none => simp [storage, h]
  | some c => simp [storage, h, Checkpoint.storage, isManifestPointer, c.version_pos]

variable {c : Checkpoint}

/-- A rewrite finds every key of the old checkpoint. -/
theorem checkpointCleanupKeys_storage (digest : Digest) (h : l.checkpoint = some c) :
    ∃ keys, checkpointCleanupKeys (l.storage digest) (some ⟨c.version⟩) =
      .ok keys ∧ ∀ k, k ∈ keys ↔ k = .checkpointStateVector c.version ∨ k ∈ c.keys := by
  have hman : isChunkedManifest (l.storage digest (.checkpointManifest c.version)) =
      some (c.manifest digest) := by
    simpa [storage, h, Checkpoint.storage] using isChunkedManifest_manifest digest c
  simp only [checkpointCleanupKeys, hman]
  cases hki : c.stateVectorStorage with
  | direct =>
    simp only [manifest, hki, Checkpoint.keys]
    refine ⟨_, rfl, fun k => ?_⟩
    simp
    exact fun hk => .inr (.inl hk)
  | chunked =>
    have hdes : isStateVectorDescriptor
        (l.storage digest (.checkpointStateVectorDescriptor c.version)) =
          some (c.stateVectorDescriptor digest) := by
      simpa [storage, h, Checkpoint.storage, hki] using
        isStateVectorDescriptor_stateVectorDescriptor digest c
    simp only [manifest, hki, Checkpoint.keys, hdes]
    refine ⟨_, rfl, fun k => ?_⟩
    simp [stateVectorDescriptor]
    exact or_left_comm

/-- A load returns the last checkpoint and its state vector. -/
theorem loadCheckpoint_storage : self.loadCheckpoint digest (l.storage digest) =
    .ok (l.checkpoint.map fun c => (c.update, c.stateVector)) := by
  unfold loadCheckpoint
  cases h : l.checkpoint with
  | none => simp [storage, h, pure, Except.pure]
  | some c =>
    have hpoin : l.storage digest .checkpointPointer = some (.pointer ⟨c.version⟩) := by
      simp [storage, h, Checkpoint.storage]
    have hman : isChunkedManifest (l.storage digest (.checkpointManifest c.version)) =
        some (c.manifest digest) := by
      simpa [storage, h, Checkpoint.storage] using isChunkedManifest_manifest digest c
    have hu : readChunkedPayload digest (l.storage digest) (c.manifest digest).descriptor
        (.checkpointChunk c.version) "checkpoint" self.maxKeysPerOperation = .ok c.update := by
      refine readChunkedPayload_ok c.writer.chunkSizeBytes_pos self.maxKeysPerOperation_pos
        (checkpointChunk_injective _) fun i hi => ?_
      simp [storage, h, Checkpoint.storage, payloadAt, hi]
    have hver : (c.manifest digest).version = c.version := rfl
    simp only [hpoin, isManifestPointer, c.version_pos, if_true, hman, hver, hu,
      bind, Except.bind, ne_eq, not_true_eq_false, if_false]
    cases hk : c.stateVectorStorage with
    | direct =>
      have hdir : l.storage digest (.checkpointStateVector c.version) =
          some (.bytes c.stateVector) := by
        simp [storage, h, Checkpoint.storage, hk]
      simp [manifest, hk, hdir, normalizeBytes, pure, Except.pure]
    | chunked =>
      have hdes : isStateVectorDescriptor
          (l.storage digest (.checkpointStateVectorDescriptor c.version)) =
            some (c.stateVectorDescriptor digest) := by
        simpa [storage, h, Checkpoint.storage, hk] using
          isStateVectorDescriptor_stateVectorDescriptor digest c
      have hs : readChunkedPayload digest (l.storage digest)
          (c.stateVectorDescriptor digest).descriptor (.checkpointStateVectorChunk c.version)
          "checkpoint state vector" self.maxKeysPerOperation = .ok c.stateVector := by
        refine readChunkedPayload_ok c.writer.chunkSizeBytes_pos self.maxKeysPerOperation_pos
          (checkpointStateVectorChunk_injective _) fun i hi => ?_
        simp [storage, h, Checkpoint.storage, hk, payloadAt, hi]
      have hlen : (c.stateVectorDescriptor digest).byteLength = c.stateVector.length := rfl
      have hsha : (c.stateVectorDescriptor digest).sha256 = digest.sha256Hex c.stateVector := rfl
      simp [manifest, hk, hdes, hs, hlen, hsha, pure, Except.pure]

/-- A load answers with the abstract store the layout stands for. -/
theorem loadState_storage : self.loadState digest now (l.storage digest) = .ok
    { checkpoint := l.docStore.checkpoint.map Prod.fst
      checkpointStateVector := l.docStore.checkpoint.map Prod.snd
      journalUpdates := l.docStore.journal
      journalStats := l.docStore.journalStats List.length } := by
  obtain ⟨updatedAt, hjour⟩ := loadJournal_storage digest self now l
  simp [loadState, loadCheckpoint_storage, hjour, bind, Except.bind, pure,
    Except.pure, docStore, journalStatsFromMeta, DocStore.journalStats, totalBytes,
    Function.comp_def]

/-- The keys of a checkpoint are those its storage defines, the pointer apart. -/
theorem mem_checkpoint_keys (digest : Digest) :
    k ∈ c.keys ↔ k ≠ .checkpointPointer ∧ (c.storage digest k).isSome := by
  cases hk : c.stateVectorStorage <;> cases k <;>
    simp [Checkpoint.keys, Checkpoint.storage, hk] <;>
    rw [isSome_ite_payloadAt, and_comm, eq_comm]

theorem eq_pointer_or_mem_keys (h : (c.storage digest k).isSome) :
    k = .checkpointPointer ∨ k ∈ c.keys := by
  by_cases hpoin : k = .checkpointPointer
  · exact .inl hpoin
  · exact .inr ((mem_checkpoint_keys digest).mpr ⟨hpoin, h⟩)

theorem mem_entry_keys (h : p ∈ l.numbered) (hk : k ∈ p.1.keys p.2) :
    (l.storage digest k).isSome := by
  have he := mem_numbered.mp h
  simp only [JournalEntry.keys, mem_cons, mem_map, mem_range] at hk
  rcases hk with rfl | ⟨i, hi, rfl⟩
  · simp [storage, he]
  · simp [storage, he, payloadAt, hi]

theorem exists_mem_entry_keys {seq : ℕ} (hk : k = .journalManifest seq ∨ ∃ i, k = .journalChunk seq i)
    (h : (l.storage digest k).isSome) : ∃ p ∈ l.numbered, k ∈ p.1.keys p.2 := by
  cases he : l.entry seq with
  | none => rcases hk with rfl | ⟨i, rfl⟩ <;> simp [storage, he] at h
  | some entry =>
    refine ⟨(entry, seq), mem_numbered.mpr he, ?_⟩
    rcases hk with rfl | ⟨i, rfl⟩
    · simp [JournalEntry.keys]
    simp only [storage, he, Option.bind_some, payloadAt] at h
    simpa [JournalEntry.keys] using Option.isSome_ite.mp h

/-- The storage of a layout holds exactly the keys of its parts. -/
theorem isSome_storage : (l.storage digest k).isSome ↔
    (∃ c, l.checkpoint = some c ∧ (k = .checkpointPointer ∨ k ∈ c.keys)) ∨
      (k = .journalMeta ∧ l.metaUpdatedAt.isSome) ∨ ∃ p ∈ l.numbered, k ∈ p.1.keys p.2 := by
  constructor
  · intro h
    cases k with
    | journalMeta => exact .inr (.inl ⟨rfl, by simpa [storage] using h⟩)
    | journalManifest seq => exact .inr (.inr (exists_mem_entry_keys (.inl rfl) h))
    | journalChunk seq i => exact .inr (.inr (exists_mem_entry_keys (.inr ⟨i, rfl⟩) h))
    | _ =>
      cases hc : l.checkpoint with
      | none => simp [storage, hc] at h
      | some c =>
        rw [storage, hc, Option.bind_some] at h
        · exact .inl ⟨c, rfl, eq_pointer_or_mem_keys h⟩
        all_goals simp
  rintro (⟨c, hc, hk⟩ | ⟨rfl, h⟩ | ⟨p, hp, hk⟩)
  · have hk : (c.storage digest k).isSome := by
      rcases hk with rfl | hk
      · rfl
      · exact ((mem_checkpoint_keys digest).mp hk).2
    cases k <;> simp_all [storage, Checkpoint.storage]
  · simpa [storage] using h
  · exact mem_entry_keys hp hk

theorem writeCheckpoint_eq_put (c : Checkpoint) (txn : Storage) :
    c.writer.writeCheckpoint digest c.updatedAt c.version c.update c.stateVector txn =
      c.put digest txn := by
  have hu := putChunkedPayloadBatched_spec txn c.update (.checkpointChunk c.version)
    c.writer.chunkSizeBytes_pos c.writer.maxKeysPerOperation_pos
  have hsv := fun storage => putChunkedPayloadBatched_spec storage c.stateVector
    (.checkpointStateVectorChunk c.version) c.writer.chunkSizeBytes_pos
    c.writer.maxKeysPerOperation_pos
  unfold writeCheckpoint Checkpoint.put stateVectorStorage
  simp only [putEntriesBatched_eq c.writer.maxKeysPerOperation_pos, hu, manifest,
    stateVectorStorage, stateVectorDescriptor]
  split
  · simp [hsv]
  · simp [copyChunk]

theorem nextVersion_storage (self : ChunkedDocStore) (now : IsoTime)
    (update stateVector : Bytes) :
    nextVersion (l.checkpoint.map fun c => ⟨c.version⟩) =
      (l.nextCheckpoint self now update stateVector).version := by
  cases h : l.checkpoint <;> simp [nextVersion, nextCheckpoint, h]

/-- A rewrite puts the next checkpoint and deletes the keys of all it replaces. -/
theorem rewriteCheckpoint_eq (digest : Digest) (self : ChunkedDocStore) (now : IsoTime)
    (update stateVector : Bytes) (l : Layout) : ∃ keys,
    self.rewriteCheckpoint digest now update stateVector (l.storage digest) =
      .ok (((l.nextCheckpoint self now update stateVector).put digest (l.storage digest)).delete
        keys) ∧
    ∀ k, k ∈ keys ↔
      (∃ c, l.checkpoint = some c ∧ (k = .checkpointStateVector c.version ∨ k ∈ c.keys)) ∨
        ∃ p ∈ l.numbered, k ∈ p.1.keys p.2 := by
  obtain ⟨updatedAt, hm⟩ := readJournalMeta_storage digest now l
  obtain ⟨cleanup, hcleanup, hmem⟩ : ∃ keys, checkpointCleanupKeys
      (l.storage digest) (l.checkpoint.map fun c => ⟨c.version⟩) = .ok keys ∧ ∀ k, k ∈ keys ↔
        ∃ c, l.checkpoint = some c ∧ (k = .checkpointStateVector c.version ∨ k ∈ c.keys) := by
    cases h : l.checkpoint with
    | none => exact ⟨[], rfl, by simp⟩
    | some c =>
      obtain ⟨keys, hk, hmem⟩ := checkpointCleanupKeys_storage digest h
      exact ⟨keys, hk, by simpa using hmem⟩
  refine ⟨(cleanup ++ l.numbered.flatMap fun p => p.1.keys p.2).dedup, ?_, fun k => ?_⟩
  · unfold ChunkedDocStore.rewriteCheckpoint
    simp only [existingPointer_storage, hcleanup, hm, journalCleanupKeys_storage, bind,
      Except.bind, pure, Except.pure]
    rw [deleteKeysBatched_eq self.maxKeysPerOperation_pos,
      nextVersion_storage self now update stateVector, ← writeCheckpoint_eq_put]
    rfl
  · rw [mem_dedup, mem_append, hmem, mem_flatMap]

theorem storage_eq_none_of_version_ne {c' : Checkpoint} (h : c'.version ≠ c.version)
    (hk : k = .checkpointStateVector c.version ∨ k ∈ c.keys) : c'.storage digest k = none := by
  rcases hk with rfl | hk
  · simp [Checkpoint.storage, h.symm]
  have hs := (mem_checkpoint_keys digest).mp hk
  cases k <;> simp_all [Checkpoint.storage] <;> grind

theorem storage_rewrite : (l.rewrite self now update stateVector).storage digest k =
    if k = .journalMeta then some (.journalMeta (emptyJournalMeta now))
    else (l.nextCheckpoint self now update stateVector).storage digest k := by
  have he : ∀ seq, (l.rewrite self now update stateVector).entry seq = none := fun seq => by
    cases seq <;> simp [entry, rewrite]
  cases k with
  | journalManifest seq | journalChunk seq i => simp [storage, he, Checkpoint.storage]
  | _ => rfl

/-- Rewriting the storage of a layout leaves the storage of the next checkpoint alone. -/
theorem rewriteCheckpoint_storage :
    self.rewriteCheckpoint digest now update stateVector (l.storage digest) =
      .ok ((l.rewrite self now update stateVector).storage digest) := by
  obtain ⟨keys, heq, hmem⟩ := rewriteCheckpoint_eq digest self now update stateVector l
  rw [heq]
  congr 1
  funext k
  rw [delete_apply, put_apply, storage_rewrite]
  have hm : (l.nextCheckpoint self now update stateVector).storage digest .journalMeta = none := rfl
  split
  · next hk =>
    rcases (hmem k).mp hk with ⟨c, hc, hk⟩ | ⟨p, -, hk⟩
    · have hver : (l.nextCheckpoint self now update stateVector).version ≠ c.version := by
        simp [nextCheckpoint, hc]
      have hne : k ≠ .journalMeta := by
        rintro rfl
        simp [mem_checkpoint_keys digest, Checkpoint.storage] at hk
      rw [if_neg hne, storage_eq_none_of_version_ne hver hk]
    · simp only [JournalEntry.keys, mem_cons, mem_map] at hk
      rcases hk with rfl | ⟨i, -, rfl⟩ <;> rfl
  · next hk =>
    by_cases hjour : k = .journalMeta
    · rw [if_pos hjour, if_pos hjour, hjour, hm, Option.none_or]
      rfl
    rw [if_neg hjour, if_neg hjour]
    by_cases hpoin : k = .checkpointPointer
    · rw [hpoin]
      rfl
    have hn : l.storage digest k = none := by
      rw [← Option.not_isSome_iff_eq_none, isSome_storage]
      rintro (⟨c, hc, h | h⟩ | ⟨h, -⟩ | h)
      · exact hpoin h
      · exact hk ((hmem k).mpr (.inl ⟨c, hc, .inr h⟩))
      · exact hjour h
      · exact hk ((hmem k).mpr (.inr h))
    rw [hn, Option.or_none]

/-- The keys of a layout are those its storage defines. -/
theorem mem_keys : k ∈ l.keys ↔ (l.storage digest k).isSome := by
  have hm : l.metaUpdatedAt.isSome ↔ ¬ (l.checkpoint.isNone ∧ l.journal = []) := by
    cases hc : l.checkpoint <;> cases hj : l.journal <;> simp [metaUpdatedAt, hc, hj]
  rw [isSome_storage, hm, keys, mem_append, mem_append, mem_flatMap, or_assoc]
  refine or_congr ?_ (or_congr ?_ Iff.rfl)
  · cases h : l.checkpoint <;> simp
  · split <;> simp_all

end Layout

/-- A serialized call, with the instance that serves it and the time it runs at. -/
inductive StoreCall
  | appendUpdate (self : ChunkedDocStore) (now : IsoTime) (update : Bytes)
  | rewriteCheckpoint (self : ChunkedDocStore) (now : IsoTime) (update stateVector : Bytes)

namespace StoreCall

def run (digest : Digest) (storage : Storage) : StoreCall → Except String Storage
  | appendUpdate self now update => (self.appendUpdate digest now update storage).map Prod.snd
  | rewriteCheckpoint self now update stateVector =>
    self.rewriteCheckpoint digest now update stateVector storage

def runDocStore (store : DocStore Bytes Bytes) : StoreCall → DocStore Bytes Bytes
  | appendUpdate _ _ update => store.appendUpdate List.length update
  | rewriteCheckpoint _ _ update stateVector => DocStore.rewriteCheckpoint update stateVector

def runLayout (l : Layout) : StoreCall → Layout
  | appendUpdate self now update => l.append self now update
  | rewriteCheckpoint self now update stateVector => l.rewrite self now update stateVector

variable {digest : Digest} {l : Layout}

theorem run_storage (call : StoreCall) :
    call.run digest (l.storage digest) = .ok ((call.runLayout l).storage digest) := by
  cases call with
  | appendUpdate self now update => simp [run, Layout.appendUpdate_storage, runLayout, Except.map]
  | rewriteCheckpoint self now update stateVector => exact Layout.rewriteCheckpoint_storage

theorem docStore_runLayout (call : StoreCall) :
    (call.runLayout l).docStore = call.runDocStore l.docStore := by
  cases call with
  | appendUpdate self now update => exact Layout.docStore_append
  | rewriteCheckpoint self now update stateVector => exact Layout.docStore_rewrite

theorem foldlM_run (digest : Digest) (l : Layout) (calls : List StoreCall) :
    calls.foldlM (run digest) (l.storage digest) =
      .ok ((calls.foldl runLayout l).storage digest) := by
  induction calls generalizing l with
  | nil => rfl
  | cons call calls ih =>
    rw [foldlM_cons, run_storage]
    exact ih _

theorem docStore_foldl (calls : List StoreCall) :
    (calls.foldl runLayout l).docStore = calls.foldl runDocStore l.docStore := by
  induction calls generalizing l with
  | nil => rfl
  | cons call calls ih => rw [foldl_cons, ih, docStore_runLayout, foldl_cons]

end StoreCall

/-- Whatever calls run on empty storage, each from an instance of its own, every instance loads
exactly what the abstract store holds, and storage has exactly the keys of that representation. -/
theorem ChunkedDocStore.refines_docStore (digest : Digest) (calls : List StoreCall) :
    ∃ storage, calls.foldlM (StoreCall.run digest) Storage.empty = .ok storage ∧
      (∀ (self : ChunkedDocStore) (now : IsoTime), self.loadState digest now storage = .ok
        { checkpoint := (calls.foldl StoreCall.runDocStore .empty).checkpoint.map Prod.fst
          checkpointStateVector :=
            (calls.foldl StoreCall.runDocStore .empty).checkpoint.map Prod.snd
          journalUpdates := (calls.foldl StoreCall.runDocStore .empty).journal
          journalStats :=
            (calls.foldl StoreCall.runDocStore .empty).journalStats List.length }) ∧
      ∀ k, (storage k).isSome ↔ k ∈ (calls.foldl StoreCall.runLayout .empty).keys := by
  have hrun := StoreCall.foldlM_run digest .empty calls
  have hs := StoreCall.docStore_foldl (l := .empty) calls
  rw [Layout.storage_empty] at hrun
  refine ⟨_, hrun, fun self now => ?_, fun k => Layout.mem_keys.symm⟩
  rw [Layout.loadState_storage, hs]
  rfl

end Kaos.Server
