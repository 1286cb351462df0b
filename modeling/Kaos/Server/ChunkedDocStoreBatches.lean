import Kaos.Server.ChunkedDocStore

/-! What the batched and chunked accesses of the store do to its storage. -/
namespace Kaos.Server

open Kaos.Lib List Storage

theorem colon_notMem_toDigits (n : ℕ) : ':' ∉ Nat.toDigits 10 n := fun h =>
  absurd (Nat.isDigit_of_mem_toDigits (by decide) (by decide) h) (by decide)

theorem toDigits_injective : Function.Injective (Nat.toDigits 10) := fun m n h => by
  rw [← Nat.ofDigitChars_ten_toDigits (n := m), h, Nat.ofDigitChars_ten_toDigits]

theorem toList_append_repr (s : String) (n : ℕ) :
    (s ++ Nat.repr n).toList = s.toList ++ Nat.toDigits 10 n := by
  rw [String.toList_append, Nat.toList_repr]

theorem toList_append_repr_repr (s : String) (m n : ℕ) :
    (s ++ Nat.repr m ++ ":" ++ Nat.repr n).toList =
      s.toList ++ Nat.toDigits 10 m ++ ":".toList ++ Nat.toDigits 10 n := by
  rw [toList_append_repr, String.toList_append, toList_append_repr]

theorem toString_literal (s : String) : toString s = s := rfl

namespace StorageKey

/-- The colon-separated parts of a rendered key. -/
def parts : StorageKey → List (List Char)
  | .checkpointPointer => ["document".toList, "checkpoint".toList, "current".toList]
  | .checkpointManifest version =>
    ["document".toList, "checkpoint".toList, "manifest".toList, Nat.toDigits 10 version]
  | .checkpointChunk version index => ["document".toList, "checkpoint".toList, "chunk".toList,
      Nat.toDigits 10 version, Nat.toDigits 10 index]
  | .checkpointStateVector version =>
    ["document".toList, "checkpoint".toList, "state-vector".toList, Nat.toDigits 10 version]
  | .checkpointStateVectorDescriptor version => ["document".toList, "checkpoint".toList,
      "state-vector-descriptor".toList, Nat.toDigits 10 version]
  | .checkpointStateVectorChunk version index => ["document".toList, "checkpoint".toList,
      "state-vector-chunk".toList, Nat.toDigits 10 version, Nat.toDigits 10 index]
  | .journalMeta => ["document".toList, "journal".toList, "meta".toList]
  | .journalManifest seq =>
    ["document".toList, "journal".toList, "manifest".toList, Nat.toDigits 10 seq]
  | .journalChunk seq index => ["document".toList, "journal".toList, "chunk".toList,
      Nat.toDigits 10 seq, Nat.toDigits 10 index]

theorem toList_render (key : StorageKey) : key.render.toList = [':'].intercalate key.parts := by
  cases key with
  | checkpointPointer | journalMeta => rfl
  | checkpointManifest n | checkpointStateVector n | checkpointStateVectorDescriptor n
  | journalManifest n =>
    refine (toList_append_repr _ n).trans ?_
    simp [parts, List.intercalate, toString_literal]
  | checkpointChunk m n | checkpointStateVectorChunk m n | journalChunk m n =>
    refine (toList_append_repr_repr _ m n).trans ?_
    simp [parts, List.intercalate, toString_literal]

theorem splitOn_render (key : StorageKey) : key.render.toList.splitOn ':' = key.parts := by
  rw [toList_render, splitOn_intercalate]
  · cases key <;> simp [parts, colon_notMem_toDigits]
  · cases key <;> simp [parts]

/-- Different keys are stored under different strings. -/
theorem render_injective : Function.Injective render := by
  intro k k' h
  have hparts : k.parts = k'.parts := by rw [← splitOn_render, h, splitOn_render]
  cases k <;> cases k' <;> simp_all [parts, toDigits_injective.eq_iff]

end StorageKey

/-- A traversal whose steps all succeed collects their results. -/
theorem mapM_eq_ok {α β ε : Type*} {f : α → Except ε β} {g : α → β} {xs : List α}
    (h : ∀ x ∈ xs, f x = .ok (g x)) : xs.mapM f = .ok (xs.map g) := by
  induction xs with
  | nil => rfl
  | cons x xs ih =>
    rw [mapM_cons, h x mem_cons_self, ih fun y hy => h y (mem_cons_of_mem x hy)]
    rfl

namespace Storage

variable {storage : Storage} {record record' : List (StorageKey × StorageValue)}
  {keys : List StorageKey} {k : StorageKey}

theorem put_append : (storage.put record).put record' = storage.put (record ++ record') := by
  simp [put]

theorem put_apply_of_not_mem (h : k ∉ record.map Prod.fst) : storage.put record k = storage k := by
  induction record generalizing storage with
  | nil => rfl
  | cons entry record ih =>
    rw [map_cons, mem_cons, not_or] at h
    exact (ih h.2).trans (Function.update_of_ne h.1 _ _)

@[simp] theorem put_nil : storage.put [] = storage := rfl

@[simp] theorem put_cons (key : StorageKey) (value : StorageValue) :
    storage.put ((key, value) :: record) =
      put (Function.update storage key (some value)) record := rfl

/-- A family of distinct keys is written member by member. -/
theorem put_range_apply {f : ℕ → StorageKey} (hf : Function.Injective f) (g : ℕ → StorageValue)
    (n i : ℕ) : storage.put ((List.range n).map fun i => (f i, g i)) (f i) =
      if i < n then some (g i) else storage (f i) := by
  induction n with
  | zero => simp
  | succ n ih =>
    rw [range_succ, map_append, ← put_append, map_cons, map_nil, put_cons,
      put_nil, Function.update_apply, ih]
    by_cases h : i = n
    · simp [h]
    have hne : f i ≠ f n := fun heq => h (hf heq)
    rw [if_neg hne]
    exact if_congr (by omega) rfl rfl

theorem put_range_of_ne {f : ℕ → StorageKey} (g : ℕ → StorageValue) {n : ℕ}
    (h : ∀ i, f i ≠ k) : storage.put ((List.range n).map fun i => (f i, g i)) k = storage k := by
  apply put_apply_of_not_mem
  simp [h]

theorem delete_apply : storage.delete keys k = if k ∈ keys then none else storage k := by
  induction keys generalizing storage with
  | nil => simp [delete]
  | cons key keys ih =>
    change delete (Function.update storage key none) keys k = _
    rw [ih, Function.update_apply]
    by_cases hk : k = key <;> by_cases hm : k ∈ keys <;> simp [hk, hm]

theorem foldl_put (batches : List (List (StorageKey × StorageValue))) :
    batches.foldl put storage = storage.put batches.flatten := by
  induction batches generalizing storage with
  | nil => rfl
  | cons batch batches ih => rw [foldl_cons, ih, flatten_cons, put_append]

theorem foldl_delete (batches : List (List StorageKey)) :
    batches.foldl delete storage = storage.delete batches.flatten := by
  induction batches generalizing storage with
  | nil => rfl
  | cons batch batches ih =>
    rw [foldl_cons, ih, flatten_cons]
    simp [delete]

theorem getMany_append (keys keys' : List StorageKey) :
    storage.getMany (keys ++ keys') = storage.getMany keys ++ storage.getMany keys' := by
  simp [getMany]

theorem mem_getMany {entry : StorageKey × StorageValue} :
    entry ∈ storage.getMany keys ↔ entry.1 ∈ keys ∧ storage entry.1 = some entry.2 := by
  obtain ⟨k, v⟩ := entry
  simp only [getMany, mem_filterMap, Option.map_eq_some_iff, Prod.mk.injEq]
  constructor
  · rintro ⟨key, hkey, value, hvalue, rfl, rfl⟩
    exact ⟨hkey, hvalue⟩
  rintro ⟨hk, hv⟩
  exact ⟨k, hk, v, hv, rfl, rfl⟩

theorem map_fst_getMany (storage : Storage) (keys : List StorageKey) :
    (storage.getMany keys).map Prod.fst =
    keys.filter fun key => (storage key).isSome := by
  induction keys with
  | nil => rfl
  | cons key keys ih => cases h : storage key <;> simp_all [getMany]

end Storage

section Batches

variable {storage : Storage} {maxKeys : ℕ} {keys : List StorageKey}

theorem putEntriesBatched_eq (hmax : 0 < maxKeys) (entries : List (StorageKey × StorageValue)) :
    putEntriesBatched storage entries maxKeys = storage.put entries := by
  rw [putEntriesBatched, foldl_put, chunkArray, flatten_pieces hmax]

theorem deleteKeysBatched_eq (hmax : 0 < maxKeys) :
    deleteKeysBatched storage keys maxKeys = storage.delete keys := by
  unfold deleteKeysBatched
  split
  · next h => rw [eq_nil_of_length_eq_zero h]; rfl
  · rw [foldl_delete, chunkArray, flatten_pieces hmax]

theorem foldl_setAll_getMany (batches : List (List StorageKey))
    {merged : OrderedMap StorageKey StorageValue} (hnd : batches.flatten.Nodup)
    (hnew : ∀ key ∈ batches.flatten, key ∉ merged.keys) :
    (batches.foldl (fun merged batch => merged.setAll (storage.getMany batch)) merged).entries =
      merged.entries ++ storage.getMany batches.flatten := by
  induction batches generalizing merged with
  | nil => simp [Storage.getMany]
  | cons batch batches ih =>
    obtain ⟨hb, hbs, hdisj⟩ := nodup_append.mp hnd
    have hset : (merged.setAll (storage.getMany batch)).entries =
        merged.entries ++ storage.getMany batch := by
      refine OrderedMap.entries_setAll (fun entry he => ?_) ?_
      · exact hnew _ (mem_append_left _ (mem_getMany.mp he).1)
      rw [map_fst_getMany]
      exact hb.filter _
    rw [foldl_cons, ih hbs, hset, flatten_cons, getMany_append, append_assoc]
    intro key hkey hmem
    rw [OrderedMap.keys, hset, map_append, mem_append] at hmem
    rcases hmem with hmem | hmem
    · exact hnew key (mem_append_right _ hkey) hmem
    rw [map_fst_getMany] at hmem
    exact hdisj key (mem_of_mem_filter hmem) key hkey rfl

/-- Reading distinct keys in batches finds what each of them holds. -/
theorem entries_getManyBatched (hmax : 0 < maxKeys) (hnd : keys.Nodup) :
    (getManyBatched storage keys maxKeys).entries = storage.getMany keys := by
  have hflat : (chunkArray keys maxKeys).flatten = keys := flatten_pieces hmax
  rw [getManyBatched, foldl_setAll_getMany _ (by rwa [hflat]), hflat]
  · rfl
  · exact fun key _ hmem => by simp [OrderedMap.keys, OrderedMap.empty] at hmem

theorem get?_getManyBatched (hmax : 0 < maxKeys) (hnd : keys.Nodup) {k : StorageKey}
    (hk : k ∈ keys) : (getManyBatched storage keys maxKeys).get? k = storage k := by
  ext v
  rw [OrderedMap.get?_eq_some, entries_getManyBatched hmax hnd, mem_getMany]
  simp [hk]

theorem size_getManyBatched (hmax : 0 < maxKeys) (hnd : keys.Nodup)
    (hall : ∀ key ∈ keys, (storage key).isSome) :
    (getManyBatched storage keys maxKeys).size = keys.length := by
  have hlen := congrArg List.length (map_fst_getMany storage keys)
  rw [filter_eq_self.mpr (by simpa using hall), length_map] at hlen
  rw [OrderedMap.size, entries_getManyBatched hmax hnd, hlen]

end Batches

section Payload

variable {bytes : Bytes} {chunkSize maxKeys : ℕ} {key : ℕ → StorageKey} {storage : Storage}

/-- The entries of a payload cut into chunks. -/
def chunkEntries (bytes : Bytes) (chunkSize : ℕ) (key : ℕ → StorageKey) (indices : List ℕ) :
    List (StorageKey × StorageValue) :=
  indices.map fun i => (key i, .bytes (piece chunkSize bytes i))

theorem copyChunk_eq_piece (i : ℕ) :
    copyChunk bytes (i * chunkSize) (min (i * chunkSize + chunkSize) bytes.length) =
      piece chunkSize bytes i := by
  unfold copyChunk piece
  rcases Nat.le_total (i * chunkSize + chunkSize) bytes.length with h | h
  · rw [Nat.min_eq_left h, Nat.add_sub_cancel_left]
  have hlen : (bytes.drop (i * chunkSize)).length = bytes.length - i * chunkSize := length_drop
  rw [Nat.min_eq_right h, take_of_length_le hlen.le, take_of_length_le (by omega)]

/-- One record takes chunks from the front of the list, and at least one of them. -/
theorem fillRecord_spec (bytes : Bytes) (chunkSize : ℕ) (key : ℕ → StorageKey) (maxKeys : ℕ)
    (indices : List ℕ) (r : ChunkRecord) (stats : ChunkWriteStats) :
    ∃ taken rest r' stats',
      fillRecord bytes chunkSize key maxKeys indices r stats = (r', stats', rest) ∧
      indices = taken ++ rest ∧
      r'.record = r.record ++ chunkEntries bytes chunkSize key taken ∧
      stats'.chunkCount = stats.chunkCount ∧
      (0 < maxKeys → r.recordKeys = 0 → indices ≠ [] → rest.length < indices.length) := by
  induction indices generalizing r stats with
  | nil => exact ⟨[], [], r, stats, rfl, rfl, by simp [chunkEntries], rfl, by simp⟩
  | cons i indices ih =>
    rw [fillRecord]
    split
    · obtain ⟨taken, rest, r', stats', heq, hs, hr, hc, -⟩ := ih
        { record := r.record ++ [(key i, .bytes (copyChunk bytes (i * chunkSize)
            (min (i * chunkSize + chunkSize) bytes.length)))]
          recordBytes := r.recordBytes +
            (min (i * chunkSize + chunkSize) bytes.length - i * chunkSize)
          recordKeys := r.recordKeys + 1 }
        { stats with maxChunkBytes := max stats.maxChunkBytes (copyChunk bytes (i * chunkSize)
            (min (i * chunkSize + chunkSize) bytes.length)).length }
      refine ⟨i :: taken, rest, r', stats', heq, by rw [hs, cons_append], ?_, hc, ?_⟩
      · rw [hr, copyChunk_eq_piece]
        simp [chunkEntries]
      intro _ _ _
      rw [hs, length_cons, length_append]
      omega
    · next hfull =>
      refine ⟨[], i :: indices, r, stats, rfl, rfl, by simp [chunkEntries], rfl, ?_⟩
      intro hmax hk
      exact absurd ⟨by omega, by omega⟩ hfull

theorem putRecords_spec (bytes : Bytes) (chunkSize : ℕ) (key : ℕ → StorageKey)
    (hmax : 0 < maxKeys) (fuel : ℕ) (indices : List ℕ)
    (hfuel : indices.length ≤ fuel) (storage : Storage) (stats : ChunkWriteStats) :
    ∃ stats', putRecords bytes chunkSize key maxKeys fuel indices (storage, stats) =
        (storage.put (chunkEntries bytes chunkSize key indices), stats') ∧
      stats'.chunkCount = stats.chunkCount := by
  induction fuel generalizing indices storage stats with
  | zero =>
    rw [eq_nil_of_length_eq_zero (Nat.le_zero.mp hfuel)]
    exact ⟨stats, rfl, rfl⟩
  | succ fuel ih =>
    cases hind : indices with
    | nil => exact ⟨stats, rfl, rfl⟩
    | cons i tail =>
      obtain ⟨taken, rest, r', stats', heq, hs, hr, hc, hless⟩ :=
        fillRecord_spec bytes chunkSize key maxKeys (i :: tail) {} stats
      have hrs : rest.length ≤ fuel := by
        have := hless hmax rfl (cons_ne_nil _ _)
        rw [hind] at hfuel
        omega
      obtain ⟨stats'', hput, hc'⟩ := ih rest hrs (storage.put r'.record)
        { stats' with
          maxPutBytes := max stats'.maxPutBytes r'.recordBytes
          putCount := stats'.putCount + 1 }
      refine ⟨stats'', ?_, hc'.trans hc⟩
      rw [putRecords]
      · simp only [heq]
        rw [hput, hr, put_append, hs]
        simp [chunkEntries]
      · simp

/-- A payload is stored as its pieces, whatever records they travel in. -/
theorem putChunkedPayloadBatched_spec (storage : Storage) (bytes : Bytes)
    (key : ℕ → StorageKey) (hs : 0 < chunkSize) (hmax : 0 < maxKeys) :
    (putChunkedPayloadBatched storage bytes chunkSize key maxKeys).1 =
        storage.put (chunkEntries bytes chunkSize key
          (List.range (pieceCount chunkSize bytes.length))) ∧
      (putChunkedPayloadBatched storage bytes chunkSize key maxKeys).2.chunkCount =
        pieceCount chunkSize bytes.length := by
  have hc : (if bytes.length = 0 then 0 else pieceCount chunkSize bytes.length) =
      pieceCount chunkSize bytes.length := by
    split
    · next h => rw [h, pieceCount_zero hs]
    · rfl
  unfold putChunkedPayloadBatched
  rw [hc]
  obtain ⟨stats, heq, hstats⟩ := putRecords_spec bytes chunkSize key hmax
    (pieceCount chunkSize bytes.length) (List.range (pieceCount chunkSize bytes.length))
    (length_range).le storage { chunkCount := pieceCount chunkSize bytes.length }
  simp only [heq, hstats, and_self]

/-- The bytes of a payload, its chunks being stored. -/
def ChunksStored (storage : Storage) (bytes : Bytes) (chunkSize : ℕ) (key : ℕ → StorageKey) :
    Prop :=
  ∀ i < pieceCount chunkSize bytes.length, storage (key i) = some (.bytes (piece chunkSize bytes i))

def payloadDescriptor (digest : Digest) (chunkSize : ℕ) (bytes : Bytes) : ChunkDescriptor :=
  ⟨pieceCount chunkSize bytes.length, chunkSize, bytes.length, digest.sha256Hex bytes⟩

theorem readChunks_spec (digest : Digest) {chunks : OrderedMap StorageKey StorageValue}
    (label : String) (hs : 0 < chunkSize) {n : ℕ}
    (hchunks : ∀ i < pieceCount chunkSize bytes.length,
      chunks.get? (key i) = some (.bytes (piece chunkSize bytes i)))
    (hn : n ≤ pieceCount chunkSize bytes.length) :
    readChunks chunks (payloadDescriptor digest chunkSize bytes) key label
      (List.range' (pieceCount chunkSize bytes.length - n) n)
      (bytes.take ((pieceCount chunkSize bytes.length - n) * chunkSize)) = .ok bytes := by
  induction n with
  | zero =>
    rw [Nat.sub_zero, ← flatten_take_pieces]
    exact congrArg Except.ok (flatten_pieces hs)
  | succ n ih =>
    obtain ⟨i, hi⟩ : ∃ i, i = pieceCount chunkSize bytes.length - (n + 1) := ⟨_, rfl⟩
    have hlt : i < pieceCount chunkSize bytes.length := by omega
    have hnx : pieceCount chunkSize bytes.length - n = i + 1 := by omega
    have hr : bytes.take (i * chunkSize) ++ piece chunkSize bytes i =
        bytes.take ((i + 1) * chunkSize) := by
      rw [Nat.add_mul, Nat.one_mul, take_add, piece]
    rw [← hi, List.range'_succ, readChunks, hchunks i hlt]
    simp only [normalizeBytes]
    rw [if_neg, if_neg, if_neg, hr, ← hnx]
    · exact ih (by omega)
    · rw [← length_append, hr, length_take]
      exact Nat.not_lt.mpr (Nat.min_le_right _ _)
    · rintro ⟨-, hlen⟩
      exact absurd length_piece_le (Nat.not_le.mpr hlen)
    rintro ⟨hl, hlen⟩
    exact hlen (length_piece_of_succ_lt hs hl)

/-- Stored chunks read back as the payload they were cut from. -/
theorem readChunkedPayload_ok {digest : Digest} {label : String} (hs : 0 < chunkSize)
    (hmax : 0 < maxKeys) (hkey : Function.Injective key)
    (hst : ChunksStored storage bytes chunkSize key) :
    readChunkedPayload digest storage (payloadDescriptor digest chunkSize bytes) key label maxKeys =
      .ok bytes := by
  have hnd : ((List.range (pieceCount chunkSize bytes.length)).map key).Nodup :=
    nodup_range.map hkey
  have hsizes : (getManyBatched storage ((List.range (pieceCount chunkSize bytes.length)).map key)
      maxKeys).size = pieceCount chunkSize bytes.length := by
    rw [size_getManyBatched hmax hnd, length_map, length_range]
    intro k hk
    obtain ⟨i, hi, rfl⟩ := mem_map.mp hk
    rw [hst i (mem_range.mp hi), Option.isSome_some]
  have hget : ∀ i < pieceCount chunkSize bytes.length, (getManyBatched storage
      ((List.range (pieceCount chunkSize bytes.length)).map key) maxKeys).get? (key i) =
        some (.bytes (piece chunkSize bytes i)) := fun i hi => by
    rw [get?_getManyBatched hmax hnd (mem_map_of_mem (mem_range.mpr hi))]
    exact hst i hi
  have hr := readChunks_spec digest label hs hget le_rfl
  rw [Nat.sub_self, Nat.zero_mul, take_zero, ← range_eq_range'] at hr
  unfold readChunkedPayload
  simp only [payloadDescriptor] at hr ⊢
  simp [hsizes, hr, bind, Except.bind, pure, Except.pure]

end Payload

end Kaos.Server
