import Kaos.Server.Snapshot

/-! A created snapshot is found by its id where the day and the id come from one day. -/
namespace Kaos.Server

open Kaos.Lib List Function

section Id

variable {now : ℕ} {vaultId day snapshotId : JsString}

theorem isLowerBase36_digit : ∀ d < 36, isLowerBase36 (digit d) = true := by decide

theorem isHexChar_digit : ∀ d < 16, JsString.isHexChar (digit d) = true := by decide

theorem snapshotIdGroup_append {group suffix : JsString}
    (hgroup : group.all isLowerBase36 = true) (hne : group ≠ []) (hlen : 8 ≤ suffix.length)
    (hsuf : suffix.all JsString.isHexChar = true) :
    snapshotIdGroup (group ++ 45 :: suffix) = some group := by
  have htake : (group ++ 45 :: suffix).takeWhile isLowerBase36 = group := by
    rw [takeWhile_append_of_pos (by simpa using hgroup),
      takeWhile_cons_of_neg (by decide), append_nil]
  rw [snapshotIdGroup, htake, drop_left]
  exact if_pos ⟨rfl, hne, hlen, hsuf⟩

/-- The day that an id encodes is that of the time it was made at; the epoch itself encodes none. -/
theorem dayFromSnapshotId_generated (hmax : now ≤ MAX_DATE_MS) (bytes : Fin 4 → UInt8) :
    dayFromSnapshotId (generateSnapshotId now bytes) =
      if 0 < now then some (today now) else none := by
  have hid : generateSnapshotId now bytes = toBase36 now ++ 45 :: (ofFn bytes).flatMap hexByte := by
    rw [generateSnapshotId, generateRecoveryManifestId, append_assoc]
    rfl
  have hgroup : (toBase36 now).all isLowerBase36 = true := by
    rw [all_eq_true]
    intro c hc
    obtain ⟨d, hd, rfl⟩ := exists_digit_natText (by omega) hc
    exact isLowerBase36_digit d hd
  have hsuf : ((ofFn bytes).flatMap hexByte).all JsString.isHexChar = true := by
    rw [all_eq_true]
    intro c hc
    obtain ⟨byte, -, hc⟩ := mem_flatMap.mp hc
    have hlt := byte.toNat_lt
    rcases mem_pair.mp hc with rfl | rfl <;> exact isHexChar_digit _ (by omega)
  rw [dayFromSnapshotId, hid,
    snapshotIdGroup_append hgroup natText_ne_nil (hexSuffix bytes).1.ge hsuf, Option.bind_some,
    parseBase36_toBase36, isoTime]
  by_cases hpos : 0 < now
  · rw [if_pos hpos, if_pos ⟨hpos, hmax⟩]
    rfl
  · rw [if_neg hpos, if_neg fun h => hpos h.1]
    rfl

theorem length_today (now : ℕ) : (today now).length = 10 := by
  have hpad : ∀ width n, width ≤ (padded width n).length := by
    intro width n
    simp only [padded, length_append, length_replicate]
    omega
  have hdash : (js "-").length = 1 := rfl
  rw [today, length_take, Nat.min_eq_left]
  simp only [toISOString]
  generalize civilFromDays (now / MS_PER_DAY) = date
  obtain ⟨year, month, day⟩ := date
  have hm := hpad 2 month
  have hday := hpad 2 day
  have hfour := hpad 4 year
  have hsix := hpad 6 year
  split_ifs
  · simp only [length_append, hdash]
    omega
  simp only [length_append, hdash]
  omega

/-- Up to the year 9999 the day text is year, month and day. -/
theorem today_eq (hmax : now ≤ MAX_DATE_MS) (hyear : (civilFromDays (now / MS_PER_DAY)).1 ≤ 9999) :
    today now = padded 4 (civilFromDays (now / MS_PER_DAY)).1 ++ js "-" ++
      padded 2 (civilFromDays (now / MS_PER_DAY)).2.1 ++ js "-" ++
      padded 2 (civilFromDays (now / MS_PER_DAY)).2.2 := by
  obtain ⟨-, hm, hday⟩ := civilFromDays_bounds (Nat.div_le_div_right hmax)
  rw [today, toISOString]
  generalize civilFromDays (now / MS_PER_DAY) = date at hyear hm hday ⊢
  obtain ⟨year, month, day⟩ := date
  dsimp only at hyear hm hday ⊢
  have hdash : (js "-").length = 1 := rfl
  rw [if_pos hyear]
  simp only [append_assoc]
  simp only [← append_assoc _ _ (js "T" ++ _)]
  refine take_left' ?_
  rw [length_append, length_append, length_append, length_append, hdash,
    length_padded hm, length_padded hday, length_padded (by omega : year < 10 ^ 4)]

end Id

section Keys

variable (vaultId snapshotId : JsString)

theorem length_payloadKey (now : ℕ) : (payloadKey vaultId (today now) snapshotId).length =
    (snapshotsKey vaultId).length + snapshotId.length + 23 := by
  have hslash : (js "/").length = 1 := rfl
  have hn : (js "/crdt.bin.gz").length = 12 := rfl
  simp only [payloadKey, snapshotPrefix, length_append, length_today, hslash, hn]
  omega

theorem length_indexKey (now : ℕ) : (indexKey vaultId (today now) snapshotId).length =
    (snapshotsKey vaultId).length + snapshotId.length + 22 := by
  have hslash : (js "/").length = 1 := rfl
  have hn : (js "/index.json").length = 11 := rfl
  simp only [indexKey, snapshotPrefix, length_append, length_today, hslash, hn]
  omega

theorem length_latestKey :
    (snapshotLatestIndexKey vaultId).length = (snapshotsKey vaultId).length + 17 := by
  rw [snapshotLatestIndexKey, length_append]
  rfl

theorem indexKey_ne_payloadKey (s t : ℕ) :
    indexKey vaultId (today s) snapshotId ≠ payloadKey vaultId (today t) snapshotId := by
  intro h
  have hlen := congrArg List.length h
  rw [length_indexKey, length_payloadKey] at hlen
  omega

theorem indexKey_ne_latestKey (now : ℕ) :
    indexKey vaultId (today now) snapshotId ≠ snapshotLatestIndexKey vaultId := by
  intro h
  have hlen := congrArg List.length h
  rw [length_indexKey, length_latestKey] at hlen
  omega

theorem payloadKey_ne_latestKey (now : ℕ) :
    payloadKey vaultId (today now) snapshotId ≠ snapshotLatestIndexKey vaultId := by
  intro h
  have hlen := congrArg List.length h
  rw [length_payloadKey, length_latestKey] at hlen
  omega

/-- The index keys of one id on two days differ. -/
theorem indexKey_inj {s t : ℕ}
    (h : indexKey vaultId (today s) snapshotId = indexKey vaultId (today t) snapshotId) :
    today s = today t := by
  have hprefix := append_cancel_right h
  have hday := append_cancel_right (append_cancel_right hprefix)
  exact append_cancel_left hday

end Keys

section Created

variable {P : SnapshotPlatform} {doc : SnapshotDoc} {vaultId : JsString}
  {options : CreateSnapshotOptions} {clock : SnapshotClock} {bytes : Fin 4 → UInt8}
  {bucket : SnapshotBucket}

/-- The bucket after `createSnapshot`. -/
def bucketAfter (platform : SnapshotPlatform) (doc : SnapshotDoc) (vaultId : JsString)
    (options : CreateSnapshotOptions) (clock : SnapshotClock) (bytes : Fin 4 → UInt8)
    (bucket : SnapshotBucket) : SnapshotBucket :=
  (createSnapshot platform doc vaultId options clock bytes bucket).1

@[simp] theorem snapshotIndexOf_day :
    (snapshotIndexOf P doc vaultId options clock bytes).day = today clock.day := by
  simp only [snapshotIndexOf]

@[simp] theorem snapshotIndexOf_snapshotId :
    (snapshotIndexOf P doc vaultId options clock bytes).snapshotId =
      generateSnapshotId clock.id bytes := by
  simp only [snapshotIndexOf]

@[simp] theorem snapshotIndexOf_crdtSizeBytes :
    (snapshotIndexOf P doc vaultId options clock bytes).crdtSizeBytes =
      (P.gzipSync (rawUpdateOf doc options)).length := by
  simp only [snapshotIndexOf]

theorem bucketAfter_indexKey : bucketAfter P doc vaultId options clock bytes bucket
      (indexKey vaultId (today clock.day) (generateSnapshotId clock.id bytes)) =
    some (.json (snapshotIndexOf P doc vaultId options clock bytes)) := by
  rw [bucketAfter, createSnapshot]
  simp only [snapshotIndexOf_day, snapshotIndexOf_snapshotId]
  rw [update_of_ne (indexKey_ne_latestKey vaultId _ clock.day), update_self]

theorem bucketAfter_payloadKey : bucketAfter P doc vaultId options clock bytes bucket
      (payloadKey vaultId (today clock.day) (generateSnapshotId clock.id bytes)) =
    some (.bytes (P.gzipSync (rawUpdateOf doc options))) := by
  rw [bucketAfter, createSnapshot]
  simp only [snapshotIndexOf_day, snapshotIndexOf_snapshotId]
  rw [update_of_ne (payloadKey_ne_latestKey vaultId _ clock.day),
    update_of_ne (indexKey_ne_payloadKey vaultId _ clock.day clock.day).symm,
    update_self]

/-- Nothing is written for the id under another day. -/
theorem bucketAfter_otherDay {now : ℕ} (hday : today clock.day ≠ today now) :
    bucketAfter P doc vaultId options clock bytes bucket
        (indexKey vaultId (today now) (generateSnapshotId clock.id bytes)) =
      bucket (indexKey vaultId (today now) (generateSnapshotId clock.id bytes)) := by
  rw [bucketAfter, createSnapshot]
  simp only [snapshotIndexOf_day, snapshotIndexOf_snapshotId]
  rw [update_of_ne (indexKey_ne_latestKey vaultId _ now),
    update_of_ne fun h => hday (indexKey_inj vaultId _ h).symm,
    update_of_ne (indexKey_ne_payloadKey vaultId _ now clock.day)]

theorem hashesDiffer_self (hash : Option JsString) : hashesDiffer hash hash = false := by
  rcases hash with _ | (_ | ⟨c, s⟩) <;> simp [hashesDiffer]

theorem verifySnapshotExists_of_stored {index : SnapshotIndex} {data : List UInt8}
    (hpay : bucket (payloadKey vaultId index.day index.snapshotId) = some (.bytes data))
    (hix : bucket (indexKey vaultId index.day index.snapshotId) = some (.json index))
    (hs : index.crdtSizeBytes = data.length) :
    verifySnapshotExists vaultId index bucket = true := by
  simp [verifySnapshotExists, hpay, hix, SnapshotObject.parse, SnapshotObject.size,
    hashesDiffer_self, hs]

/-- The returned index names a payload that is there and fits it. -/
theorem verifySnapshotExists_created :
    verifySnapshotExists vaultId (snapshotIndexOf P doc vaultId options clock bytes)
      (bucketAfter P doc vaultId options clock bytes bucket) = true := by
  apply verifySnapshotExists_of_stored
  · rw [snapshotIndexOf_day, snapshotIndexOf_snapshotId]
    exact bucketAfter_payloadKey
  · rw [snapshotIndexOf_day, snapshotIndexOf_snapshotId]
    exact bucketAfter_indexKey
  · rw [snapshotIndexOf_crdtSizeBytes]

/-- A snapshot is fetched with its payload and index, and is found to be there. -/
def Fetched (platform : SnapshotPlatform) (doc : SnapshotDoc) (vaultId : JsString)
    (options : CreateSnapshotOptions) (clock : SnapshotClock) (bytes : Fin 4 → UInt8)
    (bucket : SnapshotBucket) : Prop :=
  let (bucket', index) := createSnapshot platform doc vaultId options clock bytes bucket
  getSnapshotPayload vaultId index.snapshotId bucket' =
      .ok (some (index, platform.gzipSync (rawUpdateOf doc options))) ∧
    verifySnapshotExists vaultId index bucket' = true

theorem fetched_iff : Fetched P doc vaultId options clock bytes bucket ↔
    getSnapshotPayload vaultId (generateSnapshotId clock.id bytes)
        (bucketAfter P doc vaultId options clock bytes bucket) =
      .ok (some (snapshotIndexOf P doc vaultId options clock bytes,
        P.gzipSync (rawUpdateOf doc options))) :=
  and_iff_left verifySnapshotExists_created

/-- The id reads the clock within the range of `Date`. -/
theorem SnapshotClock.id_inRange (clock : SnapshotClock) : clock.id ≤ MAX_DATE_MS :=
  clock.id_le_created.trans clock.inRange

theorem fetched_of_sameDay (hpos : 0 < clock.id) (hday : today clock.day = today clock.id) :
    Fetched P doc vaultId options clock bytes bucket := by
  rw [fetched_iff, getSnapshotPayload, dayFromSnapshotId_generated clock.id_inRange, if_pos hpos]
  dsimp only
  rw [← hday, bucketAfter_indexKey, bucketAfter_payloadKey]
  rfl

/-- From an empty bucket nothing is found under the day of the id. -/
theorem not_fetched_of_otherDay (hday : today clock.day ≠ today clock.id) :
    ¬ Fetched P doc vaultId options clock bytes fun _ => none := by
  intro h
  rw [fetched_iff, getSnapshotPayload, dayFromSnapshotId_generated clock.id_inRange] at h
  by_cases hpos : 0 < clock.id
  · rw [if_pos hpos] at h
    dsimp only at h
    rw [bucketAfter_otherDay hday] at h
    cases h
  · rw [if_neg hpos] at h
    cases h

theorem not_fetched_of_zero (hzero : clock.id = 0) :
    ¬ Fetched P doc vaultId options clock bytes bucket := by
  intro h
  rw [fetched_iff, getSnapshotPayload, dayFromSnapshotId_generated clock.id_inRange, hzero] at h
  cases h

/-- Whatever is stored already, a created snapshot is found by its id if and only if the day of
its key and the time in its id were read on one day. -/
theorem created_snapshot_fetched_iff (platform : SnapshotPlatform) (doc : SnapshotDoc)
    (vaultId : JsString) (options : CreateSnapshotOptions) (clock : SnapshotClock)
    (bytes : Fin 4 → UInt8) :
    (∀ bucket, Fetched platform doc vaultId options clock bytes bucket) ↔
      0 < clock.id ∧ today clock.day = today clock.id := by
  constructor
  · intro h
    constructor
    · by_contra hzero
      exact not_fetched_of_zero (Nat.eq_zero_of_not_pos hzero) (h fun _ => none)
    by_contra hday
    exact not_fetched_of_otherDay hday (h fun _ => none)
  · rintro ⟨hpos, hday⟩ bucket
    exact fetched_of_sameDay hpos hday

end Created

section Midnight

/-- Digests and compression stand in as they are; the keys do not depend on them. -/
def plainPlatform : SnapshotPlatform where
  gzipSync := id
  sha256Hex := fun data => data.map fun byte => byte.toUInt16
  sha256HexOfText := id

def emptySnapshotDoc : SnapshotDoc where
  encodeStateAsUpdate := [0, 0]
  pathToId := []
  pathToBlob := []
  schemaVersion := none

/-- The day is read in the last millisecond of a day, the id in the first of the next. -/
def midnightClock : SnapshotClock where
  day := 1700006399999
  id := 1700006400000
  created := 1700006400000
  day_le_id := by decide
  id_le_created := le_rfl
  inRange := by decide

/-- A snapshot made at midnight is not found by its id. -/
theorem midnight_snapshot_lost :
    ¬ ∀ (clock : SnapshotClock) (bytes : Fin 4 → UInt8),
      Fetched plainPlatform emptySnapshotDoc (js "vault") {} clock bytes fun _ => none := by
  intro h
  refine not_fetched_of_otherDay ?_ (h midnightClock fun _ => 0)
  decide

end Midnight

end Kaos.Server
