import Kaos.Server.RecoverySnapshot

/-! The recovery objects of a vault in R2, and one run of retention over them. -/
namespace Kaos.Server

open Kaos.Lib List

/-- Objects by manifest id and by content hash; an object that does not parse is `none`. -/
structure RecoveryBucket where
  manifests : OrderedMap JsString (Option FileHistoryManifest)
  manifestIndexes : OrderedMap JsString (Option FileHistoryManifestIndex)
  contents : OrderedMap JsString JsString
  latestState : Option (Option RecoveryLatestState)
  latestIndex : Option (Option FileHistoryManifestIndex)

/-- How a read goes: it returns what is stored, throws, or returns other bytes, parsed here. -/
inductive ReadOutcome (α : Type)
  | stored
  | throws
  | garbage (parsed : Option α)

def ReadOutcome.parsed {α : Type} (outcome : ReadOutcome α) (object : Option (Option α)) :
    Option α :=
  match outcome with
  | .stored => object.join
  | .throws => none
  | .garbage parsed => parsed

/-- The reads of one run. -/
structure RetentionReads where
  index : JsString → ReadOutcome FileHistoryManifestIndex
  manifest : JsString → ReadOutcome FileHistoryManifest
  latestState : ReadOutcome RecoveryLatestState

/-- `[0-9a-f]{64}` -/
def isContentHash (hash : JsString) : Bool := hash.length = 64 ∧ hash.all JsString.isHexChar

/-- The content hashes that a list of changes names. -/
def entryHashes (entries : List FileHistoryEntry) : List JsString :=
  entries.flatMap fun entry =>
    (entry.contentHash.toList ++ entry.previousContentHash.toList).filter (· ≠ [])

/-- The content hashes that a manifest references. -/
def FileHistoryManifestIndex.references (manifest : FileHistoryManifestIndex) : List JsString :=
  manifest.contentHashes ++ entryHashes manifest.changedEntries

/-- The content hashes that a latest state references. -/
def RecoveryLatestState.references (state : RecoveryLatestState) : List JsString :=
  (state.entries.filterMap (·.contentHash)).filter (· ≠ [])

/-- `bucket.delete` of a manifest and its index. -/
def RecoveryBucket.deleteManifest (bucket : RecoveryBucket) (manifestId : JsString) :
    RecoveryBucket :=
  { bucket with
    manifests := bucket.manifests.delete manifestId
    manifestIndexes := bucket.manifestIndexes.delete manifestId }

def RecoveryBucket.deleteContent (bucket : RecoveryBucket) (hash : JsString) : RecoveryBucket :=
  { bucket with contents := bucket.contents.delete hash }

section Retention

variable (platform : RecoveryPlatform) (vaultId : JsString)

/-- `readRecoveryManifestIndex`, or else the index made up from the id. -/
def manifestRecord (manifestId : JsString) (parsed : Option FileHistoryManifestIndex) :
    Option FileHistoryManifestIndex :=
  (parsed.filter (isRecoveryManifestIndexOf vaultId manifestId)).or
    (synthesizeRecoveryManifestIndex platform vaultId manifestId)

/-- A kept record without a hash gives way to the manifest itself, where that can be read. -/
def referenceRecord (parsed : Option FileHistoryManifest) (record : FileHistoryManifestIndex) :
    FileHistoryManifestIndex :=
  if record.manifestHash ≠ [] then record
  else if (createdAtFromRecoveryManifestId platform record.manifestId).isNone then record
  else ((parsed.bind (decodeRecoveryManifest platform)).map
    (·.toFileHistoryManifestIndex)).getD record

/-- The hashes that the kept records and the latest state name. -/
def referencedHashes (keep referenced : List FileHistoryManifestIndex)
    (latest : Option RecoveryLatestState) : List JsString :=
  referenced.flatMap (·.contentHashes) ++
    (referenced.filter fun manifest =>
      (keep.map (·.manifestId)).contains manifest.manifestId).flatMap
        (fun manifest => entryHashes manifest.changedEntries) ++
    (latest.map (·.references)).getD []

variable (reads : RetentionReads) (bucket : RecoveryBucket)

def listAllRecoveryManifestIndexes : List FileHistoryManifestIndex :=
  sortByCreatedAt platform
    ((listRecoveryManifestIds platform bucket.manifests.keys).filterMap fun manifestId =>
      manifestRecord platform vaultId manifestId
        ((reads.index manifestId).parsed (bucket.manifestIndexes.get? manifestId)))

variable (policy : RecoveryRetentionPolicy) (now : ℕ)

/-- What one run keeps and prunes. -/
def retentionScan : RetentionScan :=
  selectRecoveryRetention platform policy now
    (listAllRecoveryManifestIndexes platform vaultId reads bucket)

/-- What one run knows to be referenced. -/
def retentionReferences : List JsString :=
  let keep := (retentionScan platform vaultId reads bucket policy now).keep
  referencedHashes keep
    (keep.map fun record => referenceRecord platform
      ((reads.manifest record.manifestId).parsed (bucket.manifests.get? record.manifestId)) record)
    (reads.latestState.parsed bucket.latestState)

/-- One run in which deletes and lists work. -/
def applyRecoveryRetention : RecoveryBucket :=
  let pruned := (retentionScan platform vaultId reads bucket policy now).prune.foldl
    (fun bucket record => bucket.deleteManifest record.manifestId) bucket
  (pruned.contents.keys.filter fun hash =>
    isContentHash hash ∧
      ¬ (retentionReferences platform vaultId reads bucket policy now).contains hash).foldl
    RecoveryBucket.deleteContent pruned

end Retention

variable {platform : RecoveryPlatform} {vaultId : JsString} {reads : RetentionReads}
  {bucket : RecoveryBucket} {policy : RecoveryRetentionPolicy} {now : ℕ} {id hash : JsString}

/-- The manifest that an id is stored with, if it is one. -/
def storedManifest (platform : RecoveryPlatform) (bucket : RecoveryBucket) (id : JsString) :
    Option FileHistoryManifest :=
  (bucket.manifests.get? id).join.bind (decodeRecoveryManifest platform)

/-- Retention is not to delete what is pinned or was made on purpose. -/
def FileHistoryManifest.Protected (manifest : FileHistoryManifest) : Prop :=
  manifest.pinned = true ∨ manifest.reason ≠ .automatic

/-- No protected manifest is gone, and no content that a manifest left behind or the latest state
references. -/
structure FailsSafe (platform : RecoveryPlatform) (before after : RecoveryBucket) : Prop where
  manifests : ∀ id manifest, storedManifest platform before id = some manifest →
    manifest.Protected → storedManifest platform after id = some manifest
  contents : ∀ hash ∈ before.contents.keys,
    (∃ id manifest, storedManifest platform after id = some manifest ∧ hash ∈ manifest.references) ∨
    (∃ state, before.latestState = some (some state) ∧ hash ∈ state.references) →
    hash ∈ after.contents.keys

/-- A later creation time comes first, at one time the larger id. -/
def Newer (platform : RecoveryPlatform) (other record : FileHistoryManifestIndex) : Prop :=
  platform.localeLe record.createdAt other.createdAt = true ∧
    (other.createdAt = record.createdAt → JsString.le other.manifestId record.manifestId = false)

/-- One run of retention. -/
structure RetentionPass where
  platform : RecoveryPlatform
  vaultId : JsString
  reads : RetentionReads
  bucket : RecoveryBucket
  policy : RecoveryRetentionPolicy
  now : ℕ

namespace RetentionPass

variable (run : RetentionPass)

def records : List FileHistoryManifestIndex :=
  listAllRecoveryManifestIndexes run.platform run.vaultId run.reads run.bucket

def scan : RetentionScan :=
  retentionScan run.platform run.vaultId run.reads run.bucket run.policy run.now

def after : RecoveryBucket :=
  applyRecoveryRetention run.platform run.vaultId run.reads run.bucket run.policy run.now

/-- What is read for a stored manifest: its index, or one made up from the id. -/
def RecordRead (id : JsString) (record : FileHistoryManifestIndex) : Prop :=
  id ∈ run.bucket.manifests.keys ∧ (createdAtFromRecoveryManifestId run.platform id).isSome = true ∧
    manifestRecord run.platform run.vaultId id
      ((run.reads.index id).parsed (run.bucket.manifestIndexes.get? id)) = some record

/-- No newer record is read. -/
def ReadsLatest (id : JsString) : Prop := ∃ record, run.RecordRead id record ∧
  ∀ id' other, run.RecordRead id' other → ¬ Newer run.platform other record

/-- What is read for a manifest is automatic and not pinned, is not the latest, and is past every
age, or some newer record that is read stands for its day or month. -/
def ReadsOutlived (id : JsString) : Prop := ∃ record latestId,
  run.RecordRead id record ∧ run.ReadsLatest latestId ∧
    Outlived run.platform run.policy run.now (fun other => Newer run.platform other record ∧
      ∃ id', run.RecordRead id' other) (some latestId) record

/-- A manifest that is read and not outlived. -/
def ReadsKept (id : JsString) : Prop :=
  (∃ record, run.RecordRead id record) ∧ ¬ run.ReadsOutlived id

/-- What is read for a kept manifest, its index or where that has no hash the manifest, names a
content object. -/
def ReadsName (id hash : JsString) : Prop := run.ReadsKept id ∧
  ∃ record, run.RecordRead id record ∧
    let read := referenceRecord run.platform
      ((run.reads.manifest id).parsed (run.bucket.manifests.get? id)) record
    hash ∈ read.contentHashes ∨ run.ReadsKept read.manifestId ∧
      hash ∈ entryHashes read.changedEntries

/-- No protected manifest reads as outlived, and what is read for some kept manifest or for the
latest state names each object that a manifest not so read or the stored latest state references. -/
structure ReadsVouch : Prop where
  manifests : ∀ id manifest, storedManifest run.platform run.bucket id = some manifest →
    manifest.Protected → ¬ run.ReadsOutlived id
  contents : ∀ hash ∈ run.bucket.contents.keys, isContentHash hash = true →
    (∃ id manifest, storedManifest run.platform run.bucket id = some manifest ∧
      ¬ run.ReadsOutlived id ∧ hash ∈ manifest.references) ∨
    (∃ state, run.bucket.latestState = some (some state) ∧ hash ∈ state.references) →
    (∃ id, run.ReadsName id hash) ∨
      ∃ state, run.reads.latestState.parsed run.bucket.latestState = some state ∧
        hash ∈ state.references

end RetentionPass

section Order

variable {other record : FileHistoryManifestIndex} {l : List FileHistoryManifestIndex}

theorem pairwise_orderedInsert {α : Type*} {r R : α → α → Prop} [DecidableRel r] {a : α}
    {l : List α} (hl : l.Pairwise R) (hbef : ∀ b ∈ l, ¬ r a b → R b a)
    (ha : ∀ b ∈ l, r a b → R a b) (ht : ∀ b c, c ∈ l → r a b → R b c → R a c) :
    (l.orderedInsert r a).Pairwise R := by
  induction l with
  | nil => exact pairwise_singleton _ _
  | cons b l ih =>
    obtain ⟨hb, hl⟩ := pairwise_cons.mp hl
    by_cases hab : r a b
    · rw [orderedInsert_cons_of_le _ _ hab, pairwise_cons, pairwise_cons]
      refine ⟨?_, hb, hl⟩
      intro c hc
      rcases mem_cons.mp hc with rfl | hcl
      · exact ha c hc hab
      · exact ht b c hc hab (hb c hcl)
    rw [orderedInsert_of_not_le _ _ hab, pairwise_cons]
    refine ⟨?_, ih hl (fun c hc => hbef c (mem_cons_of_mem _ hc))
      (fun c hc => ha c (mem_cons_of_mem _ hc))
      fun c d hd => ht c d (mem_cons_of_mem _ hd)⟩
    intro c hc
    rcases (mem_orderedInsert r).mp hc with rfl | hc
    · exact hbef b mem_cons_self hab
    · exact hb c hc

/-- A stable sort keeps the larger ids first. -/
theorem pairwise_sortByCreatedAt (hle : platform.TotalOrder)
    (h : l.Pairwise fun a b => JsString.le a.manifestId b.manifestId = false) :
    (sortByCreatedAt platform l).Pairwise (Newer platform) := by
  induction l with
  | nil => exact Pairwise.nil
  | cons a l ih =>
    obtain ⟨ha, hl⟩ := pairwise_cons.mp h
    have hid : ∀ b ∈ sortByCreatedAt platform l, JsString.le a.manifestId b.manifestId = false :=
      fun b hb => ha b ((perm_insertionSort _ _).mem_iff.mp hb)
    refine pairwise_orderedInsert (ih hl) (fun b _ hnot => ?_) (fun b hb hle => ⟨hle, fun _ => hid b hb⟩)
      fun b c hc hab hbc => ⟨hle.trans _ _ _ hbc.1 hab, fun _ => hid c hc⟩
    refine ⟨(hle.total _ _).resolve_left hnot, fun heq => ?_⟩
    rw [heq] at hnot
    exact absurd ((hle.total _ _).elim id id) hnot

theorem Newer.asymm (hle : platform.TotalOrder) (h : Newer platform other record) :
    ¬ Newer platform record other := by
  intro h'
  have heq := hle.antisymm _ _ h'.1 h.1
  rcases JsString.le_total other.manifestId record.manifestId with hid | hid
  · cases hid.symm.trans (h.2 heq)
  · cases hid.symm.trans (h'.2 heq.symm)

theorem pairwise_listRecoveryManifestIds (keys : List JsString) (hk : keys.Nodup) :
    (listRecoveryManifestIds platform keys).Pairwise fun s t => JsString.le s t = false := by
  have htotal : Std.Total fun s t : JsString => JsString.le s t = true := ⟨JsString.le_total⟩
  have ht : IsTrans JsString fun s t => JsString.le s t = true := ⟨fun _ _ _ => JsString.le_trans⟩
  rw [listRecoveryManifestIds, pairwise_reverse]
  refine (pairwise_insertionSort _ _).imp₂ ?_ ((perm_insertionSort _ _).nodup_iff.mpr (hk.filter _))
  intro s t hst hne
  by_contra hts
  exact hne (JsString.le_antisymm hst (by simpa using hts))

end Order

theorem foldl_deleteManifest {records : List FileHistoryManifestIndex} :
    (records.foldl (fun bucket record => bucket.deleteManifest record.manifestId) bucket) =
      { bucket with
        manifests := (records.map (·.manifestId)).foldl OrderedMap.delete bucket.manifests
        manifestIndexes :=
          (records.map (·.manifestId)).foldl OrderedMap.delete bucket.manifestIndexes } := by
  induction records generalizing bucket with
  | nil => rfl
  | cons record records ih =>
    rw [foldl_cons, ih]
    rfl

theorem foldl_deleteContent {hashes : List JsString} :
    hashes.foldl RecoveryBucket.deleteContent bucket =
      { bucket with contents := hashes.foldl OrderedMap.delete bucket.contents } := by
  induction hashes generalizing bucket with
  | nil => rfl
  | cons hash hashes ih =>
    rw [foldl_cons, ih]
    rfl

namespace RetentionPass

variable {run : RetentionPass} {record other : FileHistoryManifestIndex}
  {newer older : List FileHistoryManifestIndex}

theorem mem_records : record ∈ run.records ↔ ∃ id, run.RecordRead id record := by
  rw [records, listAllRecoveryManifestIndexes, sortByCreatedAt, (perm_insertionSort _ _).mem_iff,
    mem_filterMap]
  simp only [mem_listRecoveryManifestIds, and_assoc, RecordRead]

theorem RecordRead.manifestId_eq (h : run.RecordRead id record) : record.manifestId = id := by
  rcases Option.or_eq_some_iff.mp h.2.2 with hix | ⟨-, hmade⟩
  · have hfits := (Option.filter_eq_some_iff.mp hix).2
    simp only [isRecoveryManifestIndexOf, decide_eq_true_eq] at hfits
    exact hfits.2.2.2
  · obtain ⟨createdAt, -, rfl⟩ := Option.map_eq_some_iff.mp hmade
    rfl

theorem storedManifest_after : storedManifest run.platform run.after id =
    if id ∈ run.scan.prune.map (·.manifestId) then none
    else storedManifest run.platform run.bucket id := by
  have hget : run.after.manifests.get? id =
      if id ∈ run.scan.prune.map (·.manifestId) then none else run.bucket.manifests.get? id := by
    unfold after applyRecoveryRetention
    rw [foldl_deleteContent, foldl_deleteManifest]
    rw [OrderedMap.get?_foldl_delete]
    congr
  rw [storedManifest, hget]
  split <;> rfl

section Ordered

variable (hle : run.platform.TotalOrder)
include hle

theorem pairwise_records : run.records.Pairwise (Newer run.platform) := by
  refine pairwise_sortByCreatedAt hle ?_
  rw [pairwise_filterMap]
  refine (pairwise_listRecoveryManifestIds _ run.bucket.manifests.nodup).imp_of_mem ?_
  intro s t hs ht hst a ha b hb
  rw [mem_listRecoveryManifestIds] at hs ht
  have hr : run.RecordRead s a := ⟨hs.1, hs.2, ha⟩
  have hreadt : run.RecordRead t b := ⟨ht.1, ht.2, hb⟩
  rwa [hr.manifestId_eq, hreadt.manifestId_eq]

theorem readsLatest_iff : run.ReadsLatest id ↔ run.records.head?.map (·.manifestId) = some id := by
  have hs := pairwise_records hle
  constructor
  · rintro ⟨record, hr, hl⟩
    have hin := mem_records.mpr ⟨id, hr⟩
    cases hlist : run.records with rw [hlist] at hin hs
    | nil => cases hin
    | cons head rest =>
      rcases mem_cons.mp hin with rfl | hin
      · rw [head?_cons, Option.map_some, hr.manifestId_eq]
      · obtain ⟨id', hhead⟩ := mem_records.mp (hlist ▸ mem_cons_self)
        exact absurd ((pairwise_cons.mp hs).1 record hin) (hl id' head hhead)
  intro h
  obtain ⟨head, hhead, rfl⟩ := Option.map_eq_some_iff.mp h
  obtain ⟨rest, hlist⟩ := head?_eq_some_iff.mp hhead
  obtain ⟨id', hr⟩ := mem_records.mp (hlist ▸ mem_cons_self)
  refine ⟨head, hr.manifestId_eq ▸ hr, fun id'' other ho hnewer => ?_⟩
  rw [hlist] at hs
  rcases mem_cons.mp (hlist ▸ mem_records.mpr ⟨_, ho⟩) with rfl | hin
  · exact hnewer.asymm hle hnewer
  · exact hnewer.asymm hle ((pairwise_cons.mp hs).1 other hin)

/-- What comes before a record is what is newer. -/
theorem outlived_iff (hs : run.records = newer ++ record :: older) :
    Outlived run.platform run.policy run.now (· ∈ newer)
        (run.records.head?.map (·.manifestId)) record ↔ run.ReadsOutlived record.manifestId := by
  have hso := pairwise_records hle
  have hnewer : (· ∈ newer) = fun other => Newer run.platform other record ∧
      ∃ id', run.RecordRead id' other := by
    funext other
    rw [← mem_records, hs, eq_iff_iff, mem_append, mem_cons]
    rw [hs, pairwise_append, pairwise_cons] at hso
    refine ⟨fun h => ⟨hso.2.2 other h record mem_cons_self, .inl h⟩, fun h => ?_⟩
    rcases h.2 with hin | rfl | hin
    · exact hin
    · exact absurd h.1 (h.1.asymm hle)
    · exact absurd (hso.2.1.1 other hin) (h.1.asymm hle)
  obtain ⟨latestId, hlat⟩ : ∃ latestId, run.records.head?.map (·.manifestId) = some latestId := by
    rw [hs]
    cases newer <;> exact ⟨_, rfl⟩
  obtain ⟨id, hr⟩ := mem_records.mp (hs ▸ mem_append_right newer mem_cons_self)
  obtain rfl := hr.manifestId_eq
  rw [hnewer, hlat]
  constructor
  · exact fun h => ⟨record, latestId, hr, (readsLatest_iff hle).mpr hlat, h⟩
  rintro ⟨record', latestId', hr', hlat', h⟩
  cases hr.2.2.symm.trans hr'.2.2
  cases hlat.symm.trans ((readsLatest_iff hle).mp hlat')
  exact h

/-- Kept or pruned, a record fares as it reads. -/
theorem exists_split_iff {P : Prop → Prop} :
    (∃ newer older, sortByCreatedAt run.platform run.records = newer ++ record :: older ∧
        P (Outlived run.platform run.policy run.now (· ∈ newer)
          ((sortByCreatedAt run.platform run.records).head?.map (·.manifestId)) record)) ↔
      run.RecordRead record.manifestId record ∧ P (run.ReadsOutlived record.manifestId) := by
  have hsort : sortByCreatedAt run.platform run.records = run.records :=
    ((pairwise_records hle).imp And.left).insertionSort_eq
  rw [hsort]
  constructor
  · rintro ⟨newer, older, hs, h⟩
    obtain ⟨id, hr⟩ := mem_records.mp (hs ▸ mem_append_right newer mem_cons_self)
    rw [outlived_iff hle hs] at h
    exact ⟨hr.manifestId_eq ▸ hr, h⟩
  rintro ⟨hr, h⟩
  obtain ⟨newer, older, hs⟩ := append_of_mem (mem_records.mpr ⟨_, hr⟩)
  rw [← outlived_iff hle hs] at h
  exact ⟨newer, older, hs, h⟩

theorem mem_prune_iff : record ∈ run.scan.prune ↔
    run.RecordRead record.manifestId record ∧ run.ReadsOutlived record.manifestId :=
  mem_prune.trans (exists_split_iff hle (P := id))

theorem mem_keep_iff : record ∈ run.scan.keep ↔
    run.RecordRead record.manifestId record ∧ ¬ run.ReadsOutlived record.manifestId :=
  mem_keep.trans (exists_split_iff hle)

/-- What is left is what does not read as outlived. -/
theorem storedManifest_after_iff {manifest : FileHistoryManifest} :
    storedManifest run.platform run.after id = some manifest ↔
      storedManifest run.platform run.bucket id = some manifest ∧ ¬ run.ReadsOutlived id := by
  have hpruned : id ∈ run.scan.prune.map (·.manifestId) ↔ run.ReadsOutlived id := by
    simp only [mem_map, mem_prune_iff hle]
    constructor
    · rintro ⟨record, h, rfl⟩
      exact h.2
    intro h
    obtain ⟨record, latestId, hr, hrs⟩ := h
    obtain rfl := hr.manifestId_eq
    exact ⟨record, ⟨hr, record, latestId, hr, hrs⟩, rfl⟩
  rw [storedManifest_after, ← hpruned]
  split
  · next h => simp [h]
  · next h => simp [h]

theorem contains_keptIds : (run.scan.keep.map (·.manifestId)).contains id = true ↔
    run.ReadsKept id := by
  simp only [contains_iff_mem, mem_map, mem_keep_iff hle]
  constructor
  · rintro ⟨record, ⟨hr, hnot⟩, rfl⟩
    exact ⟨⟨record, hr⟩, hnot⟩
  rintro ⟨⟨record, hr⟩, hnot⟩
  obtain rfl := hr.manifestId_eq
  exact ⟨record, ⟨hr, hnot⟩, rfl⟩

theorem mem_retentionReferences : hash ∈ retentionReferences run.platform run.vaultId run.reads
      run.bucket run.policy run.now ↔
    (∃ id, run.ReadsName id hash) ∨
      ∃ state, run.reads.latestState.parsed run.bucket.latestState = some state ∧
        hash ∈ state.references := by
  have hlat : hash ∈ ((run.reads.latestState.parsed run.bucket.latestState).map
      (·.references)).getD [] ↔
      ∃ state, run.reads.latestState.parsed run.bucket.latestState = some state ∧
        hash ∈ state.references := by
    cases run.reads.latestState.parsed run.bucket.latestState <;> simp
  change hash ∈ referencedHashes run.scan.keep (run.scan.keep.map _) _ ↔ _
  rw [referencedHashes, mem_append, mem_append, hlat]
  refine or_congr_left ?_
  simp only [mem_flatMap, mem_filter, mem_map, contains_keptIds hle, exists_exists_and_eq_and,
    mem_keep_iff hle]
  constructor
  · rintro (⟨record, ⟨hr, hnot⟩, hmem⟩ | ⟨read, ⟨⟨record, ⟨hr, hnot⟩, rfl⟩, hid⟩, hmem⟩)
    · exact ⟨_, ⟨⟨record, hr⟩, hnot⟩, record, hr, .inl hmem⟩
    · exact ⟨_, ⟨⟨record, hr⟩, hnot⟩, record, hr, .inr ⟨hid, hmem⟩⟩
  rintro ⟨id, ⟨-, hnot⟩, record, hr, hn⟩
  obtain rfl := hr.manifestId_eq
  rcases hn with hmem | ⟨hid, hmem⟩
  · exact .inl ⟨record, ⟨hr, hnot⟩, hmem⟩
  · exact .inr ⟨_, ⟨⟨record, ⟨hr, hnot⟩, rfl⟩, hid⟩, hmem⟩

theorem mem_contents_after : hash ∈ run.after.contents.keys ↔
    hash ∈ run.bucket.contents.keys ∧ (isContentHash hash = true →
      (∃ id, run.ReadsName id hash) ∨
        ∃ state, run.reads.latestState.parsed run.bucket.latestState = some state ∧
          hash ∈ state.references) := by
  unfold after applyRecoveryRetention
  rw [foldl_deleteContent, foldl_deleteManifest]
  rw [OrderedMap.mem_keys_foldl_delete, mem_filter, decide_eq_true_eq, contains_iff_mem,
    mem_retentionReferences hle]
  refine and_congr_right fun hin => ?_
  rw [not_and, not_and, not_not]
  exact ⟨fun h => h hin, fun h _ => h⟩

end Ordered

end RetentionPass

open RetentionPass in
/-- Retention fails safe exactly when what it read vouches for what has to stay. -/
theorem retention_fails_safe_iff (run : RetentionPass) (hle : run.platform.TotalOrder) :
    FailsSafe run.platform run.bucket run.after ↔ run.ReadsVouch := by
  constructor <;> intro h
  · refine ⟨fun id manifest hman hprot =>
      ((storedManifest_after_iff hle).mp (h.manifests id manifest hman hprot)).2,
      fun hash hmem hh href => ?_⟩
    refine ((mem_contents_after hle).mp (h.contents hash hmem ?_)).2 hh
    refine href.imp_left ?_
    rintro ⟨id, manifest, hman, hk, hn⟩
    exact ⟨id, manifest, (storedManifest_after_iff hle).mpr ⟨hman, hk⟩, hn⟩
  refine ⟨fun id manifest hman hprot => (storedManifest_after_iff hle).mpr
    ⟨hman, h.manifests id manifest hman hprot⟩, fun hash hmem href => ?_⟩
  refine (mem_contents_after hle).mpr ⟨hmem, fun hh => ?_⟩
  refine h.contents hash hmem hh (href.imp_left ?_)
  rintro ⟨id, manifest, hman, hn⟩
  obtain ⟨hman, hk⟩ := (storedManifest_after_iff hle).mp hman
  exact ⟨id, manifest, hman, hk, hn⟩

section Example

/-- An upload of one note. -/
def noteUpload (now : ℕ) (reason : FileHistoryReason) (content : JsString) :
    PreparedFileHistoryPendingUpload where
  manifestId := generateRecoveryManifestId now fun _ => 0
  createdAt := toISOString now
  day := (toISOString now).take 10
  stateHash := sha256Hex []
  previousStateHash := none
  reason := reason
  pinned := reason ≠ .automatic
  triggeredBy := none
  crdtSchemaVersion := some 2
  changedEntries := []
  contentHashes := [sha256Hex content]
  contentQueue := [⟨sha256Hex content, content⟩]
  persistedState := []
  processedDirtyFileIds := []
  dirtyWatermark := none
  uploadedContentCount := 0

/-- A snapshot made by hand at the start of 2019. -/
def oldUpload : PreparedFileHistoryPendingUpload :=
  noteUpload 1546300800000 .manual (js "one")

/-- An automatic one of 2026. -/
def recentUpload : PreparedFileHistoryPendingUpload :=
  noteUpload 1767225600000 .automatic (js "two")

def storedObjects (uploads : List PreparedFileHistoryPendingUpload) : RecoveryBucket where
  manifests := OrderedMap.empty.setAll (uploads.map fun prepared =>
    (prepared.manifestId, some (preparedManifest asciiPlatform (js "v") prepared)))
  manifestIndexes := OrderedMap.empty.setAll (uploads.map fun prepared =>
    (prepared.manifestId, some (preparedIndex asciiPlatform (js "v") prepared)))
  contents := OrderedMap.empty.setAll (uploads.flatMap fun prepared =>
    prepared.contentQueue.map fun item => (item.hash, item.content))
  latestState := none
  latestIndex := none

/-- A run over both in which the read of one index may fail. -/
def retentionPass (unread : Option JsString) : RetentionPass where
  platform := asciiPlatform
  vaultId := js "v"
  reads := ⟨fun id => if unread = some id then .throws else .stored, fun _ => .stored, .stored⟩
  bucket := storedObjects [oldUpload, recentUpload]
  policy := DEFAULT_RECOVERY_RETENTION
  now := 1767312000000

/-- The uploads of which the older is stored. -/
def storedUploads : { uploads : List PreparedFileHistoryPendingUpload //
    storedManifest asciiPlatform (storedObjects uploads) oldUpload.manifestId =
      some (preparedManifest asciiPlatform (js "v") oldUpload) } :=
  ⟨[oldUpload, recentUpload], by decide +kernel⟩

/-- Without its index the old upload loses its manifest. -/
theorem not_failsSafe_unread : ¬ FailsSafe asciiPlatform (retentionPass oldUpload.manifestId).bucket
    (retentionPass oldUpload.manifestId).after := by
  intro h
  have hst : storedManifest asciiPlatform (storedObjects [oldUpload, recentUpload])
      oldUpload.manifestId = some (preparedManifest asciiPlatform (js "v") oldUpload) :=
    storedUploads.property
  have hg : storedManifest asciiPlatform (retentionPass oldUpload.manifestId).after
      oldUpload.manifestId = none := by
    decide
  cases (h.manifests _ _ hst (.inl rfl)).symm.trans hg

/-- One index that cannot be read costs a pinned manifest. -/
theorem unread_index_loses_pinned :
    ¬ ∀ run : RetentionPass, FailsSafe run.platform run.bucket run.after :=
  fun h => not_failsSafe_unread (h (retentionPass oldUpload.manifestId))

/-- Reads that all succeed vouch for both uploads, without the old index they do not. -/
theorem retention_fails_safe_two_uploads :
    (retentionPass none).ReadsVouch ∧ ¬ (retentionPass oldUpload.manifestId).ReadsVouch := by
  refine ⟨(retention_fails_safe_iff _ asciiPlatform_totalOrder).mp ?_,
    mt (retention_fails_safe_iff _ asciiPlatform_totalOrder).mpr not_failsSafe_unread⟩
  have hprune : (retentionPass none).scan.prune.map (·.manifestId) = [] := by
    decide +kernel
  have hk : (retentionPass none).after.contents.keys =
      (retentionPass none).bucket.contents.keys := by
    decide +kernel
  refine ⟨fun id manifest hman _ => ?_, fun hash hmem _ => hk ▸ hmem⟩
  rw [RetentionPass.storedManifest_after, hprune, if_neg not_mem_nil, hman]

end Example

end Kaos.Server
