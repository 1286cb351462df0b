import Kaos.Server.RecoveryRetention

/-! No retention run takes content from under a manifest, as long as it leaves uploads alone. -/
namespace Kaos.Server

open Kaos.Lib SnapshotRoom List Option OrderedMap

variable {platform P : RecoveryPlatform} {vaultId : JsString} {bucket : RecoveryBucket}
  {room : SnapshotRoom} {run : RetentionRun} {prepared : PreparedFileHistoryPendingUpload}
  {manifest : FileHistoryManifest} {id hash : JsString}

/-- A manifest as the code writes it is listed, and reads accept it and its index. -/
structure Genuine (platform : RecoveryPlatform) (vaultId id : JsString)
    (manifest : FileHistoryManifest) : Prop where
  listed : (createdAtFromRecoveryManifestId platform id).isSome = true
  decodes : decodeRecoveryManifest platform manifest = some manifest
  index : isRecoveryManifestIndexOf vaultId id manifest.toFileHistoryManifestIndex = true

/-- The objects of an upload are its own. -/
structure Uploading (platform : RecoveryPlatform) (vaultId : JsString) (bucket : RecoveryBucket)
    (prepared : PreparedFileHistoryPendingUpload) : Prop where
  listed : (createdAtFromRecoveryManifestId platform prepared.manifestId).isSome = true
  hashes : prepared.contentHashes = prepared.contentQueue.map (·.hash)
  manifest : ∀ object, bucket.manifests.get? prepared.manifestId = some object →
    object = some (preparedManifest platform vaultId prepared)
  index : ∀ object, bucket.manifestIndexes.get? prepared.manifestId = some object →
    object = some (preparedIndex platform vaultId prepared)
  counted : ∀ item ∈ prepared.contentQueue.take (sliceStart prepared),
    item.hash ∈ bucket.contents.keys

/-- What holds of the bucket and the room between any two operations. -/
structure Sound (platform : RecoveryPlatform) (vaultId : JsString) (bucket : RecoveryBucket)
    (room : SnapshotRoom) : Prop where
  genuine : ∀ id object, bucket.manifests.get? id = some object →
    ∃ manifest, object = some manifest ∧ Genuine platform vaultId id manifest
  indexed : ∀ id manifest object, bucket.manifests.get? id = some (some manifest) →
    bucket.manifestIndexes.get? id = some object → object = some manifest.toFileHistoryManifestIndex
  uploading : ∀ prepared, room.unfinished = some prepared →
    Uploading platform vaultId bucket prepared
  resumed : ∀ prepared, room.pending = some prepared → room.unfinished = some prepared
  slice : ∀ prepared limit left, room.phase = .putting prepared limit left →
    ∀ item ∈ prepared.contentQueue.take (sliceEnd prepared limit),
      item ∈ left ∨ item.hash ∈ bucket.contents.keys
  complete : ∀ prepared, room.phase = .manifest prepared →
    ∀ item ∈ prepared.contentQueue, item.hash ∈ bucket.contents.keys
  kept : ContentsKept bucket

theorem genuine_preparedManifest
    (h : (createdAtFromRecoveryManifestId P prepared.manifestId).isSome = true) :
    Genuine P vaultId prepared.manifestId (preparedManifest P vaultId prepared) where
  listed := h
  decodes := by
    have hne : (preparedManifest P vaultId prepared).manifestHash ≠ [] := by
      intro hnil
      have hlen := P.sha256Hex_length
        (P.stringifyManifest (manifestWithoutHash vaultId prepared))
      rw [show P.sha256Hex _ = [] from hnil] at hlen
      cases hlen
    exact if_pos ⟨rfl, rfl, rfl, hne, rfl⟩
  index := by simp [isRecoveryManifestIndexOf, preparedManifest, manifestWithoutHash]

variable {contents : OrderedMap JsString JsString}

theorem Uploading.contents_mono (h : Uploading P vaultId bucket prepared)
    (hsub : ∀ hash ∈ bucket.contents.keys, hash ∈ contents.keys) :
    Uploading P vaultId { bucket with contents } prepared :=
  { h with counted := fun item hi => hsub _ (h.counted item hi) }

/-- Content that is put breaks nothing. -/
theorem Sound.contents_mono (h : Sound P vaultId bucket room)
    (hsub : ∀ hash ∈ bucket.contents.keys, hash ∈ contents.keys) :
    Sound P vaultId { bucket with contents } room where
  genuine := h.genuine
  indexed := h.indexed
  uploading := fun prepared hprep => (h.uploading prepared hprep).contents_mono hsub
  resumed := h.resumed
  slice := fun prepared limit left hphase item hi =>
    (h.slice prepared limit left hphase item hi).imp_right (hsub _)
  complete := fun prepared hphase item hi => hsub _ (h.complete prepared hphase item hi)
  kept := fun id manifest hman hash hh => hsub _ (h.kept id manifest hman hash hh)

variable {item : PreparedFileHistoryContent}

theorem mem_unfinishedHashes (h : room.unfinished = some prepared)
    (hi : item ∈ prepared.contentQueue) : item.hash ∈ room.unfinishedHashes := by
  rw [unfinishedHashes, h]
  exact mem_map_of_mem hi

variable {hash' : JsString}

theorem mem_keys_deleteContent : hash' ∈ (bucket.deleteContent hash).contents.keys ↔
      hash' ∈ bucket.contents.keys ∧ hash' ≠ hash := by
  have h : hash' ∈ ([hash].foldl OrderedMap.delete bucket.contents).keys ↔
      hash' ∈ bucket.contents.keys ∧ hash' ∉ [hash] := mem_keys_foldl_delete
  rw [mem_singleton] at h
  exact h

/-- Content that no upload and no manifest needs may go. -/
theorem Sound.deleteContent (h : Sound P vaultId bucket room)
    (hout : hash ∉ room.unfinishedHashes)
    (hf : ∀ id manifest, bucket.manifests.get? id = some (some manifest) →
      hash ∉ manifest.contentHashes) :
    Sound P vaultId (bucket.deleteContent hash) room where
  genuine := h.genuine
  indexed := h.indexed
  uploading := fun prepared hprep =>
    { h.uploading prepared hprep with
      counted := fun item hi => mem_keys_deleteContent.mpr
        ⟨(h.uploading prepared hprep).counted item hi, fun heq =>
          hout (heq ▸ mem_unfinishedHashes hprep (mem_of_mem_take hi))⟩ }
  resumed := h.resumed
  slice := fun prepared limit left hphase item hi =>
    (h.slice prepared limit left hphase item hi).imp_right fun hmem =>
      mem_keys_deleteContent.mpr ⟨hmem, fun heq => hout (heq ▸ mem_unfinishedHashes
        (by rw [unfinished, hphase]) (mem_of_mem_take hi))⟩
  complete := fun prepared hphase item hi => mem_keys_deleteContent.mpr
    ⟨h.complete prepared hphase item hi, fun heq => hout (heq ▸ mem_unfinishedHashes
      (by rw [unfinished, hphase]) hi)⟩
  kept := fun id manifest hman hash' hh => mem_keys_deleteContent.mpr
    ⟨h.kept id manifest hman hash' hh, fun heq =>
      hf id manifest hman (heq ▸ hh)⟩

variable {id' : JsString}

theorem get?_deleteManifest {object : Option FileHistoryManifest}
    (h : (bucket.deleteManifest id).manifests.get? id' = some object) :
    id' ≠ id ∧ bucket.manifests.get? id' = some object := by
  change (bucket.manifests.delete id).get? id' = _ at h
  rw [get?_delete] at h
  split at h
  · cases h
  · next hne => exact ⟨hne, h⟩

theorem get?_indexes_deleteManifest {object : Option FileHistoryManifestIndex}
    (h : (bucket.deleteManifest id).manifestIndexes.get? id' = some object) :
    bucket.manifestIndexes.get? id' = some object := by
  change (bucket.manifestIndexes.delete id).get? id' = _ at h
  rw [get?_delete] at h
  split at h
  · cases h
  · exact h

theorem Sound.deleteManifest (h : Sound P vaultId bucket room) (id : JsString) :
    Sound P vaultId (bucket.deleteManifest id) room where
  genuine := fun id' object ho => h.genuine id' object (get?_deleteManifest ho).2
  indexed := fun id' manifest object hman ho => h.indexed id' manifest object
    (get?_deleteManifest hman).2 (get?_indexes_deleteManifest ho)
  uploading := fun prepared hprep =>
    { h.uploading prepared hprep with
      manifest := fun object ho =>
        (h.uploading prepared hprep).manifest object (get?_deleteManifest ho).2
      index := fun object ho =>
        (h.uploading prepared hprep).index object (get?_indexes_deleteManifest ho) }
  resumed := h.resumed
  slice := h.slice
  complete := h.complete
  kept := fun id' manifest hman => h.kept id' manifest (get?_deleteManifest hman).2

theorem decideSnapshot_upload {options : SnapshotOptions} {crdtSchemaVersion : Option ℕ}
    {plan : SnapshotPlan} (h : decideSnapshot P options crdtSchemaVersion plan = .upload prepared) :
    prepared.manifestId = generateRecoveryManifestId options.now options.random ∧
      prepared.contentHashes = prepared.contentQueue.map (·.hash) ∧
      prepared.uploadedContentCount = 0 := by
  unfold decideSnapshot at h
  split at h
  · cases h
  dsimp only at h
  cases h
  exact ⟨rfl, rfl, rfl⟩

theorem freshSnapshot_upload {call : SnapshotCall}
    (h : freshSnapshot P bucket call = .upload prepared) :
    prepared.manifestId = generateRecoveryManifestId call.options.now call.options.random ∧
      prepared.contentHashes = prepared.contentQueue.map (·.hash) ∧
      prepared.uploadedContentCount = 0 := by
  unfold freshSnapshot at h
  split at h
  · split at h
    · cases h
    · exact decideSnapshot_upload h
  · exact decideSnapshot_upload h

/-- A slice that starts has everything before it counted and the rest to put. -/
theorem Sound.startSlice (h : Sound P vaultId bucket room) (limit : Option ℕ)
    (hprep : Uploading P vaultId bucket prepared)
    (hpend : ∀ other, room.pending = some other → other = prepared) :
    Sound P vaultId bucket { room with phase := startSlice prepared limit } where
  genuine := h.genuine
  indexed := h.indexed
  uploading := fun other ho => by
    cases ho
    exact hprep
  resumed := fun other ho => congrArg some (hpend other ho).symm
  slice := fun other limit' left hphase item hi => by
    cases hphase
    rw [← take_append_drop (sliceStart prepared)
      (prepared.contentQueue.take (sliceEnd prepared limit)), mem_append,
      take_take] at hi
    rcases hi with hi | hi
    · exact .inr (hprep.counted item ((take_sublist_take_left (Nat.min_le_left _ _)).subset hi))
    · exact .inl hi
  complete := nofun
  kept := h.kept

theorem Sound.beginCall (h : Sound P vaultId bucket room) (call : SnapshotCall) :
    Sound P vaultId bucket (beginCall P bucket room call) := by
  obtain ⟨phase, pending⟩ := room
  cases phase with
  | idle =>
    cases pending with
    | some prepared =>
      exact h.startSlice _ (h.uploading _ rfl) fun other hot => (some.inj hot).symm
    | none =>
      simp only [Server.beginCall]
      cases hfr : freshSnapshot P bucket call with
      | noop => exact h
      | upload prepared =>
        obtain ⟨hid, hhas, hc⟩ := freshSnapshot_upload hfr
        dsimp only
        split
        · next hclock =>
          obtain ⟨hclock, hman, hix⟩ := hclock
          obtain ⟨time, htime⟩ := isSome_iff_exists.mp hclock
          refine h.startSlice _ ?_ nofun
          refine ⟨?_, hhas, fun object ho => ?_, fun object ho => ?_,
            fun item hi => ?_⟩
          · rw [hid, createdAt_generated _ htime, isSome_some]
          · rw [get?_eq_none.mpr hman] at ho
            cases ho
          · rw [get?_eq_none.mpr hix] at ho
            cases ho
          rw [sliceStart, hc, Nat.zero_min, take_zero] at hi
          cases hi
        · exact h
  | putting | manifest | manifestIndex | latestState | latestIndex => exact h

/-- Whatever a call was at, what is left of it is the upload to resume. -/
theorem Sound.idle (h : Sound P vaultId bucket room) :
    Sound P vaultId bucket { room with phase := .idle } where
  genuine := h.genuine
  indexed := h.indexed
  uploading := fun prepared hprep => h.uploading prepared (h.resumed prepared hprep)
  resumed := fun _ hprep => hprep
  slice := by rintro _ _ _ ⟨⟩
  complete := by rintro _ ⟨⟩
  kept := h.kept

variable {content : JsString}

theorem mem_keys_set_self : hash ∈ (contents.set hash content).keys :=
  mem_keys.mpr ⟨content, mem_set_self⟩

theorem mem_keys_set_of_mem (h : hash' ∈ contents.keys) :
    hash' ∈ (contents.set hash content).keys := by
  by_contra hn
  rw [← get?_eq_none, get?_set] at hn
  split at hn
  · cases hn
  · exact get?_eq_none.mp hn h

theorem Sound.put {limit : Option ℕ} {left : List PreparedFileHistoryContent} {k : ℕ}
    (h : Sound P vaultId bucket room)
    (hphase : room.phase = .putting prepared limit left) (hi : left[k]? = some item) :
    Sound P vaultId { bucket with contents := bucket.contents.set item.hash item.content }
      { room with phase := .putting prepared limit (left.eraseIdx k) } := by
  have hput : Sound P vaultId
      { bucket with contents := bucket.contents.set item.hash item.content } room :=
    h.contents_mono fun hash hmem => mem_keys_set_of_mem hmem
  have hunf : room.unfinished = some prepared := by rw [unfinished, hphase]
  refine ⟨hput.genuine, hput.indexed, fun other ho => ?_, fun other ho => ?_,
    fun other limit' left' hl other' ho' => ?_, fun other ho => ?_, hput.kept⟩
  · cases ho
    exact hput.uploading prepared hunf
  · exact hunf.symm.trans (h.resumed other ho)
  · cases hl
    rcases hput.slice prepared limit left hphase other' ho' with hmem | hmem
    · rcases getElem_of_mem hmem with ⟨j, hj, rfl⟩
      by_cases hjk : j = k
      · subst hjk
        rw [getElem?_eq_getElem hj, Option.some.injEq] at hi
        rw [hi]
        exact .inr mem_keys_set_self
      · exact .inl (mem_eraseIdx_iff_getElem.mpr ⟨j, hj, hjk, rfl⟩)
    · exact .inr hmem
  · cases ho

/-- The room goes on with the same upload, past its slices. -/
theorem Sound.goOn {phase : SnapshotPhase} (h : Sound P vaultId bucket room)
    (hold : room.unfinished = some prepared)
    (hnew : ({ room with phase } : SnapshotRoom).unfinished = some prepared)
    (hput : ∀ other limit left, phase ≠ .putting other limit left)
    (hcom : ∀ other, phase = .manifest other →
      ∀ item ∈ other.contentQueue, item.hash ∈ bucket.contents.keys) :
    Sound P vaultId bucket { room with phase } where
  genuine := h.genuine
  indexed := h.indexed
  uploading := fun other ho => h.uploading other (hold.trans (hnew.symm.trans ho))
  resumed := fun other ho => hnew.trans (hold.symm.trans (h.resumed other ho))
  slice := fun other limit left hphase => absurd hphase (hput other limit left)
  complete := hcom
  kept := h.kept

section

variable {limit : Option ℕ} (h : Sound P vaultId bucket room)
  (hphase : room.phase = .putting prepared limit [])
include h hphase

theorem Sound.finishSlice (hend : prepared.contentQueue.length ≤ sliceEnd prepared limit) :
    Sound P vaultId bucket { room with phase := .manifest prepared } := by
  refine h.goOn (by rw [unfinished, hphase]) rfl (fun _ _ _ => by simp) ?_
  intro other ho item hi
  cases ho
  rw [← take_of_length_le hend] at hi
  exact (h.slice prepared limit [] hphase item hi).resolve_left not_mem_nil

theorem Sound.pauseSlice :
    Sound P vaultId bucket
      { phase := .idle
        pending := some { prepared with uploadedContentCount := sliceEnd prepared limit } } where
  genuine := h.genuine
  indexed := h.indexed
  uploading := fun other ho => by
    cases ho
    have hprep := h.uploading prepared (by rw [unfinished, hphase])
    refine ⟨hprep.listed, hprep.hashes, hprep.manifest, hprep.index,
      fun item hi => ?_⟩
    refine (h.slice prepared limit [] hphase item ?_).resolve_left not_mem_nil
    exact (take_sublist_take_left (Nat.min_le_left _ _)).subset hi
  resumed := fun _ ho => ho
  slice := by rintro _ _ _ ⟨⟩
  complete := by rintro _ ⟨⟩
  kept := h.kept

end

theorem Sound.writeManifest (h : Sound P vaultId bucket room)
    (hphase : room.phase = .manifest prepared) :
    Sound P vaultId
      { bucket with
        manifests := bucket.manifests.set prepared.manifestId
          (some (preparedManifest P vaultId prepared)) } room := by
  have hprep := h.uploading prepared (by rw [unfinished, hphase])
  refine ⟨fun id object ho => ?_, fun id manifest object hman ho => ?_,
    fun other hot => ?_, h.resumed, h.slice, h.complete, fun id manifest hman => ?_⟩
  · rw [get?_set] at ho
    split at ho
    · next heq =>
      cases ho
      exact ⟨_, rfl, heq ▸ genuine_preparedManifest hprep.listed⟩
    · exact h.genuine id object ho
  · rw [get?_set] at hman
    split at hman
    · next heq =>
      cases hman
      exact hprep.index object (heq ▸ ho)
    · exact h.indexed id manifest object hman ho
  · rw [unfinished, hphase] at hot
    cases hot
    refine { hprep with manifest := fun object ho => ?_ }
    rw [get?_set_self] at ho
    exact (some.inj ho).symm
  rw [get?_set] at hman
  split at hman
  · cases hman
    intro hash hh
    change hash ∈ prepared.contentHashes at hh
    rw [hprep.hashes] at hh
    obtain ⟨item, hi, rfl⟩ := mem_map.mp hh
    exact h.complete prepared hphase item hi
  · exact h.kept id manifest hman

theorem Sound.writeIndex (h : Sound P vaultId bucket room)
    (hphase : room.phase = .manifestIndex prepared) :
    Sound P vaultId
      { bucket with
        manifestIndexes := bucket.manifestIndexes.set prepared.manifestId
          (some (preparedIndex P vaultId prepared)) } room := by
  have hprep := h.uploading prepared (by rw [unfinished, hphase])
  refine ⟨h.genuine, fun id manifest object hman ho => ?_, fun other hot => ?_,
    h.resumed, h.slice, h.complete, h.kept⟩
  · rw [get?_set] at ho
    split at ho
    · next heq =>
      cases ho
      have hs := hprep.manifest _ (heq ▸ hman)
      rw [some.inj hs]
      rfl
    · exact h.indexed id manifest object hman ho
  rw [unfinished, hphase] at hot
  cases hot
  refine { hprep with index := fun object ho => ?_ }
  rw [get?_set_self] at ho
  exact (some.inj ho).symm

/-- The objects that no reference check looks at may change. -/
theorem Sound.writeLatest {latestState : Option (Option RecoveryLatestState)}
    {latestIndex : Option (Option FileHistoryManifestIndex)} (h : Sound P vaultId bucket room) :
    Sound P vaultId { bucket with latestState, latestIndex } room where
  genuine := h.genuine
  indexed := h.indexed
  uploading := fun prepared hprep =>
    { h.uploading prepared hprep with }
  resumed := h.resumed
  slice := h.slice
  complete := h.complete
  kept := h.kept

theorem sound_snapshotStep (h : Sound P vaultId bucket room) (input : SnapshotInput) :
    Sound P vaultId (snapshotStep P vaultId bucket room input).1
      (snapshotStep P vaultId bucket room input).2 := by
  cases input with simp only [snapshotStep]
  | call call => exact h.beginCall call
  | put k =>
    cases hphase : room.phase with
    | putting prepared limit left =>
      dsimp only
      cases hi : left[k]? with
      | none => exact h
      | some item =>
        dsimp only
        split
        · exact h.put hphase hi
        · exact h.idle
    | _ => exact h
  | finishSlice =>
    cases hphase : room.phase with
    | putting prepared limit left =>
      cases left with
      | nil =>
        dsimp only
        split
        · next hend => exact h.finishSlice hphase hend
        · exact h.pauseSlice hphase
      | cons => exact h
    | _ => exact h
  | write =>
    cases hphase : room.phase with
    | manifest prepared =>
      exact (h.writeManifest hphase).goOn (by rw [unfinished, hphase]) rfl
        (fun _ _ _ => by simp) nofun
    | manifestIndex prepared =>
      exact (h.writeIndex hphase).goOn (by rw [unfinished, hphase]) rfl (fun _ _ _ => by simp) nofun
    | latestState prepared =>
      exact h.writeLatest.goOn (by rw [unfinished, hphase]) rfl (fun _ _ _ => by simp) nofun
    | latestIndex prepared =>
      have hlat : Sound P vaultId
          { bucket with latestIndex := some (some (preparedIndex P vaultId prepared)) }
          room := h.writeLatest
      refine ⟨hlat.genuine, hlat.indexed, fun other ho => ?_, fun other ho => ?_,
        fun _ _ _ ho => ?_, fun _ ho => ?_, hlat.kept⟩
      · cases ho
      · cases ho
      · cases ho
      · cases ho
    | _ => exact h
  | throws => exact h.idle
  | stray item =>
    split
    · exact h.contents_mono fun hash hmem => mem_keys_set_of_mem hmem
    · exact h

/-- A record that stands for a manifest repeats it or sends the run to the manifest itself. -/
def StandsFor (id : JsString) (manifest : FileHistoryManifest)
    (record : FileHistoryManifestIndex) : Prop :=
  record.manifestId = id ∧ (record = manifest.toFileHistoryManifestIndex ∨ record.manifestHash = [])

/-- What a run knows of a manifest that has been there since it began. -/
def Seen (id : JsString) (manifest : FileHistoryManifest) : RetentionPhase → Prop
  | .listing cursor ids => ∀ c, cursor = some c →
    JsString.le (manifestKeyOf id) (manifestKeyOf c) = true → id ∈ ids
  | .indexes ids parsed => id ∈ ids ∧ ∀ object, parsed.get? id = some object →
    object = some manifest.toFileHistoryManifestIndex ∨ object = none
  | .references keep prune parsed =>
    (∃ record, StandsFor id manifest record ∧ (record ∈ keep ∨ record ∈ prune)) ∧
      ∀ object, parsed.get? id = some object → object = some manifest
  | .pruning _ referenced prune =>
    (∃ record ∈ referenced, record.contentHashes = manifest.contentHashes) ∨
      ∃ record ∈ prune, record.manifestId = id
  | .latest _ referenced => ∃ record ∈ referenced, record.contentHashes = manifest.contentHashes
  | .contents referenced _ _ => ∀ hash ∈ manifest.contentHashes, hash ∈ referenced
  | .deleting referenced _ => ∀ hash ∈ manifest.contentHashes, hash ∈ referenced

theorem mem_pageOf {keyOf : JsString → JsString} {cursor upTo : Option JsString}
    {keys : List JsString} : id ∈ pageOf keyOf cursor upTo keys ↔ id ∈ keys ∧
      (∀ c, cursor = some c → ¬ JsString.le (keyOf id) (keyOf c) = true) ∧
      ∀ u, upTo = some u → JsString.le (keyOf id) (keyOf u) = true := by
  rw [pageOf, mem_filter, decide_eq_true_eq]
  cases cursor <;> cases upTo <;> simp

variable {ids : List JsString}

/-- A page takes up what the pages before it left. -/
theorem mem_listed {cursor upTo : Option JsString} (hst : id ∈ bucket.manifests.keys)
    (hs : Seen id manifest (.listing cursor ids))
    (hb : ∀ u, upTo = some u → JsString.le (manifestKeyOf id) (manifestKeyOf u) = true) :
    id ∈ ids ++ pageOf manifestKeyOf cursor upTo bucket.manifests.keys := by
  by_cases hin : id ∈ ids
  · exact mem_append_left _ hin
  refine mem_append_right _ (mem_pageOf.mpr ⟨hst, fun c hc hle => ?_, hb⟩)
  exact hin (hs c hc hle)

theorem standsFor_manifestRecord {parsed : Option FileHistoryManifestIndex}
    (hgen : Genuine P vaultId id manifest)
    (hpar : parsed = some manifest.toFileHistoryManifestIndex ∨ parsed = none) :
    ∃ record, manifestRecord P vaultId id parsed = some record ∧ StandsFor id manifest record := by
  rcases hpar with rfl | rfl
  · refine ⟨manifest.toFileHistoryManifestIndex, ?_, ?_, .inl rfl⟩
    · rw [manifestRecord, filter_some, if_pos hgen.index, some_or]
    have hix := hgen.index
    simp only [isRecoveryManifestIndexOf, decide_eq_true_eq] at hix
    exact hix.2.2.2
  obtain ⟨createdAt, hc⟩ := isSome_iff_exists.mp hgen.listed
  rw [manifestRecord, filter_none, none_or, synthesizeRecoveryManifestIndex, hc]
  exact ⟨_, rfl, rfl, .inr rfl⟩

/-- Once every index is read, a record of the manifest is kept or pruned. -/
theorem seen_selected {parsed : OrderedMap JsString (Option FileHistoryManifestIndex)}
    (hgen : Genuine P vaultId id manifest) (hs : Seen id manifest (.indexes ids parsed))
    (hall : (listRecoveryManifestIds P ids).all fun id => (parsed.get? id).isSome)
    (policy : RecoveryRetentionPolicy) (now : ℕ) : ∃ record, StandsFor id manifest record ∧
      (record ∈ (selectRecoveryRetention P policy now (readRecords P vaultId ids parsed)).keep ∨
      record ∈ (selectRecoveryRetention P policy now
        (readRecords P vaultId ids parsed)).prune) := by
  have hlis := mem_listRecoveryManifestIds.mpr ⟨hs.1, hgen.listed⟩
  obtain ⟨object, ho⟩ := isSome_iff_exists.mp (all_eq_true.mp hall id hlis)
  obtain ⟨record, hr, hstands⟩ := standsFor_manifestRecord hgen (hs.2 object ho)
  have hmem : record ∈ readRecords P vaultId ids parsed := by
    rw [readRecords, sortByCreatedAt, (perm_insertionSort _ _).mem_iff, mem_filterMap]
    exact ⟨id, hlis, by rw [ho, join_some, hr]⟩
  exact ⟨record, hstands, (keeps_or_prunes hmem).imp mem_keep.mpr mem_prune.mpr⟩

/-- A kept record that stands for a manifest comes to name its contents. -/
theorem contentHashes_referenceRecord {record : FileHistoryManifestIndex}
    {parsed : Option FileHistoryManifest} (hgen : Genuine P vaultId id manifest)
    (hstands : StandsFor id manifest record)
    (hpar : record.manifestHash = [] → parsed = some manifest) :
    (referenceRecord P parsed record).contentHashes = manifest.contentHashes := by
  obtain ⟨rfl, hr⟩ := hstands
  by_cases hh : record.manifestHash = []
  · have hlis := hgen.listed
    rw [← not_isNone] at hlis
    simp only [Bool.not_eq_true'] at hlis
    rw [referenceRecord, if_neg (not_not.mpr hh), hlis, hpar hh, bind_some, hgen.decodes]
    rfl
  · rw [referenceRecord, if_pos hh, hr.resolve_right hh]

theorem seen_retentionStep (input : RetentionInput)
    (hgen : Genuine P vaultId id manifest)
    (hst : bucket.manifests.get? id = some (some manifest))
    (hind : ∀ object, bucket.manifestIndexes.get? id = some object →
      object = some manifest.toFileHistoryManifestIndex)
    (ha : (retentionStep P vaultId bucket run input).1.manifests.get? id = some (some manifest))
    (hs : Seen id manifest run.phase) :
    Seen id manifest (retentionStep P vaultId bucket run input).2.phase := by
  have hkey : id ∈ bucket.manifests.keys := by
    by_contra hn
    rw [← get?_eq_none, hst] at hn
    cases hn
  obtain ⟨policy, now, phase⟩ := run
  cases phase with
  | listing cursor ids =>
    cases input with
    | page upTo =>
      cases upTo with
      | some u =>
        intro c hc hle
        cases hc
        exact mem_listed hkey hs fun _ hu => (some.inj hu) ▸ hle
      | none =>
        refine ⟨mem_listed hkey hs ?_, ?_⟩
        · rintro _ ⟨⟩
        · rintro _ ⟨⟩
    | read | advance => exact hs
  | indexes ids parsed =>
    cases input with
    | page => exact hs
    | read id' =>
      simp only [retentionStep]
      split
      · refine ⟨hs.1, fun object ho => ?_⟩
        rw [get?_set] at ho
        split at ho
        · next heq =>
          subst heq
          cases ho
          cases hix : bucket.manifestIndexes.get? id with
          | none => exact .inr rfl
          | some object => exact .inl (hind object hix)
        · exact hs.2 object ho
      · exact hs
    | advance =>
      simp only [retentionStep]
      split
      · next hall => exact ⟨seen_selected hgen hs hall policy now, by rintro _ ⟨⟩⟩
      · exact hs
  | references keep prune parsed =>
    cases input with
    | page => exact hs
    | read id' =>
      simp only [retentionStep]
      split
      · refine ⟨hs.1, fun object ho => ?_⟩
        rw [get?_set] at ho
        split at ho
        · next heq =>
          subst heq
          rw [hst] at ho
          exact (some.inj ho).symm
        · exact hs.2 object ho
      · exact hs
    | advance =>
      simp only [retentionStep]
      split
      · next hall =>
        obtain ⟨⟨record, hstands, hrec⟩, hpar⟩ := hs
        rcases hrec with hkeep | hprune
        · refine .inl ⟨_, mem_map_of_mem hkeep, contentHashes_referenceRecord hgen hstands
            fun hh => ?_⟩
          have hr := all_eq_true.mp hall record hkeep
          simp only [hh, ne_eq, not_true_eq_false, false_or, decide_eq_true_eq] at hr
          obtain ⟨object, ho⟩ := isSome_iff_exists.mp hr
          rw [ho, join_some]
          exact hpar object (hstands.1 ▸ ho)
        · exact .inr ⟨record, hprune, hstands.1⟩
      · exact hs
  | pruning keep referenced prune =>
    cases input with
    | page | read => exact hs
    | advance =>
      cases prune with
      | nil =>
        apply hs.resolve_right
        rintro ⟨other, hmem, -⟩
        cases hmem
      | cons record prune =>
        apply hs.imp_right
        rintro ⟨other, hmem, hid⟩
        rcases mem_cons.mp hmem with rfl | hmem
        · exact absurd hid.symm (get?_deleteManifest ha).1
        · exact ⟨other, hmem, hid⟩
  | latest keep referenced =>
    cases input with
    | page | read => exact hs
    | advance =>
      intro hash hh
      obtain ⟨record, hmem, heq⟩ := hs
      refine mem_append_left _ (mem_append_left _ (mem_flatMap.mpr ⟨record, hmem, ?_⟩))
      rw [heq]
      exact hh
  | contents referenced cursor hashes =>
    cases input with
    | page upTo => cases upTo <;> exact hs
    | read | advance => exact hs
  | deleting referenced hashes =>
    cases input with
    | page | read => exact hs
    | advance => cases hashes <;> exact hs

/-- A run deletes a manifest with its index, or the one content it is at. -/
theorem retentionStep_bucket (P : RecoveryPlatform) (vaultId : JsString)
    (bucket : RecoveryBucket) (run : RetentionRun) (input : RetentionInput) :
    (retentionStep P vaultId bucket run input).1 = bucket ∨
      (∃ id, (retentionStep P vaultId bucket run input).1 = bucket.deleteManifest id) ∨
      ∃ hash, run.deletes = some hash ∧ input = .advance ∧
        (retentionStep P vaultId bucket run input).1 = bucket.deleteContent hash := by
  obtain ⟨policy, now, phase⟩ := run
  cases input with
  | page upTo => cases phase <;> exact .inl rfl
  | read id =>
    cases phase with
    | indexes | references =>
      simp only [retentionStep]
      split <;> exact .inl rfl
    | _ => exact .inl rfl
  | advance =>
    cases phase with
    | indexes | references =>
      simp only [retentionStep]
      split <;> exact .inl rfl
    | pruning keep referenced prune =>
      cases prune with
      | nil => exact .inl rfl
      | cons record prune => exact .inr (.inl ⟨record.manifestId, rfl⟩)
    | deleting referenced hashes =>
      cases hashes with
      | nil => exact .inl rfl
      | cons hash hashes =>
        by_cases hd : isContentHash hash ∧ ¬ referenced.contains hash
        · exact .inr (.inr ⟨hash, if_pos hd, rfl, if_pos hd⟩)
        · exact .inl (if_neg hd)
    | _ => exact .inl rfl

/-- A manifest that is stored after an operation of the room was stored before it, or is that of
the upload at work. -/
theorem snapshotStep_manifests (h : Sound P vaultId bucket room) (input : SnapshotInput)
    (ha : (snapshotStep P vaultId bucket room input).1.manifests.get? id = some (some manifest)) :
    bucket.manifests.get? id = some (some manifest) ∨
      ∀ hash ∈ manifest.contentHashes, hash ∈ room.unfinishedHashes := by
  cases input with simp only [snapshotStep] at ha
  | call call | throws => exact .inl ha
  | put k =>
    split at ha
    · split at ha
      · split at ha <;> exact .inl ha
      · exact .inl ha
    · exact .inl ha
  | finishSlice =>
    split at ha
    · split at ha <;> exact .inl ha
    · exact .inl ha
  | write =>
    cases hphase : room.phase with rw [hphase] at ha
    | manifest prepared =>
      rw [get?_set] at ha
      split at ha
      · cases ha
        right
        intro hash hh
        have hunf : room.unfinished = some prepared := by
          rw [unfinished, hphase]
        change hash ∈ prepared.contentHashes at hh
        rw [(h.uploading prepared hunf).hashes] at hh
        rw [unfinishedHashes, hunf]
        exact hh
      · exact .inl ha
    | _ => exact .inl ha
  | stray item => split at ha <;> exact .inl ha

/-- A run stores no manifest. -/
theorem retentionStep_manifests (input : RetentionInput)
    (ha : (retentionStep P vaultId bucket run input).1.manifests.get? id = some (some manifest)) :
    bucket.manifests.get? id = some (some manifest) := by
  rcases retentionStep_bucket P vaultId bucket run input with h | ⟨id', h⟩ | ⟨hash, -, -, h⟩
  · rwa [h] at ha
  · rw [h] at ha
    exact (get?_deleteManifest ha).2
  · rwa [h] at ha

theorem not_referenced_of_deletes (hdel : run.deletes = some hash)
    (hs : Seen id manifest run.phase) : hash ∉ manifest.contentHashes := by
  intro hh
  unfold RetentionRun.deletes at hdel
  split at hdel
  · next hphase =>
    rw [hphase] at hs
    split at hdel
    · next hcon =>
      cases hdel
      exact hcon.2 (contains_iff_mem.mpr (hs hash hh))
    · cases hdel
  · cases hdel

variable {events : List RecoveryEvent} {n i : ℕ}

/-- The manifest's contents were those of an unfinished upload after the run had begun. -/
def Covered (platform : RecoveryPlatform) (vaultId : JsString) (events : List RecoveryEvent)
    (n i : ℕ) (manifest : FileHistoryManifest) : Prop :=
  ∃ k ≤ n, i < (worldAt platform vaultId events k).runs.length ∧
    ∀ hash ∈ manifest.contentHashes,
      hash ∈ (worldAt platform vaultId events k).room.unfinishedHashes

theorem Covered.succ (h : Covered P vaultId events n i manifest) :
    Covered P vaultId events (n + 1) i manifest := by
  obtain ⟨k, hk, hr⟩ := h
  exact ⟨k, Nat.le_succ_of_le hk, hr⟩

/-- Every run in progress has seen every stored manifest, or has run beside its upload. -/
structure WorldSound (platform : RecoveryPlatform) (vaultId : JsString)
    (events : List RecoveryEvent) (n : ℕ) : Prop where
  sound : Sound platform vaultId (worldAt platform vaultId events n).bucket
    (worldAt platform vaultId events n).room
  seen : ∀ i run id manifest, (worldAt platform vaultId events n).runs[i]? = some run →
    (worldAt platform vaultId events n).bucket.manifests.get? id = some (some manifest) →
      Covered platform vaultId events n i manifest ∨ Seen id manifest run.phase

theorem worldSound_zero : WorldSound P vaultId events 0 where
  sound := by
    constructor
    · rintro _ _ ⟨⟩
    · rintro _ _ _ ⟨⟩
    · rintro _ ⟨⟩
    · rintro _ ⟨⟩
    · rintro _ _ _ ⟨⟩
    · rintro _ ⟨⟩
    · rintro _ _ ⟨⟩
  seen := by
    rintro _ _ _ _ ⟨⟩

theorem worldSound_snapshot (h : WorldSound P vaultId events n) {input : SnapshotInput}
    (hn : worldAt P vaultId events (n + 1) =
      recoveryNext P vaultId (worldAt P vaultId events n) (.snapshot input)) :
    WorldSound P vaultId events (n + 1) where
  sound := by
    rw [hn]
    exact sound_snapshotStep h.sound input
  seen := by
    intro i run id manifest hrun hst
    rw [hn] at hrun hst
    rcases snapshotStep_manifests h.sound input hst with hb | hcov
    · exact (h.seen i run id manifest hrun hb).imp_left Covered.succ
    have hi : i < (worldAt P vaultId events n).runs.length := (List.getElem?_eq_some_iff.mp hrun).1
    exact .inl ⟨n, Nat.le_succ n, hi, hcov⟩

theorem worldSound_startRetention (h : WorldSound P vaultId events n)
    {policy : RecoveryRetentionPolicy} {now : ℕ}
    (hn : worldAt P vaultId events (n + 1) =
      recoveryNext P vaultId (worldAt P vaultId events n) (.startRetention policy now)) :
    WorldSound P vaultId events (n + 1) where
  sound := by
    rw [hn]
    exact h.sound
  seen := by
    intro i run id manifest hrun hst
    rw [hn] at hrun hst
    dsimp only [recoveryNext] at hrun hst
    rw [getElem?_append] at hrun
    split at hrun
    · exact (h.seen i run id manifest hrun hst).imp_left Covered.succ
    rw [getElem?_singleton] at hrun
    split at hrun
    · cases hrun
      right
      exact nofun
    · cases hrun

theorem worldSound_retention (h : WorldSound P vaultId events n)
    (hleaves : LeavesUploads P vaultId events) {input : RetentionInput}
    (hev : events[n]? = some (.retention i input))
    (hn : worldAt P vaultId events (n + 1) =
      recoveryNext P vaultId (worldAt P vaultId events n) (.retention i input)) :
    WorldSound P vaultId events (n + 1) := by
  cases hrun : (worldAt P vaultId events n).runs[i]? with
  | none =>
    have hsa : worldAt P vaultId events (n + 1) = worldAt P vaultId events n := by
      rw [hn, recoveryNext, hrun]
    constructor
    · rw [hsa]
      exact h.sound
    intro j run id manifest hj hst
    rw [hsa] at hj hst
    exact (h.seen j run id manifest hj hst).imp_left Covered.succ
  | some run =>
    rw [recoveryNext, hrun] at hn
    have hi : i < (worldAt P vaultId events n).runs.length := (List.getElem?_eq_some_iff.mp hrun).1
    constructor
    · rw [hn]
      dsimp only
      rcases retentionStep_bucket P vaultId (worldAt P vaultId events n).bucket run
        input with
        hbuc | ⟨id, hbuc⟩ | ⟨hash, hdel, hinput, hbuc⟩
      · rw [hbuc]
        exact h.sound
      · rw [hbuc]
        exact h.sound.deleteManifest id
      rw [hbuc]
      subst hinput
      have hout := hleaves n i run hash hev hrun hdel
      apply h.sound.deleteContent (hout n (Nat.le_refl n) hi)
      intro id manifest hst hh
      rcases h.seen i run id manifest hrun hst with ⟨k, hk, hki, hcov⟩ | hs
      · exact hout k hk hki (hcov hash hh)
      · exact not_referenced_of_deletes hdel hs hh
    intro j other id manifest hj hst
    rw [hn] at hj hst
    have hb := retentionStep_manifests input hst
    by_cases hij : i = j
    · subst hij
      rw [getElem?_set_self hi, Option.some.injEq] at hj
      subst hj
      rcases h.seen i run id manifest hrun hb with hcov | hs
      · exact .inl hcov.succ
      obtain ⟨manifest', hman', hgen⟩ := h.sound.genuine id _ hb
      cases hman'
      exact .inr (seen_retentionStep input hgen hb
        (fun object ho => h.sound.indexed id manifest object hb ho)
        hst hs)
    · rw [getElem?_set_ne hij] at hj
      exact (h.seen j other id manifest hj hb).imp_left Covered.succ

/-- One event after another. -/
theorem worldSound (hleaves : LeavesUploads P vaultId events) (n : ℕ) :
    WorldSound P vaultId events n := by
  induction n with
  | zero => exact worldSound_zero
  | succ n ih =>
    rcases stateAt_step (recoveryNext P vaultId) {} events n with
      ⟨-, hs⟩ | ⟨event, hev, hn⟩
    · have hs : worldAt P vaultId events (n + 1) = worldAt P vaultId events n :=
        hs
      constructor
      · rw [hs]
        exact ih.sound
      intro i run id manifest hrun hst
      rw [hs] at hrun hst
      exact (ih.seen i run id manifest hrun hst).imp_left Covered.succ
    cases event with
    | snapshot input => exact worldSound_snapshot ih hn
    | startRetention policy now => exact worldSound_startRetention ih hn
    | retention i input => exact worldSound_retention ih hleaves hev hn

/-- As long as no run deletes what an upload needs, whatever the interleaving, every content that
a stored manifest names is in the bucket. -/
theorem contentsKept_of_leavesUploads (platform : RecoveryPlatform) (vaultId : JsString)
    (events : List RecoveryEvent) (hleaves : LeavesUploads platform vaultId events) (n : ℕ) :
    ContentsKept (worldAt platform vaultId events n).bucket :=
  (worldSound hleaves n).sound.kept

section Example

def newNote (limit : Option ℕ) (contents : List (JsString × JsString)) : SnapshotCall :=
  let doc : FileDoc :=
    { schemaVersion := some 2
      fileMeta := contents.foldl (fun files note =>
        files.put note.1 (some (.flat ⟨some note.1, false, none, none, none⟩))) .empty
      idToText := contents.foldl (fun texts note => texts.put note.1 (some (some note.2))) .empty
      pathToId := .empty }
  { doc
    text := readText doc
    indexSnapshot := none
    dirtyFileIds := []
    trustCleanIndex := false
    options := ⟨none, none, none, 1767225600000, fun _ => 0⟩
    contentUploadLimit := limit }

/-- A run that finds the objects there are and prunes what is unreferenced. -/
def pruneOnce (reads : List JsString) (deletes : ℕ) : List RecoveryEvent :=
  [.startRetention DEFAULT_RECOVERY_RETENTION 1767225600000, .retention 0 (.page none)] ++
    reads.map (fun id => .retention 0 (.read id)) ++
    List.replicate 4 (.retention 0 .advance) ++ [.retention 0 (.page none)] ++
    List.replicate deletes (.retention 0 .advance)

/-- A snapshot of one note, and then a run that deletes a content that nothing references. -/
def pruneAfterSnapshot : List RecoveryEvent :=
  [.snapshot (.call (newNote none [(js "a", js "one")])), .snapshot (.put 0),
    .snapshot .finishSlice] ++ List.replicate 4 (.snapshot .write) ++
    [.snapshot (.stray ⟨sha256Hex (js "two"), js "two"⟩)] ++
    pruneOnce [generateRecoveryManifestId 1767225600000 fun _ => 0] 2

/-- The events of a run that is alone with finished uploads. -/
def idleRun : { events : List RecoveryEvent // ∀ k < events.length,
    (worldAt asciiPlatform (js "v") events k).runs.length = 0 ∨
      (worldAt asciiPlatform (js "v") events k).room.unfinishedHashes = [] } :=
  ⟨pruneAfterSnapshot, by decide +kernel⟩

theorem idle_pruneAfterSnapshot : ∀ k < pruneAfterSnapshot.length,
    (worldAt asciiPlatform (js "v") pruneAfterSnapshot k).runs.length = 0 ∨
      (worldAt asciiPlatform (js "v") pruneAfterSnapshot k).room.unfinishedHashes = [] :=
  idleRun.property

theorem contentsKept_pruneAfterSnapshot :
    ContentsKept (worldAt asciiPlatform (js "v") pruneAfterSnapshot 18).bucket := by
  apply contentsKept_of_leavesUploads
  intro n i run hash hev _ _ k hk hi hh
  have hn : n < pruneAfterSnapshot.length := (List.getElem?_eq_some_iff.mp hev).1
  rcases idle_pruneAfterSnapshot k (by omega) with hno | hidle
  · omega
  rw [hidle] at hh
  cases hh

/-- A run between the two slices of a snapshot of two notes. -/
def pruneBetweenSlices : List RecoveryEvent :=
  let call := newNote (some 1) [(js "a", js "one"), (js "b", js "two")]
  [.snapshot (.call call), .snapshot (.put 0), .snapshot .finishSlice] ++ pruneOnce [] 1 ++
    [.snapshot (.call call), .snapshot (.put 0), .snapshot .finishSlice, .snapshot .write]

/-- The content of the first slice is gone, and the manifest that names it gets written. -/
theorem prune_between_slices_loses_content : ¬ ∀ platform vaultId events n,
    ContentsKept (worldAt platform vaultId events n).bucket := by
  intro h
  have hmis : (((worldAt asciiPlatform (js "v") pruneBetweenSlices 15).bucket.manifests.get?
      (generateRecoveryManifestId 1767225600000 fun _ => 0)).join.any fun manifest =>
        manifest.contentHashes.any fun hash =>
          hash ∉ (worldAt asciiPlatform (js "v") pruneBetweenSlices 15).bucket.contents.keys) =
      true := by
    decide +kernel
  obtain ⟨manifest, hman, hany⟩ := (Option.any_eq_true _ _).mp hmis
  obtain ⟨hash, hh, hg⟩ := List.any_eq_true.mp hany
  refine of_decide_eq_true hg ?_
  exact h asciiPlatform (js "v") pruneBetweenSlices 15 _ manifest (Option.join_eq_some_iff.mp hman)
    hash hh

end Example

end Kaos.Server
