import Kaos.Sync.BlobDownloadObserver
import Kaos.Sync.BlobIntentFence

/-! A remote reference stays queued until its path has it, or something says that it has not. -/
namespace Kaos.Sync

open Kaos.Lib BlobDownloads BlobPathWorld Option

section References

variable {ref ref' : BlobRef}

theorem sameBlobRef_some : sameBlobRef (some ref) (some ref') = true ↔
    ref.hash = ref'.hash ∧ ref.size = ref'.size ∧
      getBlobRefPriorHashes ref = getBlobRefPriorHashes ref' := by
  simp [sameBlobRef]

variable {other : Option BlobRef}

theorem sameBlobRef_some_left
    (h : sameBlobRef other (some ref) = true) : ∃ ref', other = some ref' ∧
      ref'.hash = ref.hash ∧ ref'.size = ref.size ∧
      getBlobRefPriorHashes ref' = getBlobRefPriorHashes ref := by
  cases other with
  | none => cases h
  | some ref' => exact ⟨ref', rfl, sameBlobRef_some.mp h⟩

theorem priorHashes_clone (ref : BlobRef) :
    getBlobRefPriorHashes { ref with priorHashes := getBlobRefPriorHashes ref } =
      getBlobRefPriorHashes ref := by
  by_cases h : ref.priorHashes.length > maxBlobRefPriorHashes ∨
      (ref.priorHashes.any fun hash => !isSha256Hex hash) = true
  · have hnil : getBlobRefPriorHashes ref = [] := if_pos h
    rw [hnil]
    rfl
  have hs : getBlobRefPriorHashes ref = ref.priorHashes.eraseDups := if_neg h
  have hg : ¬ (ref.priorHashes.eraseDups.length > maxBlobRefPriorHashes ∨
      (ref.priorHashes.eraseDups.any fun hash => !isSha256Hex hash) = true) := by
    rintro (hlong | hbad)
    · exact h (.inl (Nat.lt_of_lt_of_le hlong (length_eraseDups_le _)))
    obtain ⟨prior, hmem, hprior⟩ := List.any_eq_true.mp hbad
    exact h (.inr (List.any_eq_true.mpr ⟨prior, List.mem_eraseDups.mp hmem, hprior⟩))
  rw [hs, getBlobRefPriorHashes, if_neg hg, eraseDups_of_nodup (nodup_eraseDups _)]

theorem sameBlobRef_clone :
    sameBlobRef (cloneBlobRef other) (some ref) = sameBlobRef other (some ref) := by
  cases other with
  | none => rfl
  | some other => simp only [cloneBlobRef, map_some, sameBlobRef, priorHashes_clone]

end References

namespace DownloadPhase

/-- The local bytes, as a read has returned them. -/
def returned : DownloadPhase → Option (UploadSource × ExactSnapshot)
  | .reading _ (.artifact ..) _ => none
  | .reading source _ (.returned snapshot) => some (source, snapshot)
  | _ => none

/-- The attempt counts on the stage that it has found or made. -/
def keepsStage : DownloadPhase → Bool
  | .reading _ (.staged _) _ => true
  | .reading _ (.equality ..) _ => true
  | .stagingUnversioned staged => staged
  | .stagingEquality _ _ _ stage => stage.isSome
  | .finalizing .staged _ _ _ _ .refused => true
  | .finalizing .equality _ _ _ _ .refused => true
  | _ => false

/-- The reference that has been settled. -/
def settled : DownloadPhase → Option BlobRef
  | .finalizing _ _ _ ref _ .recorded => some ref
  | .finalizing _ _ _ ref _ .persisted => some ref
  | _ => none

end DownloadPhase

variable {sha : List UInt8 → JsString} {s s' : BlobDownloads} {i : ℕ}
  {a : DownloadAttempt} {result : DownloadResult} {phase : DownloadPhase} {w : DownloadWorld}

/-- The file at the path has the hash. -/
def DownloadWorld.HasHash (sha : List UInt8 → JsString) (w : DownloadWorld)
    (hash : JsString) : Prop :=
  ∃ file data, w.file = some file ∧ w.disk file = some data ∧ sha data = hash

/-- What an attempt knows about the path while nobody but itself changes it. -/
structure KnowsPath (sha : List UInt8 → JsString) (w : DownloadWorld)
    (phase : DownloadPhase) : Prop where
  held : ∀ source purpose data, phase.held = some (source, purpose, data) →
    w.disk source.file = some data
  returned : ∀ source snapshot, phase.returned = some (source, snapshot) →
    w.HasHash sha snapshot.hash
  stage : phase.keepsStage = true → w.stage.isSome = true
  settled : ∀ ref, phase.settled = some ref →
    w.HasHash sha ref.hash ∧ sameBlobRef w.settledRef (some ref) = true
  recording : ∀ ref sourceVersion, phase.recording = some (ref, sourceVersion) →
    sameBlobRef w.getBlobRef (some ref) = true ∧ w.getBlobSourceVersion = some sourceVersion

/-- The target is the reference. -/
def DownloadTarget.Is (target : DownloadTarget) (ref : BlobRef) : Prop :=
  target.hash = ref.hash ∧ (target.targetRefFingerprint = none ∨
    target.targetRefFingerprint = blobRefFingerprint (some ref))

/-- What the item downloads last is the path's reference. -/
structure DownloadItem.Heads (w : DownloadWorld) (item : DownloadItem) : Prop where
  rerun : item.needsRerun = item.next.isSome
  target : ∀ ref, w.getAuthoritativeDownloadRef = some ref → (item.next.getD item.target).Is ref

/-- The item leads to the path's reference, and it may be transferred. -/
structure LeadsOn (w : DownloadWorld) (generation : ℕ) (item : DownloadItem) : Prop where
  heads : item.Heads w
  pending : item.isProcessing = false → item.next = none
  generation_eq : item.generation = generation

/-- The queued item is the attempt's, and it leads on. -/
structure HasItem (s : BlobDownloads) (a : DownloadAttempt) : Prop extends s.Serving where
  queued : s.queued = some a.item
  syncable : s.world.isSyncable = true
  generation : a.generation = s.generation
  item : ∃ item, s.items[a.item]? = some item ∧ LeadsOn s.world s.generation item

/-- A record that no update and no attempt takes back. -/
def Persists (s : BlobDownloads) : Prop :=
  0 < s.permanentFailures ∨
    ∃ entry, s.world.attention = some entry ∧ entry.reason.isRemoteDelete = false

/-- How the attempt goes on: its item stays queued, the path is answered, or there is a record that
stays. -/
inductive Fine (sha : List UInt8 → JsString) (attempts : List DownloadAttempt)
    (generation i : ℕ) (a : DownloadAttempt) (s' : BlobDownloads) : Prop
  | persists (h : Persists s')
  | ready (phase : DownloadPhase) (attempts_eq : s'.attempts = attempts.set i { a with phase })
    (generation_eq : s'.generation = generation) (ready : HasItem s' a)
    (knows : phase.isOver = false → KnowsPath sha s'.world phase)
  | answers (phase : DownloadPhase) (attempts_eq : s'.attempts = attempts.set i { a with phase })
    (generation_eq : s'.generation = generation) (serving : s'.Serving)
    (ended : phase.isOver = true) (queued : s'.queued = none)
    (answers : s'.Answers sha)

section Queue

theorem KnowsPath.plain (hh : phase.held = none) (hret : phase.returned = none)
    (hs : phase.keepsStage = false) (hset : phase.settled = none)
    (hrec : phase.recording = none) : KnowsPath sha w phase := by
  constructor
  · intro _ _ _ h
    rw [hh] at h
    cases h
  · intro _ _ h
    rw [hret] at h
    cases h
  · intro h
    rw [hs] at h
    cases h
  · intro _ h
    rw [hset] at h
    cases h
  intro _ _ h
  rw [hrec] at h
  cases h

theorem answers_of_stage (h : s.world.stage.isSome = true) : s.Answers sha :=
  fun _ _ _ => .inr (.inr (.inl h))

theorem answers_of_absent (h : s.world.getAuthoritativeDownloadRef = none) : s.Answers sha := by
  intro ref _ href
  rw [h] at href
  cases href

/-- A live reference wins over a tombstone. -/
theorem getAuthoritativeDownloadRef_eq (w : DownloadWorld) :
    w.getAuthoritativeDownloadRef = w.live.map Prod.fst := by
  unfold DownloadWorld.getAuthoritativeDownloadRef isBlobTombstoned getBlobRef
  cases w.live with
  | none => exact ite_self _
  | some live => rfl

variable {generation : ℕ}

theorem isTransferCurrent_of_serving (h : s.Serving)
    (hgen : generation = s.generation) : s.isTransferCurrent generation = true := by
  simp [isTransferCurrent, h.destroyed, h.attentionAcceptInFlight, hgen]

theorem HasItem.isTransferCurrent (h : HasItem s a) : s.isTransferCurrent a.generation = true :=
  isTransferCurrent_of_serving h.toServing h.generation

variable {item : DownloadItem}

theorem DownloadItem.Heads.rerun_item (h : item.Heads w) : item.prepareDownloadRerun.Heads w := by
  refine ⟨rfl, fun ref href => ?_⟩
  have htgt := h.target ref href
  unfold DownloadItem.prepareDownloadRerun
  cases hn : item.next with rw [hn] at htgt
  | none | some next => exact htgt

variable {ref : BlobRef}

theorem DownloadItem.Heads.targets (h : item.Heads w)
    (href : w.getAuthoritativeDownloadRef = some ref) : (item.targets ref).Heads w := by
  unfold DownloadItem.targets
  split
  · next hany =>
    obtain ⟨next, hn, -⟩ := (any_eq_true ..).mp hany
    refine ⟨by rw [hn]; rfl, fun ref' href' => ?_⟩
    have htgt := h.target ref' href'
    exact htgt
  refine ⟨rfl, fun ref' href' => ?_⟩
  rw [href] at href'
  cases href'
  exact ⟨rfl, .inr rfl⟩

theorem targets_again (item : DownloadItem) (ref : BlobRef) :
    ((item.targets ref).needsRerun && (item.targets ref).next.isSome) = true := by
  unfold DownloadItem.targets
  split
  · next hany =>
    obtain ⟨next, hn, -⟩ := (any_eq_true ..).mp hany
    rw [hn]
    rfl
  · rfl

theorem getElem?_modifyItem {id : ℕ} (f : DownloadItem → DownloadItem)
    (h : s.items[id]? = some item) : (s.modifyItem id f).items[id]? = some (f item) := by
  change (s.items.modify id f)[id]? = _
  rw [List.getElem?_modify_eq, h]
  rfl

/-- An item that is changed leads where it led. -/
theorem HasItem.modify {f : DownloadItem → DownloadItem} (h : HasItem s a)
    (hf : ∀ item, s.items[a.item]? = some item → LeadsOn s.world s.generation item →
      LeadsOn s.world s.generation (f item)) :
    HasItem (s.modifyItem a.item f) a := by
  obtain ⟨item, hi, hleads⟩ := h.item
  obtain ⟨hheads, hp, hstamp⟩ := hf item hi hleads
  exact ⟨⟨h.downloadGateOpen, h.destroyed, h.attentionAcceptInFlight⟩, h.queued, h.syncable,
    h.generation, f item, getElem?_modifyItem f hi, hheads, hp, hstamp⟩

theorem LeadsOn.rerun_item (h : LeadsOn w generation item) :
    LeadsOn w generation item.prepareDownloadRerun :=
  ⟨h.heads.rerun_item, fun _ => rfl, h.generation_eq⟩

theorem HasItem.withWorld (h : HasItem s a) {w : DownloadWorld} (hl : w.live = s.world.live)
    (hgate : w.downloadGateOpen = s.world.downloadGateOpen)
    (hdes : w.destroyed = s.world.destroyed)
    (hacc : w.attentionAcceptInFlight = s.world.attentionAcceptInFlight)
    (hsyn : w.isSyncable = s.world.isSyncable) : HasItem (s.withWorld w) a := by
  obtain ⟨item, hi, ⟨hrerun, htgt⟩, hp, hstamp⟩ := h.item
  refine ⟨⟨hgate.trans h.downloadGateOpen, hdes.trans h.destroyed,
    hacc.trans h.attentionAcceptInFlight⟩, h.queued, hsyn.trans h.syncable, h.generation,
    item, hi, ⟨hrerun, fun ref href => htgt ref ?_⟩, hp, hstamp⟩
  rw [getAuthoritativeDownloadRef_eq] at href ⊢
  rw [← hl]
  exact href

variable {w : BlobPathWorld}

theorem HasItem.world (h : HasItem s a) (hl : w.live = s.world.live)
    (hdes : w.destroyed = s.world.destroyed)
    (hacc : w.attentionAcceptInFlight = s.world.attentionAcceptInFlight)
    (hsyn : w.isSyncable = s.world.isSyncable) :
    HasItem (s.withWorld (s.world.withPath w)) a :=
  h.withWorld hl rfl hdes hacc hsyn

theorem abort_serving (h : s.Serving) (stage : BlobSettlementStage) :
    (s.world.abortSettlementStage stage).live = s.world.live ∧
      (s.withWorld (s.world.withPath (s.world.abortSettlementStage stage))).Serving := by
  unfold abortSettlementStage
  split <;> exact ⟨rfl, h.downloadGateOpen, h.destroyed, h.attentionAcceptInFlight⟩

theorem HasItem.abort (h : HasItem s a) (stage : BlobSettlementStage) :
    HasItem (s.withWorld (s.world.withPath (s.world.abortSettlementStage stage))) a := by
  unfold abortSettlementStage
  split <;> exact h.world rfl rfl rfl rfl

theorem HasItem.prepare (h : HasItem s a) (kind : BlobSettlementStageKind) (ref : BlobRef)
    (sourceVersion : Option JsString) (stageId : JsString) :
    HasItem (s.withWorld (s.world.withPath
      (s.world.prepareSettlementStage kind ref sourceVersion stageId).2)) a := by
  unfold prepareSettlementStage
  split
  · split <;> exact h.world rfl rfl rfl rfl
  dsimp only
  split <;> exact h.world rfl rfl rfl rfl

theorem prepare_stage {stage : BlobSettlementStage}
    {kind : BlobSettlementStageKind} {sourceVersion : Option JsString} {stageId : JsString}
    (h : (w.prepareSettlementStage kind ref sourceVersion stageId).1 = some stage) :
    (w.prepareSettlementStage kind ref sourceVersion stageId).2.stage.isSome = true := by
  revert h
  unfold prepareSettlementStage
  split
  · next current hcur =>
    have hh : w.stage.isSome = true := congrArg Option.isSome hcur
    split <;> exact fun _ => hh
  dsimp only
  split
  · exact fun _ => rfl
  · exact nofun

end Queue

section Steps

variable {attempts : List DownloadAttempt} {generation : ℕ}

/-- The item stays queued. -/
theorem Fine.enter (h : HasItem s a) (hknows : phase.isOver = false → KnowsPath sha s.world phase) :
    Fine sha s.attempts s.generation i a (s.enter i a phase) :=
  .ready phase rfl rfl ⟨⟨h.downloadGateOpen, h.destroyed, h.attentionAcceptInFlight⟩, h.queued,
    h.syncable, h.generation, h.item⟩ hknows

theorem Fine.plain (h : HasItem s a) (hh : phase.held = none) (hret : phase.returned = none)
    (hs : phase.keepsStage = false) (hset : phase.settled = none)
    (hrec : phase.recording = none) :
    Fine sha s.attempts s.generation i a (s.enter i a phase) :=
  .enter h (fun _ => .plain hh hret hs hset hrec)

theorem Fine.end (h : HasItem s a) : Fine sha s.attempts s.generation i a (s.endAttempt i a) :=
  .enter h nofun

/-- The item is dropped, and the path is answered. -/
theorem Fine.drop (h : s.Serving) (hans : s.Answers sha) :
    Fine sha s.attempts s.generation i a (s.dropQueued.endAttempt i a) :=
  .answers .done rfl rfl ⟨h.downloadGateOpen, h.destroyed, h.attentionAcceptInFlight⟩ rfl rfl
    hans

theorem discard_item (h : HasItem s a) : s.discardDownloadItem a.item = s.dropQueued :=
  if_pos h.queued

theorem Fine.discard (h : HasItem s a) (hans : s.Answers sha) :
    Fine sha s.attempts s.generation i a
      ((s.discardDownloadItem a.item).endAttempt i a) := by
  rw [discard_item h]
  exact .drop h.toServing hans

theorem Fine.abort (h : HasItem s a) (stage : BlobSettlementStage) (after : AfterStage) :
    Fine sha s.attempts s.generation i a (s.abort i a stage after) :=
  .plain (s := s.withWorld (s.world.withPath (s.world.abortSettlementStage stage)))
    (h.abort stage) rfl rfl rfl rfl rfl

section

variable (h : HasItem s a) (hdefer : s.deferSupersededDownload a = some s')
include h hdefer

/-- An attempt that has been superseded keeps its item queued, or there is nothing to download. -/
theorem hasItem_defer :
    s'.attempts = s.attempts ∧ s'.generation = s.generation ∧
      (HasItem s' a ∨ s' = s.dropQueued ∧ s.world.getAuthoritativeDownloadRef = none) := by
  have hrerun : HasItem (s.modifyItem a.item DownloadItem.prepareDownloadRerun) a :=
    h.modify (fun _ _ h => h.rerun_item)
  obtain ⟨item, hi, hleads⟩ := h.item
  unfold deferSupersededDownload at hdefer
  split at hdefer
  · cases hdefer
  · next hnot =>
    rw [← some.inj hdefer]
    cases href : s.world.getAuthoritativeDownloadRef with
    | none =>
      have hret : s.retarget a = s := by
        rw [retarget, href]
      rw [hret]
      split
      · exact ⟨rfl, rfl, .inl hrerun⟩
      rw [discard_item h]
      exact ⟨rfl, rfl, .inr ⟨rfl, rfl⟩⟩
    | some ref =>
      -- the attempt has no authority, so its item is to download something else
      by_cases hh : ref.hash = a.attemptHash
      · have hret : s.retarget a = s := by
          rw [retarget, href]
          exact if_neg (not_not.mpr hh)
        rw [hret, hi, any_some, hleads.heads.rerun, Bool.and_self]
        split
        · exact ⟨rfl, rfl, .inl hrerun⟩
        · next hn =>
          rw [Bool.not_eq_true, isSome_eq_false_iff, isNone_iff_eq_none] at hn
          have htgt := hleads.heads.target ref href
          rw [hn, getD_none] at htgt
          refine absurd ?_ hnot
          have hs : item.needsRerun = false := by
            rw [hleads.heads.rerun, hn]
            rfl
          simp only [isDownloadAttemptAuthoritative, h.downloadGateOpen, hi,
            any_some, isTransferCurrent_of_serving h.toServing hleads.generation_eq, hs,
            hn, all_none, href, Bool.true_and, Bool.not_false, Bool.and_true,
            Bool.and_eq_true, Bool.or_eq_true, decide_eq_true_eq, isNone_iff_eq_none]
          exact ⟨hh, htgt.2.imp_right Eq.symm⟩
      have hret : s.retarget a = s.modifyItem a.item (·.targets ref) := by
        rw [retarget, href]
        exact if_pos hh
      have ht := getElem?_modifyItem (·.targets ref) hi
      rw [hret, ht, any_some, if_pos (targets_again item ref)]
      refine ⟨rfl, rfl, .inl ⟨⟨h.downloadGateOpen, h.destroyed, h.attentionAcceptInFlight⟩,
        h.queued, h.syncable, h.generation, _, getElem?_modifyItem _ ht, ?_, fun _ => rfl,
        ?_⟩⟩
      · exact (hleads.heads.targets href).rerun_item
      · exact hleads.generation_eq

/-- The attempt makes way for the reference that is there now. -/
theorem Fine.deferred : Fine sha s.attempts s.generation i a (s'.endAttempt i a) := by
  obtain ⟨hatts, hgen, hi | ⟨rfl, hab⟩⟩ := hasItem_defer h hdefer
  · rw [← hatts, ← hgen]
    exact .end hi
  · exact .drop h.toServing (answers_of_absent hab)

theorem Fine.abortDeferred (stage : BlobSettlementStage) :
    Fine sha s.attempts s.generation i a (s'.abort i a stage .ended) := by
  obtain ⟨hatts, hgen, hi | ⟨rfl, hab⟩⟩ := hasItem_defer h hdefer
  · rw [← hatts, ← hgen]
    exact .abort hi stage .ended
  obtain ⟨hl, ⟨hgate, hdes, hacc⟩⟩ := abort_serving h.toServing stage
  refine .answers (.aborting .ended (some stage)) rfl rfl ⟨hgate, hdes, hacc⟩ rfl rfl
    (answers_of_absent ?_)
  rw [getAuthoritativeDownloadRef_eq] at hab ⊢
  exact (congrArg _ hl).trans hab

end

variable {item : DownloadItem}

theorem next_none_of_authoritative
    (h : s.isDownloadAttemptAuthoritative a = true) (hi : s.items[a.item]? = some item)
    (hrerun : item.needsRerun = item.next.isSome) : item.next = none := by
  simp only [isDownloadAttemptAuthoritative, hi, any_some,
    Bool.and_eq_true, Bool.not_eq_true', hrerun] at h
  exact isNone_iff_eq_none.mp (isSome_eq_false_iff.mp h.2.1.1.1.2)

/-- A failure lets the item be tried again, or it is counted. -/
theorem fail_cases (hcur : s.isTransferCurrent a.generation = true)
    (hi : s.items[a.item]? = some item) :
    (∃ f, (LeadsOn s.world s.generation item → LeadsOn s.world s.generation (f item)) ∧
      s.fail i a result = (s.modifyItem a.item f).endAttempt i a) ∨
      Persists (s.fail i a result) := by
  unfold fail
  rw [hcur, hi]
  simp only [Bool.not_true, Bool.false_eq_true, if_false]
  split
  · exact .inl ⟨_, fun h => h.rerun_item, rfl⟩
  · next hagain =>
    have hn : LeadsOn s.world s.generation item → item.next = none := by
      intro h
      rw [h.heads.rerun, Bool.and_self, Bool.not_eq_true, isSome_eq_false_iff,
        isNone_iff_eq_none] at hagain
      exact hagain
    split
    · exact .inl ⟨fun item =>
        { item with
          retries := item.retries + 1, isProcessing := false
          readyAt := result.now + BlobUploads.retryBaseMs * 4 ^ item.retries },
        fun h => ⟨⟨h.heads.rerun, h.heads.target⟩, fun _ => hn h, h.generation_eq⟩, rfl⟩
    split
    · exact .inl ⟨fun item =>
        { item.prepareDownloadRerun with rerunResets := item.rerunResets + 1 },
        fun h => ⟨⟨rfl, h.rerun_item.heads.target⟩, fun _ => rfl, h.generation_eq⟩, rfl⟩
    split
    · exact .inl ⟨fun item =>
        { item with
          isProcessing := false, retries := 0
          readyAt := result.now + BlobUploads.retryCycleCooldownMs },
        fun h => ⟨⟨h.heads.rerun, h.heads.target⟩, fun _ => hn h, h.generation_eq⟩, rfl⟩
    · exact .inr (.inl (Nat.succ_pos _))

theorem Fine.fail (h : HasItem s a) : Fine sha s.attempts s.generation i a (s.fail i a result) := by
  obtain ⟨item, hi, hleads⟩ := h.item
  rcases @fail_cases _ i _ result _ h.isTransferCurrent hi with
    ⟨f, hf, heq⟩ | hper
  · rw [heq]
    refine .end (h.modify ?_)
    intro item' hi' hleads'
    rw [hi] at hi'
    cases hi'
    exact hf hleads'
  · exact .persists hper

variable {download : StagedDownload} {source : UploadSource} {purpose : DownloadRead}
  {read read' : ExactRead} {stage : BlobSettlementStage} {after : AfterFinalize}

section

variable (h : HasItem s a)
include h

theorem Fine.startRead
    (hstage : (DownloadPhase.reading source purpose .pending).keepsStage = true →
      s.world.stage.isSome = true) :
    Fine sha s.attempts s.generation i a (s.startRead i a source purpose) := by
  refine .enter h (fun _ => ⟨?_, ?_, ?_, (absent rfl), (absent₂ rfl)⟩)
  · intro _ _ _ hh
    split at hh <;> cases hh
  · intro _ _ hret
    split at hret <;> cases purpose <;> cases hret
  intro hk
  refine hstage ?_
  cases purpose with
  | staged => rfl
  | equality => rfl
  | _ => split at hk <;> cases hk

theorem Fine.startAdmission : Fine sha s.attempts s.generation i a (s.startAdmission i a) := by
  unfold BlobDownloads.startAdmission
  dsimp only
  split
  · next hout =>
    refine .drop h.toServing (fun _ hin _ => ?_)
    rw [hin] at hout
    cases hout
  split
  · next he =>
    split
    · next hset =>
      refine .discard h (fun _ _ _ => .inr (.inr (.inr (.inr ⟨?_, ?_⟩))))
      · simp only [DownloadWorld.captureAdmission, getSettledRef] at hset
        split at hset
        · cases hset
        · simpa [cloneBlobRef] using hset
      · exact map_eq_none_iff.mp he
    · exact .plain h rfl rfl rfl rfl rfl
  · exact .startRead h (by rintro ⟨⟩)

variable {localHash : JsString}

theorem Fine.startArtifact (left : ℕ) : Fine sha s.attempts s.generation i a
      (s.startArtifact i a result download localHash left) := by
  induction left with
  | zero => exact .fail h
  | succ left ih =>
    simp only [BlobDownloads.startArtifact]
    split
    · exact .startRead h (by rintro ⟨⟩)
    · exact ih
    split
    · exact .plain h rfl rfl rfl rfl rfl
    · exact .fail h

theorem Fine.finishArtifact {left : ℕ} : Fine sha s.attempts s.generation i a
      (s.finishArtifact i a result localHash left) := by
  unfold BlobDownloads.finishArtifact
  split
  · next s' hdefer => exact .deferred h hdefer
  have hk := keeps_discard (s.quarantineDownloadConflict i a result localHash left) a.item
  exact .persists (.inr ⟨_, congrArg (·.attention) hk.world, rfl⟩)

theorem Fine.afterStage (after : AfterStage) :
    Fine sha s.attempts s.generation i a (s.afterStage i a result after) := by
  cases after with simp only [BlobDownloads.afterStage]
  | startAdmission => exact .startAdmission h
  | ended => exact .end h
  | fail => exact .fail h
  | defer =>
    cases hdefer : s.deferSupersededDownload a with
    | none => exact .end h
    | some s' => exact .deferred h hdefer
  | deferOrFail =>
    split
    · next hdefer => exact .deferred h hdefer
    · exact .fail h
  | deferOrWait =>
    split
    · next hdefer => exact .deferred h hdefer
    · next hdefer =>
      have hwaits : HasItem (s.modifyItem a.item fun item =>
          { item with isProcessing := false, readyAt := 0 }) a := by
        refine h.modify ?_
        intro item hi h
        refine ⟨⟨h.heads.rerun, h.heads.target⟩, fun _ => ?_, h.generation_eq⟩
        change item.next = none
        exact next_none_of_authoritative (authoritative_of_defer hdefer) hi h.heads.rerun
      exact .end hwaits
  | conflict download localHash =>
    split
    · next hdefer => exact .deferred h hdefer
    rw [h.isTransferCurrent, if_pos rfl]
    exact .startArtifact h 100

theorem Fine.complete (hans : s.Answers sha) :
    Fine sha s.attempts s.generation i a (s.complete i a) := by
  unfold BlobDownloads.complete
  split
  · exact .end (h.modify (fun _ _ h => h.rerun_item))
  · exact .discard h hans

theorem Fine.afterFinalize {isFinal : Bool}
    (hans : isFinal = true ∨ after = .staged ∨ after = .equality → s.Answers sha) :
    Fine sha s.attempts s.generation i a (s.afterFinalize i a stage isFinal after) := by
  cases after with
  | equality => exact .discard h (hans (.inr (.inr rfl)))
  | staged =>
    simp only [afterFinalize]
    split
    · exact .complete h (hans (.inr (.inl rfl)))
    · exact .discard h (hans (.inr (.inl rfl)))
  | settled =>
    simp only [afterFinalize]
    split
    · next hf => exact .complete h (hans (.inl hf))
    · exact .abort h stage .deferOrFail
  | race =>
    simp only [afterFinalize]
    split
    · next hf => exact .complete h (hans (.inl hf))
    · exact .abort h stage .ended

end

theorem hash_of_authoritative (h : s.isDownloadAttemptAuthoritative a = true) :
    ∃ ref, s.world.getBlobRef = some ref ∧ ref.hash = a.attemptHash := by
  simp only [isDownloadAttemptAuthoritative, Bool.and_eq_true, any_eq_true] at h
  obtain ⟨-, item, -, ⟨-, ref, href, hh⟩, -⟩ := h
  rw [getAuthoritativeDownloadRef_eq] at href
  exact ⟨ref, href, of_decide_eq_true hh⟩

section

variable (h : HasItem s a)
include h

variable {hash : JsString}

/-- Bytes that are the attempt's are settled as those of the reference. -/
theorem Fine.finalize {ref : BlobRef}
    {sourceVersion : JsString} (hauth : s.isDownloadAttemptAuthoritative a = true)
    (hh : s.world.HasHash sha a.attemptHash)
    (hs : after = .staged ∨ after = .equality → s.world.stage.isSome = true) :
    Fine sha s.attempts s.generation i a (s.finalize i a after hash stage ref sourceVersion) := by
  unfold BlobDownloads.finalize finalizeSettlementStage
  split
  next finalization world hfin =>
  split at hfin
  · cases hfin
    refine .enter (s := s.withWorld (s.world.withPath s.world.toBlobPathWorld))
      (h.world rfl rfl rfl rfl) (fun _ => ⟨(absent₃ rfl), (absent₂ rfl), ?_, (absent rfl), ?_⟩)
    · intro hk
      cases after with
      | staged => exact hs (.inl rfl)
      | equality => exact hs (.inr rfl)
      | _ => cases hk
    · intro _ _ h
      cases after <;> cases h
  · next hc =>
    split at hfin <;> cases hfin
    · refine .plain (s := s.withWorld (s.world.withPath s.world.toBlobPathWorld))
        (h.world rfl rfl rfl rfl) rfl rfl ?_ rfl ?_ <;> cases after <;> rfl
    simp only [Bool.or_eq_true, not_or, Bool.not_eq_true, Bool.not_eq_false',
      decide_eq_true_eq, not_not] at hc
    obtain ⟨⟨⟨-, href⟩, hver⟩, -⟩ := hc
    obtain ⟨ref', href', hatt⟩ := hash_of_authoritative hauth
    obtain ⟨live, hl, hsa, -⟩ := sameBlobRef_some_left href
    have heq : a.attemptHash = ref.hash := by
      rw [href'] at hl
      cases hl
      exact hatt.symm.trans hsa
    have hi : HasItem (s.withWorld (s.world.withPath
        { s.world.toBlobPathWorld with
          settledRef := cloneBlobRef (some ref), settledSourceVersion := some sourceVersion
          stage := none })) a := h.world rfl rfl rfl rfl
    refine @Fine.enter sha _ i a
      (.finalizing after hash stage ref sourceVersion .recorded) hi
      (fun _ => ⟨(absent₃ rfl), (absent₂ rfl), ?_, ?_, ?_⟩)
    · intro hk
      cases after <;> cases hk
    · intro ref'' h
      cases h
      refine ⟨heq ▸ hh, ?_⟩
      change sameBlobRef (cloneBlobRef (some ref)) (some ref) = true
      rw [sameBlobRef_clone]
      exact sameBlobRef_some.mpr ⟨rfl, rfl, rfl⟩
    intro ref'' version h
    have hpair : (ref, sourceVersion) = (ref'', version) := by
      cases after <;> cases h <;> rfl
    cases hpair
    exact ⟨href, hver⟩

theorem Fine.record (hhash : s.world.HasHash sha a.attemptHash)
    (hstage : after = .staged ∨ after = .equality → s.world.stage.isSome = true) :
    Fine sha s.attempts s.generation i a
      (s.recordAuthoritativeDownloadSettlement i a after hash stage) := by
  have hg : Fine sha s.attempts s.generation i a
      (s.afterFinalize i a stage false after) := by
    refine .afterFinalize h ?_
    rintro (h | h)
    · cases h
    · exact answers_of_stage (hstage h)
  unfold recordAuthoritativeDownloadSettlement
  split
  · next hauth =>
    split
    · exact .finalize h (attempt_of_stage hauth) hhash hstage
    · exact hg
  · exact hg

theorem Fine.afterReplacement :
    Fine sha s.attempts s.generation i a (s.afterReplacement i a download) :=
  .abort h _ _

theorem Fine.afterRestore (after : AfterRestore) :
    Fine sha s.attempts s.generation i a (s.afterRestore i a download after) := by
  cases after with
  | superseded | createFailed => exact .abort h _ _

theorem Fine.restore {prior : CleanPrior} {after : AfterRestore} :
    Fine sha s.attempts s.generation i a
      (s.restoreRemoteOverwriteBackup i a download prior after) := by
  unfold restoreRemoteOverwriteBackup
  split
  · exact .plain h rfl rfl rfl rfl rfl
  · exact .afterRestore h after

theorem Fine.resolveCreateRace :
    Fine sha s.attempts s.generation i a
      (s.resolveCreateRaceConflict i a download) := by
  unfold resolveCreateRaceConflict
  split
  · exact .abort h _ _
  · exact .startRead h nofun

theorem Fine.afterBackupRefused (purpose : BackupPurpose) :
    Fine sha s.attempts s.generation i a
      (s.afterBackupRefused i a download purpose) := by
  cases purpose with
  | replace prior => exact .afterReplacement h
  | retire prior generation backupPath => exact .abort h _ _

theorem Fine.afterBackup (purpose : BackupPurpose) :
    Fine sha s.attempts s.generation i a (s.afterBackup i a download purpose) := by
  cases purpose with
  | replace prior =>
    simp only [BlobDownloads.afterBackup]
    split
    · exact .restore h
    split
    · exact .abort h _ _
    · exact .plain h rfl rfl rfl rfl rfl
  | retire prior generation backupPath =>
    cases prior with
    | none => exact .abort h _ _
    | some prior =>
      simp only [BlobDownloads.afterBackup]
      split
      · exact .restore h
      · exact .abort h _ _

theorem Fine.afterRead {snapshot : Option ExactSnapshot}
    (hknows : KnowsPath sha s.world (.reading source purpose read))
    (hr : snapshot = none ∨ ∃ exact, snapshot = some exact ∧ read = .returned exact) :
    Fine sha s.attempts s.generation i a
      (s.afterRead i a result source purpose snapshot) := by
  have hh : (∀ download localHash left, purpose ≠ .artifact download localHash left) →
      ∀ hash, snapshot.map (·.hash) = some hash → s.world.HasHash sha hash := by
    intro hl hash hs
    rcases hr with rfl | ⟨exact, rfl, rfl⟩
    · cases hs
    cases hs
    refine hknows.returned source exact ?_
    cases purpose with
    | artifact download localHash left => exact absurd rfl (hl download localHash left)
    | _ => rfl
  cases purpose with simp only [BlobDownloads.afterRead]
  | staged stage =>
    split
    · next hm =>
      exact .record h (hh (by rintro _ _ _ ⟨⟩) _ hm.1) (fun _ => hknows.stage rfl)
    · exact .discard h (answers_of_stage (hknows.stage rfl))
  | initial admission =>
    split
    · split
      · next hdefer => exact .deferred h hdefer
      split
      · next hab => exact .discard h (answers_of_absent hab)
      · next target _ =>
        have hi := h.prepare .equality target s.world.getBlobSourceVersion result.stageId
        split
        all_goals
          exact .enter hi (fun _ => ⟨(absent₃ rfl), (absent₂ rfl),
            (fun hstaged => by
              obtain ⟨stage, hsg⟩ := isSome_iff_exists.mp hstaged
              exact prepare_stage hsg),
            (absent rfl), (absent₂ rfl)⟩)
    · exact .plain h rfl rfl rfl rfl rfl
  | equality target sourceVersion stage =>
    split
    · next hm =>
      exact .finalize h hm.2 (hh (by rintro _ _ _ ⟨⟩) _ hm.1) (fun _ => hknows.stage rfl)
    · exact .abort h _ _
  | backup download purpose => exact .afterBackupRefused h purpose
  | created download prior =>
    split
    · next hm =>
      split
      · refine .record h (hh (by rintro _ _ _ ⟨⟩) _ hm) ?_
        rintro (h | h) <;> cases h
      split
      · exact .fail h
      · exact .startRead h (by rintro ⟨⟩)
    · split
      · exact .resolveCreateRace h
      · exact .afterReplacement h
  | race download =>
    split
    · exact .abort h _ _
    · next hash hs =>
      split
      · next hm =>
        refine .record h (hh (by rintro _ _ _ ⟨⟩) _ (hm ▸ hs)) ?_
        rintro (h | h) <;> cases h
      · exact .abort h _ _
  | artifact download localHash left =>
    split
    · exact .finishArtifact h
    · exact .startArtifact h _

theorem Fine.readFailed (purpose : DownloadRead) :
    Fine sha s.attempts s.generation i a (s.readFailed i a result purpose) := by
  cases purpose with
  | backup download purpose =>
    cases purpose with
    | replace prior => exact .abort h _ _
    | retire prior generation backupPath => exact .fail h
  | _ => exact .fail h

variable {before : Option JsString}

theorem Fine.stageDownload {admission : DownloadAdmission} {data : List UInt8} :
    Fine sha s.attempts s.generation i a (s.stageDownload i a result admission before data) := by
  unfold BlobDownloads.stageDownload
  split
  · next hdefer => exact .deferred h hdefer
  split
  · next hab => exact .discard h (answers_of_absent hab)
  · next target _ =>
    have hi := h.prepare .download target s.world.getBlobSourceVersion result.stageId
    refine .enter hi (fun _ => ?_)
    split
    · refine ⟨(absent₃ rfl), (absent₂ rfl), ?_, (absent rfl), (absent₂ rfl)⟩
      intro hstaged
      obtain ⟨stage, hs⟩ := isSome_iff_exists.mp hstaged
      exact prepare_stage hs
    · exact .plain rfl rfl rfl rfl rfl

theorem Fine.createMissing :
    Fine sha s.attempts s.generation i a (s.createMissing i a download) := by
  unfold BlobDownloads.createMissing
  rw [h.isTransferCurrent, Bool.not_true, if_neg Bool.false_ne_true]
  split
  · next hdefer => exact .abortDeferred h hdefer _
  · exact .plain h rfl rfl rfl rfl rfl

theorem Fine.install : Fine sha s.attempts s.generation i a
      (s.installDownload i a result download before) := by
  unfold installDownload
  split
  · exact .abort h _ _
  split
  · split
    · exact .abort h _ _
    split
    · split
      · exact .abort h _ _
      · exact .startRead h nofun
    · exact .abort h _ _
  split
  · rw [h.isTransferCurrent, if_pos rfl]
    exact .plain h rfl rfl rfl rfl rfl
  · exact .createMissing h

theorem Fine.createFailed (prior : Option CleanPrior) :
    Fine sha s.attempts s.generation i a
      (s.createFailed i a result download prior) := by
  cases prior with simp only [BlobDownloads.createFailed]
  | some prior =>
    split
    · exact .afterReplacement h
    split
    · exact .restore h
    · exact .afterRestore h _
  | none =>
    split
    · exact .resolveCreateRace h
    · exact .abort h _ _

end

theorem keepsStage_reading :
    (DownloadPhase.reading source purpose read).keepsStage =
      (DownloadPhase.reading source purpose read').keepsStage := by
  cases purpose <;> rfl

theorem Fine.waits (h : HasItem s a) (hknows : KnowsPath sha s.world (.reading source purpose read))
    {isCurrent rejected : Bool} (hr : read.resume isCurrent rejected = .waits read') :
    Fine sha s.attempts s.generation i a
      (s.enter i a (.reading source purpose read')) := by
  obtain ⟨hnot, -⟩ := ExactRead.resume_waits hr
  refine .enter h (fun _ => ⟨?_, ?_, ?_, (absent rfl), (absent₂ rfl)⟩)
  · intro source' purpose' data hph
    exact hknows.held source' purpose' data (held_of_waits hr hph)
  · intro source' snapshot hret
    cases read' with
    | returned snapshot => exact absurd rfl (hnot snapshot)
    | _ => cases purpose <;> cases hret
  intro hk
  exact hknows.stage (keepsStage_reading.trans hk)

theorem Fine.verified (h : HasItem s a) {data : List UInt8}
    (hknows : KnowsPath sha s.world (.reading source purpose (.hashing data)))
    (hcur : s.world.isReadCurrent source purpose = true) :
    Fine sha s.attempts s.generation i a (s.enter i a (.reading source purpose
      (.returned ⟨sha data, data, .refused false false⟩))) := by
  have hd := hknows.held source purpose data rfl
  refine .enter h (fun _ => ⟨(absent₃ rfl), ?_, ?_, (absent rfl), (absent₂ rfl)⟩)
  · intro source' snapshot hret
    have hl : s.world.isIdentityCurrent source = true ∧ source' = source ∧
        snapshot.hash = sha data := by
      cases purpose with
      | artifact => cases hret
      | _ =>
        cases hret
        exact ⟨hcur, rfl, rfl⟩
    obtain ⟨hiden, rfl, hh⟩ := hl
    simp only [isIdentityCurrent, Bool.and_eq_true, decide_eq_true_eq] at hiden
    exact ⟨source'.file, data, hiden.1.2, hd, hh.symm⟩
  · intro hk
    exact hknows.stage (keepsStage_reading.trans hk)

/-- A settled reference that is still the path's is what the path has. -/
theorem answers_of_settled {ref : BlobRef}
    (hsettle : s.world.HasHash sha ref.hash ∧ sameBlobRef s.world.settledRef (some ref) = true)
    (hl : sameBlobRef s.world.getBlobRef (some ref) = true) : s.Answers sha := by
  intro ref' _ href'
  cases hs : s.world.stage with
  | some stage => exact .inr (.inr (.inl (congrArg Option.isSome hs)))
  | none =>
    rw [getAuthoritativeDownloadRef_eq] at href'
    obtain ⟨live, heq, hh, hsz, hpriors⟩ := sameBlobRef_some_left hl
    have hl' : live = ref' := some.inj (heq.symm.trans href')
    subst hl'
    obtain ⟨settled, hso, hsettledHash, hsettledSize, hset⟩ := sameBlobRef_some_left hsettle.2
    refine .inl ⟨?_, ?_⟩
    · rw [hh]
      exact hsettle.1
    simp only [getSettledRef, hs, hso, sameBlobRef_clone, isSome_none, Bool.false_eq_true, if_false]
    exact sameBlobRef_some.mpr ⟨hsettledHash.trans hh.symm, hsettledSize.trans hsz.symm,
      hset.trans hpriors.symm⟩

section

variable (ha : s.attempts[i]? = some a) (h : HasItem s a)
  (hknows : KnowsPath sha s.world a.phase)
include ha h hknows

/-- Nothing happens to the attempt. -/
theorem Fine.same : Fine sha s.attempts s.generation i a s := by
  obtain ⟨hi, rfl⟩ := List.getElem?_eq_some_iff.mp ha
  exact .ready _ (List.set_getElem_self hi).symm rfl h (fun _ => hknows)

/-- The end of an await. -/
theorem Fine.resume : Fine sha s.attempts s.generation i a (s.resumeAttempt i a result sha) := by
  have hsa := Fine.same ha h hknows
  cases hph : a.phase with simp only [resumeAttempt, hph]
  | aborting after stage =>
    split
    · exact .fail h
    · exact .afterStage h after
  | reading source purpose read =>
    rw [hph] at hknows
    split
    · next read' hr => exact .waits h hknows hr
    · next data hr =>
      obtain ⟨rfl, hcur⟩ := ExactRead.resume_verified hr
      split
      · split
        · exact .plain h rfl rfl rfl rfl rfl
        · exact .verified h hknows hcur
      · exact .verified h hknows hcur
    · exact .readFailed h purpose
    · next snapshot hr => exact .afterRead h hknows (ExactRead.resume_returned hr)
  | stagingUnversioned staged =>
    rw [hph] at hknows
    split
    · next hstaged =>
      rw [Bool.and_eq_true] at hstaged
      exact .discard h (answers_of_stage (hknows.stage hstaged.1))
    · exact .fail h
  | stagingEquality source target sourceVersion stage =>
    rw [hph] at hknows
    split
    · exact .fail h
    · next stage' hs =>
      refine .startRead h (fun _ => hknows.stage ?_)
      rw [(filter_eq_some_iff.mp hs).1]
      rfl
  | downloading admission before =>
    split
    · exact .fail h
    · exact .plain h rfl rfl rfl rfl rfl
  | hashing admission before data =>
    split
    · exact .fail h
    · exact .stageDownload h
  | stagingDownload admission before data stage =>
    split
    · exact .fail h
    · exact .install h
  | creatingFolder download =>
    split
    · exact .abort h _ _
    · exact .createMissing h
  | creating download prior created =>
    split
    · exact .createFailed h prior
    · exact .startRead h (by rintro ⟨⟩)
  | moving download source purpose =>
    split
    · exact .afterBackup h purpose
    cases purpose with
    | replace prior =>
      dsimp only
      split
      · exact .abort h _ _
      · exact .afterBackupRefused h _
    | retire prior generation backupPath => exact .afterBackupRefused h _
  | restoreReading download prior after sample =>
    cases sample with
    | none => exact hsa
    | some sample =>
      cases sample with
      | none => exact .afterRestore h after
      | some data =>
        dsimp only
        split
        · exact .plain h rfl rfl rfl rfl rfl
        · exact .afterRestore h after
  | restoreCreating download after data created => exact .afterRestore h after
  | creatingArtifact download localHash left created =>
    split
    · exact .plain h rfl rfl rfl rfl rfl
    split
    · exact .startArtifact h _
    · exact .fail h
  | cachingArtifact download localHash left =>
    split
    · exact .finishArtifact h
    split
    · exact .startArtifact h _
    · exact .fail h
  | finalizing after hash stage ref sourceVersion finalization =>
    rw [hph] at hknows
    cases finalization with
    | refused =>
      refine .afterFinalize h ?_
      rintro (hf | hd)
      · cases hf
      refine answers_of_stage (hknows.stage ?_)
      rcases hd with rfl | rfl <;> rfl
    | rejected => exact .fail h
    | recorded =>
      dsimp only
      split
      · exact .fail h
      refine .enter h (fun _ => ⟨(absent₃ rfl), (absent₂ rfl), ?_, hknows.settled, ?_⟩)
      · intro hk
        cases after <;> cases hk
      intro ref' version hrec
      refine hknows.recording ref' version ?_
      cases after <;> exact hrec
    | persisted =>
      refine .afterFinalize h (fun hends => answers_of_settled (hknows.settled ref rfl) ?_)
      rcases hends with hf | rfl | rfl
      · rw [Bool.and_eq_true] at hf
        exact hf.1
      · exact (hknows.recording ref sourceVersion rfl).1
      · exact (hknows.recording ref sourceVersion rfl).1
  | done => exact hsa

/-- The bytes of a read. -/
theorem Fine.sampleRead : Fine sha s.attempts s.generation i a (s.sampleRead i a) := by
  unfold BlobDownloads.sampleRead
  split
  · next source purpose hph =>
    rw [hph] at hknows
    refine .enter h (fun _ => ⟨?_, ?_, ?_, (absent rfl), (absent₂ rfl)⟩)
    · intro source' purpose' data hh
      cases hd : s.world.disk source.file with rw [hd] at hh
      | none => cases hh
      | some data' =>
        cases hh
        exact hd
    · intro source' snapshot hret
      cases purpose <;> cases hret
    intro hk
    exact hknows.stage (keepsStage_reading.trans hk)
  · exact .plain h rfl rfl rfl rfl rfl
  · exact .same ha h hknows

/-- A call of the vault takes effect. -/
theorem Fine.applyCall {file : ℕ} {stat : ℕ × ℕ} :
    Fine sha s.attempts s.generation i a (s.applyCall i a file stat) := by
  have hs := Fine.same ha h hknows
  unfold BlobDownloads.applyCall
  split
  · next download prior hph =>
    split
    · have hi : HasItem (s.withWorld (s.world.createBinary file stat download.data)) a :=
        h.withWorld rfl rfl rfl rfl rfl
      exact .ready _ rfl rfl ⟨⟨hi.downloadGateOpen, hi.destroyed,
        hi.attentionAcceptInFlight⟩, hi.queued, hi.syncable, hi.generation,
        hi.item⟩
        (fun _ => .plain rfl rfl rfl rfl rfl)
    · exact hs
  · next download after data hph =>
    split
    · have hi : HasItem (s.withWorld (s.world.createBinary file stat data)) a :=
        h.withWorld rfl rfl rfl rfl rfl
      exact .plain hi rfl rfl rfl rfl rfl
    · exact hs
  · next download source purpose hph =>
    split
    · have hi : HasItem (s.withWorld (s.world.moveToBackup source.file purpose.backupPath)) a :=
        h.withWorld rfl rfl rfl rfl rfl
      refine .same (s := s.withWorld (s.world.moveToBackup source.file purpose.backupPath)) ha
        hi ?_
      rw [hph]
      exact .plain rfl rfl rfl rfl rfl
    · exact hs
  · next download localHash left hph =>
    split
    · have hi : HasItem (s.withWorld
          { s.world with
            artifact := Function.update s.world.artifact left (some (some file))
            stat := Function.update s.world.stat file stat
            disk := Function.update s.world.disk file (some download.data) }) a :=
        h.withWorld rfl rfl rfl rfl rfl
      exact .ready _ rfl rfl ⟨⟨hi.downloadGateOpen, hi.destroyed,
        hi.attentionAcceptInFlight⟩, hi.queued, hi.syncable, hi.generation,
        hi.item⟩
        (fun _ => .plain rfl rfl rfl rfl rfl)
    · exact hs
  · exact hs

end

/-- The part of an attempt up to its first await. -/
theorem Fine.process {id : ℕ} (h : HasItem (s.start id item) (item.startAttempt id)) :
    Fine sha (s.start id item).attempts (s.start id item).generation
      s.attempts.length (item.startAttempt id) (s.processDownload id item) := by
  have hsf : (s.start id item).attempts =
      (s.start id item).attempts.set s.attempts.length (item.startAttempt id) := by
    have hl : (s.start id item).attempts[s.attempts.length]? = some (item.startAttempt id) :=
      List.getElem?_concat_length
    obtain ⟨hlen, heq⟩ := List.getElem?_eq_some_iff.mp hl
    rw [← heq]
    exact (List.set_getElem_self hlen).symm
  unfold processDownload
  dsimp only
  split
  · next hnot =>
    rw [Bool.not_eq_true'] at hnot
    exact absurd (hnot.symm.trans h.isTransferCurrent) Bool.false_ne_true
  split
  · exact .startAdmission h
  · next stage hs =>
    have hh : (s.start id item).world.stage.isSome = true := congrArg Option.isSome hs
    have hdrop : Fine sha (s.start id item).attempts (s.start id item).generation
        s.attempts.length (item.startAttempt id)
        ((s.start id item).discardDownloadItem id) := by
      rw [show (s.start id item).discardDownloadItem id = (s.start id item).dropQueued from
        discard_item h]
      exact .answers .done hsf rfl ⟨h.downloadGateOpen, h.destroyed,
        h.attentionAcceptInFlight⟩ rfl rfl (answers_of_stage hh)
    split
    · exact .abort h stage .startAdmission
    split
    · split
      · exact .startRead h (fun _ => hh)
      · exact hdrop
    · exact hdrop

end Steps

end Kaos.Sync
