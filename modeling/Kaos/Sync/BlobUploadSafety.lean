import Kaos.Sync.BlobUploadAttempt

/-! An attempt publishes a reference only while everything it started from is current. -/
namespace Kaos.Sync

open Kaos.Lib BlobUploads BlobPathWorld List Option

/-- What this device has settled. -/
def BlobPathWorld.settlement (w : BlobPathWorld) : Option BlobRef × Option JsString :=
  (w.settledRef, w.settledSourceVersion)

theorem prepare_settlement (w : BlobPathWorld) (kind : BlobSettlementStageKind) (ref : BlobRef)
    (sourceVersion : Option JsString) (stageId : JsString) :
    (w.prepareSettlementStage kind ref sourceVersion stageId).2.settlement = w.settlement := by
  unfold prepareSettlementStage
  split
  · split <;> rfl
  split <;> rfl

theorem abort_settlement (w : BlobPathWorld) (stage : BlobSettlementStage) :
    (w.abortSettlementStage stage).settlement = w.settlement := by
  unfold abortSettlementStage
  split <;> rfl

/-- The bytes that the read has been given, until they are hashed. -/
def ExactRead.bytes : ExactRead → Option (List UInt8)
  | .sampled data => data
  | .hashing data => some data
  | _ => none

/-- The read has ended in a commit. -/
def ExactRead.isAccepted : ExactRead → Bool
  | .returned ⟨_, _, .accepted ..⟩ => true
  | _ => false

namespace UploadPhase

def isDone : UploadPhase → Bool
  | .done => true
  | _ => false

/-- The phases before a reference is published or settled. -/
def mayCommit : UploadPhase → Bool
  | .reading .. => true
  | .stagingEquality .. => true
  | .probing .. => true
  | .uploading _ => true
  | .stagingUpload .. => true
  | .done => true
  | _ => false

/-- The bytes that a read of the path's file has given, until they are hashed. -/
def held : UploadPhase → Option (ReadPurpose × List UInt8)
  | .reading purpose (.sampled (some data)) => some (purpose, data)
  | .reading purpose (.hashing data) => some (purpose, data)
  | _ => none

/-- The reference is published, and its settlement comes next. -/
def isAccepted : UploadPhase → Bool
  | .reading _ read => read.isAccepted
  | _ => false

end UploadPhase

variable {sha : List UInt8 → JsString} {s s' s'' : BlobUploads} {i : ℕ}
  {a : UploadAttempt} {result : AwaitResult}

/-- Only one item and the world change, and the queue at most loses its item. -/
structure Tends (s s' : BlobUploads) (id : ℕ) : Prop where
  length : s'.items.length = s.items.length
  other : ∀ other, other ≠ id → s'.items[other]? = s.items[other]?
  queued : s'.queued = s.queued ∨ s'.queued = none
  admitted : s'.admitted = s.admitted
  attempts : s'.attempts = s.attempts
  published : s'.published = s.published
  settlement : s'.world.settlement = s.world.settlement

section Tends

variable {id : ℕ}

theorem Tends.refl (s : BlobUploads) (id : ℕ) : Tends s s id :=
  ⟨rfl, fun _ _ => rfl, .inl rfl, rfl, rfl, rfl, rfl⟩

theorem Tends.trans (h : Tends s s' id) (h' : Tends s' s'' id) : Tends s s'' id := by
  refine ⟨h'.length.trans h.length, ?_, ?_, h'.admitted.trans h.admitted,
    h'.attempts.trans h.attempts, h'.published.trans h.published,
    h'.settlement.trans h.settlement⟩
  · intro other ho
    exact (h'.other other ho).trans (h.other other ho)
  rcases h'.queued with hq' | hq'
  · rw [hq']
    exact h.queued
  · exact .inr hq'

theorem tends_modifyItem (s : BlobUploads) (id : ℕ) (f : UploadItem → UploadItem) :
    Tends s (s.modifyItem id f) id := by
  refine ⟨length_modify .., ?_, .inl rfl, rfl, rfl, rfl, rfl⟩
  intro other ho
  exact getElem?_modify_ne f s.items (Ne.symm ho)

theorem tends_dropQueued (s : BlobUploads) (id : ℕ) : Tends s s.dropQueued id :=
  ⟨rfl, fun _ _ => rfl, .inr rfl, rfl, rfl, rfl, rfl⟩

theorem tends_withWorld (s : BlobUploads) {w : BlobPathWorld} (id : ℕ)
    (hw : w.settlement = s.world.settlement) : Tends s (s.withWorld w) id :=
  ⟨rfl, fun _ _ => rfl, .inl rfl, rfl, rfl, rfl, hw⟩

theorem tends_discard (s : BlobUploads) (id id' : ℕ) : Tends s (s.discardUploadItem id') id := by
  unfold discardUploadItem
  split
  · exact tends_dropQueued s id
  · exact .refl s id

theorem tends_rerun (s : BlobUploads) (id : ℕ) : Tends s (s.prepareUploadRerun id) id := by
  unfold prepareUploadRerun
  split
  · exact .refl s id
  split
  · exact tends_dropQueued s id
  · exact tends_modifyItem s id _

theorem tends_completeRemoteDelete (s : BlobUploads) (resolution : KeepLocalRemoteDelete) :
    ∃ w, (s.completeKeepLocalRemoteDelete resolution).2 = s.withWorld w ∧
      w.settlement = s.world.settlement := by
  unfold completeKeepLocalRemoteDelete
  split
  · exact ⟨s.world, rfl, rfl⟩
  · exact ⟨_, rfl, rfl⟩

theorem tends_completeDownloadConflict (s : BlobUploads)
    (resolution : KeepLocalDownloadConflict) (ref : BlobRef) :
    ∃ w, (s.completeKeepLocalDownloadConflict resolution ref).2 = s.withWorld w ∧
      w.settlement = s.world.settlement := by
  unfold completeKeepLocalDownloadConflict
  split
  · exact ⟨s.world, rfl, rfl⟩
  split
  · exact ⟨s.world, rfl, rfl⟩
  split
  · exact ⟨s.world, rfl, rfl⟩
  · exact ⟨_, rfl, rfl⟩

end Tends

/-- What holds when an attempt publishes a reference. -/
structure Publishes (sha : List UInt8 → JsString) (s s' : BlobUploads) (i : ℕ)
    (a : UploadAttempt) (stage : BlobSettlementStage) (data : List UInt8) (ref : BlobRef) :
    Prop where
  phase : a.phase = .reading (.commit (sha data) stage) (.hashing data)
  source : a.source.any s.world.isIdentityCurrent = true
  size : data.length = (a.source.map (·.stat.2)).getD 0
  attempt : s.isUploadAttemptCurrent a = true
  resolution : a.explicitResolution.isSome = true →
    s.isKeepLocalUploadResolutionActive a.item = true
  base : s.world.isUploadBaseCurrent a.base a.explicitResolution (some stage) = true
  lineage : ref = createCausalBlobRef (sha data) data.length a.base.causalBaseRef
  published : s'.published = s.published ++ [(i, ref)]

/-- How an attempt goes on. -/
structure GoesOn (s s' : BlobUploads) (a : UploadAttempt) (phase : UploadPhase) : Prop where
  held : ∀ held, phase.held = some held → a.phase.held = some held
  processing : phase.isDone = false → ∀ item, s.items[a.item]? = some item →
    ∃ item', s'.items[a.item]? = some item' ∧ item'.isProcessing = item.isProcessing
  mayCommit : phase.isDone = false → phase.mayCommit = true →
    a.phase.mayCommit = true ∧ s'.items = s.items
  accepted : phase.isAccepted = true → a.phase.isAccepted = true ∨ s'.published ≠ s.published

/-- What a step of an attempt does to the queue. -/
structure Effect (sha : List UInt8 → JsString) (s s' : BlobUploads) (i : ℕ)
    (a : UploadAttempt) : Prop where
  length : s'.items.length = s.items.length
  other : ∀ other, other ≠ a.item → s'.items[other]? = s.items[other]?
  queued : s'.queued = s.queued ∨ s'.queued = none
  admitted : s'.admitted = s.admitted
  published : s'.published = s.published ∨ ∃ stage data ref, Publishes sha s s' i a stage data ref
  settles : s'.world.settlement = s.world.settlement ∨ s.isUploadAttemptCurrent a = true ∨
    a.phase.isAccepted = true
  attempts : ∃ phase, s'.attempts = s.attempts.set i { a with phase } ∧ GoesOn s s' a phase

section Effect

theorem GoesOn.done (s s' : BlobUploads) (a : UploadAttempt) : GoesOn s s' a .done :=
  ⟨nofun, nofun, nofun, nofun⟩

theorem Effect.end (h : Tends s s' a.item) : Effect sha s (s'.endAttempt i a) i a := by
  refine ⟨h.length, h.other, h.queued, h.admitted, .inl h.published, .inl h.settlement, .done, ?_,
    .done ..⟩
  change s'.attempts.set i _ = _
  rw [h.attempts]

variable {phase : UploadPhase}

/-- A step to another phase before the commit. -/
theorem Effect.enter {w : BlobPathWorld} (hw : w.settlement = s.world.settlement)
    (ha : a.phase.mayCommit = true) (hacc : phase.isAccepted = false)
    (hh : ∀ held, phase.held = some held → a.phase.held = some held) :
    Effect sha s ((s.withWorld w).enter i a phase) i a := by
  refine ⟨rfl, fun _ _ => rfl, .inl rfl, rfl, .inl rfl, .inl hw, phase, rfl, hh,
    fun _ item hi => ⟨item, hi, rfl⟩, fun _ _ => ⟨ha, rfl⟩, ?_⟩
  intro h
  cases hacc.symm.trans h

/-- A step to a phase after it. -/
theorem Effect.leave {w : BlobPathWorld} (hw : w.settlement = s.world.settlement ∨
      s.isUploadAttemptCurrent a = true ∨ a.phase.isAccepted = true)
    (hph : phase.mayCommit = false) :
    Effect sha s ((s.withWorld w).enter i a phase) i a := by
  refine ⟨rfl, fun _ _ => rfl, .inl rfl, rfl, .inl rfl, hw, phase, rfl, ?_,
    fun _ item hi => ⟨item, hi, rfl⟩, ?_, ?_⟩
  · cases phase with
    | reading => cases hph
    | _ => nofun
  · intro _ hmay
    rw [hph] at hmay
    cases hmay
  · cases phase with
    | reading => cases hph
    | _ => nofun

theorem Effect.rerun : Effect sha s ((s.prepareUploadRerun a.item).endAttempt i a) i a :=
  .end (tends_rerun s a.item)

theorem Effect.discard : Effect sha s ((s.discardUploadItem a.item).endAttempt i a) i a :=
  .end (tends_discard s a.item a.item)

theorem Effect.drop : Effect sha s (s.dropQueued.endAttempt i a) i a :=
  .end (tends_dropQueued s a.item)

theorem Effect.rerunOrDiscard : Effect sha s (s.rerunOrDiscard i a) i a := by
  unfold BlobUploads.rerunOrDiscard
  split
  · exact .rerun
  · exact .discard

theorem Effect.fail : Effect sha s (s.fail i a result) i a := by
  unfold BlobUploads.fail
  split
  · exact .discard
  split
  · exact .rerun
  split
  · exact .discard
  split
  · exact .end (.refl s a.item)
  split
  · exact .end (tends_modifyItem s a.item _)
  split
  · exact .end (tends_modifyItem s a.item _)
  split
  · exact .end (tends_modifyItem s a.item _)
  · exact .drop

variable {purpose : ReadPurpose}

theorem Effect.startRead (ha : a.phase.mayCommit = true) :
    Effect sha s (s.startRead i a purpose) i a := by
  refine Effect.enter rfl ha ?_ ?_
  · split <;> rfl
  intro held h
  split at h <;> cases h

variable {hash : JsString}

theorem Effect.continueWithHash {data : Option (List UInt8)} (ha : a.phase.mayCommit = true) :
    Effect sha s (s.continueWithHash i a result hash data) i a := by
  have hprob : Effect sha s (s.enter i a (.probing hash data)) i a := Effect.enter rfl ha rfl nofun
  unfold BlobUploads.continueWithHash
  split
  · exact .discard
  split
  · split
    · split
      · exact .discard
      · exact Effect.enter (prepare_settlement ..) ha rfl nofun
    · exact hprob
  · exact hprob

theorem Effect.sendUpload (ha : a.phase.mayCommit = true) :
    Effect sha s (s.sendUpload i a hash) i a := by
  unfold BlobUploads.sendUpload
  split
  · exact Effect.enter rfl ha rfl nofun
  · exact .rerunOrDiscard

theorem Effect.prepareCommit (ha : a.phase.mayCommit = true) :
    Effect sha s (s.prepareCommit i a result hash) i a := by
  unfold BlobUploads.prepareCommit
  split
  · exact .rerun
  split
  · exact .discard
  split
  · exact .discard
  · exact Effect.enter (prepare_settlement ..) ha rfl nofun

variable {stage : BlobSettlementStage} {after : AfterAbort}

theorem Effect.abort : Effect sha s (s.abort i a stage after) i a :=
  Effect.leave (.inl (abort_settlement s.world stage)) rfl

theorem Effect.afterAbort : Effect sha s (s.afterAbort i a after) i a := by
  cases after with
  | rerun => exact .rerun
  | discard => exact .discard
  | refused gateClosed authorityRejected =>
    simp only [BlobUploads.afterAbort]
    split
    · exact .rerun
    split
    · exact .discard
    · exact .rerunOrDiscard

theorem Effect.afterRead {snapshot : Option ExactSnapshot} (ha : a.phase.mayCommit = true)
    (hph : ∀ returned, snapshot = some returned → a.phase = .reading purpose (.returned returned)) :
    Effect sha s (s.afterRead i a result purpose snapshot) i a := by
  cases purpose with simp only [BlobUploads.afterRead]
  | initial =>
    split
    · split
      · exact .continueWithHash ha
      · exact .rerunOrDiscard
    · exact .rerunOrDiscard
  | equality hash ref sourceVersion stage =>
    split
    · next hc =>
      simp only [Bool.and_eq_true] at hc
      exact Effect.leave (.inr (.inl hc.1.1.1)) rfl
    · split <;> exact .abort
  | upload hash =>
    split
    · exact .sendUpload ha
    · exact .rerunOrDiscard
  | commit hash stage =>
    split
    · next hsnap =>
      obtain ⟨returned, rfl, hco⟩ := map_eq_some_iff.mp hsnap
      refine Effect.leave (.inr (.inr ?_)) rfl
      rw [hph returned rfl]
      cases returned
      cases hco
      rfl
    · exact .abort
    · exact .abort

theorem Effect.finishAfter (h : Tends s s' a.item) : Effect sha s (s'.finish i a) i a := by
  unfold finish
  split
  · exact .end (h.trans (tends_modifyItem s' a.item _))
  · exact .end (h.trans (tends_dropQueued s' a.item))

theorem Effect.completeUpload {ref : BlobRef} {markerResolved : Bool} :
    Effect sha s (s.completeUpload i a ref markerResolved) i a := by
  unfold BlobUploads.completeUpload
  split
  · next resolution _ =>
    obtain ⟨w, heq, hw⟩ := tends_completeDownloadConflict s resolution ref
    dsimp only
    rw [heq]
    exact Effect.leave (.inl hw) rfl
  · next resolution _ =>
    split
    · obtain ⟨w, heq, hw⟩ := tends_completeRemoteDelete s resolution
      dsimp only
      rw [heq]
      exact Effect.leave (.inl hw) rfl
    · exact .finishAfter (.refl s a.item)
  · exact .finishAfter (.refl s a.item)

theorem tends_clear (s : BlobUploads) (a : UploadAttempt) :
    Tends s (s.clearResolution a) a.item := tends_modifyItem s a.item _

theorem clear_isProcessing (s : BlobUploads) (a : UploadAttempt) {item : UploadItem}
    (hi : s.items[a.item]? = some item) : ∃ item',
      (s.clearResolution a).items[a.item]? = some item' ∧
        item'.isProcessing = item.isProcessing := by
  have hc : (s.clearResolution a).items[a.item]? = _ <$> s.items[a.item]? := getElem?_modify_eq ..
  rw [hi] at hc
  refine ⟨_, hc, ?_⟩
  dsimp only
  split <;> rfl

theorem Effect.recheck : Effect sha s (s.recheck i a) i a := by
  have htends : Tends s (s.clearResolution a).dropQueued a.item :=
    (tends_clear s a).trans (tends_dropQueued _ _)
  unfold BlobUploads.recheck
  dsimp only
  split
  · refine ⟨htends.length, htends.other, htends.queued, htends.admitted, .inl htends.published,
      .inl rfl, _, congrArg (List.set · i _) htends.attempts, nofun, ?_, nofun, nofun⟩
    intro _ item hi
    exact clear_isProcessing s a hi
  · exact .end htends

/-- A read that gives no bytes any more. -/
def ExactRead.IsOver : ExactRead → Prop
  | .returned _ => True
  | .threw => True
  | _ => False

variable {read : ExactRead}

theorem ExactRead.IsOver.held (h : read.IsOver) (purpose : ReadPurpose) :
    (UploadPhase.reading purpose read).held = none := by
  cases read with
  | returned snapshot => rfl
  | threw => rfl
  | _ => cases h

theorem resolveMarker_spec (s : BlobUploads) (a : UploadAttempt) :
    ∃ w, (s.resolveMarker a).2 = s.withWorld w := by
  unfold resolveMarker
  split
  · split
    · exact ⟨_, rfl⟩
    · exact ⟨s.world, rfl⟩
  · exact ⟨s.world, rfl⟩

/-- The callback publishes nothing, or every check has passed. -/
theorem commitUpload_spec (s : BlobUploads) (i : ℕ) (a : UploadAttempt) (result : AwaitResult)
    (hash : JsString) (stage : BlobSettlementStage) (snapshotHash : JsString) (data : List UInt8) :
    (s.commitUpload i a result hash stage snapshotHash data).1.IsOver ∧
      ((s.commitUpload i a result hash stage snapshotHash data).1.isAccepted = false ∧
        (s.commitUpload i a result hash stage snapshotHash data).2 = s ∨
      snapshotHash = hash ∧ data.length = (a.source.map (·.stat.2)).getD 0 ∧
        s.isUploadAttemptCurrent a = true ∧
        (a.explicitResolution.isSome = true → s.isKeepLocalUploadResolutionActive a.item = true) ∧
        s.world.isUploadBaseCurrent a.base a.explicitResolution (some stage) = true ∧
        ∃ w, (s.commitUpload i a result hash stage snapshotHash data).2 =
          { s.withWorld w with
            published := s.published ++
              [(i, createCausalBlobRef hash data.length a.base.causalBaseRef)] }) := by
  unfold commitUpload
  dsimp only
  split
  · exact ⟨trivial, .inl ⟨rfl, rfl⟩⟩
  · next hchecks =>
    simp only [Bool.or_eq_true, Bool.and_eq_true, Bool.not_eq_true', not_or, not_and,
      Bool.not_eq_false, decide_eq_true_eq, ne_eq, not_not] at hchecks
    obtain ⟨⟨⟨⟨-, hatt⟩, hh⟩, hs⟩, hres⟩ := hchecks
    split
    · exact ⟨trivial, .inl ⟨rfl, rfl⟩⟩
    · next hb =>
      rw [Bool.not_eq_true', Bool.not_eq_false] at hb
      cases hset : s.world.setBlobRef hash ((a.source.map (·.stat.2)).getD 0 : ℕ) a.base
          result.sourceVersion with
      | none => exact ⟨trivial, .inl ⟨rfl, rfl⟩⟩
      | some committed =>
        obtain ⟨ref, world⟩ := committed
        have href : ref = createCausalBlobRef hash data.length a.base.causalBaseRef := by
          unfold setBlobRef at hset
          split at hset
          · cases hset
          split at hset
          · cases hset
          cases hset
          rw [hs]
        subst href
        cases result.sourceVersion with
        | none => exact ⟨trivial, .inr ⟨hh, hs, hatt, hres, hb, _, rfl⟩⟩
        | some sourceVersion =>
          obtain ⟨w, hw⟩ := resolveMarker_spec
            { s with
              world := result.observers world
              published := s.published ++
                [(i, createCausalBlobRef hash data.length a.base.causalBaseRef)] } a
          refine ⟨trivial, .inr ⟨hh, hs, hatt, hres, hb, w, ?_⟩⟩
          exact hw

theorem Effect.still (ha : s.attempts[i]? = some a) : Effect sha s s i a := by
  refine ⟨rfl, fun _ _ => rfl, .inl rfl, rfl, .inl rfl, .inl rfl, a.phase, ?_, fun _ h => h,
    fun _ item hit => ⟨item, hit, rfl⟩, fun _ h => ⟨h, rfl⟩, fun h => .inl h⟩
  obtain ⟨hi, rfl⟩ := List.getElem?_eq_some_iff.mp ha
  exact (List.set_getElem_self hi).symm

variable {isIdentityCurrent : Bool}

theorem ExactRead.resume_waits {read' : ExactRead} {rejected : Bool}
    (h : read.resume isIdentityCurrent rejected = .waits read') :
    (∀ snapshot, read' ≠ .returned snapshot) ∧
      ∀ data, read'.bytes = some data → read.bytes = some data := by
  cases read with
  | pending =>
    cases h
    exact ⟨by rintro _ ⟨⟩, fun _ h => h⟩
  | sampled data =>
    cases data with
    | none =>
      cases h
      exact ⟨by rintro _ ⟨⟩, nofun⟩
    | some data =>
      simp only [ExactRead.resume, ReadOutcome.waits.injEq] at h
      split at h <;> rw [← h]
      · exact ⟨by rintro _ ⟨⟩, fun _ h => h⟩
      · exact ⟨by rintro _ ⟨⟩, nofun⟩
  | hashing data =>
    simp only [ExactRead.resume] at h
    split at h
    · cases h
      exact ⟨by rintro _ ⟨⟩, nofun⟩
    split at h
    · cases h
    cases h
    exact ⟨by rintro _ ⟨⟩, nofun⟩
  | stale | threw | returned snapshot => cases h

theorem ExactRead.resume_returned {snapshot : Option ExactSnapshot} {rejected : Bool}
    (h : read.resume isIdentityCurrent rejected = .returned snapshot) :
    snapshot = none ∨ ∃ exact, snapshot = some exact ∧ read = .returned exact := by
  cases read with
  | sampled data => cases data <;> cases h
  | hashing data =>
    simp only [ExactRead.resume] at h
    split at h
    · cases h
    split at h <;> cases h
  | stale =>
    cases h
    exact .inl rfl
  | returned exact =>
    cases h
    exact .inr ⟨exact, rfl, rfl⟩
  | _ => cases h

theorem UploadPhase.held_reading (purpose : ReadPurpose) (read : ExactRead) :
    (reading purpose read).held = read.bytes.map fun data => (purpose, data) := by
  cases read with
  | sampled data => cases data <;> rfl
  | _ => rfl

/-- A read waits on; its bytes are those that it has been given. -/
theorem Effect.waits {read' : ExactRead} (hph : a.phase = .reading purpose read)
    (hr : read.resume isIdentityCurrent result.rejected = .waits read') :
    Effect sha s (s.enter i a (.reading purpose read')) i a := by
  obtain ⟨hnot, hb⟩ := ExactRead.resume_waits hr
  refine Effect.enter rfl (by rw [hph]; rfl) ?_ ?_
  · cases read' with
    | returned snapshot => exact absurd rfl (hnot snapshot)
    | _ => rfl
  intro held hh
  rw [UploadPhase.held_reading] at hh
  obtain ⟨data, hdata, rfl⟩ := map_eq_some_iff.mp hh
  rw [hph, UploadPhase.held_reading, hb data hdata, Option.map_some]

variable {data : List UInt8}

theorem ExactRead.resume_verified {rejected : Bool}
    (h : read.resume isIdentityCurrent rejected = .verified data) :
    read = .hashing data ∧ isIdentityCurrent = true := by
  cases read with
  | sampled data => cases data <;> cases h
  | hashing data' =>
    simp only [ExactRead.resume] at h
    split at h
    · cases h
    split at h
    · next hcur =>
      cases h
      exact ⟨rfl, hcur⟩
    · cases h
  | _ => cases h

/-- The end of the last exact read. -/
theorem Effect.commit (hphase : a.phase = .reading (.commit hash stage) (.hashing data))
    (hsource : a.source.any s.world.isIdentityCurrent = true) : Effect sha s
      (((s.setCachedHash sha a.source data).commitUpload i a result hash stage
        (sha data) data).2.enter i a (.reading (.commit hash stage)
        ((s.setCachedHash sha a.source data).commitUpload i a result hash stage
          (sha data) data).1)) i a := by
  have hmay : a.phase.mayCommit = true := by
    rw [hphase]
    rfl
  obtain ⟨ho, hspec⟩ := commitUpload_spec (s.setCachedHash sha a.source data) i a
    result hash stage (sha data) data
  have hh := ho.held (.commit hash stage)
  rcases hspec with ⟨hacc, hw⟩ | ⟨rfl, hs, hatt, hres, hb, w, hw⟩ <;> rw [hw]
  · refine Effect.enter rfl hmay hacc ?_
    intro held h
    rw [hh] at h
    cases h
  refine ⟨rfl, fun _ _ => rfl, .inl rfl, rfl, .inr ⟨stage, data, _, hphase, hsource, hs,
    hatt, hres, hb, rfl, rfl⟩, .inr (.inl hatt), _, rfl, ?_,
    fun _ item hi => ⟨item, hi, rfl⟩, fun _ _ => ⟨hmay, rfl⟩, fun _ => .inr ?_⟩
  · intro held h
    rw [hh] at h
    cases h
  · intro hsa
    exact absurd (append_right_eq_self.mp hsa) (cons_ne_nil _ _)

/-- What the end of an await does: after it another upload may be queued. -/
theorem resume_spec (ha : s.attempts[i]? = some a) :
    Effect sha s (s.resumeAttempt i a result sha) i a ∨
      ∃ s', Effect sha s s' i a ∧ s.resumeAttempt i a result sha = s'.enqueueUpload none false := by
  cases hph : a.phase with simp only [resumeAttempt, hph]
  | completingCommitted completion =>
    left
    split
    · exact .fail
    · exact Effect.leave (.inl rfl) rfl
    · exact .recheck
  | rechecking source expectedLocalHash read =>
    split
    · exact .inl (Effect.leave (.inl rfl) rfl)
    · exact .inl (Effect.leave (.inl rfl) rfl)
    · exact .inl .fail
    split
    · exact .inr ⟨_, .end (.refl s a.item), rfl⟩
    · exact .inl (.end (.refl s a.item))
  | reading purpose read =>
    left
    have hmay : a.phase.mayCommit = true := by
      rw [hph]
      rfl
    split
    · next read' hr => exact .waits hph hr
    · next data hr =>
      obtain ⟨rfl, hsrc⟩ := ExactRead.resume_verified hr
      cases purpose with
      | commit hash stage => exact Effect.commit hph hsrc
      | initial | equality hash ref sourceVersion stage | upload hash =>
        exact Effect.enter rfl hmay rfl nofun
    · exact .fail
    · next snapshot hr =>
      refine .afterRead hmay ?_
      rintro returned rfl
      obtain ⟨_, heq, rfl⟩ := (ExactRead.resume_returned hr).resolve_left nofun
      cases heq
      exact hph
  | stagingEquality hash ref sourceVersion stage | stagingUpload hash stage =>
    left
    split
    · exact .fail
    · exact .startRead (by rw [hph]; rfl)
  | probing hash data =>
    left
    have hmay : a.phase.mayCommit = true := by
      rw [hph]
      rfl
    split
    · exact .fail
    split
    · exact .prepareCommit hmay
    split
    · exact .sendUpload hmay
    · exact .startRead hmay
  | uploading hash =>
    left
    split
    · exact .fail
    · exact .prepareCommit (by rw [hph]; rfl)
  | aborting after =>
    left
    split
    · exact .fail
    · exact .afterAbort
  | finalizingEquality ref sourceVersion finalization =>
    left
    split
    · exact .fail
    · exact Effect.leave (.inl rfl) rfl
    · exact .drop
    · exact .discard
  | finalizingUpload ref sourceVersion markerResolved finalization =>
    left
    split
    · exact .fail
    · exact Effect.leave (.inl rfl) rfl
    · exact .completeUpload
    · exact .fail
  | completing completion =>
    left
    split
    · exact .fail
    · exact Effect.leave (.inl rfl) rfl
    · exact .finishAfter (tends_clear s a)
  | done =>
    left
    exact .still ha

theorem Effect.of_tends (h : Tends s s' a.item) (ha : s.attempts[i]? = some a)
    (hd : a.phase = .done) : Effect sha s s' i a := by
  obtain ⟨hi, rfl⟩ := List.getElem?_eq_some_iff.mp ha
  refine ⟨h.length, h.other, h.queued, h.admitted, .inl h.published, .inl h.settlement, .done, ?_,
    .done ..⟩
  rw [h.attempts, ← hd]
  exact (List.set_getElem_self hi).symm

/-- An attempt that starts is a step of the attempt. -/
theorem processUpload_spec (sha : List UInt8 → JsString) (s : BlobUploads)
    (result : AwaitResult) (id : ℕ) (item : UploadItem) :
    Effect sha { s with attempts := s.attempts ++ [s.startAttempt id item] }
      (s.processUpload result id item) s.attempts.length (s.startAttempt id item) := by
  have hs : ({ s with attempts := s.attempts ++ [s.startAttempt id item] } :
      BlobUploads).attempts[s.attempts.length]? = some (s.startAttempt id item) :=
    getElem?_concat_length
  have hdis := tends_discard
    { s with attempts := s.attempts ++ [s.startAttempt id item] } id id
  have hdrop := tends_dropQueued { s with attempts := s.attempts ++ [s.startAttempt id item] } id
  unfold processUpload
  dsimp only
  split
  · exact .of_tends hdis hs rfl
  split
  · exact .of_tends (tends_rerun _ id) hs rfl
  split
  · exact .of_tends hdis hs rfl
  split
  · exact .of_tends hdrop hs rfl
  split
  · next completion committed hc =>
    obtain ⟨resolution, -, hres⟩ := bind_eq_some_iff.mp hc
    have hworld : ∃ w, committed = withWorld
        { s with attempts := s.attempts ++ [s.startAttempt id item] } w ∧
          w.settlement = s.world.settlement := by
      cases resolution with
      | remoteDelete resolution =>
        obtain ⟨ref, -, heq⟩ := map_eq_some_iff.mp hres
        obtain ⟨w, heq', hw⟩ := tends_completeRemoteDelete
          { s with attempts := s.attempts ++ [s.startAttempt id item] } resolution
        exact ⟨w, by rw [← heq', heq], hw⟩
      | downloadConflict resolution =>
        obtain ⟨ref, -, heq⟩ := map_eq_some_iff.mp hres
        obtain ⟨w, heq', hw⟩ := tends_completeDownloadConflict
          { s with attempts := s.attempts ++ [s.startAttempt id item] } resolution ref
        exact ⟨w, by rw [← heq', heq], hw⟩
    obtain ⟨w, rfl, hw⟩ := hworld
    exact Effect.leave (.inl hw) rfl
  split
  · exact .of_tends hdis hs rfl
  split
  · exact .of_tends hdrop hs rfl
  split
  · exact .of_tends hdis hs rfl
  split
  · exact .of_tends (hdrop.trans (tends_withWorld _ id rfl)) hs rfl
  split
  · exact .of_tends hdrop hs rfl
  split
  · exact .continueWithHash rfl
  · exact .startRead rfl

end Effect

/-- An attempt that is under way owns its item; the decision that admitted it stands, and nothing
has been admitted since, unless the item is to run again. -/
def Running (s : BlobUploads) (a : UploadAttempt) : Prop :=
  ∃ item, s.items[a.item]? = some item ∧ item.isProcessing = true ∧
    (a.phase.mayCommit = true → item.needsRerun = true ∨
      item.attentionResolution = a.explicitResolution ∧
        (s.queued = some a.item → s.admitted = a.admittedBefore))

/-- No two attempts share an item. -/
structure BlobUploads.Inv (s : BlobUploads) : Prop where
  running : ∀ (i : ℕ) (a : UploadAttempt), s.attempts[i]? = some a → a.phase.isDone = false →
    Running s a
  alone : ∀ (i j : ℕ) (a b : UploadAttempt), s.attempts[i]? = some a → s.attempts[j]? = some b →
    a.phase.isDone = false → b.phase.isDone = false → a.item = b.item → i = j
  queued : ∀ id, s.queued = some id → id < s.items.length

section Inv

theorem inv_initial (w : BlobPathWorld) : ({ world := w } : BlobUploads).Inv :=
  ⟨(fun _ _ h => by cases h), (fun _ _ _ _ h => by cases h), (fun _ h => by cases h)⟩

theorem BlobUploads.Inv.keep (h : s.Inv) (hitems : s'.items = s.items)
    (hatts : s'.attempts = s.attempts) (hadm : s'.admitted = s.admitted)
    (hqueued : s'.queued = s.queued ∨ s'.queued = none) : s'.Inv := by
  have hof : ∀ id, s'.queued = some id → s.queued = some id := by
    intro id hid
    rcases hqueued with hq | hq
    · rw [← hq, hid]
    rw [hq] at hid
    cases hid
  constructor
  · intro i a ha hrun
    rw [hatts] at ha
    obtain ⟨item, hi, hproc, hmay⟩ := h.running i a ha hrun
    refine ⟨item, by rw [hitems, hi], hproc, fun hph => (hmay hph).imp_right ?_⟩
    rintro ⟨hres, hsince⟩
    exact ⟨hres, fun hid => hadm.trans (hsince (hof _ hid))⟩
  · intro i j a b ha hb
    rw [hatts] at ha hb
    exact h.alone i j a b ha hb
  intro id hid
  rw [hitems]
  exact h.queued id (hof id hid)

/-- Another upload of an item that is being processed makes it run again. -/
theorem BlobUploads.Inv.readmit (h : s.Inv) {id : ℕ} (hid : s.queued = some id)
    {f : UploadItem → UploadItem} (hf : ∀ item, item.isProcessing = true →
      (f item).isProcessing = true ∧ (f item).needsRerun = true) :
    ({ s.modifyItem id f with admitted := s.admitted + 1 } : BlobUploads).Inv := by
  refine ⟨?_, h.alone, ?_⟩
  · intro i a ha hrun
    obtain ⟨item, hi, hproc, hmay⟩ := h.running i a ha hrun
    by_cases hs : a.item = id
    · subst hs
      have heq : (s.items.modify a.item f)[a.item]? = f <$> s.items[a.item]? :=
        getElem?_modify_eq ..
      rw [hi] at heq
      obtain ⟨hk, hrerun⟩ := hf item hproc
      exact ⟨f item, heq, hk, fun _ => .inl hrerun⟩
    refine ⟨item, ?_, hproc, fun hph => (hmay hph).imp_right ?_⟩
    · exact (getElem?_modify_ne f s.items (Ne.symm hs)).trans hi
    rintro ⟨hres, -⟩
    refine ⟨hres, fun hq => ?_⟩
    cases hq.symm.trans hid
    exact absurd rfl hs
  · intro id' hid'
    exact (h.queued id' hid').trans_eq (length_modify ..).symm

/-- A new item is nobody's yet. -/
theorem BlobUploads.Inv.admit (h : s.Inv) (item : UploadItem) :
    ({ s with items := s.items ++ [item], queued := some s.items.length
              admitted := s.admitted + 1 } : BlobUploads).Inv := by
  refine ⟨?_, h.alone, ?_⟩
  · intro i a ha hrun
    obtain ⟨old, hold, hproc, hmay⟩ := h.running i a ha hrun
    have hlt := (List.getElem?_eq_some_iff.mp hold).1
    refine ⟨old, ?_, hproc, fun hph => (hmay hph).imp_right ?_⟩
    · exact (getElem?_append_left hlt).trans hold
    rintro ⟨hres, -⟩
    refine ⟨hres, fun hq => ?_⟩
    have hs := some.inj hq
    omega
  · intro id hid
    cases hid
    exact length_append.trans_gt (Nat.lt_succ_self _)

theorem BlobUploads.Inv.enqueue (h : s.Inv) (resolution : Option BlobKeepLocalUploadResolution)
    (allowAttentionAdmission : Bool) :
    (s.enqueueUpload resolution allowAttentionAdmission).Inv := by
  unfold enqueueUpload
  split
  · exact h
  split
  · split
    · next id hid =>
      split
      · exact h.readmit hid fun item hproc => ⟨hproc, rfl⟩
      · exact h
    · exact h
  split
  · exact h
  split
  · next id hid =>
    refine h.readmit hid fun item hproc => ⟨hproc, ?_⟩
    rw [hproc, Bool.or_true]
  · exact h.admit _

theorem BlobUploads.Inv.importUpload (h : s.Inv) (item : UploadItem) :
    (s.importUpload item).Inv := by
  unfold BlobUploads.importUpload
  split
  · exact h
  · exact h.admit _

/-- A step of an attempt that owns its item. -/
theorem BlobUploads.Inv.update {phase : UploadPhase} (h : s.Inv) (ha : s.attempts[i]? = some a)
    (hrun : Running s a) (halone : ∀ j b, j ≠ i → s.attempts[j]? = some b →
      b.phase.isDone = false → b.item ≠ a.item)
    (hlength : s'.items.length = s.items.length)
    (hother : ∀ other, other ≠ a.item → s'.items[other]? = s.items[other]?)
    (hqueued : s'.queued = s.queued ∨ s'.queued = none) (hadm : s'.admitted = s.admitted)
    (hatts : s'.attempts = s.attempts.set i { a with phase })
    (hproc : phase.isDone = false → ∀ item, s.items[a.item]? = some item →
      ∃ item', s'.items[a.item]? = some item' ∧ item'.isProcessing = item.isProcessing)
    (hmay : phase.isDone = false → phase.mayCommit = true →
      a.phase.mayCommit = true ∧ s'.items = s.items) : s'.Inv := by
  have hi := (List.getElem?_eq_some_iff.mp ha).1
  have hof : ∀ id, s'.queued = some id → s.queued = some id := by
    intro id hid
    rcases hqueued with hq | hq
    · rw [← hq, hid]
    rw [hq] at hid
    cases hid
  have hset : ∀ j b, s'.attempts[j]? = some b → j = i ∧ b = { a with phase } ∨
      j ≠ i ∧ s.attempts[j]? = some b := by
    intro j b hb
    rw [hatts] at hb
    by_cases hj : j = i
    · subst hj
      rw [List.getElem?_set_self hi] at hb
      exact .inl ⟨rfl, (some.inj hb).symm⟩
    rw [List.getElem?_set_ne (Ne.symm hj)] at hb
    exact .inr ⟨hj, hb⟩
  constructor
  · intro j b hb hd
    rcases hset j b hb with ⟨-, rfl⟩ | ⟨hj, hb⟩
    · obtain ⟨item, hit, hisP, hstands⟩ := hrun
      obtain ⟨item', hit', hs⟩ := hproc hd item hit
      refine ⟨item', hit', hs.trans hisP, ?_⟩
      intro hph
      obtain ⟨hbef, hitems⟩ := hmay hd hph
      rw [hitems, hit] at hit'
      cases hit'
      refine (hstands hbef).imp_right ?_
      rintro ⟨hres, hsince⟩
      exact ⟨hres, fun hid => hadm.trans (hsince (hof _ hid))⟩
    obtain ⟨item, hit, hisP, hstands⟩ := h.running j b hb hd
    refine ⟨item, (hother _ (halone j b hj hb hd)).trans hit, hisP, ?_⟩
    intro hph
    refine (hstands hph).imp_right ?_
    rintro ⟨hres, hsince⟩
    exact ⟨hres, fun hid => hadm.trans (hsince (hof _ hid))⟩
  · intro j k b c hb hc hbdone hcdone hs
    rcases hset j b hb with ⟨rfl, rfl⟩ | ⟨hj, hb⟩
    · rcases hset k c hc with ⟨rfl, rfl⟩ | ⟨hk, hc⟩
      · rfl
      · exact absurd hs.symm (halone k c hk hc hcdone)
    rcases hset k c hc with ⟨rfl, rfl⟩ | ⟨hk, hc⟩
    · exact absurd hs (halone j b hj hb hbdone)
    · exact h.alone j k b c hb hc hbdone hcdone hs
  · intro id hid
    rw [hlength]
    exact h.queued id (hof id hid)

theorem BlobUploads.Inv.effect (h : s.Inv) (ha : s.attempts[i]? = some a) (hrun : Running s a)
    (hal : ∀ j b, j ≠ i → s.attempts[j]? = some b → b.phase.isDone = false → b.item ≠ a.item)
    (hef : Effect sha s s' i a) : s'.Inv := by
  obtain ⟨phase, hatts, hf⟩ := hef.attempts
  exact h.update ha hrun hal hef.length hef.other hef.queued hef.admitted
    hatts hf.processing hf.mayCommit

theorem BlobUploads.Inv.alone_of (h : s.Inv) (ha : s.attempts[i]? = some a)
    (hd : a.phase.isDone = false) (j : ℕ) (b : UploadAttempt) (hj : j ≠ i)
    (hb : s.attempts[j]? = some b) (hb' : b.phase.isDone = false) : b.item ≠ a.item :=
  fun hs => hj (h.alone j i b a hb ha hb' hd hs)

theorem resume_done (hd : a.phase.isDone = true) : s.resumeAttempt i a result sha = s := by
  cases hph : a.phase with
  | done => simp only [resumeAttempt, hph]
  | _ =>
    rw [hph] at hd
    cases hd

theorem BlobUploads.Inv.resume (h : s.Inv) (ha : s.attempts[i]? = some a) :
    (s.resumeAttempt i a result sha).Inv := by
  cases hd : a.phase.isDone with
  | true =>
    rw [resume_done hd]
    exact h
  | false =>
    have hrun := h.running i a ha hd
    have hal := h.alone_of ha hd
    rcases resume_spec ha with hef | ⟨s', hef, heq⟩
    · exact h.effect ha hrun hal hef
    rw [heq]
    exact (h.effect ha hrun hal hef).enqueue none false

theorem BlobUploads.Inv.sample (h : s.Inv) (ha : s.attempts[i]? = some a) :
    (s.sampleRead i a).Inv := by
  unfold sampleRead
  split
  · next purpose hph =>
    have hd : a.phase.isDone = false := by
      rw [hph]
      rfl
    refine h.update ha (h.running i a ha hd) (h.alone_of ha hd) rfl (fun _ _ => rfl)
      (.inl rfl) rfl rfl (fun _ item hi => ⟨item, hi, rfl⟩) ?_
    intro _ _
    rw [hph]
    exact ⟨rfl, rfl⟩
  · next source expectedLocalHash hph =>
    have hd : a.phase.isDone = false := by
      rw [hph]
      rfl
    exact h.update ha (h.running i a ha hd) (h.alone_of ha hd) rfl (fun _ _ => rfl)
      (.inl rfl) rfl rfl (fun _ item hi => ⟨item, hi, rfl⟩) nofun
  · exact h

/-- The drain starts an attempt at an item that has none. -/
theorem drain_spec (sha : List UInt8 → JsString) (s : BlobUploads)
    (result : AwaitResult) :
    s.drain result = s ∨ ∃ id item, s.queued = some id ∧ s.items[id]? = some item ∧
      item.isProcessing = false ∧
      Effect sha
        { s.modifyItem id fun item => { item with isProcessing := true } with
          attempts := s.attempts ++ [s.startAttempt id item] }
        (s.drain result) s.attempts.length (s.startAttempt id item) := by
  unfold drain
  split
  · exact .inl rfl
  · next id hid =>
    split
    · exact .inl rfl
    · next item hi =>
      split
      · next hp =>
        simp only [Bool.and_eq_true, Bool.not_eq_true'] at hp
        exact .inr ⟨id, item, hid, hi, hp.1.2, processUpload_spec sha
          (s.modifyItem id fun item => { item with isProcessing := true }) result id
          { item with isProcessing := true }⟩
      · exact .inl rfl

theorem BlobUploads.Inv.drain (h : s.Inv) (result : AwaitResult) : (s.drain result).Inv := by
  rcases drain_spec (fun _ => []) s result with heq | ⟨id, item, hid, hi, hp, hef⟩
  · rw [heq]
    exact h
  have hidle : ∀ (j : ℕ) (b : UploadAttempt), s.attempts[j]? = some b →
      b.phase.isDone = false → b.item ≠ id := by
    intro j b hb hd hs
    obtain ⟨item', hi', hproc, -⟩ := h.running j b hb hd
    rw [hs, hi] at hi'
    cases hi'
    rw [hp] at hproc
    cases hproc
  have hold : ∀ (j : ℕ) (b : UploadAttempt),
      (s.attempts ++ [s.startAttempt id item])[j]? = some b → b.phase.isDone = false →
      s.attempts[j]? = some b := by
    intro j b hb hd
    rcases getElem?_append_one hb with hb | ⟨-, rfl⟩
    · exact hb
    · cases hd
  have hmod : (s.items.modify id fun item => { item with isProcessing := true })[id]? =
      some { item with isProcessing := true } := by
    rw [getElem?_modify_eq, hi]
    rfl
  refine BlobUploads.Inv.effect ?_ getElem?_concat_length
    ⟨_, hmod, rfl, fun _ => .inr ⟨rfl, fun _ => rfl⟩⟩
    (fun j b _ hb hd => hidle j b (hold j b hb hd) hd) hef
  refine ⟨?_, ?_, ?_⟩
  · intro j b hb hd
    have hb' := hold j b hb hd
    obtain ⟨item', hi', hrun, hmay⟩ := h.running j b hb' hd
    have ho := (tends_modifyItem s id fun item =>
      { item with isProcessing := true }).other b.item (hidle j b hb' hd)
    exact ⟨item', ho.trans hi', hrun, hmay⟩
  · intro j k b c hb hc hbdone hcdone hs
    exact h.alone j k b c (hold j b hb hbdone) (hold k c hc hcdone) hbdone hcdone hs
  intro id' hid'
  exact (h.queued id' hid').trans_eq (length_modify ..).symm

theorem BlobUploads.Inv.next (h : s.Inv) (event : UploadEvent) : (s.next sha event).Inv := by
  cases event with
  | world w => exact h.keep rfl rfl rfl (.inl rfl)
  | enqueue resolution allowAttentionAdmission => exact h.enqueue resolution allowAttentionAdmission
  | importUpload item => exact h.importUpload item
  | fence | delete | destroy => exact h.keep rfl rfl rfl (.inr rfl)
  | drain result => exact h.drain result
  | read i =>
    simp only [BlobUploads.next]
    split
    · next a ha => exact h.sample ha
    · exact h
  | resume i result =>
    simp only [BlobUploads.next]
    split
    · next a ha => exact h.resume ha
    · exact h

theorem inv_at (w : BlobPathWorld) (events : List UploadEvent) (n : ℕ) :
    (uploadsAt sha w events n).Inv :=
  stateAt_invariant (inv_initial w) (fun _ event h => h.next event) n

/-- No item is ever processed by two attempts, and each attempt's item says that it is processed. -/
theorem uploads_share_no_item (w : BlobPathWorld) (events : List UploadEvent) (n : ℕ) :
    let s := uploadsAt sha w events n
    (s.attempts.Pairwise fun a b =>
      a.phase.isDone = false → b.phase.isDone = false → a.item ≠ b.item) ∧
    ∀ a ∈ s.attempts, a.phase.isDone = false → (s.items[a.item]?.any (·.isProcessing)) = true := by
  have hinv : (uploadsAt sha w events n).Inv := inv_at w events n
  constructor
  · rw [List.pairwise_iff_getElem]
    intro i j hi hj hlt ha hb hit
    have hs := hinv.alone i j _ _ (List.getElem?_eq_getElem hi) (List.getElem?_eq_getElem hj) ha hb
      hit
    omega
  intro a hmem hrun
  obtain ⟨i, ha⟩ := List.mem_iff_getElem?.mp hmem
  obtain ⟨item, hit, hproc, -⟩ := hinv.running i a ha hrun
  rw [hit]
  exact hproc

end Inv

section History

theorem enqueue_attempts (s : BlobUploads) (resolution : Option BlobKeepLocalUploadResolution)
    (allowAttentionAdmission : Bool) :
    (s.enqueueUpload resolution allowAttentionAdmission).attempts = s.attempts ∧
      (s.enqueueUpload resolution allowAttentionAdmission).published = s.published ∧
      (s.enqueueUpload resolution allowAttentionAdmission).world = s.world := by
  unfold enqueueUpload
  split
  · exact ⟨rfl, rfl, rfl⟩
  split
  · split
    · split <;> exact ⟨rfl, rfl, rfl⟩
    · exact ⟨rfl, rfl, rfl⟩
  split
  · exact ⟨rfl, rfl, rfl⟩
  split <;> exact ⟨rfl, rfl, rfl⟩

theorem import_attempts (s : BlobUploads) (item : UploadItem) :
    (s.importUpload item).attempts = s.attempts ∧
      (s.importUpload item).published = s.published := by
  unfold importUpload
  split <;> exact ⟨rfl, rfl⟩

/-- The attempt has started from the item and the file that were there. -/
structure Started (s : BlobUploads) (id : ℕ) (item : UploadItem) (a : UploadAttempt) : Prop where
  queued : s.queued = some id
  queuedItem : s.items[id]? = some item
  attempt : a = { s.startAttempt id item with phase := a.phase }

/-- The attempt is one that there was: what it holds it has held, or has just been given. -/
def Continues (s : BlobUploads) (event : UploadEvent) (i : ℕ) (a' : UploadAttempt) : Prop :=
  ∃ a, s.attempts[i]? = some a ∧ a' = { a with phase := a'.phase } ∧
    ∀ held, a'.phase.held = some held → a.phase.held = some held ∨
      event = .read i ∧ a.phase = .reading held.1 .pending ∧
        (a.source.bind fun source => s.world.disk source.file) = some held.2

variable {event : UploadEvent}

theorem continues_of_mem (ha : s.attempts[i]? = some a) :
    Continues s event i a := ⟨a, ha, rfl, fun _ h => .inl h⟩

variable {a' : UploadAttempt}

theorem continues_of_set {phase : UploadPhase} {j : ℕ}
    (ha : s.attempts[i]? = some a) (ha' : (s.attempts.set i { a with phase })[j]? = some a')
    (hh : ∀ held, phase.held = some held → a.phase.held = some held ∨
        event = .read i ∧ a.phase = .reading held.1 .pending ∧
        (a.source.bind fun source => s.world.disk source.file) = some held.2) :
    Continues s event j a' := by
  by_cases hj : i = j
  · subst hj
    rw [List.getElem?_set_self (List.getElem?_eq_some_iff.mp ha).1] at ha'
    cases ha'
    exact ⟨a, ha, rfl, hh⟩
  rw [getElem?_set_ne hj] at ha'
  exact continues_of_mem ha'

/-- After any event an attempt is one that there was, or it has just started. -/
theorem next_attempts (ha' : (s.next sha event).attempts[i]? = some a') :
    Continues s event i a' ∨ a'.phase.held = none ∧ s.attempts.length = i ∧
      ∃ result id item, event = .drain result ∧ Started s id item a' := by
  cases event with
  | world w | fence | delete | destroy => exact .inl (continues_of_mem ha')
  | enqueue resolution allowAttentionAdmission =>
    simp only [BlobUploads.next, (enqueue_attempts ..).1] at ha'
    exact .inl (continues_of_mem ha')
  | importUpload item =>
    simp only [BlobUploads.next, (import_attempts ..).1] at ha'
    exact .inl (continues_of_mem ha')
  | drain result =>
    simp only [BlobUploads.next] at ha'
    rcases drain_spec sha s result with heq | ⟨id, item, hid, hit, -, hef⟩
    · rw [heq] at ha'
      exact .inl (continues_of_mem ha')
    obtain ⟨phase, hatts, hf⟩ := hef.attempts
    have hlt : s.attempts.length < (s.attempts ++ [s.startAttempt id item]).length := by
      rw [length_append]
      exact Nat.lt_succ_self _
    rw [hatts] at ha'
    by_cases hi : s.attempts.length = i
    · subst hi
      rw [getElem?_set_self hlt] at ha'
      cases ha'
      refine .inr ⟨?_, rfl, result, id, item, rfl, hid, hit, rfl⟩
      cases hh : phase.held with
      | none => rfl
      | some held => cases hf.held held hh
    left
    rw [getElem?_set_ne hi] at ha'
    rcases getElem?_append_one ha' with ha' | ⟨hi', -⟩
    · exact continues_of_mem ha'
    · exact absurd hi'.symm hi
  | read j =>
    left
    simp only [BlobUploads.next] at ha'
    split at ha'
    · next a ha =>
      unfold sampleRead at ha'
      split at ha'
      · next purpose hph =>
        refine continues_of_set ha ha' ?_
        intro held hh
        cases hdata : a.source.bind fun source => s.world.disk source.file with rw [hdata] at hh
        | none => cases hh
        | some data =>
          cases hh
          exact .inr ⟨rfl, hph, rfl⟩
      · exact continues_of_set ha ha' nofun
      · exact continues_of_mem ha'
    · exact continues_of_mem ha'
  | resume j result =>
    left
    simp only [BlobUploads.next] at ha'
    split at ha'
    · next a ha =>
      have hset : ∀ {s'}, Effect sha s s' j a → s'.attempts[i]? = some a' →
          Continues s (.resume j result) i a' := by
        intro s' hef hs'
        obtain ⟨phase, hatts, hf⟩ := hef.attempts
        rw [hatts] at hs'
        exact continues_of_set ha hs' fun held hh => .inl (hf.held held hh)
      rcases resume_spec ha with hef | ⟨s', hef, heq⟩
      · exact hset hef ha'
      rw [heq, (enqueue_attempts ..).1] at ha'
      exact hset hef ha'
    · exact continues_of_mem ha'

/-- Only the end of a read publishes. -/
theorem next_published (h : (s.next sha event).published ≠ s.published) :
    ∃ i result a stage data ref, event = .resume i result ∧ s.attempts[i]? = some a ∧
      Publishes sha s (s.next sha event) i a stage data ref := by
  cases event with
  | world w | fence | delete | destroy => exact absurd rfl h
  | enqueue resolution allowAttentionAdmission => exact absurd (enqueue_attempts ..).2.1 h
  | importUpload item => exact absurd (import_attempts ..).2 h
  | drain result =>
    exfalso
    simp only [BlobUploads.next] at h
    rcases drain_spec sha s result with heq | ⟨id, item, -, -, -, hef⟩
    · rw [heq] at h
      exact h rfl
    rcases hef.published with hs | ⟨_, _, _, hpub⟩
    · exact h hs
    · cases hpub.phase
  | read j =>
    exfalso
    simp only [BlobUploads.next] at h
    split at h
    · unfold sampleRead at h
      split at h <;> exact h rfl
    · exact h rfl
  | resume i result =>
    simp only [BlobUploads.next] at h ⊢
    split at h
    · next a ha =>
      rcases resume_spec ha with hef | ⟨s', hef, heq⟩
      · rcases hef.published with hs | ⟨stage, data, ref, hpub⟩
        · exact absurd hs h
        · exact ⟨i, result, a, stage, data, ref, rfl, ha, hpub⟩
      rw [heq] at h ⊢
      have hs := (enqueue_attempts s' none false).2.1
      rcases hef.published with hs' | ⟨stage, data, ref, hpub⟩
      · exact absurd (hs.trans hs') h
      exact ⟨i, result, a, stage, data, ref, rfl, ha,
        { hpub with published := hs.trans hpub.published }⟩
    · exact absurd rfl h

variable {w : BlobPathWorld} {events : List UploadEvent}

variable {a : UploadAttempt}

/-- Every attempt was started by the drain. -/
theorem started_at (n : ℕ) (ha : (uploadsAt sha w events n).attempts[i]? = some a) :
    ∃ m < n, ∃ result id item, events[m]? = some (.drain result) ∧
      (uploadsAt sha w events m).attempts.length = i ∧
      Started (uploadsAt sha w events m) id item a := by
  induction n generalizing a with
  | zero => cases ha
  | succ n ih =>
    have hstays : ∀ b, (uploadsAt sha w events n).attempts[i]? = some b →
        a = { b with phase := a.phase } → ∃ m < n + 1, ∃ result id item,
          events[m]? = some (.drain result) ∧
          (uploadsAt sha w events m).attempts.length = i ∧
          Started (uploadsAt sha w events m) id item a := by
      intro b hb hab
      obtain ⟨m, hm, result, id, item, hev, hlen, hs⟩ := ih hb
      refine ⟨m, by omega, result, id, item, hev, hlen, hs.queued,
        hs.queuedItem, ?_⟩
      rw [hab, hs.attempt]
    rcases stateAt_step (next sha) { world := w } events n with
      ⟨-, heq⟩ | ⟨event, hev, heq⟩
    · rw [uploadsAt, heq] at ha
      exact hstays a ha rfl
    rw [uploadsAt, heq] at ha
    rcases next_attempts ha with ⟨b, hb, hab, -⟩ | ⟨-, hlen, result, id, item, rfl, hs⟩
    · exact hstays b hb hab
    · exact ⟨n, by omega, result, id, item, hev, hlen, hs⟩

/-- The bytes an attempt holds are those that its file had at a moment of the read. -/
theorem held_since (n : ℕ) {held : ReadPurpose × List UInt8}
    (ha : (uploadsAt sha w events n).attempts[i]? = some a) (hh : a.phase.held = some held) :
    ∃ k < n, events[k]? = some (.read i) ∧ (∃ b, (uploadsAt sha w events k).attempts[i]? = some b ∧
        b.phase = .reading held.1 .pending ∧ a = { b with phase := a.phase } ∧
        (b.source.bind fun source =>
          (uploadsAt sha w events k).world.disk source.file) = some held.2) ∧
      ∀ j, k < j → j ≤ n → ∃ c, (uploadsAt sha w events j).attempts[i]? = some c ∧
        c.phase.held = some held := by
  induction n generalizing a with
  | zero => cases ha
  | succ n ih =>
    have hstays : ∀ b, (uploadsAt sha w events n).attempts[i]? = some b →
        a = { b with phase := a.phase } → b.phase.held = some held →
        ∃ k < n + 1, events[k]? = some (.read i) ∧
          (∃ b, (uploadsAt sha w events k).attempts[i]? = some b ∧
            b.phase = .reading held.1 .pending ∧ a = { b with phase := a.phase } ∧
            (b.source.bind fun source =>
              (uploadsAt sha w events k).world.disk source.file) = some held.2) ∧
          ∀ j, k < j → j ≤ n + 1 → ∃ c,
            (uploadsAt sha w events j).attempts[i]? = some c ∧ c.phase.held = some held := by
      intro b hb hab hbheld
      obtain ⟨k, hk, hev, ⟨c, hc, hph, hbc, hdata⟩, hsince⟩ := ih hb hbheld
      refine ⟨k, by omega, hev, ⟨c, hc, hph, ?_, hdata⟩, ?_⟩
      · rw [hab, hbc]
      intro j hkj hjn
      by_cases hj : j ≤ n
      · exact hsince j hkj hj
      rw [show j = n + 1 by omega]
      exact ⟨a, ha, hh⟩
    rcases stateAt_step (next sha) { world := w } events n with
      ⟨-, heq⟩ | ⟨event, hev, heq⟩
    · have hb := ha
      rw [uploadsAt, heq] at hb
      exact hstays a hb rfl hh
    have hnx := ha
    rw [uploadsAt, heq] at hnx
    rcases next_attempts hnx with ⟨b, hb, hab, hbef⟩ | ⟨hn, -⟩
    · rcases hbef held hh with hbheld | ⟨rfl, hph, hdata⟩
      · exact hstays b hb hab hbheld
      refine ⟨n, by omega, hev, ⟨b, hb, hph, hab, hdata⟩, ?_⟩
      intro j hnj hjn
      rw [show j = n + 1 by omega]
      exact ⟨a, ha, hh⟩
    · rw [hn] at hh
      cases hh

end History

section Publication

/-- The decision's Attention entry and what it names are there unchanged. -/
def StillNamed (w : BlobPathWorld) : BlobKeepLocalUploadResolution → Prop
  | .remoteDelete resolution =>
    (∃ entry, w.attention = some entry ∧ entry.reason = resolution.expectedReason ∧
      entry.episodeId = resolution.episodeId) ∧
    ∃ deleteState, w.getAuthoritativeBlobDeleteState = some deleteState ∧
      deleteState.fingerprint = resolution.remoteDeleteFingerprint
  | .downloadConflict resolution =>
    (∃ entry, w.attention = some entry ∧ entry.reason = .remoteDownloadLocalConflict ∧
      entry.episodeId = resolution.episodeId ∧
      entry.knownRemoteHash = some resolution.expectedRemoteHash) ∧
    w.isBlobTombstoned = false ∧
    sameBlobRef w.getBlobRef (some resolution.expectedRemoteRef) = true ∧
    w.getBlobSourceVersion = some resolution.expectedRemoteSourceVersion

variable {w : BlobPathWorld}

theorem stillNamed_of_active {resolution : BlobKeepLocalUploadResolution}
    (h : w.isResolutionActive resolution = true) : StillNamed w resolution := by
  cases resolution with
  | remoteDelete resolution =>
    simp only [isResolutionActive, hasExactKeepLocalAttentionEntry,
      Bool.and_eq_true, Option.any_eq_true, decide_eq_true_eq] at h
    obtain ⟨⟨entry, he, ⟨hreason, hepis⟩, -⟩, deleteState, hst, hprint⟩ := h
    exact ⟨⟨entry, he, hreason, hepis⟩, deleteState, hst, hprint⟩
  | downloadConflict resolution =>
    simp only [isResolutionActive,
      hasExactDownloadConflictAttentionEntry, Bool.and_eq_true,
      Option.any_eq_true, decide_eq_true_eq, Bool.not_eq_true'] at h
    obtain ⟨⟨⟨⟨entry, he, ⟨⟨hreason, hepis⟩, hh⟩, -⟩, htomb⟩, href⟩, hver⟩ := h
    exact ⟨⟨entry, he, hreason, hepis, hh⟩, htomb, href, hver⟩

/-- The path's reference is what an upload was based on; an upload that nobody has decided on is
based on what this device has settled, or on nothing at all. -/
structure BaseStands (w : BlobPathWorld) (base : UploadBase)
    (resolution : Option BlobKeepLocalUploadResolution) : Prop where
  ref : sameBlobRef w.getBlobRef base.ref = true
  sourceVersion : w.getBlobSourceVersion = base.sourceVersion
  settled : resolution = none → w.isBlobTombstoned = false ∧
    (base.ref.isSome = true → sameBlobRef (cloneBlobRef w.settledRef) base.ref = true ∧
      base.sourceVersion.isSome = true ∧ w.settledSourceVersion = base.sourceVersion) ∧
    (base.ref = none → w.settledRef = none)

theorem sameBlobRef_none {ref : Option BlobRef} (h : sameBlobRef ref none = true) : ref = none := by
  cases ref with
  | none => rfl
  | some ref => cases h

theorem baseStands_of_current {base : UploadBase}
    {resolution : Option BlobKeepLocalUploadResolution} {stage : BlobSettlementStage}
    (h : w.isUploadBaseCurrent base resolution (some stage) = true) :
    BaseStands w base resolution := by
  have ha : base.ref = none → w.getBlobRef = none →
      w.getBlobSourceVersion = base.sourceVersion := by
    intro hb hl
    rw [base.sourceVersion_eq hb, getBlobSourceVersion, Option.map_eq_none_iff.mp hl]
    rfl
  simp only [isUploadBaseCurrent] at h
  split at h
  · cases h
  split at h
  · cases h
  split at h
  · cases h
  · next href =>
    rw [Bool.not_eq_true', Bool.not_eq_false] at href
    cases resolution with
    | some resolution =>
      refine ⟨href, ?_, by rintro ⟨⟩⟩
      cases resolution with
      | remoteDelete resolution =>
        simp only [Option.any_eq_true] at h
        obtain ⟨deleteState, hst, -⟩ := h
        have hl : w.getBlobRef = none := by
          simp only [getAuthoritativeBlobDeleteState] at hst
          split at hst
          · cases hst
          · next hl =>
            rw [Bool.not_eq_true, Option.isSome_eq_false_iff, Option.isNone_iff_eq_none] at hl
            rw [getBlobRef, hl]
            rfl
        refine ha ?_ hl
        rw [hl] at href
        exact Option.isNone_iff_eq_none.mp href
      | downloadConflict resolution =>
        simp only [Bool.and_eq_true, decide_eq_true_eq] at h
        rw [h.1.1.2, h.1.2]
    | none =>
      simp only at h
      split at h
      · cases h
      · next htomb =>
        rw [Bool.not_eq_true] at htomb
        cases hb : base.ref with rw [hb] at h href
        | none =>
          simp only [Option.isSome_none, Bool.false_eq_true, if_false, Bool.and_eq_true,
            Option.isSome_some, if_true, Option.isNone_iff_eq_none] at h
          refine ⟨by rw [hb]; exact href, ha hb (sameBlobRef_none href), ?_⟩
          intro _
          refine ⟨htomb, ?_, fun _ => Option.map_eq_none_iff.mp h.2⟩
          rw [hb]
          rintro ⟨⟩
        | some ref =>
          simp only [Option.isSome_some, if_true, Bool.and_eq_true, decide_eq_true_eq] at h
          obtain ⟨⟨⟨⟨-, hset⟩, hs⟩, hver⟩, hl⟩ := h
          refine ⟨by rw [hb]; exact href, hl, ?_⟩
          intro _
          refine ⟨htomb, ?_, ?_⟩ <;> rw [hb]
          · exact fun _ => ⟨hset, hs, hver⟩
          · rintro ⟨⟩

variable (sha : List UInt8 → JsString) (w : BlobPathWorld) (events : List UploadEvent)

/-- What the publication of a reference by attempt `i` rests on: the attempt started from an item
and a file before event `m`, event `k` gave the file's bytes, and at event `n` they are published. -/
structure PublishedOnEvidence (n m k i id : ℕ) (item : UploadItem) (file : ℕ)
    (data : List UInt8) (ref : BlobRef) : Prop where
  order : m < k ∧ k < n
  started : (∃ result, events[m]? = some (.drain result)) ∧
    (uploadsAt sha w events m).attempts.length = i ∧
    (uploadsAt sha w events m).queued = some id ∧
    (uploadsAt sha w events m).items[id]? = some item ∧
    (uploadsAt sha w events m).world.file = some file
  published : (∃ result, events[n]? = some (.resume i result)) ∧
    (uploadsAt sha w events (n + 1)).published = (uploadsAt sha w events n).published ++ [(i, ref)]
  /-- The file is the same, and so are its time and size. -/
  identity : (uploadsAt sha w events n).world.file = some file ∧
    (uploadsAt sha w events n).world.isAtPath file = true ∧
    (uploadsAt sha w events n).world.stat file = (uploadsAt sha w events m).world.stat file
  /-- Its bytes have just been read. -/
  read : events[k]? = some (.read i) ∧
    (uploadsAt sha w events k).world.disk file = some data ∧
    ∃ stage, ∀ j, k < j → j ≤ n → ∃ a,
      (uploadsAt sha w events j).attempts[i]? = some a ∧
        a.phase.held = some (.commit (sha data) stage, data)
  hash : ref.hash = sha data
  size : ref.size = data.length ∧ data.length = ((uploadsAt sha w events m).world.stat file).2
  base : BaseStands (uploadsAt sha w events n).world item.base item.attentionResolution
  resolution : ∀ resolution, item.attentionResolution = some resolution →
    StillNamed (uploadsAt sha w events n).world resolution
  generation : (uploadsAt sha w events n).generation = item.generation
  gate : (uploadsAt sha w events n).world.uploadGateOpen = true
  /-- Nothing has been admitted for the path since, and the item is still queued. -/
  admitted : (uploadsAt sha w events n).admitted =
      (uploadsAt sha w events m).admitted ∧
    (uploadsAt sha w events n).queued = some id

variable {sha w events}

/-- In any run, an attempt publishes a reference only for bytes that it has just read from the file
it started from, on the base and the decision it was queued with, and as the path's last upload. -/
theorem upload_publishes_on_evidence {n : ℕ}
    (hpublished : (uploadsAt sha w events (n + 1)).published ≠
      (uploadsAt sha w events n).published) :
    ∃ m k i id item file data ref,
      PublishedOnEvidence sha w events n m k i id item file data ref := by
  rcases stateAt_step (next sha) { world := w } events n with
    ⟨-, heq⟩ | ⟨event, hev, heq⟩
  · exact absurd (congrArg published heq) hpublished
  change uploadsAt sha w events (n + 1) = (uploadsAt sha w events n).next sha event at heq
  rw [heq] at hpublished
  obtain ⟨i, result, a, stage, data, ref, rfl, ha, hpub⟩ := next_published hpublished
  rw [← heq] at hpub
  have hh : a.phase.held = some (.commit (sha data) stage, data) := by
    rw [hpub.phase]
    rfl
  obtain ⟨k, hk, hr, ⟨b, hb, -, hab, hdata⟩, hsince⟩ := held_since n ha hh
  obtain ⟨m, hm, result', id, item, hd, hlen, hs⟩ := started_at k hb
  have hfrom : a = { (uploadsAt sha w events m).startAttempt id item with
      phase := a.phase } := by
    rw [hab, hs.attempt]
  have hdn : a.phase.isDone = false := by
    rw [hpub.phase]
    rfl
  have hmay : a.phase.mayCommit = true := by
    rw [hpub.phase]
    rfl
  obtain ⟨now, hnow, -, hstands⟩ := (inv_at w events n).running i a ha hdn
  have hatt := hpub.attempt
  simp only [isUploadAttemptCurrent, isTransferCurrent, hnow,
    any_some, Bool.and_eq_true, Bool.not_eq_true', decide_eq_true_eq] at hatt
  obtain ⟨⟨⟨hgate, ⟨-, hgen⟩⟩, hq⟩, -, hrerun⟩ := hatt
  have hnot : ¬ now.needsRerun = true := by
    rw [hrerun]
    exact Bool.noConfusion
  obtain ⟨hresolution, hadmitted⟩ := (hstands hmay).resolve_left hnot
  obtain ⟨source, hsrc, hc⟩ := any_eq_true _ _ |>.mp hpub.source
  have hf : ∃ file, (uploadsAt sha w events m).world.file = some file ∧
      source = ⟨file, (uploadsAt sha w events m).world.stat file⟩ := by
    have hmp : ((uploadsAt sha w events m).world.file.map fun file =>
        (⟨file, (uploadsAt sha w events m).world.stat file⟩ : UploadSource)) =
        some source := by
      rw [← hsrc, hfrom]
      rfl
    obtain ⟨file, hf, heq⟩ := map_eq_some_iff.mp hmp
    exact ⟨file, hf, heq.symm⟩
  obtain ⟨file, hf, rfl⟩ := hf
  simp only [isIdentityCurrent, Bool.and_eq_true, decide_eq_true_eq] at hc
  have hid : a.item = id := by rw [hfrom]; rfl
  have hba : a.base = item.base := by rw [hfrom]; rfl
  have hexp : a.explicitResolution = item.attentionResolution := by rw [hfrom]; rfl
  have hsz := hpub.size
  rw [hsrc] at hsz
  have hbsource : b.source = a.source := by rw [hab]
  rw [hbsource, hsrc] at hdata
  refine ⟨m, k, i, id, item, file, data, ref, ⟨hm, hk⟩, ⟨⟨result', hd⟩, hlen,
    hs.queued, hs.queuedItem, hf⟩, ⟨⟨result, hev⟩, hpub.published⟩,
    ⟨hc.1.2, hc.1.1, hc.2⟩, ⟨hr, hdata, stage, hsince⟩, ?_, ⟨?_, hsz⟩, ?_,
    ?_, ?_, hgate, ?_⟩
  · rw [hpub.lineage]
    rfl
  · rw [hpub.lineage]
    rfl
  · rw [← hba, ← hexp]
    exact baseStands_of_current hpub.base
  · intro resolution hres
    have hact := hpub.resolution (by rw [hexp, hres]; rfl)
    simp only [isKeepLocalUploadResolutionActive, hnow, bind_some, hresolution,
      hexp, hres, any_some] at hact
    exact stillNamed_of_active hact
  · rw [hgen, hfrom]
    rfl
  rw [hadmitted hq, hfrom]
  exact ⟨rfl, by rw [hq, hid]⟩

end Publication

/-- A path with a new file of two bytes. -/
def newAttachment : BlobPathWorld where
  live := none
  tombstone := none
  file := some 0
  isAtPath := fun _ => true
  stat := fun _ => (1, 2)
  disk := fun _ => some [1, 2]
  hashCache := none
  stage := none
  settledRef := none
  settledSourceVersion := none
  attention := none
  uploadGateOpen := true
  destroyed := false
  attentionAcceptInFlight := false
  isSyncable := true
  isLocalOnly := false
  maxSize := 0
  settlementAuthority := true
  operationAuthority := true

/-- The file is queued, hashed, found on the server, staged, read again and published. -/
def newAttachmentEvents : List UploadEvent :=
  [.enqueue none false, .drain {}, .read 0, .resume 0 {}, .resume 0 {}, .resume 0 {},
    .resume 0 { isPresent := true }, .resume 0 {}, .read 0, .resume 0 {},
    .resume 0 { sourceVersion := some [49] }]

theorem upload_publishes_on_evidence_new :
    (uploadsAt (List.map UInt8.toUInt16) newAttachment newAttachmentEvents 11).published =
        [(0, { hash := [1, 2], size := 2 })] ∧
      ∃ m k i id item file data ref, PublishedOnEvidence (List.map UInt8.toUInt16) newAttachment
        newAttachmentEvents 10 m k i id item file data ref :=
  ⟨by decide, upload_publishes_on_evidence (by decide)⟩

end Kaos.Sync
