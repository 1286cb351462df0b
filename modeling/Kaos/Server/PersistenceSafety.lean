import Kaos.Lib.Transition
import Kaos.Server.PersistenceCoordinator

/-! No update is lost between the live document, the save in progress and the store. -/
namespace Kaos.Server

open Kaos.Yjs Kaos.Lib

/-- The drained updates a link may still have to put back. -/
def Running.drained : Running → List Update
  | .append _ drained _ _ | .rewrite _ _ drained _ _ _ | .journalStats _ drained
  | .returned drained _ => drained
  | _ => []

/-- The drained updates that are not known to be stored yet. -/
def Running.unstored : Running → List Update
  | .append _ drained _ _ | .rewrite _ _ drained _ _ _ => drained
  | .returned drained result => if result.success then [] else drained
  | _ => []

/-- What each suspension point remembers about the store and the document. -/
def Running.Sound (document stored pending : Update) (persisted : Option StateVector) :
    Running → Prop
  | .append delta drained currentStateVector committed =>
    delta ≤ document ∧ mergeUpdates drained ≤ delta ∧ (committed → delta ≤ stored) ∧
      currentStateVector ≤ encodeStateVector (stored ⊔ mergeUpdates drained)
  | .rewrite _ _ _ checkpointUpdate checkpointStateVector committed =>
    checkpointUpdate ≤ document ∧ document ≤ checkpointUpdate ⊔ pending ∧
      checkpointStateVector = encodeStateVector checkpointUpdate ∧
      (∀ sv ∈ persisted, sv ≤ checkpointStateVector) ∧ (committed → stored = checkpointUpdate)
  | .compact _ (some result) => result.stateVector ≤ encodeStateVector stored
  | _ => True

@[simp] theorem Running.unstored_idle : Running.idle.unstored = [] := rfl

/-- The update being written and the drained updates cover what is not known to be stored. -/
theorem Running.unstored_le_update (running : Running) :
    mergeUpdates running.unstored ≤ running.update := by
  cases running with
  | append | rewrite => exact le_sup_right
  | returned drained result =>
    simp only [unstored, update]
    split <;> simp
  | _ => simp [unstored]

namespace Room

variable {cfg : PersistenceCoordinatorOptions} {e : Encoding} {r r' : Room}

/-- Every change of the document is stored, drained by the running save or still pending, and
the persisted vector claims no more than the store holds. -/
structure Sound (r : Room) : Prop where
  covered : r.document ≤ r.stored ⊔ mergeUpdates r.running.unstored ⊔
    mergeUpdates r.coordinator.pendingUpdates
  stored_le : r.stored ≤ r.document
  pending_le : mergeUpdates r.coordinator.pendingUpdates ≤ r.document
  drained_le : mergeUpdates r.running.drained ≤ r.document
  persisted_le : ∀ sv ∈ r.coordinator.lastPersistedStateVector, sv ≤ encodeStateVector r.stored
  running : r.running.Sound r.document r.stored (mergeUpdates r.coordinator.pendingUpdates)
    r.coordinator.lastPersistedStateVector

/-- Soundness looks at neither the health record nor the queued links. -/
theorem Sound.congr (h : r.Sound) (hdoc : r'.document = r.document) (hs : r'.store = r.store)
    (hrun : r'.running = r.running)
    (hp : r'.coordinator.pendingUpdates = r.coordinator.pendingUpdates)
    (hl : r'.coordinator.lastPersistedStateVector = r.coordinator.lastPersistedStateVector) :
    r'.Sound := by
  have hst : r'.stored = r.stored := by rw [stored, stored, hs]
  constructor
  · rw [hdoc, hst, hrun, hp]; exact h.covered
  · rw [hdoc, hst]; exact h.stored_le
  · rw [hdoc, hp]; exact h.pending_le
  · rw [hdoc, hrun]; exact h.drained_le
  · rw [hst, hl]; exact h.persisted_le
  · rw [hdoc, hst, hrun, hp, hl]; exact h.running

/-- A suspension point that drained nothing keeps a room sound where the pending list covers
the rest of the document. -/
theorem Sound.setRunning_of_covered (h : r.Sound) (running : Running)
    (hcov : r.document ≤ r.stored ⊔ mergeUpdates r.coordinator.pendingUpdates)
    (hd : mergeUpdates running.drained ≤ r.document)
    (hr : running.Sound r.document r.stored (mergeUpdates r.coordinator.pendingUpdates)
      r.coordinator.lastPersistedStateVector) : (r.setRunning running).Sound where
  covered := hcov.trans (sup_le_sup_right le_sup_left _)
  stored_le := h.stored_le
  pending_le := h.pending_le
  drained_le := hd
  persisted_le := h.persisted_le
  running := hr

theorem mergeUpdates_appendUpdate (store : DocStore Update StateVector) (update : Update) :
    mergeUpdates (store.appendUpdate e.byteLength update).updates =
      mergeUpdates store.updates ⊔ update := by
  unfold DocStore.appendUpdate
  split
  · next h => simp [e.eq_bot_of_byteLength_eq_zero h]
  · simp [DocStore.updates, sup_assoc]

@[simp] theorem mergeUpdates_rewriteCheckpoint (update : Update) (stateVector : StateVector) :
    mergeUpdates (DocStore.rewriteCheckpoint update stateVector).updates = update := by
  simp [DocStore.rewriteCheckpoint, DocStore.updates]

/-- Compaction stores the same content again and reports the vector of exactly that. -/
theorem compactJournalToCheckpoint_spec (store : DocStore Update StateVector) :
    mergeUpdates (store.compactJournalToCheckpoint e).1.updates = mergeUpdates store.updates ∧
      (store.compactJournalToCheckpoint e).2.stateVector =
        encodeStateVector (mergeUpdates store.updates) := by
  unfold DocStore.compactJournalToCheckpoint
  split
  · next h => simp [h]
  · simp [encodeStateVectorFromUpdate]

theorem sound_documentUpdate (h : r.Sound) (update : Update) :
    (r.documentUpdate e update).Sound := by
  have hdoc : r.document ≤ r.document ⊔ update := le_sup_left
  have hrun : ∀ pending, mergeUpdates r.coordinator.pendingUpdates ⊔ update ≤ pending →
      r.running.Sound (r.document ⊔ update) r.stored pending
        r.coordinator.lastPersistedStateVector := by
    intro pending hp
    have hr := h.running
    cases hc : r.running with
    | append delta drained sv committed =>
      rw [hc] at hr
      exact ⟨hr.1.trans hdoc, hr.2⟩
    | rewrite fallback delta drained checkpointUpdate sv committed =>
      rw [hc] at hr
      refine ⟨hr.1.trans hdoc, ?_, hr.2.2⟩
      calc r.document ⊔ update
          ≤ checkpointUpdate ⊔ mergeUpdates r.coordinator.pendingUpdates ⊔ update :=
            sup_le_sup_right hr.2.1 _
        _ ≤ checkpointUpdate ⊔ pending := by
            rw [sup_assoc]
            exact sup_le_sup_left hp _
    | compact stats committed =>
      rw [hc] at hr
      cases committed with
      | none => trivial
      | some result => exact hr
    | _ => trivial
  unfold documentUpdate recordIncrementalUpdate applyUpdate
  split
  · next hb =>
    -- An encoding of no bytes changes nothing, so nothing has to be recorded.
    rw [e.eq_bot_of_byteLength_eq_zero hb] at hrun ⊢
    exact ⟨by simpa using h.covered, by simpa using h.stored_le, by simpa using h.pending_le,
      by simpa using h.drained_le, h.persisted_le, by simpa using hrun _ (by simp)⟩
  refine Sound.congr (r := { r with
      document := r.document ⊔ update
      coordinator := { r.coordinator with
        pendingUpdates := r.coordinator.pendingUpdates ++ [update] } }) ?_ rfl rfl rfl rfl rfl
  refine ⟨?_, h.stored_le.trans hdoc, ?_, h.drained_le.trans hdoc, h.persisted_le, hrun _ (by simp)⟩
  · calc r.document ⊔ update
        ≤ r.stored ⊔ mergeUpdates r.running.unstored ⊔
            mergeUpdates r.coordinator.pendingUpdates ⊔ update := sup_le_sup_right h.covered _
      _ = r.stored ⊔ mergeUpdates r.running.unstored ⊔
            mergeUpdates (r.coordinator.pendingUpdates ++ [update]) := by simp [sup_assoc]
  · change mergeUpdates (r.coordinator.pendingUpdates ++ [update]) ≤ r.document ⊔ update
    rw [mergeUpdates_append, mergeUpdates_cons, mergeUpdates_nil, sup_bot_eq]
    exact sup_le_sup_right h.pending_le _

theorem sound_enqueueSave (h : r.Sound) : r.enqueueSave.Sound :=
  h.congr rfl rfl rfl rfl rfl

/-- The drained list takes the place of the pending one when a save starts its store call. -/
theorem sound_drain (h : r.Sound) (hi : r.running = .idle) (running : Running)
    (hd : running.drained = r.coordinator.pendingUpdates)
    (hu : running.unstored = r.coordinator.pendingUpdates)
    (hr : running.Sound r.document r.stored ⊥ r.coordinator.lastPersistedStateVector) :
    ({ r with
        coordinator := { r.coordinator with pendingUpdates := [] }, running } : Room).Sound where
  covered := by
    change r.document ≤ r.stored ⊔ mergeUpdates running.unstored ⊔ ⊥
    rw [hu, sup_bot_eq]
    simpa [hi] using h.covered
  stored_le := h.stored_le
  pending_le := bot_le
  drained_le := by simpa [hd] using h.pending_le
  persisted_le := h.persisted_le
  running := hr

theorem saveDelta_le (h : r.Sound) : r.saveDelta ≤ r.document := by
  unfold saveDelta
  split
  · exact encodeStateAsUpdate_le _ _
  · exact h.pending_le

theorem pending_le_saveDelta : mergeUpdates r.coordinator.pendingUpdates ≤ r.saveDelta := by
  unfold saveDelta
  split
  · next hp => simp [hp]
  · exact le_rfl

section

variable (h : r.Sound)
include h

variable {fallback : Fallback} {pending : Update}

/-- A rewrite encodes the live document, which covers whatever the store loses. -/
theorem rewrite_sound {delta : Update} {drained : List Update} :
    (Running.rewrite fallback delta drained (encodeStateAsUpdate r.document none)
      (encodeStateVector r.document) false).Sound r.document r.stored pending
      r.coordinator.lastPersistedStateVector :=
  ⟨le_rfl, le_sup_left, rfl,
    fun sv hsv => (h.persisted_le sv hsv).trans (encodeStateVector_mono h.stored_le), by simp⟩

theorem append_sound (hi : r.running = .idle) :
    (Running.append r.saveDelta r.coordinator.pendingUpdates (encodeStateVector r.document)
      false).Sound r.document r.stored pending r.coordinator.lastPersistedStateVector := by
  refine ⟨saveDelta_le h, pending_le_saveDelta, by simp, encodeStateVector_mono ?_⟩
  simpa [hi] using h.covered

theorem sound_executeSave (hi : r.running = .idle) : (r.executeSave cfg e).Sound := by
  unfold executeSave
  extract_lets currentStateVector drained delta r₁ r₂
  split
  · next hskip =>
    exact (sound_drain h hi (.finished skipped) hskip.2.symm hskip.2.symm
      trivial).congr rfl rfl rfl rfl rfl
  split
  · next he =>
    -- A delta of no bytes was merged from updates that carry nothing.
    have hbot := pending_le_saveDelta.trans_eq (e.eq_bot_of_byteLength_eq_zero he)
    have hcov : r.document ≤ r.stored := by
      have hc := h.covered
      rw [hi, le_bot_iff.mp hbot] at hc
      simpa using hc
    refine ⟨?_, h.stored_le, bot_le, bot_le, h.persisted_le, trivial⟩
    exact hcov.trans (le_sup_left.trans le_sup_left)
  split
  · exact (sound_drain h hi (.rewrite .consecutive delta drained _ _ false) rfl rfl
      (rewrite_sound h)).congr rfl rfl rfl rfl rfl
  exact (sound_drain h hi (.append delta drained currentStateVector false) rfl rfl
    (append_sound h hi)).congr rfl rfl rfl rfl rfl

/-- A room whose running link is idle covers its document by the store and the pending list. -/
theorem Sound.covered_of_idle (hu : r.running.unstored = []) :
    r.document ≤ r.stored ⊔ mergeUpdates r.coordinator.pendingUpdates := by
  simpa [hu] using h.covered

theorem sound_runNext (hr : r.runNext cfg e = some r') : r'.Sound := by
  unfold runNext at hr
  split at hr
  · next hi _ =>
    cases hr
    exact sound_executeSave (h.congr rfl rfl rfl rfl rfl) hi
  · next hi _ =>
    cases hr
    exact (h.setRunning_of_covered (.compact _ none)
      (h.covered_of_idle (by rw [hi]; rfl)) bot_le trivial).congr rfl rfl rfl rfl rfl
  · cases hr

theorem sound_commit (hr : r.commit e = some r') : r'.Sound := by
  unfold commit at hr
  have hrun := h.running
  split at hr
  · next delta drained sv hc =>
    cases hr
    rw [hc] at hrun
    obtain ⟨hdelta, hdrained, _, hsv⟩ := hrun
    have hst : mergeUpdates (r.store.appendUpdate e.byteLength delta).updates =
        r.stored ⊔ delta := mergeUpdates_appendUpdate _ _
    have hle : r.stored ≤ r.stored ⊔ delta := le_sup_left
    have hd : mergeUpdates drained ≤ r.document := hdrained.trans hdelta
    refine ⟨?_, ?_, h.pending_le, hd, ?_, hdelta, hdrained, ?_, ?_⟩
    · have hcov := h.covered
      rw [hc] at hcov
      exact hcov.trans (sup_le_sup_right (sup_le_sup_right (hle.trans_eq hst.symm) _) _)
    · exact hst.trans_le (sup_le h.stored_le hdelta)
    · exact fun sv hsv => (h.persisted_le sv hsv).trans
        (encodeStateVector_mono (hle.trans_eq hst.symm))
    · exact fun _ => le_sup_right.trans_eq hst.symm
    · exact hsv.trans (encodeStateVector_mono (sup_le_sup_right (hle.trans_eq hst.symm) _))
  · next fallback delta drained update sv hc =>
    cases hr
    rw [hc] at hrun
    obtain ⟨hu, hcov, hsv, hl, _⟩ := hrun
    have hst : mergeUpdates (DocStore.rewriteCheckpoint update sv).updates = update :=
      mergeUpdates_rewriteCheckpoint _ _
    have hd := h.drained_le
    rw [hc] at hd
    refine ⟨?_, hst.trans_le hu, h.pending_le, hd, ?_, hu, hcov, hsv, hl, ?_⟩
    · exact hcov.trans (sup_le_sup_right (hst.symm.le.trans le_sup_left) _)
    · intro v hv
      rw [hsv] at hl
      exact (hl v hv).trans (encodeStateVector_mono hst.symm.le)
    · exact fun _ => hst
  · next stats hc =>
    obtain ⟨hst, hsv⟩ := compactJournalToCheckpoint_spec (e := e) r.store
    generalize r.store.compactJournalToCheckpoint e = out at hr hst hsv
    obtain ⟨store, result⟩ := out
    cases hr
    have hcov := h.covered_of_idle (by rw [hc]; rfl)
    have hst' : mergeUpdates store.updates = r.stored := hst
    refine ⟨?_, hst'.trans_le h.stored_le, h.pending_le, bot_le, ?_, ?_⟩
    · exact hcov.trans (sup_le_sup_right (hst'.symm.le.trans le_sup_left) _)
    · exact fun v hv => (h.persisted_le v hv).trans (encodeStateVector_mono hst'.symm.le)
    · exact hsv.trans_le (encodeStateVector_mono hst'.symm.le)
  · cases hr

/-- A write that succeeded advances the vector to one the store carries. -/
theorem sound_saveSucceeded {sv : StateVector} (running : Running)
    (hsv : sv ≤ encodeStateVector r.stored)
    (hcov : r.document ≤ r.stored ⊔ mergeUpdates r.coordinator.pendingUpdates)
    (hd : mergeUpdates running.drained ≤ r.document)
    (hr : running.Sound r.document r.stored (mergeUpdates r.coordinator.pendingUpdates)
      (some sv)) : ((r.saveSucceeded sv).setRunning running).Sound where
  covered := hcov.trans (sup_le_sup_right le_sup_left _)
  stored_le := h.stored_le
  pending_le := h.pending_le
  drained_le := hd
  persisted_le := by
    rintro v hv
    cases hv
    exact hsv
  running := hr

theorem sound_resolve (hr : r.resolve cfg e = some r') : r'.Sound := by
  unfold resolve at hr
  have hrun := h.running
  have hd := h.drained_le
  split at hr
  · next delta drained sv hc =>
    cases hr
    rw [hc] at hrun hd
    obtain ⟨hdelta, hdrained, hco, hsv⟩ := hrun
    have hst : mergeUpdates drained ≤ r.stored := hdrained.trans (hco rfl)
    rw [sup_eq_left.mpr hst] at hsv
    have hcov : r.document ≤ r.stored ⊔ mergeUpdates r.coordinator.pendingUpdates := by
      have hc' := h.covered
      rw [hc] at hc'
      exact hc'.trans (sup_le_sup_right (sup_le le_rfl hst) _)
    unfold appendSucceeded
    extract_lets stats r₁ r₂
    have hs := sound_saveSucceeded h (.returned drained
      { success := true, method := .append, journalStats := some stats }) hsv hcov hd trivial
    by_cases hcom : stats.entryCount > cfg.journalCompactMaxEntries
        ∨ stats.totalBytes > cfg.journalCompactMaxBytes
    all_goals
      simp only [r₂, hcom, ↓reduceIte]
      exact hs.congr rfl rfl rfl rfl rfl
  · next fallback delta drained update sv hc =>
    cases hr
    rw [hc] at hrun hd
    obtain ⟨_, hcov, hsv, _, hco⟩ := hrun
    rw [← hco rfl] at hcov hsv
    exact (sound_saveSucceeded h (.journalStats fallback drained) hsv.le hcov hd
      trivial).congr rfl rfl rfl rfl rfl
  · next fallback drained hc =>
    cases hr
    rw [hc] at hd
    exact (h.setRunning_of_covered (.returned drained _)
      (h.covered_of_idle (by rw [hc]; rfl)) hd trivial).congr rfl rfl rfl rfl rfl
  · next stats result hc =>
    cases hr
    rw [hc] at hrun
    exact (sound_saveSucceeded h .idle hrun
      (h.covered_of_idle (by rw [hc]; rfl)) bot_le trivial).congr rfl rfl rfl rfl rfl
  · cases hr

/-- A failed save keeps its drained updates until it puts them back. -/
theorem sound_failed {drained : List Update} (result : SaveResult)
    (hd : mergeUpdates drained ≤ r.document) (hr : result.success = false)
    (hcov : r.document ≤ r.stored ⊔ mergeUpdates drained ⊔
      mergeUpdates r.coordinator.pendingUpdates) :
    (r.setRunning (.returned drained result)).Sound where
  covered := by
    change r.document ≤ r.stored ⊔
      mergeUpdates (if result.success then [] else drained) ⊔
      mergeUpdates r.coordinator.pendingUpdates
    simpa [hr] using hcov
  stored_le := h.stored_le
  pending_le := h.pending_le
  drained_le := hd
  persisted_le := h.persisted_le
  running := trivial

variable {err : StoreError}

theorem sound_fallbackFailed {drained : List Update} (hd : mergeUpdates drained ≤ r.document)
    (hcov : r.document ≤ r.stored ⊔ mergeUpdates drained ⊔
      mergeUpdates r.coordinator.pendingUpdates) : (r.fallbackFailed fallback drained err).Sound := by
  have hs := sound_failed h
    { success := false, method := fallback.method, error := some err.message } hd rfl hcov
  cases fallback <;> exact hs.congr rfl rfl rfl rfl rfl

theorem sound_reject (hr : r.reject cfg e err = some r') : r'.Sound := by
  unfold reject at hr
  have hd := h.drained_le
  have hcov := h.covered
  split at hr
  · next delta drained sv committed hc =>
    cases hr
    rw [hc] at hd hcov
    unfold appendFailed
    extract_lets r₁
    split
    · have hs : (r.setRunning (.rewrite .immediate delta drained
          (encodeStateAsUpdate r.document none) (encodeStateVector r.document) false)).Sound :=
        ⟨hcov, h.stored_le, h.pending_le, hd, h.persisted_le, rewrite_sound h⟩
      exact hs.congr rfl rfl rfl rfl rfl
    exact (sound_failed h
      { success := false, method := .append, error := some err.message } hd rfl
      hcov).congr rfl rfl rfl rfl rfl
  · next fallback delta drained update sv committed hc =>
    cases hr
    rw [hc] at hd hcov
    exact sound_fallbackFailed h hd hcov
  · next fallback drained hc =>
    cases hr
    rw [hc] at hd
    have hcov := h.covered_of_idle (by rw [hc]; rfl)
    exact sound_fallbackFailed h hd (hcov.trans (sup_le_sup_right le_sup_left _))
  · next stats committed hc =>
    cases hr
    exact (h.setRunning_of_covered .idle
      (h.covered_of_idle (by rw [hc]; rfl)) bot_le trivial).congr rfl rfl rfl rfl rfl
  · cases hr

theorem sound_resume (hr : r.resume = some r') : r'.Sound := by
  unfold resume at hr
  have hd := h.drained_le
  have hcov := h.covered
  split at hr
  · next drained result hc =>
    cases hr
    rw [hc] at hd hcov
    unfold saveReturned
    cases hsuc : result.success with
    | true =>
      simp only [Running.unstored, hsuc, ↓reduceIte, mergeUpdates_nil, sup_bot_eq] at hcov
      exact (h.setRunning_of_covered (.finished result) hcov bot_le
        trivial).congr rfl rfl rfl rfl rfl
    | false =>
      simp only [Running.unstored, hsuc, Bool.false_eq_true, ↓reduceIte] at hcov ⊢
      unfold restorePendingUpdates
      split
      · next hnil =>
        subst hnil
        exact h.setRunning_of_covered (.finished result) (by simpa using hcov) bot_le trivial
      refine Sound.congr (r := { r with
          coordinator := { r.coordinator with
            pendingUpdates := drained ++ r.coordinator.pendingUpdates }
          running := .finished result }) ?_ rfl rfl rfl rfl rfl
      refine ⟨?_, h.stored_le, ?_, bot_le, h.persisted_le, trivial⟩
      · simpa [Running.unstored, stored, sup_assoc] using hcov
      rw [mergeUpdates_append]
      exact sup_le hd h.pending_le
  · next result hc =>
    cases hr
    exact (h.setRunning_of_covered .idle
      (h.covered_of_idle (by rw [hc]; rfl)) bot_le trivial).congr rfl rfl rfl rfl rfl
  · cases hr

end

theorem sound_step {event : RoomEvent} (hs : Step cfg e r event r') (h : r.Sound) : r'.Sound := by
  cases event with
  | update update => cases hs; exact sound_documentUpdate h update
  | enqueueSave => cases hs; exact sound_enqueueSave h
  | runNext => exact sound_runNext h hs
  | commit => exact sound_commit h hs
  | resolve => exact sound_resolve h hs
  | reject err => exact sound_reject h hs
  | resume => exact sound_resume h hs

/-- `setInitialStateVector` on a room that has just loaded its document from the store. -/
structure Loaded (r : Room) : Prop where
  document_eq : r.document = r.stored
  stateVector_eq : r.coordinator.lastPersistedStateVector = some (encodeStateVector r.document)
  pendingUpdates_eq : r.coordinator.pendingUpdates = []
  running_eq : r.running = .idle

theorem Loaded.sound (h : r.Loaded) : r.Sound where
  covered := by simpa [h.running_eq, h.pendingUpdates_eq] using h.document_eq.le
  stored_le := h.document_eq.ge
  pending_le := by simp [h.pendingUpdates_eq]
  drained_le := by simp [h.running_eq, Running.drained]
  persisted_le := by
    intro sv hsv
    rw [h.stateVector_eq] at hsv
    cases hsv
    exact encodeStateVector_mono h.document_eq.le
  running := by rw [h.running_eq]; trivial

/-- At every point of every run the document is covered by the store, the update under way and
the pending list, and the persisted vector is one the store carries. -/
theorem save_pipeline_loses_no_update {events : List RoomEvent} (hr : r.Loaded)
    (ht : Trace (Step cfg e) r events r') :
    r'.document ≤ r'.stored ⊔ r'.running.update ⊔ mergeUpdates r'.coordinator.pendingUpdates ∧
      ∀ sv ∈ r'.coordinator.lastPersistedStateVector, sv ≤ encodeStateVector r'.stored := by
  have h : r'.Sound := ht.invariant sound_step hr.sound
  refine ⟨h.covered.trans ?_, h.persisted_le⟩
  exact sup_le_sup_right (sup_le_sup_left r'.running.unstored_le_update _) _

/-- Two header bytes, as Yjs writes for an update of nothing, and one byte an item. -/
def plainEncoding : Encoding where
  byteLength update := 2 + update.items.card + update.deletes.card
  eq_bot_of_byteLength_eq_zero h := by omega

/-- A room that holds one item, loaded from its checkpoint. -/
def oneItemRoom : Room where
  document := ⟨{⟨1, 0⟩}, ∅⟩
  coordinator := { lastPersistedStateVector := some (encodeStateVector ⟨{⟨1, 0⟩}, ∅⟩) }
  store := .rewriteCheckpoint ⟨{⟨1, 0⟩}, ∅⟩ (encodeStateVector ⟨{⟨1, 0⟩}, ∅⟩)
  saveChain := []
  running := .idle

/-- A deletion-only update whose append throws twice, once after it committed, while a second
deletion arrives; the immediate fallback commits and then throws as well. -/
def failingDeletionRun : List RoomEvent :=
  [.update ⟨∅, {⟨1, 0⟩}⟩, .enqueueSave, .enqueueSave, .runNext, .reject ⟨"Error", "append"⟩,
    .resume, .resume, .runNext, .commit, .update ⟨∅, {⟨2, 0⟩}⟩, .reject ⟨"Error", "append"⟩,
    .commit, .reject ⟨"Error", "rewrite"⟩, .resume, .resume]

theorem save_pipeline_loses_no_update_failingDeletionRun :
    ∃ r', Trace (Step {} plainEncoding) oneItemRoom failingDeletionRun r' ∧
      r'.coordinator.pendingUpdates = [⟨∅, {⟨1, 0⟩}⟩, ⟨∅, {⟨2, 0⟩}⟩] ∧
      r'.document ≤ r'.stored ⊔ r'.running.update ⊔
        mergeUpdates r'.coordinator.pendingUpdates ∧
      ∀ sv ∈ r'.coordinator.lastPersistedStateVector, sv ≤ encodeStateVector r'.stored := by
  have hrun : Trace (Step {} plainEncoding) oneItemRoom failingDeletionRun _ := .of_foldlM rfl
  exact ⟨_, hrun, rfl, save_pipeline_loses_no_update ⟨by decide, rfl, rfl, rfl⟩ hrun⟩

end Room
end Kaos.Server
