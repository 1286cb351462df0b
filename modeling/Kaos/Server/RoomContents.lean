import Kaos.Server.PersistenceSafety

/-! Whatever a room holds came with the updates it was given. -/
namespace Kaos.Server

open Kaos.Yjs List

/-- A property of updates that merging and encoding keep. -/
structure MergeClosed (P : Update → Prop) : Prop where
  bot : P ⊥
  sup : ∀ {u v}, P u → P v → P (u ⊔ v)
  diff : ∀ {u} sv, P u → P (encodeStateAsUpdate u sv)

variable {P Q : Update → Prop}

theorem MergeClosed.mergeUpdates (h : MergeClosed P) {us : List Update} (hus : ∀ u ∈ us, P u) :
    P (mergeUpdates us) := by
  induction us with
  | nil => exact h.bot
  | cons u us ih =>
    apply h.sup
    · exact hus u mem_cons_self
    apply ih
    intro v hv
    exact hus v (mem_cons_of_mem _ hv)

/-- Everything the running link works with has the property. -/
def Running.Holds (P : Update → Prop) : Running → Prop
  | .append delta drained _ _ => P delta ∧ ∀ u ∈ drained, P u
  | .rewrite _ delta drained checkpointUpdate _ _ =>
    P delta ∧ (∀ u ∈ drained, P u) ∧ P checkpointUpdate
  | .journalStats _ drained | .returned drained _ => ∀ u ∈ drained, P u
  | _ => True

theorem Running.Holds.imp {running : Running} (h : running.Holds P) (himp : ∀ u, P u → Q u) :
    running.Holds Q := by
  cases running with
  | append delta drained sv committed => exact ⟨himp delta h.1, fun u hu => himp u (h.2 u hu)⟩
  | rewrite fallback delta drained checkpointUpdate sv committed =>
    exact ⟨himp delta h.1, fun u hu => himp u (h.2.1 u hu), himp _ h.2.2⟩
  | journalStats fallback drained | returned drained result => exact fun u hu => himp u (h u hu)
  | idle | finished result | compact stats committed => trivial

namespace Room

variable {cfg : PersistenceCoordinatorOptions} {e : Encoding} {r r' : Room}

structure Holds (P : Update → Prop) (r : Room) : Prop where
  document : P r.document
  store : ∀ u ∈ r.store.updates, P u
  pending : ∀ u ∈ r.coordinator.pendingUpdates, P u
  running : r.running.Holds P

theorem Holds.imp (h : r.Holds P) (himp : ∀ u, P u → Q u) : r.Holds Q where
  document := himp _ h.document
  store u hu := himp u (h.store u hu)
  pending u hu := himp u (h.pending u hu)
  running := h.running.imp himp

theorem Holds.stored (h : r.Holds P) (hP : MergeClosed P) : P r.stored := hP.mergeUpdates h.store

theorem Holds.congr (h : r.Holds P) (hdoc : r'.document = r.document)
    (hs : r'.store = r.store) (hrun : r'.running = r.running)
    (hp : r'.coordinator.pendingUpdates = r.coordinator.pendingUpdates) : r'.Holds P where
  document := hdoc ▸ h.document
  store := hs ▸ h.store
  pending := hp ▸ h.pending
  running := hrun ▸ h.running

theorem Holds.setRunning (h : r.Holds P) {running : Running} (hrun : running.Holds P) :
    (r.setRunning running).Holds P :=
  ⟨h.document, h.store, h.pending, hrun⟩

section

variable (hP : MergeClosed P) (h : r.Holds P)
include hP h

theorem holds_documentUpdate {update : Update} (hu : P update) :
    (r.documentUpdate e update).Holds P := by
  have hdoc : P (r.document ⊔ update) := hP.sup h.document hu
  unfold documentUpdate recordIncrementalUpdate applyUpdate
  split
  · exact ⟨hdoc, h.store, h.pending, h.running⟩
  refine ⟨hdoc, h.store, ?_, h.running⟩
  intro u hmem
  rcases mem_append.mp hmem with hmem | hmem
  · exact h.pending u hmem
  rw [mem_singleton.mp hmem]
  exact hu

theorem holds_startFallback {fallback : Fallback}
    {delta : Update} {drained : List Update} (hdelta : P delta) (hdrained : ∀ u ∈ drained, P u) :
    (r.startFallback e fallback delta drained).Holds P :=
  ⟨h.document, h.store, h.pending, hdelta, hdrained, hP.diff none h.document⟩

theorem holds_executeSave : (r.executeSave cfg e).Holds P := by
  have hdelta : P r.saveDelta := by
    unfold saveDelta
    split
    · exact hP.diff _ h.document
    · exact hP.mergeUpdates h.pending
  have hdrained : ∀ running : Running, running.Holds P →
      Holds P { r with
        coordinator := { r.coordinator with pendingUpdates := [] }, running } := by
    intro running hrun
    exact ⟨h.document, h.store, fun u hu => absurd hu not_mem_nil, hrun⟩
  unfold executeSave
  extract_lets currentStateVector drained delta r₁ r₂
  split
  · exact (hdrained (.finished skipped) trivial).congr rfl rfl rfl rfl
  split
  · exact (hdrained (.finished skipped) trivial).congr rfl rfl rfl rfl
  split
  · exact (hdrained (.rewrite .consecutive delta drained _ _ false)
      ⟨hdelta, h.pending, hP.diff none h.document⟩).congr rfl rfl rfl rfl
  exact (hdrained (.append delta drained currentStateVector false)
    ⟨hdelta, h.pending⟩).congr rfl rfl rfl rfl

theorem holds_runNext (hr : r.runNext cfg e = some r') : r'.Holds P := by
  unfold runNext at hr
  split at hr
  · cases hr
    exact holds_executeSave hP (h.congr rfl rfl rfl rfl)
  · cases hr
    exact ⟨h.document, h.store, h.pending, trivial⟩
  · cases hr

end

theorem updates_appendUpdate (store : DocStore Update StateVector) {update u : Update}
    (hu : u ∈ (store.appendUpdate e.byteLength update).updates) :
    u ∈ store.updates ∨ u = update := by
  unfold DocStore.appendUpdate at hu
  split at hu
  · exact .inl hu
  rw [DocStore.updates, ← append_assoc, mem_append, mem_singleton] at hu
  exact hu

theorem updates_compactJournalToCheckpoint (hP : MergeClosed P)
    (store : DocStore Update StateVector) (hs : ∀ u ∈ store.updates, P u) :
    ∀ u ∈ (store.compactJournalToCheckpoint e).1.updates, P u := by
  unfold DocStore.compactJournalToCheckpoint
  split
  · exact hs
  intro u hu
  rw [mem_singleton.mp (show u ∈ [mergeUpdates store.updates] from hu)]
  exact hP.mergeUpdates hs

theorem holds_commit (hP : MergeClosed P) (h : r.Holds P) (hr : r.commit e = some r') :
    r'.Holds P := by
  unfold commit at hr
  have hrun := h.running
  split at hr
  · next delta drained sv hc =>
    cases hr
    rw [hc] at hrun
    refine ⟨h.document, ?_, h.pending, hrun⟩
    intro u hu
    rcases updates_appendUpdate r.store hu with hu | rfl
    · exact h.store u hu
    · exact hrun.1
  · next fallback delta drained update sv hc =>
    cases hr
    rw [hc] at hrun
    refine ⟨h.document, ?_, h.pending, hrun⟩
    intro u hu
    rw [mem_singleton.mp hu]
    exact hrun.2.2
  · next stats hc =>
    cases hr
    exact ⟨h.document, updates_compactJournalToCheckpoint hP r.store h.store, h.pending, trivial⟩
  · cases hr

theorem holds_resolve (h : r.Holds P) (hr : r.resolve cfg e = some r') : r'.Holds P := by
  unfold resolve at hr
  have hrun := h.running
  split at hr
  · next delta drained sv hc =>
    cases hr
    rw [hc] at hrun
    have hret : ∀ result, (r.setRunning (.returned drained result)).Holds P := by
      intro result
      apply h.setRunning
      exact hrun.2
    unfold appendSucceeded
    extract_lets stats r₁ r₂
    by_cases hcom : stats.entryCount > cfg.journalCompactMaxEntries
        ∨ stats.totalBytes > cfg.journalCompactMaxBytes
    all_goals
      simp only [r₂, hcom, ↓reduceIte]
      exact (hret _).congr rfl rfl rfl rfl
  · next fallback delta drained update sv hc =>
    cases hr
    rw [hc] at hrun
    exact ⟨h.document, h.store, h.pending, hrun.2.1⟩
  · next fallback drained hc =>
    cases hr
    rw [hc] at hrun
    exact ⟨h.document, h.store, h.pending, hrun⟩
  · cases hr
    exact ⟨h.document, h.store, h.pending, trivial⟩
  · cases hr

theorem holds_fallbackFailed (h : r.Holds P) {fallback : Fallback} {drained : List Update}
    {err : StoreError} (hdrained : ∀ u ∈ drained, P u) :
    (r.fallbackFailed fallback drained err).Holds P := by
  cases fallback <;> exact ⟨h.document, h.store, h.pending, hdrained⟩

theorem holds_reject (hP : MergeClosed P) (h : r.Holds P) {err : StoreError}
    (hr : r.reject cfg e err = some r') : r'.Holds P := by
  unfold reject at hr
  have hrun := h.running
  split at hr
  · next delta drained sv committed hc =>
    cases hr
    rw [hc] at hrun
    have hfailed : (r.saveFailed s!"{err.errorClass}: {err.message}").Holds P :=
      h.congr rfl rfl rfl rfl
    unfold appendFailed
    extract_lets r₁
    split
    · exact holds_startFallback hP hfailed hrun.1 hrun.2
    · exact hfailed.setRunning hrun.2
  · next fallback delta drained update sv committed hc =>
    cases hr
    rw [hc] at hrun
    exact holds_fallbackFailed h hrun.2.1
  · next fallback drained hc =>
    cases hr
    rw [hc] at hrun
    exact holds_fallbackFailed h hrun
  · cases hr
    exact ⟨h.document, h.store, h.pending, trivial⟩
  · cases hr

theorem holds_resume (h : r.Holds P) (hr : r.resume = some r') : r'.Holds P := by
  unfold resume at hr
  have hrun := h.running
  split at hr
  · next drained result hc =>
    cases hr
    rw [hc] at hrun
    unfold saveReturned
    split
    · exact ⟨h.document, h.store, h.pending, trivial⟩
    unfold restorePendingUpdates
    split
    · exact ⟨h.document, h.store, h.pending, trivial⟩
    refine ⟨h.document, h.store, ?_, trivial⟩
    intro u hu
    rcases mem_append.mp hu with hu | hu
    · exact hrun u hu
    · exact h.pending u hu
  · cases hr
    exact ⟨h.document, h.store, h.pending, trivial⟩
  · cases hr

/-- A closed property that a room's updates have stays one of everything in the room. -/
theorem holds_step {event : RoomEvent} (hP : MergeClosed P) (hs : Step cfg e r event r')
    (h : r.Holds P) (hev : ∀ u, event = .update u → P u) : r'.Holds P := by
  cases event with
  | update update =>
    cases hs
    exact holds_documentUpdate hP h (hev update rfl)
  | enqueueSave =>
    cases hs
    exact h.congr rfl rfl rfl rfl
  | runNext => exact holds_runNext hP h hs
  | commit => exact holds_commit hP h hs
  | resolve => exact holds_resolve h hs
  | reject err => exact holds_reject hP h hs
  | resume => exact holds_resume h hs

theorem Loaded.holds (h : r.Loaded) (hP : MergeClosed P) (hs : ∀ u ∈ r.store.updates, P u) :
    r.Holds P where
  document := by
    rw [h.document_eq]
    exact hP.mergeUpdates hs
  store := hs
  pending := by
    rw [h.pendingUpdates_eq]
    exact fun u hu => absurd hu not_mem_nil
  running := by
    rw [h.running_eq]
    trivial

end Room
end Kaos.Server
