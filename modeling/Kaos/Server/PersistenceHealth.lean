import Kaos.Lib.Run
import Kaos.Server.PersistenceSafety

/-! What the health record of a room says while saves fail. -/
namespace Kaos.Server

open Kaos.Yjs Kaos.Lib

/-- What the failing call of a save was to write. After the write of an immediate fallback only the
journal stats can fail. -/
def Running.attempt : Running → Option Update
  | .append delta _ _ _ => some delta
  | .rewrite _ _ _ checkpointUpdate _ _ => some checkpointUpdate
  | .journalStats .consecutive drained => some (mergeUpdates drained)
  | _ => none

/-- A save before the commit of its write. -/
def Running.Writes : Running → Prop
  | .append _ _ _ false | .rewrite _ _ _ _ _ false => True
  | _ => False

/-- What the running link owes an update of a failed attempt. -/
def Running.Owes (stored update : Update) : Running → Prop
  | .append _ drained _ committed => committed = false ∧ update ≤ stored ⊔ mergeUpdates drained
  | .rewrite _ _ _ checkpointUpdate _ committed => committed = false ∧ update ≤ checkpointUpdate
  | .journalStats _ _ => False
  | .returned _ result => result.success = false
  | _ => True

namespace Room

/-- An event that cannot happen changes nothing. -/
def advance (cfg : PersistenceCoordinatorOptions) (e : Encoding) (r : Room)
    (event : RoomEvent) : Room := (r.next cfg e event).getD r

/-- The room after some events. -/
def after (cfg : PersistenceCoordinatorOptions) (e : Encoding) (r : Room)
    (events : List RoomEvent) (n : ℕ) : Room := stateAt (advance cfg e) r events n

/-- A failed attempt leaves the room degraded, and the failure counter no lower, until a later save
has committed and what the attempt was to write is stored. Between two links of the chain the
health record repeats the counter and says that something is pending where something is. -/
structure HonestHealth (cfg : PersistenceCoordinatorOptions) (e : Encoding) (r : Room)
    (events : List RoomEvent) : Prop where
  degraded : ∀ n m err update, events[n]? = some (.reject err) →
    (after cfg e r events n).running.attempt = some update → n < m →
      (after cfg e r events m).coordinator.health.status = .degraded ∧
        (after cfg e r events (n + 1)).coordinator.consecutiveSaveFailures ≤
          (after cfg e r events m).coordinator.consecutiveSaveFailures ∨
      ∃ k, n < k ∧ k < m ∧ events[k]? = some .commit ∧
        (after cfg e r events k).running.Writes ∧ update ≤ (after cfg e r events (k + 1)).stored
  counter : ∀ n, (after cfg e r events n).running = .idle →
    (after cfg e r events n).coordinator.health.consecutiveSaveFailures =
      (after cfg e r events n).coordinator.consecutiveSaveFailures
  pending : ∀ n, (after cfg e r events n).running = .idle →
    ¬ (after cfg e r events n).document ≤ (after cfg e r events n).stored →
      (after cfg e r events n).coordinator.health.pendingPersistence = true

/-- No compaction succeeds while the last save has failed. -/
def CompactsWhenSaved (cfg : PersistenceCoordinatorOptions) (e : Encoding) (r : Room)
    (events : List RoomEvent) : Prop :=
  ∀ n stats result, events[n]? = some .resolve →
    (after cfg e r events n).running = .compact stats (some result) →
      (after cfg e r events n).coordinator.consecutiveSaveFailures = 0

variable {cfg : PersistenceCoordinatorOptions} {e : Encoding} {r r' : Room} {event : RoomEvent}
  {update : Update} {count : ℕ}

/-- The status and the two failure counters. -/
def gauge (r : Room) : PersistenceStatus × ℕ × ℕ :=
  (r.coordinator.health.status, r.coordinator.health.consecutiveSaveFailures,
    r.coordinator.consecutiveSaveFailures)

theorem gauge_executeSave : (r.executeSave cfg e).gauge = r.gauge := by
  unfold executeSave
  extract_lets currentStateVector drained delta r₁ r₂
  split
  · rfl
  split
  · rfl
  split <;> rfl

theorem gauge_appendFailed (delta : Update) (drained : List Update) (err : StoreError) :
    (r.appendFailed cfg e delta drained err).gauge =
      (.degraded, r.coordinator.consecutiveSaveFailures + 1,
        r.coordinator.consecutiveSaveFailures + 1) := by
  unfold appendFailed
  extract_lets r₁
  split <;> rfl

theorem gauge_appendSucceeded (delta : Update) (drained : List Update) (sv : StateVector) :
    (r.appendSucceeded cfg e delta drained sv).gauge = (.healthy, 0, 0) := by
  unfold appendSucceeded
  extract_lets stats r₁ r₂
  have h : r₂.gauge = (.healthy, 0, 0) := by
    unfold r₂
    split <;> rfl
  exact h

/-- Failed saves count in both counters, successful ones clear both; a compaction clears one. -/
theorem gauge_next (h : r.next cfg e event = some r') :
    r'.gauge = r.gauge ∨
      r'.gauge = (.degraded, r.coordinator.consecutiveSaveFailures + 1,
        r.coordinator.consecutiveSaveFailures + 1) ∨
      r'.gauge = (.healthy, 0, 0) ∨
      ∃ stats result, event = .resolve ∧ r.running = .compact stats (some result) ∧
        r'.gauge = (.healthy, r.coordinator.health.consecutiveSaveFailures, 0) := by
  cases event with
  | update update =>
    cases h
    left
    unfold documentUpdate recordIncrementalUpdate
    split <;> rfl
  | enqueueSave =>
    cases h
    exact .inl rfl
  | runNext =>
    left
    simp only [next, runNext] at h
    split at h
    · cases h
      exact gauge_executeSave
    · cases h
      rfl
    · cases h
  | commit =>
    left
    simp only [next, commit] at h
    split at h <;> cases h <;> rfl
  | resolve =>
    simp only [next, resolve] at h
    split at h
    · cases h
      exact .inr (.inr (.inl (gauge_appendSucceeded _ _ _)))
    · cases h
      exact .inr (.inr (.inl rfl))
    · cases h
      exact .inl rfl
    · next stats result hrun =>
      cases h
      exact .inr (.inr (.inr ⟨stats, result, rfl, hrun, rfl⟩))
    · cases h
  | reject err =>
    simp only [next, reject] at h
    split at h
    · cases h
      exact .inr (.inl (gauge_appendFailed _ _ _))
    · next fallback _ _ _ _ _ _ =>
      cases h
      cases fallback with
      | consecutive => exact .inr (.inl rfl)
      | immediate => exact .inl rfl
    · next fallback _ _ =>
      cases h
      cases fallback with
      | consecutive => exact .inr (.inl rfl)
      | immediate => exact .inl rfl
    · cases h
      exact .inl rfl
    · cases h
  | resume =>
    left
    simp only [next, resume] at h
    split at h
    · cases h
      unfold saveReturned
      split
      · rfl
      unfold restorePendingUpdates
      split <;> rfl
    · cases h
      rfl
    · cases h

/-- What holds whatever the store does: an immediate fallback follows a failed append, and an
update that waits is announced. -/
structure Announced (r : Room) : Prop where
  immediate : ∀ delta drained checkpointUpdate sv committed,
    r.running = .rewrite .immediate delta drained checkpointUpdate sv committed →
      r.coordinator.health.status = .degraded ∧ 0 < r.coordinator.consecutiveSaveFailures
  pending : r.coordinator.pendingUpdates ≠ [] → r.coordinator.health.pendingPersistence = true

/-- Only a link that goes on rewriting has to look back. -/
theorem Announced.of_pending
    (hrun : ∀ delta drained checkpointUpdate sv committed,
      r.running ≠ .rewrite .immediate delta drained checkpointUpdate sv committed)
    (hp : r.coordinator.pendingUpdates ≠ [] →
      r.coordinator.health.pendingPersistence = true) : Announced r where
  immediate := by
    intro delta drained checkpointUpdate sv committed h
    exact absurd h (hrun delta drained checkpointUpdate sv committed)
  pending := hp

theorem announced_executeSave : (r.executeSave cfg e).Announced := by
  unfold executeSave
  extract_lets currentStateVector drained delta r₁ r₂
  split
  · exact .of_pending nofun fun h => absurd rfl h
  split
  · exact .of_pending nofun fun h => absurd rfl h
  split <;> exact .of_pending nofun fun h => absurd rfl h

theorem announced_next (hann : r.Announced) (h : r.next cfg e event = some r') : r'.Announced := by
  have hp := hann.pending
  cases event with
  | update update =>
    cases h
    unfold documentUpdate recordIncrementalUpdate
    split
    · exact ⟨hann.immediate, hp⟩
    · exact ⟨hann.immediate, fun _ => rfl⟩
  | enqueueSave =>
    cases h
    exact ⟨hann.immediate, fun _ => rfl⟩
  | runNext =>
    simp only [next, runNext] at h
    split at h
    · cases h
      exact announced_executeSave
    · cases h
      exact .of_pending nofun hp
    · cases h
  | commit =>
    simp only [next, commit] at h
    split at h
    · cases h
      exact .of_pending nofun hp
    · next fallback delta drained checkpointUpdate sv hrun =>
      cases h
      refine ⟨?_, hp⟩
      intro _ _ _ _ _ heq
      cases heq
      exact hann.immediate _ _ _ _ _ hrun
    · cases h
      exact .of_pending nofun hp
    · cases h
  | resolve =>
    simp only [next, resolve] at h
    split at h
    · cases h
      unfold appendSucceeded
      extract_lets stats r₁ r₂
      refine .of_pending nofun ?_
      unfold setRunning r₂
      split <;> exact hp
    · cases h
      exact .of_pending nofun hp
    · cases h
      exact .of_pending nofun hp
    · cases h
      exact .of_pending nofun hp
    · cases h
  | reject err =>
    simp only [next, reject] at h
    split at h
    · cases h
      unfold appendFailed
      extract_lets r₁
      split
      · exact ⟨fun _ _ _ _ _ _ => ⟨rfl, Nat.succ_pos _⟩, hp⟩
      · exact .of_pending nofun hp
    · next fallback _ _ _ _ _ _ =>
      cases h
      cases fallback <;> exact .of_pending nofun hp
    · next fallback _ _ =>
      cases h
      cases fallback <;> exact .of_pending nofun hp
    · cases h
      exact .of_pending nofun hp
    · cases h
  | resume =>
    simp only [next, resume] at h
    split at h
    · next drained result hrun =>
      cases h
      refine .of_pending nofun ?_
      unfold saveReturned restorePendingUpdates
      split
      · exact hp
      split
      · exact hp
      · exact fun _ => rfl
    · cases h
      refine .of_pending nofun ?_
      intro hne
      change r.coordinator.pendingUpdates ≠ [] at hne
      change (_ || decide (r.coordinator.pendingUpdates ≠ [])) = true
      rw [decide_eq_true hne, Bool.or_true]
    · cases h

/-- A room that still has to write the update of a failed attempt, and says so. -/
structure Owed (update : Update) (count : ℕ) (r : Room) : Prop where
  degraded : r.coordinator.health.status = .degraded
  counted : count ≤ r.coordinator.consecutiveSaveFailures
  held : update ≤ r.stored ⊔ mergeUpdates r.running.drained ⊔
    mergeUpdates r.coordinator.pendingUpdates
  owes : r.running.Owes r.stored update

theorem Owed.le_document (h : Owed update count r) (hs : r.Sound) : update ≤ r.document :=
  h.held.trans (sup_le (sup_le hs.stored_le hs.drained_le) hs.pending_le)

/-- A failed write leaves its update held, whichever write it was. -/
theorem owed_of_reject (hs : r.Sound) (hann : r.Announced) {err : StoreError}
    (hatt : r.running.attempt = some update) (h : r.next cfg e (.reject err) = some r') :
    Owed update r'.coordinator.consecutiveSaveFailures r' ∧
      0 < r'.coordinator.consecutiveSaveFailures := by
  have hcov := hs.covered
  have hsd := hs.running
  simp only [next, reject] at h
  split at h
  · next delta drained sv committed hrun =>
    cases h
    rw [hrun] at hcov hsd hatt
    cases hatt
    have hh := hsd.1.trans hcov
    unfold appendFailed
    extract_lets r₁
    split
    · exact ⟨⟨rfl, le_rfl, hh, rfl, hsd.1⟩, Nat.succ_pos _⟩
    · exact ⟨⟨rfl, le_rfl, hh, rfl⟩, Nat.succ_pos _⟩
  · next fallback delta drained checkpointUpdate sv committed hrun =>
    cases h
    rw [hrun] at hcov hsd hatt
    cases hatt
    have hh := hsd.1.trans hcov
    cases fallback with
    | consecutive => exact ⟨⟨rfl, le_rfl, hh, rfl⟩, Nat.succ_pos _⟩
    | immediate =>
      obtain ⟨hdeg, hpos⟩ := hann.immediate _ _ _ _ _ hrun
      exact ⟨⟨hdeg, le_rfl, hh, rfl⟩, hpos⟩
  · next fallback drained hrun =>
    cases h
    rw [hrun] at hatt
    cases fallback with
    | consecutive =>
      cases hatt
      exact ⟨⟨rfl, le_rfl, le_sup_right.trans le_sup_left, rfl⟩, Nat.succ_pos _⟩
    | immediate => cases hatt
  · next stats committed hrun =>
    rw [hrun] at hatt
    cases hatt
  · cases h

theorem exists_reject (hatt : r.running.attempt = some update)
    (cfg : PersistenceCoordinatorOptions) (e : Encoding) (err : StoreError) :
    ∃ r', r.next cfg e (.reject err) = some r' := by
  simp only [next, reject]
  cases hrun : r.running with
  | append | rewrite | journalStats | compact => exact ⟨_, rfl⟩
  | idle | returned | finished =>
    rw [hrun] at hatt
    cases hatt

/-- A save that starts drains everything that is pending. -/
theorem owed_executeSave (hs : r.Sound) (hi : r.running = .idle) (h : Owed update count r) :
    Owed update count (r.executeSave cfg e) := by
  have hh : update ≤ r.stored ⊔ mergeUpdates r.coordinator.pendingUpdates := by
    have hh := h.held
    rw [hi] at hh
    simpa [Running.drained] using hh
  have hdoc := h.le_document hs
  unfold executeSave
  extract_lets currentStateVector drained delta r₁ r₂
  split
  · next hskip =>
    refine ⟨h.degraded, h.counted, ?_, trivial⟩
    have hnil : r.coordinator.pendingUpdates = [] := hskip.2
    rw [hnil] at hh
    exact hh.trans le_sup_left
  split
  · next he =>
    have hbot := pending_le_saveDelta.trans_eq (e.eq_bot_of_byteLength_eq_zero he)
    refine ⟨h.degraded, h.counted, ?_, trivial⟩
    rw [le_bot_iff.mp hbot, sup_bot_eq] at hh
    exact hh.trans (le_sup_left.trans le_sup_left)
  split
  · refine ⟨h.degraded, h.counted, ?_, rfl, hdoc⟩
    exact hh.trans le_sup_left
  refine ⟨h.degraded, h.counted, ?_, rfl, hh⟩
  exact hh.trans le_sup_left

theorem Owed.documentUpdate (h : Owed update count r) (change : Update) :
    Owed update count (r.documentUpdate e change) := by
  unfold Room.documentUpdate recordIncrementalUpdate
  split
  · exact ⟨h.degraded, h.counted, h.held, h.owes⟩
  refine ⟨h.degraded, h.counted, ?_, h.owes⟩
  refine h.held.trans (sup_le_sup_left ?_ _)
  change _ ≤ mergeUpdates (r.coordinator.pendingUpdates ++ [change])
  rw [mergeUpdates_append]
  exact le_sup_left

/-- A commit writes what is owed, unless a compaction only stores the same again. -/
theorem owed_commit (hs : r.Sound) (h : Owed update count r) (hn : r.commit e = some r') :
    Owed update count r' ∨ r.running.Writes ∧ update ≤ r'.stored := by
  have howes := h.owes
  have hsd := hs.running
  unfold commit at hn
  split at hn
  · next delta drained sv hrun =>
    cases hn
    rw [hrun] at howes hsd
    right
    rw [hrun]
    refine ⟨trivial, howes.2.trans ?_⟩
    have hst : mergeUpdates (r.store.appendUpdate e.byteLength delta).updates =
        r.stored ⊔ delta := mergeUpdates_appendUpdate _ _
    exact (sup_le_sup_left hsd.2.1 _).trans_eq hst.symm
  · next fallback delta drained checkpointUpdate sv hrun =>
    cases hn
    rw [hrun] at howes
    right
    rw [hrun]
    exact ⟨trivial, howes.2.trans_eq (mergeUpdates_rewriteCheckpoint _ _).symm⟩
  · next stats hrun =>
    left
    have hh := h.held
    rw [hrun] at hh
    obtain ⟨hst, -⟩ := compactJournalToCheckpoint_spec (e := e) r.store
    generalize r.store.compactJournalToCheckpoint e = out at hn hst
    obtain ⟨store, result⟩ := out
    cases hn
    refine ⟨h.degraded, h.counted, hh.trans ?_, trivial⟩
    exact sup_le_sup_right (sup_le_sup_right hst.symm.le _) _
  · cases hn

/-- One event either keeps an update owed or is the commit that stores it. -/
theorem owed_next (hs : r.Sound) (h : Owed update count r) (hct : 0 < count)
    (hc : ∀ stats result, event = .resolve → r.running = .compact stats (some result) →
      r.coordinator.consecutiveSaveFailures = 0)
    (hn : r.next cfg e event = some r') :
    Owed update count r' ∨ event = .commit ∧ r.running.Writes ∧ update ≤ r'.stored := by
  have howes := h.owes
  cases event with
  | update change =>
    cases hn
    exact .inl (h.documentUpdate change)
  | enqueueSave =>
    cases hn
    exact .inl ⟨h.degraded, h.counted, h.held, h.owes⟩
  | runNext =>
    left
    simp only [next, runNext] at hn
    split at hn
    · next hi _ =>
      cases hn
      exact owed_executeSave (hs.congr rfl rfl rfl rfl rfl) hi
        ⟨h.degraded, h.counted, h.held, h.owes⟩
    · next hi _ =>
      cases hn
      have hh := h.held
      rw [hi] at hh
      exact ⟨h.degraded, h.counted, hh, trivial⟩
    · cases hn
  | commit => exact (owed_commit hs h hn).imp_right fun hwrites => ⟨rfl, hwrites⟩
  | resolve =>
    simp only [next, resolve] at hn
    split at hn
    · next hrun =>
      rw [hrun] at howes
      cases howes.1
    · next hrun =>
      rw [hrun] at howes
      cases howes.1
    · next hrun =>
      rw [hrun] at howes
      cases howes
    · next stats result hrun =>
      have hzero := hc stats result rfl hrun
      have hcoun := h.counted
      omega
    · cases hn
  | reject err =>
    left
    simp only [next, reject] at hn
    split at hn
    · next delta drained sv committed hrun =>
      cases hn
      have hh := h.held
      have hdoc := h.le_document hs
      have hcoun := h.counted.trans (Nat.le_succ _)
      rw [hrun] at hh
      unfold appendFailed
      extract_lets r₁
      split
      · exact ⟨rfl, hcoun, hh, rfl, hdoc⟩
      · exact ⟨rfl, hcoun, hh, rfl⟩
    · next fallback delta drained checkpointUpdate sv committed hrun =>
      cases hn
      have hh := h.held
      rw [hrun] at hh
      cases fallback with
      | consecutive => exact ⟨rfl, h.counted.trans (Nat.le_succ _), hh, rfl⟩
      | immediate => exact ⟨h.degraded, h.counted, hh, rfl⟩
    · next hrun =>
      rw [hrun] at howes
      cases howes
    · next hrun =>
      cases hn
      have hh := h.held
      rw [hrun] at hh
      exact ⟨h.degraded, h.counted, hh, trivial⟩
    · cases hn
  | resume =>
    left
    simp only [next, resume] at hn
    split at hn
    · next drained result hrun =>
      cases hn
      have hh := h.held
      rw [hrun] at howes hh
      have hfailed : result.success = false := howes
      unfold saveReturned
      rw [hfailed]
      unfold restorePendingUpdates
      simp only [Bool.false_eq_true, ↓reduceIte]
      split
      · next hnil =>
        subst hnil
        exact ⟨h.degraded, h.counted, hh, trivial⟩
      refine ⟨h.degraded, h.counted, hh.trans ?_, trivial⟩
      change _ ≤ r.stored ⊔ ⊥ ⊔ mergeUpdates (drained ++ r.coordinator.pendingUpdates)
      rw [mergeUpdates_append, sup_bot_eq, ← sup_assoc]
      rfl
    · next hrun =>
      cases hn
      have hh := h.held
      rw [hrun] at hh
      exact ⟨h.degraded, h.counted, hh, trivial⟩
    · cases hn

variable {events : List RoomEvent} {n m : ℕ}

/-- One event of a run, or none. -/
theorem after_succ (cfg : PersistenceCoordinatorOptions) (e : Encoding) (r : Room)
    (events : List RoomEvent) (n : ℕ) :
    after cfg e r events (n + 1) = after cfg e r events n ∨
      ∃ event, events[n]? = some event ∧
        (after cfg e r events n).next cfg e event = some (after cfg e r events (n + 1)) := by
  rcases stateAt_step (advance cfg e) r events n with ⟨-, hsa⟩ | ⟨event, hev, hn⟩
  · exact .inl hsa
  have hadv : after cfg e r events (n + 1) =
      ((after cfg e r events n).next cfg e event).getD (after cfg e r events n) := hn
  cases hs : (after cfg e r events n).next cfg e event with rw [hs] at hadv
  | none => exact .inl hadv
  | some r' =>
    rw [hadv]
    exact .inr ⟨event, hev, hs⟩

theorem sound_after (hr : r.Loaded) (n : ℕ) : (after cfg e r events n).Sound := by
  induction n with
  | zero => exact hr.sound
  | succ n ih =>
    rcases after_succ cfg e r events n with hs | ⟨event, -, hn⟩
    · rw [hs]
      exact ih
    · exact sound_step hn ih

theorem announced_after (hr : r.Loaded) (n : ℕ) : (after cfg e r events n).Announced := by
  induction n with
  | zero =>
    constructor
    · intro delta drained checkpointUpdate sv committed h
      rw [after, stateAt_zero, hr.running_eq] at h
      cases h
    intro h
    exact absurd hr.pendingUpdates_eq h
  | succ n ih =>
    rcases after_succ cfg e r events n with hs | ⟨event, -, hn⟩
    · rw [hs]
      exact ih
    · exact announced_next ih hn

/-- As long as compactions succeed only after successful saves, the record repeats the counter. -/
theorem counter_after
    (hst : r.coordinator.health.consecutiveSaveFailures = r.coordinator.consecutiveSaveFailures)
    (hc : ∀ k < n, ∀ stats result, events[k]? = some .resolve →
      (after cfg e r events k).running = .compact stats (some result) →
        (after cfg e r events k).coordinator.consecutiveSaveFailures = 0) :
    (after cfg e r events n).coordinator.health.consecutiveSaveFailures =
      (after cfg e r events n).coordinator.consecutiveSaveFailures := by
  induction n with
  | zero => exact hst
  | succ n ih =>
    have hs := ih fun k hk => hc k (by omega)
    rcases after_succ cfg e r events n with hstay | ⟨event, hev, hn⟩
    · rw [hstay]
      exact hs
    rcases gauge_next hn with hgauge | hgauge | hgauge | ⟨stats, result, rfl, hrun, hgauge⟩
    · simp only [gauge, Prod.mk.injEq] at hgauge
      rw [hgauge.2.1, hgauge.2.2, hs]
    · simp only [gauge, Prod.mk.injEq] at hgauge
      rw [hgauge.2.1, hgauge.2.2]
    · simp only [gauge, Prod.mk.injEq] at hgauge
      rw [hgauge.2.1, hgauge.2.2]
    simp only [gauge, Prod.mk.injEq] at hgauge
    rw [hgauge.2.1, hgauge.2.2, hs]
    exact hc n (Nat.lt_succ_self n) stats result hev hrun

/-- From a failed attempt on, its update is owed until a later save commits it. -/
theorem owed_after (hr : r.Loaded) (hc : CompactsWhenSaved cfg e r events) {err : StoreError}
    (hev : events[n]? = some (.reject err))
    (hatt : (after cfg e r events n).running.attempt = some update) (hnm : n < m) :
    Owed update (after cfg e r events (n + 1)).coordinator.consecutiveSaveFailures
        (after cfg e r events m) ∨
      ∃ k, n < k ∧ k < m ∧ events[k]? = some .commit ∧
        (after cfg e r events k).running.Writes ∧
          update ≤ (after cfg e r events (k + 1)).stored := by
  have hfailed : Owed update (after cfg e r events (n + 1)).coordinator.consecutiveSaveFailures
      (after cfg e r events (n + 1)) ∧
        0 < (after cfg e r events (n + 1)).coordinator.consecutiveSaveFailures := by
    obtain ⟨r', hn⟩ := exists_reject hatt cfg e err
    have ha : after cfg e r events (n + 1) = r' := by
      rw [after, stateAt_succ hev]
      change ((after cfg e r events n).next cfg e (.reject err)).getD _ = r'
      rw [hn]
      rfl
    rw [ha]
    exact owed_of_reject (sound_after hr n) (announced_after hr n) hatt hn
  induction m, hnm using Nat.le_induction with
  | base => exact .inl hfailed.1
  | succ m hnm ih =>
    rcases ih with ho | ⟨k, hnk, hkm, hwrites⟩
    · rcases after_succ cfg e r events m with hstay | ⟨event, hm, hn⟩
      · rw [hstay]
        exact .inl ho
      rcases owed_next (sound_after hr m) ho hfailed.2
        (fun stats result heq => hc m stats result (heq ▸ hm)) hn with hnow | ⟨rfl, hwrites⟩
      · exact .inl hnow
      · exact .inr ⟨m, hnm, Nat.lt_succ_self m, hm, hwrites⟩
    · exact .inr ⟨k, hnk, Nat.lt_succ_of_lt hkm, hwrites⟩

/-- A loaded room in which no save has run. -/
structure Started (r : Room) : Prop extends r.Loaded where
  consecutiveSaveFailures_eq : r.coordinator.consecutiveSaveFailures = 0
  health_eq : r.coordinator.health.consecutiveSaveFailures = 0

/-- In every run the health record is honest exactly when no compaction succeeds behind a save that
failed. -/
theorem honestHealth_iff (hr : r.Started) (events : List RoomEvent) :
    HonestHealth cfg e r events ↔ CompactsWhenSaved cfg e r events := by
  have hst : r.coordinator.health.consecutiveSaveFailures = r.coordinator.consecutiveSaveFailures :=
    hr.health_eq.trans hr.consecutiveSaveFailures_eq.symm
  constructor
  · intro h n
    -- Strong induction: up to here every compaction was clean, so the two counters still agree.
    induction n using Nat.strong_induction_on with
    | _ n ih =>
      intro stats result hev hrun
      have hsa : (after cfg e r events n).coordinator.health.consecutiveSaveFailures =
          (after cfg e r events n).coordinator.consecutiveSaveFailures :=
        counter_after hst fun k hk stats result => ih k hk stats result
      have ha : after cfg e r events (n + 1) =
          (after cfg e r events n).compactionSucceeded cfg stats result := by
        rw [after, stateAt_succ hev]
        change ((after cfg e r events n).resolve cfg e).getD _ = _
        rw [resolve, hrun]
        rfl
      have hcoun := h.counter (n + 1)
      rw [ha] at hcoun
      rw [← hsa]
      exact hcoun rfl
  intro hc
  constructor
  · intro n m err update hev hatt hnm
    exact (owed_after hr.toLoaded hc hev hatt hnm).imp_left fun ho =>
      ⟨ho.degraded, ho.counted⟩
  · intro n _
    exact counter_after hst fun k _ => hc k
  intro n hi hdoc
  apply (announced_after hr.toLoaded n).pending
  intro hnil
  apply hdoc
  have hs : (after cfg e r events n).Sound := sound_after hr.toLoaded n
  have hcov := hs.covered
  rw [hi, hnil] at hcov
  simpa using hcov

theorem honestHealth_failingDeletionRun :
    HonestHealth {} plainEncoding oneItemRoom failingDeletionRun := by
  apply (honestHealth_iff ⟨⟨by decide, rfl, rfl, rfl⟩, rfl, rfl⟩ _).mpr
  intro n stats result hev
  have hmem := List.mem_of_getElem? hev
  simp [failingDeletionRun] at hmem

/-- Fifty items, each in a journal entry of its own. -/
def fullJournalRoom : Room :=
  let store : DocStore Update StateVector :=
    ⟨none, (List.range 50).map fun clock => ⟨{⟨1, clock⟩}, ∅⟩⟩
  { document := mergeUpdates store.updates
    coordinator :=
      { lastPersistedStateVector := some (encodeStateVector (mergeUpdates store.updates)) }
    store
    saveChain := []
    running := .idle }

/-- The append of one more item schedules a compaction behind a save that is queued already; that
save fails, and the compaction succeeds. -/
def compactionBehindFailure : List RoomEvent :=
  [.update ⟨{⟨1, 50⟩}, ∅⟩, .enqueueSave, .runNext, .update ⟨{⟨1, 51⟩}, ∅⟩, .enqueueSave, .commit,
    .resolve, .resume, .resume, .runNext, .reject ⟨"Error", "append"⟩, .resume, .resume, .runNext,
    .commit, .resolve]

/-- The events after which the room is healthy again and the item of the failed save is lost. -/
def healthyAgain : { events : List RoomEvent //
    (after {} plainEncoding fullJournalRoom events 10).running.attempt = some ⟨{⟨1, 51⟩}, ∅⟩ ∧
      (∀ k < 16, ¬ (⟨{⟨1, 51⟩}, ∅⟩ : Update) ≤
        (after {} plainEncoding fullJournalRoom events (k + 1)).stored) ∧
      (after {} plainEncoding fullJournalRoom events 16).coordinator.health.status = .healthy } :=
  ⟨compactionBehindFailure, by decide +kernel⟩

/-- The room is healthy again while nothing has stored the item of the failed save. -/
theorem compaction_hides_failure : ¬ ∀ cfg e r events, r.Started → HonestHealth cfg e r events := by
  intro h
  have hhon := h {} plainEncoding fullJournalRoom compactionBehindFailure
    ⟨⟨rfl, rfl, rfl, rfl⟩, rfl, rfl⟩
  have hrun := healthyAgain.property
  simp only [healthyAgain] at hrun
  obtain ⟨hatt, hnever, hheal⟩ := hrun
  rcases hhon.degraded 10 16 _ _ rfl hatt (by decide) with
    ⟨hdeg, -⟩ | ⟨k, -, hk, -, -, hst⟩
  · rw [hheal] at hdeg
    cases hdeg
  · exact hnever k hk hst

end Room
end Kaos.Server
