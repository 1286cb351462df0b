import Kaos.Runtime.DirtyQueueLedger

/-! Runs of the dirty queue: as long as no rename meets an entry in a batch, no change is lost. -/
namespace Kaos.Runtime.DirtyQueue

open Kaos.Lib List

variable {π : Type*} [DecidableEq π] {s s' : DirtyQueue π} {w : DirtyWorld π} {m : ℕ} {p : π}

/-- Events one after another, each under a condition. -/
inductive Run (cond : DirtyQueue π → DirtyWorld π → DirtyQueueEvent π → Prop) :
    DirtyQueue π → DirtyQueue π → Prop
  | refl {s : DirtyQueue π} : Run cond s s
  | step {s t : DirtyQueue π} {w : DirtyWorld π} {e : DirtyQueueEvent π} :
      Run cond s t → cond t w e → Run cond s (t.next w e)

/-- A path that is renamed does not wait in the batch alone, a created file that is about to be
ingested is not the target of a pending rename, and only the ingest of the last entry rejects. -/
def Guarded (s : DirtyQueue π) (w : DirtyWorld π) (e : DirtyQueueEvent π) : Prop :=
  match e with
  | .redirect oldPath _ => Waiting s oldPath → Queued s oldPath
  | .suppression false => ∀ batch active, s.drain = some ⟨batch, .suppressing active⟩ →
    active.entry.reason = .create → w.isPendingRenameTarget active.path = false
  | .rejected => ∀ drain, s.drain = some drain →
    drain.batch = [] ∧ ∃ active, drain.phase = .syncing active
  | _ => True

theorem NothingLost.next (h : NothingLost s) {e : DirtyQueueEvent π} (hguard : Guarded s w e) :
    NothingLost (s.next w e) := by
  cases e with
  | mark path reason opId => exact h.mark w path reason opId
  | intercepted path => exact h.intercepted w path
  | redirect oldPath newPath => exact h.redirect w hguard
  | drop path => exact h.drop path
  | acquire path => exact h.acquire path
  | release path lease => exact h.release path lease
  | timer => exact h.timerFires w
  | «continue» => exact h.continue w
  | suppression suppressed =>
    refine h.suppressed w suppressed ?_
    rintro rfl
    exact hguard
  | ingestEnded unstable => exact h.ingested w unstable
  | rejected => exact h.rejected hguard

theorem empty_nothingLost : NothingLost (empty : DirtyQueue π) where
  accounted := by
    exact nofun
  unresolved := by
    exact nofun
  renewed := by
    intro drain active hd
    cases hd
  kept := by
    intro hs
    cases hs
  recorded := by
    intro m hlt
    cases hlt

theorem nothingLost_run (hrun : Run Guarded (empty : DirtyQueue π) s) : NothingLost s := by
  induction hrun with
  | refl => exact empty_nothingLost
  | step _ hg ih => exact ih.next hg

section Handed

/-- Nothing new has been handed on. -/
def Silent (s s' : DirtyQueue π) : Prop :=
  ∀ m p, (m, .handed p) ∈ s'.outcomes → (m, .handed p) ∈ s.outcomes

theorem outcomes_settle {changes : List ℕ} {q : π} {outcome outcome' : ChangeOutcome π}
    (h : (m, outcome) ∈ (s.settle changes q outcome').outcomes) :
    (m, outcome) ∈ s.outcomes ∨ outcome = outcome' ∧ m ∈ changes ∧ (m, q) ∈ s.owed := by
  rcases mem_append.mp h with hnew | hold
  · obtain ⟨⟨m', q'⟩, hmem, heq⟩ := mem_map.mp hnew
    simp only [mem_filter, decide_eq_true_eq] at hmem
    obtain ⟨ho, hchan, rfl⟩ := hmem
    cases heq
    exact .inr ⟨rfl, hchan, ho⟩
  · exact .inl hold

theorem silent_settle (s : DirtyQueue π) (changes : List ℕ) (q : π) {outcome : ChangeOutcome π}
    (ho : ∀ p, outcome ≠ .handed p) : Silent s (s.settle changes q outcome) := by
  intro m p hmem
  rcases outcomes_settle hmem with hold | ⟨heq, -⟩
  · exact hold
  · exact absurd heq.symm (ho p)

omit [DecidableEq π] in
theorem silent_change (s : DirtyQueue π) (q : π) : Silent s (s.change q) := by
  unfold change
  split
  · intro m p hmem
    rcases mem_cons.mp hmem with heq | hold
    · cases heq
    · exact hold
  · exact fun _ _ hmem => hmem

theorem queueDirty_outcomes (s : DirtyQueue π) (w : DirtyWorld π) (q : π)
    (reason : MarkdownDirtyReason) (opId : Option ℕ) (coalescedOpIds : List ℕ) (retryCount : ℕ)
    (episode : Option ℕ) :
    (s.queueDirtyMarkdownPath w q reason opId coalescedOpIds retryCount episode).outcomes =
        s.outcomes ∧
      (s.queueDirtyMarkdownPath w q reason opId coalescedOpIds retryCount episode).owed =
        s.owed := by
  cases hact : s.resolutions q with
  | some lease => simp [queueDirtyMarkdownPath, hact]
  | none =>
    have hreq := requeues_queueDirty s w reason opId coalescedOpIds retryCount episode hact
    exact ⟨hreq.outcomes, hreq.owed⟩

theorem silent_process (s : DirtyQueue π) (w : DirtyWorld π) (path : π) (entry : MarkdownDirtyEntry)
    (batch : List (π × MarkdownDirtyEntry)) :
    Silent s (s.processDirtyMarkdownPath w path entry batch) := by
  unfold processDirtyMarkdownPath
  dsimp only
  split
  · exact fun _ _ hmem => hmem
  split
  · exact fun _ _ hmem => hmem
  split
  · exact silent_settle s _ path nofun
  · exact fun _ _ hmem => hmem

omit [DecidableEq π] in
theorem endDrain_outcomes (s : DirtyQueue π) : s.endMarkdownDrain.outcomes = s.outcomes := by
  unfold endMarkdownDrain
  dsimp only
  split <;> rfl

theorem silent_continue (s : DirtyQueue π) (w : DirtyWorld π) : Silent s (s.continueDrain w) := by
  unfold continueDrain
  split
  · exact silent_process s w _ _ _
  · intro m p hmem
    rwa [endDrain_outcomes] at hmem
  · exact fun _ _ hmem => hmem

theorem silent_timer (s : DirtyQueue π) (w : DirtyWorld π) : Silent s (s.timerFires w) := by
  unfold timerFires
  split
  · exact fun _ _ hmem => hmem
  dsimp only
  split
  · exact fun _ _ hmem => hmem
  unfold kickMarkdownDrain
  split
  · exact fun _ _ hmem => hmem
  unfold drainDirtyMarkdownPaths
  dsimp only
  split
  · exact fun _ _ hmem => hmem
  · exact silent_continue _ w

theorem silent_redirect (s : DirtyQueue π) (w : DirtyWorld π) (oldPath newPath : π) :
    Silent s (s.redirectPendingDirtyPath w oldPath newPath) := by
  intro m p hmem
  rw [(redirects s w oldPath newPath).outcomes] at hmem
  unfold rename at hmem
  dsimp only at hmem
  split at hmem
  · unfold settleAll at hmem
    rcases outcomes_settle hmem with hold | ⟨heq, -⟩
    · exact hold
    · cases heq
  · exact hmem

/-- A change is handed on by an ingest of the path that its file has, which was begun after the
change. -/
theorem handed_at_path {e : DirtyQueueEvent π} (h : (m, .handed p) ∈ (s.next w e).outcomes) :
    (m, .handed p) ∈ s.outcomes ∨ (m, p) ∈ s.owed ∧ ∃ batch active,
      s.drain = some ⟨batch, .syncing active⟩ ∧ active.path = p ∧ m ∈ active.covers := by
  cases e with
  | mark path reason opId =>
    refine .inl (silent_change s path m p ?_)
    have hs := (queueDirty_outcomes ((s.change path).noteMarkdownDiskMutation path) w path reason
      opId opId.toList 0 none).1
    rw [next, markMarkdownDirty, hs] at h
    exact h
  | intercepted path =>
    refine .inl (silent_change s path m p ?_)
    rw [next, noteInterceptedExternalDiskMutation,
      (queueDirty_outcomes (s.change path) w path .modify none [] 0 none).1] at h
    exact h
  | redirect oldPath newPath => exact .inl (silent_redirect s w oldPath newPath m p h)
  | drop path => exact .inl (silent_settle s _ path (fun _ heq => by cases heq) m p h)
  | acquire path =>
    simp only [next, acquireMarkdownRemoteDeleteResolution] at h
    split at h
    · exact .inl h
    · exact .inl (silent_settle s _ path (fun _ heq => by cases heq) m p h)
  | release path lease =>
    simp only [next, releaseMarkdownRemoteDeleteResolution] at h
    split at h <;> exact .inl h
  | timer => exact .inl (silent_timer s w m p h)
  | «continue» => exact .inl (silent_continue s w m p h)
  | suppression suppressed =>
    simp only [next, suppressionAnswered] at h
    split at h
    · next batch active hd =>
      split at h
      · unfold settleIngest at h
        split at h
        · exact .inl h
        · exact .inl (silent_settle s _ active.path (fun _ heq => by cases heq) m p h)
      split at h
      · exact .inl h
      split at h <;> exact .inl h
    · exact .inl h
  | ingestEnded unstable =>
    simp only [next, ingestEnded] at h
    split at h
    · next batch active hd =>
      have hreq : (if unstable && !s.shouldAbortActiveMarkdownIngest active then
          s.requeueUnstableMarkdownIngest w active.path active.entry else s).outcomes = s.outcomes ∧
          (if unstable && !s.shouldAbortActiveMarkdownIngest active then
            s.requeueUnstableMarkdownIngest w active.path active.entry else s).owed = s.owed := by
        split
        · unfold requeueUnstableMarkdownIngest
          dsimp only
          split
          · exact ⟨rfl, rfl⟩
          · exact queueDirty_outcomes s w _ _ _ _ _ _
        · exact ⟨rfl, rfl⟩
      generalize (if unstable && !s.shouldAbortActiveMarkdownIngest active then
        s.requeueUnstableMarkdownIngest w active.path active.entry else s) = t at hreq h
      unfold settleIngest at h
      split at h
      · exact .inl (hreq.1 ▸ h)
      rcases outcomes_settle h with hold | ⟨heq, hcov, ho⟩
      · exact .inl (hreq.1 ▸ hold)
      cases heq
      exact .inr ⟨hreq.2 ▸ ho, batch, active, hd, rfl, hcov⟩
    · exact .inl h
  | rejected =>
    simp only [next, drainRejected] at h
    split at h
    · rw [endDrain_outcomes] at h
      exact .inl h
    · next batch active hd =>
      rw [endDrain_outcomes] at h
      unfold settleIngest at h
      split at h
      · exact .inl h
      rcases outcomes_settle h with hold | ⟨heq, hcov, ho⟩
      · exact .inl hold
      cases heq
      exact .inr ⟨ho, batch, active, hd, rfl, hcov⟩
    · exact .inl h

end Handed

section Progress

/-- How many steps a drain has before it. -/
def DrainPhase.work (phase : DrainPhase π) : ℕ :=
  match phase with
  | .between => 0
  | .suppressing _ => 2
  | .syncing _ => 1

def MarkdownDrain.work (drain : MarkdownDrain π) : ℕ :=
  3 * drain.batch.length + DrainPhase.work drain.phase

/-- What a drain waits for. -/
def Awaits (drain : MarkdownDrain π) (e : DirtyQueueEvent π) : Prop :=
  match drain.phase, e with
  | .between, .continue => True
  | .suppressing _, .suppression _ => True
  | .syncing _, .ingestEnded _ => True
  | _, _ => False

/-- What it has waited for takes a drain to its next step. -/
theorem drain_goes_on {drain : MarkdownDrain π} {e : DirtyQueueEvent π}
    (hd : s.drain = some drain) (hawaits : Awaits drain e) :
    (s.next w e).drain = none ∨ ∃ drain', (s.next w e).drain = some drain' ∧
      MarkdownDrain.work drain' < MarkdownDrain.work drain := by
  obtain ⟨batch, phase⟩ := drain
  cases phase with
  | between =>
    cases e with
    | «continue» =>
      cases batch with
      | nil =>
        left
        simp only [next, continueDrain, hd, endMarkdownDrain]
        split <;> rfl
      | cons entry batch =>
        right
        simp only [next, continueDrain, hd, processDirtyMarkdownPath]
        split
        · exact ⟨_, rfl, by simp [MarkdownDrain.work, DrainPhase.work]⟩
        split
        · exact ⟨_, rfl, by simp [MarkdownDrain.work, DrainPhase.work]⟩
        split
        · exact ⟨_, rfl, by simp [MarkdownDrain.work, DrainPhase.work]⟩
        · exact ⟨_, rfl, by simp [MarkdownDrain.work, DrainPhase.work]; omega⟩
    | _ => exact hawaits.elim
  | suppressing active =>
    cases e with
    | suppression suppressed =>
      right
      simp only [next, suppressionAnswered, hd]
      split
      · exact ⟨_, rfl, by simp [MarkdownDrain.work, DrainPhase.work]⟩
      split
      · exact ⟨_, rfl, by simp [MarkdownDrain.work, DrainPhase.work]⟩
      · split <;> exact ⟨_, rfl, by simp [MarkdownDrain.work, DrainPhase.work]⟩
    | _ => exact hawaits.elim
  | syncing active =>
    cases e with
    | ingestEnded unstable =>
      right
      simp only [next, ingestEnded, hd]
      exact ⟨_, rfl, by simp [MarkdownDrain.work, DrainPhase.work]⟩
    | _ => exact hawaits.elim

end Progress

/-- In a guarded run every change that has been taken in is queued, in a batch or worked on under
the path its file has, with a timer or a drain that goes on, until it has come to an end; it is
handed on by an ingest of that path only. -/
theorem guarded_queue_loses_nothing (hrun : Run Guarded (empty : DirtyQueue π) s) :
    (∀ m < s.changes, (∃ p, (m, p) ∈ s.owed) ∨ ∃ outcome, (m, outcome) ∈ s.outcomes) ∧
    (∀ m p, (m, p) ∈ s.owed →
      Queued s p ∧ (s.markdownDrainTimer = true ∨ s.drain.isSome) ∨ Waiting s p ∨ Working s m p) ∧
    (s.drain = none → s.markdownDrainTimer = false →
      ∀ m < s.changes, ∃ outcome, (m, outcome) ∈ s.outcomes) ∧
    (∀ w e m p, (m, .handed p) ∈ (s.next w e).outcomes → (m, .handed p) ∈ s.outcomes ∨
      (m, p) ∈ s.owed ∧ ∃ batch active, s.drain = some ⟨batch, .syncing active⟩ ∧
        active.path = p ∧ m ∈ active.covers) ∧
    ∀ w drain e, s.drain = some drain → Awaits drain e → (s.next w e).drain = none ∨
      ∃ drain', (s.next w e).drain = some drain' ∧
        MarkdownDrain.work drain' < MarkdownDrain.work drain := by
  have hnot := nothingLost_run hrun
  have hs : ∀ p, Queued s p → 0 < s.dirtyMarkdownPaths.size := by
    rintro p ⟨entry, hget, -⟩
    exact length_pos_of_mem (OrderedMap.get?_eq_some.mp hget)
  refine ⟨hnot.recorded, ?_, ?_, fun _ _ _ _ => handed_at_path, fun _ _ _ => drain_goes_on⟩
  · intro m p hmem
    exact (hnot.accounted m p hmem).imp_left fun hq =>
      ⟨hq, hnot.kept (hs p hq)⟩
  intro hidle htimer m hlt
  refine (hnot.recorded m hlt).resolve_left ?_
  rintro ⟨p, hmem⟩
  rcases hnot.accounted m p hmem with hq | ⟨drain, hd, -⟩ | ⟨drain, active, hd, -⟩
  · rcases hnot.kept (hs p hq) with harmed | hso
    · rw [htimer] at harmed
      cases harmed
    rw [hidle] at hso
    cases hso
  · rw [hidle] at hd
    cases hd
  rw [hidle] at hd
  cases hd

section Example

/-- Nothing is open, and the second path has no file any more. -/
def settledVault (now : ℕ) : DirtyWorld ℕ where
  now := now
  lastEditorActivity := fun _ => none
  isOpenOrBound := fun _ => false
  preservedUnresolved := fun _ => none
  isFile := fun path => path ≠ 2
  isPendingRenameTarget := fun _ => false

/-- A changed file is renamed, and its change is handed on once the timer has fired. -/
theorem guarded_queue_loses_nothing_modify :
    ∃ s : DirtyQueue ℕ, Run Guarded empty s ∧ s.changes = 1 ∧
      ∃ outcome, (0, outcome) ∈ s.outcomes := by
  have hrun : Run Guarded empty (((((((empty : DirtyQueue ℕ).next (settledVault 0)
      (.mark 1 .modify none)).next (settledVault 0) (.redirect 1 3)).next (settledVault 400)
        .timer).next (settledVault 400) (.suppression false)).next (settledVault 400)
          (.ingestEnded false)).next (settledVault 400) .continue) := by
    refine .step (.step (.step (.step (.step (.step .refl trivial) ?_) trivial) ?_) trivial) trivial
    · rintro ⟨drain, hd, -⟩
      cases hd
    · intro batch active _ _
      rfl
  exact ⟨_, hrun, rfl, (guarded_queue_loses_nothing hrun).2.2.1 rfl rfl 0 (by decide)⟩

theorem run_foldl {s : DirtyQueue π} (events : List (DirtyWorld π × DirtyQueueEvent π))
    (t : DirtyQueue π) (hrun : Run (fun _ _ _ => True) s t) :
    Run (fun _ _ _ => True) s (events.foldl (fun s e => s.next e.1 e.2) t) := by
  induction events generalizing t with
  | nil => exact hrun
  | cons event events ih => exact ih _ (.step hrun trivial)

/-- Two paths are taken into a batch. While the first one is worked on the second one is renamed,
and its change is not owed to anything any more. -/
theorem rename_loses_batched_change :
    ∃ s : DirtyQueue ℕ, Run (fun _ _ _ => True) empty s ∧ s.drain = none ∧
      s.markdownDrainTimer = false ∧ s.dirtyMarkdownPaths.size = 0 ∧ s.owed = [(1, 3)] ∧
      s.outcomes = [(0, .handed 1)] :=
  ⟨_, run_foldl [(settledVault 0, .mark 1 .modify none), (settledVault 0, .mark 2 .modify none),
      (settledVault 400, .timer), (settledVault 400, .redirect 2 3),
      (settledVault 400, .suppression false), (settledVault 400, .ingestEnded false),
      (settledVault 400, .continue), (settledVault 400, .continue)] empty .refl,
    rfl, rfl, rfl, rfl, rfl⟩

end Example

end Kaos.Runtime.DirtyQueue
