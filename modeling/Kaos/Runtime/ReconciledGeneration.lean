import Kaos.Runtime.ReconcileScheduler

/-! What the reconciled generation says: a pass that began after the call has completed. -/
namespace Kaos.Runtime.Scheduler

open List

variable {deps : SchedulerDeps} {now : ℤ} {mode : ReconcileMode} {force : Bool} {s s' t : Scheduler}
  {body : PassBody} {call : ReconnectCall} {e : SchedulerEvent}

/-- Both deps are there, no pass is in flight and the cooldown is over. -/
def Admits (deps : SchedulerDeps) (now : ℤ) (s : Scheduler) : Prop :=
  deps.vaultSync.isSome = true ∧ deps.diskMirror = true ∧ s.reconcileInFlight = false ∧
    ¬ (s.lastReconcileTime > 0 ∧ now - s.lastReconcileTime < RECONCILE_COOLDOWN_MS)

/-- What a call of `runReconciliation` does: nothing, or turn the request away, or start a body. -/
inductive Admission (deps : SchedulerDeps) (now : ℤ) (s : Scheduler) : Scheduler × Option ℕ → Prop
  | missing (deps_eq : ¬ (deps.vaultSync.isSome = true ∧ deps.diskMirror = true)) :
      Admission deps now s (s, none)
  | queued (inFlight : s.reconcileInFlight = true) :
      Admission deps now s ({ s with reconcilePending := true, owed := true }, none)
  | cooldown (timer : CooldownTimer) (inFlight : s.reconcileInFlight = false)
      (cools : s.lastReconcileTime > 0 ∧ now - s.lastReconcileTime < RECONCILE_COOLDOWN_MS) :
      Admission deps now s
        ({ s with
          reconcilePending := true
          owed := true
          reconcileCooldownTimer := s.reconcileCooldownTimer.or (some timer) }, none)
  | started (mode : ReconcileMode) (admits : Admits deps now s) :
      Admission deps now s
        ({ s with
          reconcileInFlight := true
          bodies := s.bodies ++ [⟨s.begun, mode, s.lifecycleGeneration⟩]
          begun := s.begun + 1
          owed := false }, some s.begun)

theorem admission_runReconciliation (deps : SchedulerDeps) (now : ℤ) (mode : ReconcileMode)
    (force : Bool) (s : Scheduler) :
    Admission deps now s (runReconciliation deps now mode force s) := by
  unfold runReconciliation
  cases hsync : deps.vaultSync with
  | none => exact .missing (by simp [hsync])
  | some vaultSync =>
    dsimp only
    cases hm : deps.diskMirror with
    | false => exact .missing (by simp [hm])
    | true =>
      by_cases hfl : s.reconcileInFlight = true
      · rw [if_pos hfl]
        exact .queued hfl
      rw [if_neg hfl]
      rw [Bool.not_eq_true] at hfl
      by_cases hcools : s.lastReconcileTime > 0 ∧ now - s.lastReconcileTime < RECONCILE_COOLDOWN_MS
      · rw [if_pos hcools]
        exact .cooldown _ hfl hcools
      rw [if_neg hcools]
      exact .started _ ⟨by simp [hsync], hm, hfl, hcools⟩

/-- Nothing of what the reconnect calls and the reconciled generation say has changed. -/
structure SameMarks (s s' : Scheduler) : Prop where
  calls_eq : s'.calls = s.calls
  completed_eq : s'.completed = s.completed
  generation_eq : s'.lastReconciledGeneration = s.lastReconciledGeneration
  awaiting_eq : s'.awaitingFirstProviderSync = s.awaitingFirstProviderSync
  begun_le : s.begun ≤ s'.begun

theorem sameMarks_runReconciliation (deps : SchedulerDeps) (now : ℤ) (mode : ReconcileMode)
    (force : Bool) (s : Scheduler) : SameMarks s (runReconciliation deps now mode force s).1 := by
  have hadm := admission_runReconciliation deps now mode force s
  generalize runReconciliation deps now mode force s = result at hadm ⊢
  cases hadm with
  | missing | queued | cooldown => exact ⟨rfl, rfl, rfl, rfl, Nat.le_refl _⟩
  | started => exact ⟨rfl, rfl, rfl, rfl, Nat.le_succ _⟩

theorem sameMarks_schedulePendingReconciliation (now : ℤ) (mode : ReconcileMode) (s : Scheduler) :
    SameMarks s (schedulePendingReconciliation now mode s) := by
  unfold schedulePendingReconciliation
  split <;> exact ⟨rfl, rfl, rfl, rfl, Nat.le_refl _⟩

theorem sameMarks_requestReconciliationFollowup (deps : SchedulerDeps) (now : ℤ) (held : Bool)
    (s : Scheduler) : SameMarks s (requestReconciliationFollowup deps now held s) := by
  unfold requestReconciliationFollowup
  split
  · exact ⟨rfl, rfl, rfl, rfl, Nat.le_refl _⟩
  dsimp only
  split
  · exact ⟨rfl, rfl, rfl, rfl, Nat.le_refl _⟩
  have hs := sameMarks_schedulePendingReconciliation now
    (getSafeReconcileMode deps .authoritative) { s with reconcilePending := true, owed := true }
  exact ⟨hs.calls_eq, hs.completed_eq, hs.generation_eq, hs.awaiting_eq, hs.begun_le⟩

theorem sameMarks_noteMarkdownDiskMutation (s : Scheduler) :
    SameMarks s (noteMarkdownDiskMutation s) := by
  unfold noteMarkdownDiskMutation
  split <;> exact ⟨rfl, rfl, rfl, rfl, Nat.le_refl _⟩

theorem sameMarks_timerFires (deps : SchedulerDeps) (now : ℤ) (timer : CooldownTimer)
    (s : Scheduler) : SameMarks s (timerFires deps now timer s) := by
  unfold timerFires
  dsimp only
  split
  · have hs := sameMarks_runReconciliation deps now
      (getSafeReconcileMode deps timer.fallbackMode) false
      { s with reconcileCooldownTimer := none, reconcilePending := false, marked := false }
    exact ⟨hs.calls_eq, hs.completed_eq, hs.generation_eq, hs.awaiting_eq, hs.begun_le⟩
  · exact ⟨rfl, rfl, rfl, rfl, Nat.le_refl _⟩

/-- A pass that began after the call was made has completed. -/
def Reconciled (s : Scheduler) (call : ReconnectCall) : Prop :=
  ∃ id ∈ s.completed, call.madeAt ≤ id

/-- What a call may claim where it stands. -/
structure Accounts (s : Scheduler) (call : ReconnectCall) : Prop where
  made : call.madeAt ≤ s.begun
  current : s.lastReconciledGeneration ≤ call.generation
  awaits : ∀ id, call.phase = .awaitingPass id → call.madeAt ≤ id
  returns : call.phase = .returned → Reconciled s call

theorem Accounts.mono (h : Accounts s call) (hcom : ∀ id ∈ s.completed, id ∈ s'.completed)
    (hgen : s'.lastReconciledGeneration ≤ call.generation) (hbegun : s.begun ≤ s'.begun) :
    Accounts s' call where
  made := Nat.le_trans h.made hbegun
  current := hgen
  awaits := h.awaits
  returns hph := by
    obtain ⟨id, hid, hle⟩ := h.returns hph
    exact ⟨id, hcom id hid, hle⟩

/-- Every call accounts for itself. -/
def AllAccount (s : Scheduler) : Prop := ∀ call ∈ s.calls, Accounts s call

theorem AllAccount.same (h : AllAccount s) (hs : SameMarks s s') : AllAccount s' := by
  intro call hc
  rw [hs.calls_eq] at hc
  apply (h call hc).mono
  · intro id hid
    rwa [hs.completed_eq]
  · rw [hs.generation_eq]
    exact (h call hc).current
  · exact hs.begun_le

/-- Calls of a generation that is not behind, admitted by the runner unless a pass has completed
since, that return in the order of their generations. -/
def InOrder (s : Scheduler) : SchedulerEvent → Prop
  | .reconnect _ generation => s.lastReconciledGeneration ≤ generation
  | .refreshed call deps now succeeds => succeeds = true → Admits deps now s ∨ Reconciled s call
  | .reconnected call _ _ => ∀ other ∈ s.calls, call.generation ≤ other.generation
  | _ => True

/-- A step marks a generation only for a call that is reconciled, and takes none back. -/
structure Truthful (s : Scheduler) (e : SchedulerEvent) (s' : Scheduler) : Prop where
  marks : ∀ call deps now, e = .reconnected call deps now → Reconciled s call
  marks_only : (∀ call deps now, e ≠ .reconnected call deps now) → e ≠ .reset →
    s'.lastReconciledGeneration = s.lastReconciledGeneration ∧
      s'.awaitingFirstProviderSync = s.awaitingFirstProviderSync
  monotone : e ≠ .reset → s.lastReconciledGeneration ≤ s'.lastReconciledGeneration

section

variable (h : AllAccount s)
include h

theorem allAccount_passEnds (body : PassBody) (completes : Bool) (now : ℤ) :
    AllAccount (passEnds now body completes s) := by
  refine AllAccount.same ?_ (sameMarks_schedulePendingReconciliation now body.mode _)
  intro call hc
  obtain ⟨earlier, hearly, hset⟩ := mem_filterMap.mp hc
  have hacc := h earlier hearly
  have hk : ∀ id ∈ s.completed,
      id ∈ (if completes then body.id :: s.completed else s.completed) := by
    intro id hid
    split
    · exact mem_cons_of_mem _ hid
    · exact hid
  unfold settleCall at hset
  split at hset
  · next hph =>
    cases completes with
    | false => cases hset
    | true =>
      cases hset
      refine ⟨hacc.made, hacc.current, ?_, ?_⟩
      · nofun
      intro _
      exact ⟨body.id, mem_cons_self, hacc.awaits body.id hph⟩
  · cases hset
    exact hacc.mono hk hacc.current (Nat.le_refl _)

theorem allAccount_reconnect {generation : ℕ}
    (hgen : s.lastReconciledGeneration ≤ generation) :
    AllAccount (reconnect deps generation s) := by
  unfold reconnect
  split
  · intro call hc
    rcases mem_append.mp hc with hc | hnew
    · exact (h call hc).mono (fun id hid => hid) (h call hc).current (Nat.le_refl _)
    obtain rfl := mem_singleton.mp hnew
    refine ⟨Nat.le_refl _, hgen, ?_, ?_⟩ <;> nofun
  · exact h

theorem AllAccount.erase (call : ReconnectCall) :
    AllAccount { s with calls := s.calls.erase call } := by
  intro other ho
  have hacc := h other (mem_of_mem_erase ho)
  exact hacc.mono (fun id hid => hid) hacc.current (Nat.le_refl _)

/-- A call that starts its pass awaits it; one that is turned away needs another that completed. -/
theorem allAccount_refreshed (hc : call ∈ s.calls) {succeeds : Bool}
    (hadmits : succeeds = true → Admits deps now s ∨ Reconciled s call) :
    AllAccount (refreshed deps now call succeeds s) := by
  have hacc := h call hc
  have herased := h.erase call
  unfold refreshed
  cases succeeds with
  | false => exact herased
  | true =>
    rw [if_pos rfl]
    have hs := sameMarks_runReconciliation deps now .authoritative false
      { s with calls := s.calls.erase call }
    have hadm := admission_runReconciliation deps now .authoritative false
      { s with calls := s.calls.erase call }
    generalize runReconciliation deps now .authoritative false
      { s with calls := s.calls.erase call } = result at hs hadm ⊢
    obtain ⟨next, started⟩ := result
    intro other ho
    rcases mem_append.mp ho with ho | hnew
    · exact (herased.same hs other ho).mono (fun id hid => hid)
        (herased.same hs other ho).current (Nat.le_refl _)
    obtain rfl := mem_singleton.mp hnew
    have hcom : ∀ id ∈ s.completed, id ∈ next.completed := by
      intro id hid
      rwa [hs.completed_eq]
    refine ⟨Nat.le_trans hacc.made hs.begun_le, ?_, ?_, ?_⟩
    · exact hs.generation_eq.symm ▸ hacc.current
    · intro id hid
      cases hadm with
      | started =>
        cases hid
        exact hacc.made
      | missing | queued | cooldown => cases hid
    intro hph
    -- a call that is turned away returns at once
    have hrec : Reconciled s call := by
      rcases hadmits rfl with hadmits | hrec
      · exfalso
        cases hadm with
        | missing hdeps => exact hdeps ⟨hadmits.1, hadmits.2.1⟩
        | queued hfl =>
          rw [hadmits.2.2.1] at hfl
          cases hfl
        | cooldown timer hfl hcools => exact hadmits.2.2.2 hcools
        | started => cases hph
      · exact hrec
    obtain ⟨id, hid, hle⟩ := hrec
    exact ⟨id, hcom id hid, hle⟩

/-- What follows the marking of a generation. -/
theorem allAccount_reconnected (ho : ∀ other ∈ s.calls, call.generation ≤ other.generation) :
    AllAccount (reconnected deps now call s) := by
  have hm : AllAccount { s with
      calls := s.calls.erase call
      lastReconciledGeneration := call.generation
      awaitingFirstProviderSync := false } := by
    intro other hot
    have hmem := mem_of_mem_erase hot
    exact (h other hmem).mono (fun id hid => hid) (ho other hmem) (Nat.le_refl _)
  unfold reconnected
  dsimp only
  split
  · have hc : AllAccount { s with
        calls := s.calls.erase call
        lastReconciledGeneration := call.generation
        awaitingFirstProviderSync := false
        reconcilePending := false
        marked := false } := hm.same ⟨rfl, rfl, rfl, rfl, Nat.le_refl _⟩
    cases hsync : deps.vaultSync with
    | none => exact hc.same (sameMarks_runReconciliation _ _ _ _ _)
    | some nextVaultSync =>
      dsimp only
      split
      · next hn => exact allAccount_reconnect hc (Nat.le_of_lt hn)
      · exact hc.same (sameMarks_runReconciliation _ _ _ _ _)
  · exact hm

theorem allAccount_step (hcond : InOrder s e) (hs : s.step e = some s') : AllAccount s' := by
  cases e with
  | runReconciliation deps now mode force =>
    cases hs
    exact h.same (sameMarks_runReconciliation deps now mode force s)
  | requestReconciliationFollowup deps now held =>
    cases hs
    exact h.same (sameMarks_requestReconciliationFollowup deps now held s)
  | noteMarkdownDiskMutation =>
    cases hs
    exact h.same (sameMarks_noteMarkdownDiskMutation s)
  | markPending | revokeAsyncAuthority =>
    cases hs
    exact h.same ⟨rfl, rfl, rfl, rfl, Nat.le_refl _⟩
  | timerFires deps now =>
    obtain ⟨timer, _, rfl⟩ := Option.map_eq_some_iff.mp hs
    exact h.same (sameMarks_timerFires deps now timer s)
  | reset =>
    cases hs
    intro call hc
    exact (h call hc).mono (fun id hid => hid) (Nat.zero_le _) (Nat.le_refl _)
  | bodyEffect body effect =>
    rw [step] at hs
    split at hs
    · cases hs
      exact h
    · cases hs
  | passEnds body now completes =>
    rw [step] at hs
    split at hs
    · cases hs
      exact allAccount_passEnds h body completes now
    · cases hs
  | reconnect deps generation =>
    cases hs
    exact allAccount_reconnect h hcond
  | refreshed call deps now succeeds =>
    rw [step] at hs
    split at hs
    · next hc =>
      cases hs
      exact allAccount_refreshed h hc.1 hcond
    · cases hs
  | reconnected call deps now =>
    rw [step] at hs
    split at hs
    · cases hs
      exact allAccount_reconnected h hcond
    · cases hs

theorem allAccount_run (hrun : Run InOrder s s') : AllAccount s' := by
  induction hrun with
  | refl => exact h
  | step _ hcond hs ih => exact allAccount_step ih hcond hs

end

@[simp] theorem lastReconciledGeneration_reconnect (generation : ℕ) (s : Scheduler) :
    (reconnect deps generation s).lastReconciledGeneration = s.lastReconciledGeneration := by
  unfold reconnect
  split <;> rfl

@[simp] theorem awaitingFirstProviderSync_reconnect (generation : ℕ) (s : Scheduler) :
    (reconnect deps generation s).awaitingFirstProviderSync = s.awaitingFirstProviderSync := by
  unfold reconnect
  split <;> rfl

/-- The call that returns sets its generation. -/
theorem lastReconciledGeneration_reconnected :
    (reconnected deps now call s).lastReconciledGeneration = call.generation := by
  unfold reconnected
  dsimp only
  split
  · cases hsync : deps.vaultSync with
    | none => exact (sameMarks_runReconciliation _ _ _ _ _).generation_eq
    | some nextVaultSync =>
      dsimp only
      split
      · exact lastReconciledGeneration_reconnect _ _
      · exact (sameMarks_runReconciliation _ _ _ _ _).generation_eq
  · rfl

/-- No other step but `reset` touches what is said to be reconciled. -/
theorem marks_unchanged (hs : s.step e = some s')
    (ho : ∀ call deps now, e ≠ .reconnected call deps now) (hreset : e ≠ .reset) :
    s'.lastReconciledGeneration = s.lastReconciledGeneration ∧
      s'.awaitingFirstProviderSync = s.awaitingFirstProviderSync := by
  cases e with
  | runReconciliation deps now mode force =>
    cases hs
    have hsa := sameMarks_runReconciliation deps now mode force s
    exact ⟨hsa.generation_eq, hsa.awaiting_eq⟩
  | requestReconciliationFollowup deps now held =>
    cases hs
    have hsa := sameMarks_requestReconciliationFollowup deps now held s
    exact ⟨hsa.generation_eq, hsa.awaiting_eq⟩
  | noteMarkdownDiskMutation =>
    cases hs
    have hsa := sameMarks_noteMarkdownDiskMutation s
    exact ⟨hsa.generation_eq, hsa.awaiting_eq⟩
  | markPending | revokeAsyncAuthority =>
    cases hs
    exact ⟨rfl, rfl⟩
  | timerFires deps now =>
    obtain ⟨timer, _, rfl⟩ := Option.map_eq_some_iff.mp hs
    have hsa := sameMarks_timerFires deps now timer s
    exact ⟨hsa.generation_eq, hsa.awaiting_eq⟩
  | reset => exact absurd rfl hreset
  | bodyEffect body effect =>
    rw [step] at hs
    split at hs
    · cases hs
      exact ⟨rfl, rfl⟩
    · cases hs
  | passEnds body now completes =>
    rw [step] at hs
    split at hs
    · cases hs
      have hsa := sameMarks_schedulePendingReconciliation now body.mode
        { s with
          reconcileInFlight := false
          lastReconcileTime := now
          bodies := s.bodies.erase body
          calls := s.calls.filterMap (settleCall body.id completes)
          completed := if completes then body.id :: s.completed else s.completed }
      exact ⟨hsa.generation_eq, hsa.awaiting_eq⟩
    · cases hs
  | reconnect deps generation =>
    cases hs
    exact ⟨lastReconciledGeneration_reconnect _ _, awaitingFirstProviderSync_reconnect _ _⟩
  | refreshed call deps now succeeds =>
    rw [step] at hs
    split at hs
    · cases hs
      cases succeeds with
      | false => exact ⟨rfl, rfl⟩
      | true =>
        have hsa := sameMarks_runReconciliation deps now .authoritative false
          { s with calls := s.calls.erase call }
        exact ⟨hsa.generation_eq, hsa.awaiting_eq⟩
    · cases hs
  | reconnected call deps now => exact absurd rfl (ho call deps now)

/-- In a run whose calls are admitted and return in order, every step is truthful. -/
theorem reconciled_generation_truthful (awaiting : Bool)
    (hrun : Run InOrder { awaitingFirstProviderSync := awaiting } s) (hcond : InOrder s e)
    (hstep : s.step e = some s') : Truthful s e s' := by
  have hacc : AllAccount s := by
    refine allAccount_run ?_ hrun
    exact nofun
  have hunc := marks_unchanged hstep
  refine ⟨?_, hunc, ?_⟩
  · rintro call deps now rfl
    rw [step] at hstep
    split at hstep
    · next hc => exact (hacc call hc.1).returns hc.2
    · cases hstep
  intro hreset
  by_cases ho : ∀ call deps now, e ≠ .reconnected call deps now
  · exact Nat.le_of_eq (hunc ho hreset).1.symm
  simp only [not_forall, not_not] at ho
  obtain ⟨call, deps, now, rfl⟩ := ho
  rw [step] at hstep
  split at hstep
  · next hc =>
    cases hstep
    rw [lastReconciledGeneration_reconnected]
    exact (hacc call hc.1).current
  · cases hstep

section Example

def readyDeps (connectionGeneration : ℕ) : SchedulerDeps :=
  ⟨some ⟨true, false, connectionGeneration, .authoritative⟩, true⟩

/-- The first pass runs when the call of generation 1 is made and turned away; it marks its
generation although no pass has completed. -/
theorem turned_away_marks_generation : ∃ s s' call,
    Run (fun _ _ => True) { awaitingFirstProviderSync := true } s ∧
      s.step (.reconnected call (readyDeps 1) 1000) = some s' ∧
      ¬ Truthful s (.reconnected call (readyDeps 1) 1000) s' := by
  refine ⟨_, _, ⟨1, 1, .returned⟩, .step (.step (.step .refl trivial
    (e := .runReconciliation (readyDeps 1) 1000 .authoritative false) rfl) trivial
    (e := .reconnect (readyDeps 1) 1) rfl) trivial
    (e := .refreshed ⟨1, 1, .refreshing⟩ (readyDeps 1) 1000 true) rfl, rfl, ?_⟩
  intro htrut
  obtain ⟨id, hid, _⟩ := htrut.marks _ _ _ rfl
  cases hid

/-- A call with nothing in flight awaits the pass it starts. -/
theorem reconnect_after_pass_truthful : ∃ s s',
    s'.lastReconciledGeneration = 1 ∧
      Truthful s (.reconnected ⟨1, 0, .returned⟩ (readyDeps 1) 2000) s' := by
  refine ⟨_, _, rfl, reconciled_generation_truthful true (.step (.step (.step .refl
    (e := .reconnect (readyDeps 1) 1) (Nat.zero_le _) rfl)
    (e := .refreshed ⟨1, 0, .refreshing⟩ (readyDeps 1) 1000 true)
      (fun _ => .inl ⟨rfl, rfl, rfl, by decide⟩) rfl)
    (e := .passEnds ⟨0, .authoritative, 0⟩ 2000 true) trivial rfl) ?_ rfl⟩
  intro other ho
  obtain rfl := mem_singleton.mp ho
  exact Nat.le_refl _

end Example

end Kaos.Runtime.Scheduler
