import Kaos.Runtime.ReconciledGeneration

/-! No request for a pass is lost and no two passes overlap, as long as `reset` finds none running. -/
namespace Kaos.Runtime.Scheduler

open List Option

variable {deps : SchedulerDeps} {now : ℤ} {s s' t : Scheduler} {body : PassBody}
  {call : ReconnectCall} {e : SchedulerEvent}

def Present (deps : SchedulerDeps) : Prop :=
  deps.vaultSync.isSome = true ∧ deps.diskMirror = true

/-- The pending flag is set, and a timer or the end of a pass will look at it. -/
def Kept (s : Scheduler) : Prop :=
  s.reconcilePending = true ∧ (s.reconcileCooldownTimer.isSome = true ∨ s.reconcileInFlight = true)

/-- At most one body runs, the flag says whether, and its lifecycle is the current one. -/
structure OneBody (s : Scheduler) : Prop where
  one : s.bodies.length ≤ 1
  inFlight : s.reconcileInFlight = true ↔ s.bodies ≠ []
  current : ∀ body ∈ s.bodies, body.lifecycleGeneration = s.lifecycleGeneration

/-- A pending flag that `markPending` did not set is looked at. -/
def PendingKept (s : Scheduler) : Prop :=
  s.reconcilePending = true → s.marked = true ∨ s.reconcileCooldownTimer.isSome = true ∨
    s.reconcileInFlight = true

/-- A request that no start of a pass has met is kept, or a reconnect call on its way to the runner
has taken it over. -/
def RequestKept (s : Scheduler) : Prop :=
  s.owed = true → Kept s ∨ ∃ call ∈ s.calls, call.phase = .refreshing

structure Scheduled (s : Scheduler) : Prop where
  oneBody : OneBody s
  pendingKept : PendingKept s
  requestKept : RequestKept s

theorem Kept.pendingKept (h : Kept s) : PendingKept s := fun _ => .inr h.2

/-- The runner keeps the request it turns away; one that it meets is owed no longer. -/
theorem scheduled_runReconciliation (mode : ReconcileMode) (force : Bool) (hbody : OneBody s)
    (hp : PendingKept s) (hreq : Present deps ∨ RequestKept s) :
    Scheduled (runReconciliation deps now mode force s).1 := by
  have hadm := admission_runReconciliation deps now mode force s
  generalize runReconciliation deps now mode force s = result at hadm ⊢
  cases hadm with
  | missing hdeps =>
    refine ⟨hbody, hp, ?_⟩
    rcases hreq with hpres | hreq
    · exact absurd hpres hdeps
    · exact hreq
  | queued hfl =>
    refine ⟨⟨hbody.one, hbody.inFlight, hbody.current⟩, ?_, ?_⟩ <;> intro _
    · exact .inr (.inr hfl)
    · exact .inl ⟨rfl, .inr hfl⟩
  | cooldown timer hfl hcools =>
    have hs : (s.reconcileCooldownTimer.or (some timer)).isSome = true := by
      cases s.reconcileCooldownTimer with
      | none => rfl
      | some _ => rfl
    refine ⟨⟨hbody.one, hbody.inFlight, hbody.current⟩, ?_, ?_⟩ <;> intro _
    · exact .inr (.inl hs)
    · exact .inl ⟨rfl, .inl hs⟩
  | started mode hadmits =>
    have hn : s.bodies = [] := by
      by_contra hs
      have hfl := hbody.inFlight.mpr hs
      rw [hadmits.2.2.1] at hfl
      cases hfl
    refine ⟨⟨?_, ?_, ?_⟩, ?_, ?_⟩
    · rw [hn]
      exact Nat.le_refl _
    · rw [hn]
      simp
    · intro body hmem
      rw [hn, nil_append] at hmem
      obtain rfl := mem_singleton.mp hmem
      rfl
    · intro _
      exact .inr (.inr rfl)
    · nofun

theorem isSome_schedulePendingReconciliation (now : ℤ) (mode : ReconcileMode)
    (hp : s.reconcilePending = true) :
    (schedulePendingReconciliation now mode s).reconcileCooldownTimer.isSome = true := by
  unfold schedulePendingReconciliation
  split
  · next h =>
    rw [hp] at h
    simpa using h
  · rfl

@[simp] theorem reconcilePending_schedulePendingReconciliation (now : ℤ) (mode : ReconcileMode)
    (s : Scheduler) : (schedulePendingReconciliation now mode s).reconcilePending =
      s.reconcilePending := by
  unfold schedulePendingReconciliation
  split <;> rfl

@[simp] theorem owed_schedulePendingReconciliation (now : ℤ) (mode : ReconcileMode)
    (s : Scheduler) : (schedulePendingReconciliation now mode s).owed = s.owed := by
  unfold schedulePendingReconciliation
  split <;> rfl

/-- Scheduling touches the timer only. -/
theorem oneBody_schedulePendingReconciliation (now : ℤ) (mode : ReconcileMode) (h : OneBody s) :
    OneBody (schedulePendingReconciliation now mode s) := by
  unfold schedulePendingReconciliation
  split
  · exact h
  · exact ⟨h.one, h.inFlight, h.current⟩

/-- Scheduling with the flag set keeps it. -/
theorem kept_schedulePendingReconciliation (now : ℤ) (mode : ReconcileMode)
    (hp : s.reconcilePending = true) : Kept (schedulePendingReconciliation now mode s) :=
  ⟨(reconcilePending_schedulePendingReconciliation now mode s).trans hp,
    .inl (isSome_schedulePendingReconciliation now mode hp)⟩

section

variable (h : Scheduled s)
include h

theorem scheduled_requestReconciliationFollowup (held : Bool) :
    Scheduled (requestReconciliationFollowup deps now held s) := by
  unfold requestReconciliationFollowup
  split
  · exact h
  dsimp only
  have hbody : OneBody { s with reconcilePending := true, owed := true } :=
    ⟨h.oneBody.one, h.oneBody.inFlight, h.oneBody.current⟩
  split
  · next hfl =>
    have hk : Kept { s with reconcilePending := true, owed := true } := ⟨rfl, .inr hfl⟩
    exact ⟨hbody, hk.pendingKept, fun _ => .inl hk⟩
  have hk := @kept_schedulePendingReconciliation
    { s with reconcilePending := true, owed := true } now
    (getSafeReconcileMode deps .authoritative) rfl
  exact ⟨oneBody_schedulePendingReconciliation _ _ hbody, hk.pendingKept, fun _ => .inl hk⟩

theorem scheduled_noteMarkdownDiskMutation : Scheduled (noteMarkdownDiskMutation s) := by
  unfold noteMarkdownDiskMutation
  split
  · next hfl =>
    have hk : Kept { s with reconcilePending := true, owed := true } := ⟨rfl, .inr hfl⟩
    exact ⟨⟨h.oneBody.one, h.oneBody.inFlight, h.oneBody.current⟩, hk.pendingKept,
      fun _ => .inl hk⟩
  · exact h

theorem scheduled_markPending : Scheduled (markPending s) := by
  refine ⟨⟨h.oneBody.one, h.oneBody.inFlight, h.oneBody.current⟩, fun _ => .inl rfl, ?_⟩
  intro ho
  rcases h.requestKept ho with hk | hc
  · exact .inl ⟨rfl, hk.2⟩
  · exact .inr hc

theorem scheduled_timerFires (timer : CooldownTimer)
    (hpres : s.reconcilePending = true → Present deps) :
    Scheduled (timerFires deps now timer s) := by
  unfold timerFires
  dsimp only
  split
  · next hp =>
    refine scheduled_runReconciliation _ _ ⟨h.oneBody.one, h.oneBody.inFlight, h.oneBody.current⟩
      ?_ (.inl (hpres hp))
    exact nofun
  · next hp =>
    refine ⟨⟨h.oneBody.one, h.oneBody.inFlight, h.oneBody.current⟩, ?_, ?_⟩
    · intro hset
      exact absurd hset hp
    intro ho
    rcases h.requestKept ho with hk | hc
    · exact absurd hk.1 hp
    · exact .inr hc

/-- The end of the body leaves none, and arms the timer for what is pending. -/
theorem scheduled_passEnds (hbody : body ∈ s.bodies) (completes : Bool) :
    Scheduled (passEnds now body completes s) := by
  have hn : s.bodies.erase body = [] := by
    obtain ⟨only, honly⟩ : ∃ only, s.bodies = [only] := by
      rw [← length_eq_one_iff]
      have hpos := length_pos_of_mem hbody
      have hone := h.oneBody.one
      omega
    rw [honly] at hbody ⊢
    obtain rfl := mem_singleton.mp hbody
    simp
  unfold passEnds
  refine ⟨oneBody_schedulePendingReconciliation now body.mode ⟨?_, ?_, ?_⟩, ?_, ?_⟩
  · rw [hn]
    exact Nat.zero_le _
  · rw [hn]
    simp
  · intro other hot
    rw [hn] at hot
    cases hot
  · intro hp
    rw [reconcilePending_schedulePendingReconciliation] at hp
    exact (kept_schedulePendingReconciliation _ _ hp).pendingKept
      ((reconcilePending_schedulePendingReconciliation _ _ _).trans hp)
  intro ho
  rw [owed_schedulePendingReconciliation] at ho
  rcases h.requestKept ho with hk | ⟨call, hc, hph⟩
  · exact .inl (kept_schedulePendingReconciliation _ _ hk.1)
  refine .inr ⟨call, ?_, hph⟩
  rw [(sameMarks_schedulePendingReconciliation _ _ _).calls_eq]
  refine mem_filterMap.mpr ⟨call, hc, ?_⟩
  rw [settleCall, hph, if_neg (by simp)]

theorem scheduled_reconnect (generation : ℕ) : Scheduled (reconnect deps generation s) := by
  unfold reconnect
  split
  · refine ⟨⟨h.oneBody.one, h.oneBody.inFlight, h.oneBody.current⟩, h.pendingKept, ?_⟩
    intro ho
    rcases h.requestKept ho with hk | ⟨call, hc, hph⟩
    · exact .inl hk
    · exact .inr ⟨call, mem_append_left _ hc, hph⟩
  · exact h

/-- A call that took the request over brings it to the runner. -/
theorem scheduled_refreshed {succeeds : Bool}
    (hbrings : s.owed = true → ¬ Kept s → succeeds = true ∧ Present deps) :
    Scheduled (refreshed deps now call succeeds s) := by
  have hbody : OneBody { s with calls := s.calls.erase call } :=
    ⟨h.oneBody.one, h.oneBody.inFlight, h.oneBody.current⟩
  cases succeeds with
  | false =>
    refine ⟨hbody, h.pendingKept, ?_⟩
    intro ho
    by_cases hk : Kept s
    · exact .inl hk
    · cases (hbrings ho hk).1
  | true =>
    have hreq : Present deps ∨ RequestKept { s with calls := s.calls.erase call } := by
      by_cases ho : s.owed = true
      · by_cases hk : Kept s
        · exact .inr fun _ => .inl hk
        · exact .inl (hbrings ho hk).2
      · exact .inr fun ho' => absurd ho' ho
    have hran := @scheduled_runReconciliation deps now _ .authoritative false hbody h.pendingKept
      hreq
    refine ⟨⟨hran.oneBody.one, hran.oneBody.inFlight, hran.oneBody.current⟩, hran.pendingKept, ?_⟩
    intro ho
    rcases hran.requestKept ho with hk | ⟨other, hot, hph⟩
    · exact .inl hk
    · exact .inr ⟨other, mem_append_left _ hot, hph⟩

/-- The call that returns hands the pending flag to the runner or to another call. -/
theorem scheduled_reconnected (hph : call.phase = .returned)
    (hpres : s.reconcilePending = true → s.reconcileCooldownTimer = none → Present deps) :
    Scheduled (reconnected deps now call s) := by
  unfold reconnected
  dsimp only
  split
  · next htakes =>
    rw [Bool.and_eq_true, isNone_iff_eq_none] at htakes
    have hdeps := hpres htakes.1 htakes.2
    have hbody : OneBody { s with
        calls := s.calls.erase call
        lastReconciledGeneration := call.generation
        awaitingFirstProviderSync := false
        reconcilePending := false
        marked := false } := ⟨h.oneBody.one, h.oneBody.inFlight, h.oneBody.current⟩
    have hp : PendingKept { s with
        calls := s.calls.erase call
        lastReconciledGeneration := call.generation
        awaitingFirstProviderSync := false
        reconcilePending := false
        marked := false } := by
      exact nofun
    cases hsync : deps.vaultSync with
    | none =>
      have hs := hdeps.1
      rw [hsync] at hs
      cases hs
    | some nextVaultSync =>
      dsimp only
      split
      · unfold reconnect
        rw [if_pos hdeps.1]
        exact ⟨⟨hbody.one, hbody.inFlight, hbody.current⟩, hp,
          fun _ => .inr ⟨_, mem_append_right _ (mem_singleton_self _), rfl⟩⟩
      · exact scheduled_runReconciliation _ _ hbody hp (.inl hdeps)
  refine ⟨⟨h.oneBody.one, h.oneBody.inFlight, h.oneBody.current⟩, h.pendingKept, ?_⟩
  intro ho
  rcases h.requestKept ho with hk | ⟨other, hot, href⟩
  · exact .inl hk
  refine .inr ⟨other, (mem_erase_of_ne ?_).mpr hot, href⟩
  rintro rfl
  rw [hph] at href
  cases href

end

/-- No pass runs when the lifecycle moves on; the deps are there when a kept request reaches the
runner, and the refresh of a call that took one over succeeds. -/
def Undisturbed (s : Scheduler) : SchedulerEvent → Prop
  | .reset | .revokeAsyncAuthority => s.bodies = []
  | .timerFires deps _ => s.reconcilePending = true → Present deps
  | .refreshed _ deps _ succeeds => s.owed = true → ¬ Kept s → succeeds = true ∧ Present deps
  | .reconnected _ deps _ =>
    s.reconcilePending = true → s.reconcileCooldownTimer = none → Present deps
  | _ => True

theorem scheduled_step (h : Scheduled s) (hcond : Undisturbed s e) (hst : s.step e = some s') :
    Scheduled s' := by
  cases e with
  | runReconciliation deps now mode force =>
    cases hst
    exact scheduled_runReconciliation mode force h.oneBody h.pendingKept (.inr h.requestKept)
  | requestReconciliationFollowup deps now held =>
    cases hst
    exact scheduled_requestReconciliationFollowup h held
  | noteMarkdownDiskMutation =>
    cases hst
    exact scheduled_noteMarkdownDiskMutation h
  | markPending =>
    cases hst
    exact scheduled_markPending h
  | timerFires deps now =>
    obtain ⟨timer, _, rfl⟩ := map_eq_some_iff.mp hst
    exact scheduled_timerFires h timer hcond
  | reset =>
    cases hst
    have hn : s.bodies = [] := hcond
    refine ⟨⟨h.oneBody.one, ?_, ?_⟩, ?_, ?_⟩
    · exact ⟨fun hfl => absurd hfl Bool.false_ne_true, fun hs => absurd hn hs⟩
    · intro body hbody
      change body ∈ s.bodies at hbody
      rw [hn] at hbody
      cases hbody
    · nofun
    · nofun
  | revokeAsyncAuthority =>
    cases hst
    have hn : s.bodies = [] := hcond
    refine ⟨⟨h.oneBody.one, h.oneBody.inFlight, ?_⟩, h.pendingKept, h.requestKept⟩
    intro body hbody
    change body ∈ s.bodies at hbody
    rw [hn] at hbody
    cases hbody
  | bodyEffect body effect =>
    rw [step] at hst
    split at hst
    · cases hst
      exact h
    · cases hst
  | passEnds body now completes =>
    rw [step] at hst
    split at hst
    · next hbody =>
      cases hst
      exact scheduled_passEnds h hbody completes
    · cases hst
  | reconnect deps generation =>
    cases hst
    exact scheduled_reconnect h generation
  | refreshed call deps now succeeds =>
    rw [step] at hst
    split at hst
    · cases hst
      exact scheduled_refreshed h hcond
    · cases hst
  | reconnected call deps now =>
    rw [step] at hst
    split at hst
    · next hc =>
      cases hst
      exact scheduled_reconnected h hc.2 hcond
    · cases hst

theorem scheduled_run (h : Scheduled s) (hrun : Run Undisturbed s s') : Scheduled s' := by
  induction hrun with
  | refl => exact h
  | step _ hcond hs ih => exact scheduled_step ih hcond hs

theorem scheduled_initial (awaiting : Bool) :
    Scheduled { awaitingFirstProviderSync := awaiting } := by
  refine ⟨⟨Nat.zero_le _, ?_, ?_⟩, ?_, ?_⟩
  · exact ⟨fun hfl => absurd hfl Bool.false_ne_true, fun hs => absurd rfl hs⟩
  · nofun
  · nofun
  · nofun

/-- A request stays owed until a pass starts. -/
def Lasting (s s' : Scheduler) : Prop := s.owed = true → s'.owed = true ∨ s.begun < s'.begun

theorem lasting_runReconciliation (mode : ReconcileMode) (force : Bool) (s : Scheduler) :
    Lasting s (runReconciliation deps now mode force s).1 := by
  have hadm := admission_runReconciliation deps now mode force s
  generalize runReconciliation deps now mode force s = result at hadm ⊢
  intro ho
  cases hadm with
  | missing => exact .inl ho
  | queued | cooldown => exact .inl rfl
  | started => exact .inr (Nat.lt_succ_self _)

theorem lasting_reconnect (generation : ℕ) (s : Scheduler) :
    Lasting s (reconnect deps generation s) := by
  intro ho
  unfold reconnect
  split <;> exact .inl ho

theorem owed_until_start (hs : s.step e = some s') (hreset : e ≠ .reset) : Lasting s s' := by
  cases e with
  | runReconciliation deps now mode force =>
    cases hs
    exact lasting_runReconciliation mode force s
  | requestReconciliationFollowup deps now held =>
    cases hs
    intro ho
    unfold requestReconciliationFollowup
    split
    · exact .inl ho
    dsimp only
    split
    · exact .inl rfl
    · exact .inl (owed_schedulePendingReconciliation _ _ _)
  | noteMarkdownDiskMutation =>
    cases hs
    intro ho
    unfold noteMarkdownDiskMutation
    split
    · exact .inl rfl
    · exact .inl ho
  | markPending | revokeAsyncAuthority =>
    cases hs
    exact fun ho => .inl ho
  | timerFires deps now =>
    obtain ⟨timer, _, rfl⟩ := map_eq_some_iff.mp hs
    unfold timerFires
    dsimp only
    split
    · exact @lasting_runReconciliation deps now _ false
        { s with reconcileCooldownTimer := none, reconcilePending := false, marked := false }
    · exact fun ho => .inl ho
  | reset => exact absurd rfl hreset
  | bodyEffect body effect =>
    rw [step] at hs
    split at hs
    · cases hs
      exact fun ho => .inl ho
    · cases hs
  | passEnds body now completes =>
    rw [step] at hs
    split at hs
    · cases hs
      intro ho
      unfold passEnds
      rw [owed_schedulePendingReconciliation]
      exact .inl ho
    · cases hs
  | reconnect deps generation =>
    cases hs
    exact lasting_reconnect generation s
  | refreshed call deps now succeeds =>
    rw [step] at hs
    split at hs
    · cases hs
      have hlas := @lasting_runReconciliation deps now .authoritative false
        { s with calls := s.calls.erase call }
      cases succeeds with
      | false => exact fun ho => .inl ho
      | true => exact hlas
    · cases hs
  | reconnected call deps now =>
    rw [step] at hs
    split at hs
    · cases hs
      have hran := @lasting_runReconciliation deps now
        (getSafeReconcileMode deps .authoritative) false
        { s with
          calls := s.calls.erase call
          lastReconciledGeneration := call.generation
          awaitingFirstProviderSync := false
          reconcilePending := false
          marked := false }
      unfold reconnected
      dsimp only
      split
      · cases hsync : deps.vaultSync with
        | none => exact hran
        | some nextVaultSync =>
          dsimp only
          split
          · exact @lasting_reconnect deps nextVaultSync.connectionGeneration
              { s with
                calls := s.calls.erase call
                lastReconciledGeneration := call.generation
                awaitingFirstProviderSync := false
                reconcilePending := false
                marked := false }
          · exact hran
      · exact fun ho => .inl ho
    · cases hs

/-- Once the cooldown is over the timer starts a pass for what is pending. -/
theorem timer_starts_pass (timer : CooldownTimer) (hp : s.reconcilePending = true)
    (hfl : s.reconcileInFlight = false) (hdeps : Present deps)
    (hcooled : RECONCILE_COOLDOWN_MS ≤ now - s.lastReconcileTime) :
    s.begun < (timerFires deps now timer s).begun := by
  unfold timerFires
  rw [if_pos hp]
  have hadm := admission_runReconciliation deps now
    (getSafeReconcileMode deps timer.fallbackMode) false
    { s with reconcileCooldownTimer := none, reconcilePending := false, marked := false }
  generalize runReconciliation deps now (getSafeReconcileMode deps timer.fallbackMode) false
    { s with reconcileCooldownTimer := none, reconcilePending := false, marked := false } =
    result at hadm ⊢
  cases hadm with
  | missing hmiss => exact absurd hdeps hmiss
  | queued hq =>
    change s.reconcileInFlight = true at hq
    rw [hfl] at hq
    cases hq
  | cooldown _ _ hcools =>
    have hlt : now - s.lastReconcileTime < RECONCILE_COOLDOWN_MS := hcools.2
    omega
  | started => exact Nat.lt_succ_self _

section Example

/-- A second request came a second after the first pass had ended. -/
def turnedAway : Scheduler where
  reconcilePending := true
  reconcileCooldownTimer := some ⟨.authoritative, 9000⟩
  lastReconcileTime := 2000
  begun := 1
  completed := [0]
  owed := true

end Example

end Kaos.Runtime.Scheduler
