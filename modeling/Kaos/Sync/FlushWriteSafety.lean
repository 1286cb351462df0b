import Kaos.Sync.FlushWrite

/-! Why the disk mirror's write destroys no bytes it did not account for. -/
namespace Kaos.Sync

open Kaos.Lib Option

section Code

variable {blocks : Option JsString → JsString → Bool} {contentHash : JsString → JsString}
  {p : MirrorPath} {flush flush' : Flush} {creating : Prop} {result : DiskWriteResult}
  {point : FlushPoint} {after : MirrorPath × FlushProgress} {file : ℕ} {current baseline : JsString}

variable {fences : List (Bool × DiskWriteResult)}

theorem settledContent_firstFence (hfen : ∀ fence ∈ fences, fence.2.settledContent = none)
    (h : firstFence fences = some result) : result.settledContent = none := by
  induction fences with
  | nil => cases h
  | cons fence fences ih =>
    rw [firstFence] at h
    split at h
    · cases h
      exact hfen fence List.mem_cons_self
    · exact ih (fun other ho => hfen other (List.mem_cons_of_mem _ ho)) h

theorem stops_eq_false (h : firstFence fences = none) : ∀ fence ∈ fences, fence.1 = false := by
  induction fences with
  | nil => simp
  | cons fence fences ih =>
    rw [firstFence] at h
    split at h
    · cases h
    · next hstops =>
      intro other ho
      rcases List.mem_cons.mp ho with rfl | ho
      · rwa [Bool.not_eq_true] at hstops
      · exact ih h other ho

@[simp] theorem settledContent_stale (options : DiskWriteOptions) :
    (p.deferCallerAuthorityStale options).settledContent = none := by
  unfold MirrorPath.deferCallerAuthorityStale
  split <;> rfl

@[simp] theorem settledContent_diskChanged : diskChanged.settledContent = none := rfl

@[simp] theorem settledContent_deferred (reason : DiskWriteDeferReason) :
    (DiskWriteResult.deferred reason).settledContent = none := rfl

@[simp] theorem settledContent_blocked (reason : DiskWriteBlockReason) :
    (DiskWriteResult.blocked reason).settledContent = none := rfl

@[simp] theorem settledContent_failed : DiskWriteResult.failed.settledContent = none := rfl

/-- The operation of the await is still to come, and nothing has been settled. -/
def FlushPoint.Begins : FlushPoint → Prop
  | .read _ none | .baselineHash _ _ _ | .suppress _ | .process _ none | .createFolder
  | .suppressCreate | .create none | .raceRead _ none | .hash _ _ _ | .readback _ _ _ none
  | .settled _ _ false => True
  | .read _ (some _) | .process _ (some _) | .create (some _) | .raceRead _ (some _)
  | .readback _ _ _ (some _) | .settled _ _ true => False

/-- The text that a call may replace stays, or becomes one whose hash is the baseline. -/
def Carries (contentHash : JsString → JsString) (p : MirrorPath) (flush flush' : Flush) : Prop :=
  flush'.options = flush.options ∧
    (flush'.expectedDiskSnapshot = flush.expectedDiskSnapshot ∨
      ∃ snapshot, flush'.expectedDiskSnapshot = some snapshot ∧
        p.durableBaseline = some (contentHash snapshot))

/-- What the code between two awaits can do. -/
structure WriteFollows (contentHash : JsString → JsString) (p : MirrorPath) (flush : Flush)
    (creating : Prop) (after : MirrorPath × FlushProgress) : Prop where
  target : after.1.target = p.target
  content : after.1.content = p.content
  baseline : after.1.durableBaseline = p.durableBaseline
  authorization : after.1.remoteCreateAuthorization = p.remoteCreateAuthorization ∨
    after.1.remoteCreateAuthorization = none
  await : ∀ flush' point, after.2 = .await flush' point →
    Carries contentHash p flush flush' ∧ point.Begins ∧
      (point.Creates → MayCreate after.1 flush'.options ∧
        ((creating ∧ flush'.authority = flush.authority) ∨
          ∀ grant, flush'.authority = some grant →
            ∃ authorization, p.remoteCreateAuthorization = some authorization ∧
              authorization.grant = grant))
  retry : ∀ flush', after.2 = .retry flush' → Carries contentHash p flush flush'
  ended : ∀ result, after.2 = .ended result → result.settledContent = none

theorem carries_refl : Carries contentHash p flush flush := ⟨rfl, .inl rfl⟩

theorem follows_ended (h : result.settledContent = none) :
    WriteFollows contentHash p flush creating (p, .ended result) := by
  refine ⟨rfl, rfl, rfl, .inl rfl, ?_, ?_, ?_⟩
  · intro flush' point heq
    cases heq
  · intro flush' heq
    cases heq
  intro other heq
  cases heq
  exact h

theorem follows_fence (h : firstFence fences = some result)
    (hfen : ∀ fence ∈ fences, fence.2.settledContent = none) :
    WriteFollows contentHash p flush creating (p, .ended result) :=
  follows_ended (settledContent_firstFence hfen h)

theorem follows_retry : WriteFollows contentHash p flush creating (p, .retry flush) := by
  refine ⟨rfl, rfl, rfl, .inl rfl, ?_, ?_, ?_⟩
  · intro flush' point heq
    cases heq
  · intro flush' heq
    cases heq
    exact carries_refl
  · nofun

theorem follows_await (hcar : Carries contentHash p flush flush') (hbeg : point.Begins)
    (hc : ¬ point.Creates) :
    WriteFollows contentHash p flush creating (p, .await flush' point) := by
  refine ⟨rfl, rfl, rfl, .inl rfl, ?_, ?_, ?_⟩
  · intro other point' heq
    cases heq
    exact ⟨hcar, hbeg, fun h => absurd h hc⟩
  · intro other heq
    cases heq
  intro other heq
  cases heq

theorem follows_create (hground : MayCreate p flush.options) (hbeg : point.Begins) :
    WriteFollows contentHash p flush True (p, .await flush point) := by
  refine ⟨rfl, rfl, rfl, .inl rfl, ?_, ?_, ?_⟩
  · intro other point' heq
    cases heq
    exact ⟨carries_refl, hbeg, fun _ => ⟨hground, .inl ⟨trivial, rfl⟩⟩⟩
  · intro other heq
    cases heq
  intro other heq
  cases heq

theorem follows_settleUnchangedWrite :
    WriteFollows contentHash p flush creating (p, settleUnchangedWrite p flush file) := by
  unfold settleUnchangedWrite
  split
  · exact follows_fence ‹_› (by simp)
  · exact follows_await carries_refl trivial id

theorem follows_planReplacement (hcar : Carries contentHash p flush flush') :
    WriteFollows contentHash p flush creating
      (p, planReplacement blocks flush' file current) := by
  unfold planReplacement
  split_ifs
  · exact follows_ended rfl
  · exact follows_ended rfl
  · exact follows_await hcar trivial id

theorem follows_afterRead : WriteFollows contentHash p flush creating
    (p, afterRead blocks p flush file current) := by
  unfold afterRead
  split
  · exact follows_fence ‹_› (by simp)
  split
  · exact follows_retry
  split
  · exact follows_ended rfl
  split
  · exact follows_settleUnchangedWrite
  split
  · exact follows_planReplacement carries_refl
  split
  · exact follows_ended rfl
  · exact follows_await carries_refl trivial id

/-- Here a text becomes one that may be replaced. -/
theorem follows_afterBaselineHash : WriteFollows contentHash p flush creating
    (p, afterBaselineHash blocks contentHash p flush file current baseline) := by
  unfold afterBaselineHash
  split
  · exact follows_fence ‹_› (by simp)
  split
  · exact follows_retry
  split
  · exact follows_ended rfl
  split
  · exact follows_ended rfl
  · next hb =>
    rw [not_or, not_not, not_not] at hb
    apply follows_planReplacement
    refine ⟨rfl, .inr ⟨current, rfl, ?_⟩⟩
    rw [hb.1, hb.2]

theorem follows_afterSuppress :
    WriteFollows contentHash p flush creating (p, afterSuppress p flush file) := by
  unfold afterSuppress
  split
  · exact follows_fence ‹_› (by simp)
  split
  · exact follows_retry
  split
  · exact follows_ended rfl
  · exact follows_await carries_refl trivial id

theorem follows_afterHash {kind : SettleKind} {revision : Option DiskFileRevision} :
    WriteFollows contentHash p flush creating (p, afterHash p flush kind file revision) := by
  unfold afterHash
  split
  · exact follows_fence ‹_› (by simp)
  · split <;> exact follows_await carries_refl trivial id

theorem follows_afterRaceRead :
    WriteFollows contentHash p flush creating (p, afterRaceRead p flush file current) := by
  unfold afterRaceRead
  split
  · exact follows_settleUnchangedWrite
  · exact follows_ended rfl

theorem follows_afterProcess (outcome : Except ExistingFileWriteAbortReason Unit) :
    WriteFollows contentHash p flush creating (p, afterProcess p flush file outcome) := by
  cases outcome with
  | ok done =>
    rw [afterProcess]
    split
    · exact follows_fence ‹_› (by simp)
    · exact follows_await carries_refl trivial id
  | error reason =>
    cases reason with
    | alreadyCurrent => exact follows_settleUnchangedWrite
    | crdtChanged => exact follows_retry
    | authorityStale => exact follows_ended (settledContent_stale _)
    | diskChanged | fileIdentityChanged | fileRevisionChanged | remoteDeleteActive =>
      exact follows_ended rfl
    | preservedUnresolved => exact follows_ended rfl
    | openWriteDeferred reason => exact follows_ended rfl

theorem mayCreate_of_check (h : (p.durableBaseline.isSome &&
    !(flush.options.allowCreateIfMissing || p.liveAuthorization.isSome)) = false) :
    MayCreate p flush.options := by
  cases hallow : flush.options.allowCreateIfMissing with
  | true => exact .inl hallow
  | false =>
    cases hb : p.durableBaseline with
    | none => exact .inr (.inl hb)
    | some baseline => exact .inr (.inr (by simpa [hallow, hb] using h))

/-- After the folder the check for the creation still stands. -/
theorem follows_afterCreateFolder (hground : MayCreate p flush.options) :
    WriteFollows contentHash p flush True (afterCreateFolder p flush) := by
  unfold afterCreateFolder
  split
  · exact follows_ended (by simp)
  split
  · refine ⟨rfl, rfl, rfl, .inr rfl, ?_, ?_, ?_⟩
    · intro flush' point heq
      cases heq
    · intro flush' heq
      cases heq
    intro other heq
    cases heq
    rfl
  split
  · exact follows_retry
  split
  · exact follows_ended rfl
  split
  · exact follows_ended rfl
  · exact follows_create hground trivial

theorem follows_afterSuppressCreate (hground : MayCreate p flush.options) :
    WriteFollows contentHash p flush True (p, afterSuppressCreate p flush) := by
  unfold afterSuppressCreate
  split
  · exact follows_fence ‹_› (by simp)
  split
  · exact follows_retry
  split
  · exact follows_ended rfl
  split
  · exact follows_fence ‹_› (by simp)
  · exact follows_create hground trivial

theorem follows_afterCreate :
    WriteFollows contentHash p flush creating (afterCreate p flush file) := by
  unfold afterCreate
  refine ⟨rfl, rfl, rfl, .inr rfl, ?_, ?_, ?_⟩
  · intro flush' point heq
    split at heq
    · cases heq
    cases heq
    exact ⟨carries_refl, trivial, False.elim⟩
  · intro flush' heq
    split at heq <;> cases heq
  intro result heq
  split at heq
  · cases heq
    exact settledContent_stale _
  · cases heq

theorem follows_createFailed :
    WriteFollows contentHash p flush creating (createFailed p flush) := by
  unfold createFailed
  refine ⟨rfl, rfl, rfl, .inr rfl, ?_, ?_, ?_⟩
  · intro flush' point heq
    split at heq
    · split at heq
      · cases heq
      cases heq
      exact ⟨carries_refl, trivial, False.elim⟩
    · cases heq
    · cases heq
  · intro flush' heq
    split at heq
    · split at heq <;> cases heq
    · cases heq
    · cases heq
  intro result heq
  split at heq
  · split at heq
    · cases heq
      rfl
    · cases heq
  · cases heq
    rfl
  cases heq
  rfl

theorem Carries.trans {p' : MirrorPath} {flush'' : Flush} (h : Carries contentHash p flush flush')
    (hb : p'.durableBaseline = p.durableBaseline)
    (h' : Carries contentHash p' flush' flush'') : Carries contentHash p flush flush'' := by
  refine ⟨h'.1.trans h.1, ?_⟩
  rcases h'.2 with hsa | ⟨snapshot, hsnap, hs⟩
  · rw [hsa]
    exact h.2
  rw [hb] at hs
  exact .inr ⟨snapshot, hsnap, hs⟩

/-- What the code has come to on its way: nothing but the authority and the plan has changed. -/
structure Leads (contentHash : JsString → JsString) (p : MirrorPath) (flush : Flush)
    (creating : Prop) (p' : MirrorPath) (flush' : Flush) : Prop where
  target : p'.target = p.target
  content : p'.content = p.content
  baseline : p'.durableBaseline = p.durableBaseline
  authorization : p'.remoteCreateAuthorization = p.remoteCreateAuthorization ∨
    p'.remoteCreateAuthorization = none
  carries : Carries contentHash p flush flush'
  grant : creating → ∀ grant, flush'.authority = some grant →
    ∃ authorization, p.remoteCreateAuthorization = some authorization ∧ authorization.grant = grant

/-- What the code does from a point that it has just come to. -/
theorem WriteFollows.since {p' : MirrorPath} {creating' : Prop}
    (h : WriteFollows contentHash p' flush' creating' after)
    (hleads : Leads contentHash p flush creating' p' flush') :
    WriteFollows contentHash p flush creating after := by
  obtain ⟨htgt, hco, hb, haut, hcar, hgrant⟩ := hleads
  have hl : ∀ authorization, p'.remoteCreateAuthorization = some authorization →
      p.remoteCreateAuthorization = some authorization := by
    intro authorization hs
    rcases haut with hsa | hn
    · exact hsa ▸ hs
    · cases hn.symm.trans hs
  refine ⟨h.target.trans htgt, h.content.trans hco, h.baseline.trans hb, ?_, ?_, ?_, h.ended⟩
  · rcases h.authorization with hsa | hn
    · rw [hsa]
      exact haut
    · exact .inr hn
  · intro flush'' point heq
    obtain ⟨hcar', hbeg, hc⟩ := h.await flush'' point heq
    refine ⟨hcar.trans hb hcar', hbeg, ?_⟩
    intro hp
    obtain ⟨hground, hf⟩ := hc hp
    refine ⟨hground, .inr ?_⟩
    intro grant hs
    rcases hf with ⟨hcreat, hsa⟩ | hf
    · exact hgrant hcreat grant (hsa ▸ hs)
    obtain ⟨authorization, ht, hg⟩ := hf grant hs
    exact ⟨authorization, hl authorization ht, hg⟩
  · intro flush'' heq
    exact hcar.trans hb (h.retry flush'' heq)

theorem live_live (p : MirrorPath) :
    { p with remoteCreateAuthorization := p.liveAuthorization }.liveAuthorization =
      p.liveAuthorization := by
  unfold MirrorPath.liveAuthorization
  rw [filter_filter]
  congr
  funext authorization
  exact Bool.and_self _

/-- The check for a creation finds its ground, and the authority there is. -/
theorem follows_createMissing :
    WriteFollows contentHash p flush creating (createMissing blocks p flush) := by
  have hl : p.liveAuthorization = p.remoteCreateAuthorization ∨ p.liveAuthorization = none := by
    unfold MirrorPath.liveAuthorization
    cases p.remoteCreateAuthorization with
    | none => exact .inl rfl
    | some authorization =>
      rw [filter_some]
      split
      · exact .inl rfl
      · exact .inr rfl
  cases hallow : flush.options.allowCreateIfMissing with
  | true =>
    have hc : WriteFollows contentHash p { flush with authority := none } True
        (createMissing blocks p flush) := by
      simp only [createMissing, hallow, if_true, map_none]
      split
      · exact follows_fence ‹_› (by simp)
      split
      · split
        · exact follows_ended (settledContent_stale _)
        · exact follows_create (.inl hallow) trivial
      · exact follows_afterCreateFolder (.inl hallow)
    refine hc.since ⟨rfl, rfl, rfl, .inl rfl, ⟨rfl, .inl rfl⟩, ?_⟩
    exact nofun
  | false =>
    have hc : WriteFollows contentHash
        { p with remoteCreateAuthorization := p.liveAuthorization }
        { flush with authority := p.liveAuthorization.map (·.grant) } True
        (createMissing blocks p flush) := by
      simp only [createMissing, hallow, Bool.false_eq_true, if_false]
      split
      · exact follows_fence ‹_› (by simp)
      · next hf =>
        have hground : MayCreate { p with remoteCreateAuthorization := p.liveAuthorization }
            flush.options := by
          rw [← live_live] at hf
          apply mayCreate_of_check
          rw [hallow]
          exact stops_eq_false hf _ (List.mem_cons_of_mem _ List.mem_cons_self)
        split
        · split
          · exact follows_ended (settledContent_stale _)
          · exact follows_create hground trivial
        · exact follows_afterCreateFolder hground
    refine hc.since ⟨rfl, rfl, rfl, hl, ⟨rfl, .inl rfl⟩, ?_⟩
    intro _ grant hgrant
    obtain ⟨authorization, ht, hg⟩ := map_eq_some_iff.mp hgrant
    rcases hl with hs | hn
    · exact ⟨authorization, hs ▸ ht, hg⟩
    · cases hn.symm.trans ht

/-- With a file at the path the authority goes. -/
theorem leads_deleteAuthorization : Leads contentHash p flush False p.deleteAuthorization flush :=
  ⟨rfl, rfl, rfl, .inr rfl, carries_refl, False.elim⟩

theorem leads_refl : Leads contentHash p flush False p flush :=
  ⟨rfl, rfl, rfl, .inl rfl, carries_refl, False.elim⟩

theorem follows_ite {c : Prop} [Decidable c] {after' : MirrorPath × FlushProgress}
    (h : WriteFollows contentHash p flush creating after)
    (h' : WriteFollows contentHash p flush creating after') :
    WriteFollows contentHash p flush creating (if c then after else after') := by
  split
  · exact h
  · exact h'

theorem follows_beginAttempt :
    WriteFollows contentHash p flush creating (beginAttempt blocks p flush) := by
  unfold beginAttempt
  split
  · exact follows_fence ‹_› (by simp)
  split
  · exact follows_ended rfl
  · next ytext content hytext =>
    have hp : Leads contentHash p flush False p { flush with ytext, content } :=
      ⟨rfl, rfl, rfl, .inl rfl, ⟨rfl, .inl rfl⟩, False.elim⟩
    have hfreed : ∀ p', (p' = p ∨ p' = p.deleteAuthorization) → ∀ flush',
        (flush' = flush ∨ flush' = { flush with ytext, content }) →
          Leads contentHash p flush False p' flush' := by
      rintro _ (rfl | rfl) _ (rfl | rfl)
      · exact leads_refl
      · exact hp
      · exact leads_deleteAuthorization
      · exact ⟨rfl, rfl, rfl, .inr rfl, ⟨rfl, .inl rfl⟩, False.elim⟩
    have hcur : (if p.target.isSome then p.deleteAuthorization else p) = p ∨
        (if p.target.isSome then p.deleteAuthorization else p) = p.deleteAuthorization := by
      split
      · exact .inr rfl
      · exact .inl rfl
    dsimp only
    generalize (if p.target.isSome then p.deleteAuthorization else p) = p' at hcur
    split
    · exact follows_ended rfl
    split
    · exact follows_ended rfl
    apply follows_ite (follows_ended rfl)
    split
    · exact (follows_ended rfl).since (hfreed _ hcur _ (.inl rfl))
    split
    · refine (follows_await carries_refl ?_ ?_).since (hfreed _ hcur _ (.inr rfl))
      · trivial
      · exact id
    · exact follows_createMissing.since (hfreed _ hcur _ (.inr rfl))

theorem follows_attempts (left : ℕ) :
    WriteFollows contentHash p flush creating (attempts blocks left p flush) := by
  induction left generalizing p flush creating with
  | zero => exact follows_ended rfl
  | succ left ih =>
    have hf : WriteFollows contentHash p { flush with attemptsLeft := left } False
        (beginAttempt blocks p { flush with attemptsLeft := left }) :=
      follows_beginAttempt
    have hbegun : WriteFollows contentHash p flush creating
        (beginAttempt blocks p { flush with attemptsLeft := left }) :=
      hf.since ⟨rfl, rfl, rfl, .inl rfl, ⟨rfl, .inl rfl⟩, False.elim⟩
    unfold attempts
    split
    · next p' flush' heq =>
      rw [heq] at hbegun
      have hn : WriteFollows contentHash p' flush' False (attempts blocks left p' flush') := ih
      exact hn.since ⟨hbegun.target, hbegun.content, hbegun.baseline, hbegun.authorization,
        hbegun.retry flush' rfl, False.elim⟩
    · exact hbegun

theorem attempts_ne_retry (left : ℕ) {flush' : Flush} :
    (attempts blocks left p flush).2 ≠ .retry flush' := by
  induction left generalizing p flush with
  | zero =>
    intro h
    cases h
  | succ left ih =>
    unfold attempts
    split
    · exact ih
    · next other ho =>
      intro h
      exact ho _ _ (Prod.ext rfl h)

/-- A call begins with what its caller expects. -/
theorem follows_flushWriteUnlocked {force : Bool} {options : DiskWriteOptions} :
    WriteFollows contentHash p
      { force, options, attemptsLeft := 0, expectedDiskSnapshot := options.expectedDiskContent }
      creating (flushWriteUnlocked blocks p force options) := by
  unfold flushWriteUnlocked
  split
  · exact follows_fence ‹_› (by simp)
  · exact follows_attempts 3

/-- What follows an await, unless it is the last read or the settlement. -/
theorem follows_resumePoint (hground : point.Creates → MayCreate p flush.options)
    (hr : ∀ kind file revision got, point ≠ .readback kind file revision got)
    (hset : ∀ kind file isCurrent, point ≠ .settled kind file isCurrent)
    (h : resumePoint blocks contentHash p flush point = some after) :
    WriteFollows contentHash p flush point.Creates after := by
  cases point with
  | read file got =>
    obtain ⟨current, -, rfl⟩ := map_eq_some_iff.mp h
    exact follows_afterRead
  | baselineHash file current baseline =>
    obtain rfl := some_inj.mp h
    exact follows_afterBaselineHash
  | suppress file =>
    obtain rfl := some_inj.mp h
    exact follows_afterSuppress
  | process file done =>
    obtain ⟨outcome, -, rfl⟩ := map_eq_some_iff.mp h
    exact follows_afterProcess outcome
  | createFolder =>
    obtain rfl := some_inj.mp h
    exact follows_afterCreateFolder (hground trivial)
  | suppressCreate =>
    obtain rfl := some_inj.mp h
    exact follows_afterSuppressCreate (hground trivial)
  | create created =>
    obtain ⟨file, -, rfl⟩ := map_eq_some_iff.mp h
    exact follows_afterCreate
  | raceRead file got =>
    obtain ⟨appeared, -, rfl⟩ := map_eq_some_iff.mp h
    exact follows_afterRaceRead
  | hash kind file revision =>
    obtain rfl := some_inj.mp h
    exact follows_afterHash
  | readback kind file revision got => exact absurd rfl (hr kind file revision got)
  | settled kind file isCurrent => exact absurd rfl (hset kind file isCurrent)

theorem follows_rejectPoint (h : rejectPoint p flush point = some after) :
    WriteFollows contentHash p flush creating after := by
  cases point with
  | read file got | raceRead file got =>
    cases got with
    | none =>
      obtain rfl := some_inj.mp h
      exact follows_ended rfl
    | some got => cases h
  | process file done =>
    cases done with
    | none =>
      obtain rfl := some_inj.mp h
      exact follows_ended rfl
    | some done => cases h
  | create created =>
    cases created with
    | none =>
      obtain rfl := some_inj.mp h
      exact follows_createFailed
    | some created => cases h
  | readback kind file revision got =>
    cases got with
    | none =>
      obtain rfl := some_inj.mp h
      exact follows_await carries_refl trivial id
    | some got => cases h
  | settled kind file isCurrent => cases h
  | baselineHash file current baseline | suppress file | createFolder | suppressCreate =>
    obtain rfl := some_inj.mp h
    exact follows_ended rfl
  | hash kind file revision =>
    obtain rfl := some_inj.mp h
    exact follows_ended rfl

end Code

end Kaos.Sync
