import Kaos.Sync.DiffPostcondition
import Kaos.Runtime.ClosedFileReconcile

/-! The pass changes a closed file's text on current evidence only, and whatever it leaves alone it
comes back to. -/
namespace Kaos.Runtime

open Kaos.Lib Kaos.Sync Kaos.Utils Lane Option

variable {η : Type*}

/-- The disk, the texts and the path's text are as they were. -/
structure Spares (w w' : PathWorld η) : Prop where
  disk : w'.disk = w.disk
  stat : w'.stat = w.stat
  text : w'.text = w.text
  content : w'.content = w.content

section Spares

variable {w w' w'' : PathWorld η} {text : ℕ} {disk : JsString} {d : ClosedFileDecision}

theorem Spares.refl (w : PathWorld η) : Spares w w := ⟨rfl, rfl, rfl, rfl⟩

theorem Spares.trans (h : Spares w w') (h' : Spares w' w'') : Spares w w'' :=
  ⟨h'.disk.trans h.disk, h'.stat.trans h.stat, h'.text.trans h.text, h'.content.trans h.content⟩

theorem spares_hold (w : PathWorld η) (text : ℕ) : Spares w (w.holdAutomaticRecovery text) :=
  ⟨rfl, rfl, rfl, rfl⟩

theorem mem_hold (w : PathWorld η) (text : ℕ) :
    text ∈ (w.holdAutomaticRecovery text).automaticRecoveryHolds := by
  simp only [PathWorld.holdAutomaticRecovery]
  split
  · assumption
  · exact List.mem_cons_self

theorem spares_followup (w : PathWorld η) : Spares w w.requestReconciliationFollowup := by
  unfold PathWorld.requestReconciliationFollowup
  split
  · split
    · exact .refl w
    · exact ⟨rfl, rfl, rfl, rfl⟩
  · exact ⟨rfl, rfl, rfl, rfl⟩

/-- An admission changes holds only, and it refuses only what it holds. -/
theorem admit_spec (text : ℕ) (disk : JsString) (w : PathWorld η) :
    Spares w (admitAutomaticRecovery text disk w).2 ∧
      ((admitAutomaticRecovery text disk w).1 = false →
        text ∈ (admitAutomaticRecovery text disk w).2.automaticRecoveryHolds) := by
  have hprune : Spares w w.pruneAutomaticRecoveryHolds := ⟨rfl, rfl, rfl, rfl⟩
  have hrel : Spares w (w.pruneAutomaticRecoveryHolds.releaseAutomaticRecovery text) :=
    ⟨rfl, rfl, rfl, rfl⟩
  have hh : Spares w (w.pruneAutomaticRecoveryHolds.holdAutomaticRecovery text) ∧
      (false = false → text ∈
        (w.pruneAutomaticRecoveryHolds.holdAutomaticRecovery text).automaticRecoveryHolds) :=
    ⟨hprune.trans (spares_hold _ _), fun _ => mem_hold _ _⟩
  unfold admitAutomaticRecovery
  dsimp only
  split
  · exact ⟨hrel, Bool.noConfusion⟩
  split
  · exact ⟨hprune, Bool.noConfusion⟩
  split
  · exact ⟨hprune, Bool.noConfusion⟩
  split
  · exact hh
  split
  · exact hh
  split
  · exact hh
  · exact ⟨hrel, Bool.noConfusion⟩

theorem passes_spares (fence : RecoveryFence) (w : PathWorld η) : Spares w (fence.passes w).2 := by
  have hadm := (admit_spec fence.text fence.disk w).1
  unfold RecoveryFence.passes
  dsimp only
  split
  · split
    · exact spares_hold w _
    · exact .refl w
  split
  · exact hadm
  split
  · exact hadm.trans (spares_hold _ _)
  · exact hadm

theorem capture_spares (d : ClosedFileDecision) (w : PathWorld η) :
    Spares w (captureMutationTicket d w).2 := by
  have hpas := passes_spares (captureAutomaticRecoveryFence d.text d.diskContent w) w
  unfold captureMutationTicket
  dsimp only
  split <;> exact hpas

/-- The ticket has the stat that the file has now. -/
theorem capture_stat {ticket : MutationTicket} {w : PathWorld η}
    (h : (captureMutationTicket d w).1 = some ticket) {file : ℕ} (hf : d.file = some file) :
    ticket.stat = w.stat file := by
  have hpas := passes_spares (captureAutomaticRecoveryFence d.text d.diskContent w) w
  simp only [captureMutationTicket] at h
  split at h
  · cases h
  cases h
  simp only [hf, map_some, getD_some, hpas.stat]

theorem current_spares (d : ClosedFileDecision) (ticket : MutationTicket) (read : Option JsString)
    (w : PathWorld η) : Spares w (isMutationCurrent d ticket read w).2 := by
  unfold isMutationCurrent
  dsimp only
  split
  · exact .refl w
  · exact passes_spares _ w

end Spares

/-- The pass will be repeated, or a text of the path is held. -/
def Answered (d : ClosedFileDecision) (w : PathWorld η) : Prop :=
  w.reconcilePending = true ∨ ∃ text ∈ w.automaticRecoveryHolds, w.text = some text ∨ text = d.text

theorem followup_answered (d : ClosedFileDecision) (w : PathWorld η) :
    Answered d w.requestReconciliationFollowup := by
  unfold PathWorld.requestReconciliationFollowup
  split
  · next text ht =>
    split
    · next hh => exact .inr ⟨text, hh, .inl ht⟩
    · exact .inl rfl
  · exact .inl rfl

variable (fastDiff : Differ UInt16) (d : ClosedFileDecision)

/-- A merge is a clean one of the two texts of the decision. -/
def MutationStage.Sound : MutationStage → Prop
  | .autoMerge mergedText => ∃ baseText, mergeTexts3 fastDiff (some baseText) d.diskContent
      d.crdtContent = .cleanMerge mergedText
  | _ => True

/-- Nothing has been said of the index entry yet. -/
def Lane.IsOpen (lane : Lane η) : Prop := lane.staleDecision = false ∧ lane.settled = none

/-- The entry is to stay. -/
def Lane.IsStale (lane : Lane η) : Prop := lane.staleDecision = true ∧ lane.settled = none

/-- The entry gets a new baseline. -/
def Lane.IsSettled (lane : Lane η) : Prop :=
  lane.staleDecision = false ∧ lane.settled.isSome = true

def Lane.Sound (lane : Lane η) : Prop :=
  match lane.phase with
  | .reading stage _ _ => stage.Sound fastDiff d ∧ lane.IsOpen
  | .attempted _ false => lane.IsOpen
  | .attempted (.autoMerge _) true => lane.IsOpen
  | .attempted _ true => lane.IsSettled
  | .preserveStale => lane.IsStale
  | .mergeFlush expected | .flush expected _ => expected = d.diskContent ∧ lane.IsOpen
  | .done => lane.IsStale ∨ lane.IsSettled
  | _ => lane.IsOpen

/-- A step that changes neither side nor the baseline. -/
structure Quiet (lane lane' : Lane η) : Prop where
  spares : Spares lane.world lane'.world
  settled : lane'.settled = lane.settled
  sound : lane'.Sound fastDiff d
  answered : lane.staleDecision = false → lane'.staleDecision = true → Answered d lane'.world
  reading : ∀ stage ticket read, lane'.phase = .reading stage ticket read →
    lane'.phase = lane.phase ∨
      read = none ∧ ∀ file, d.file = some file → ticket.stat = lane.world.stat file

section Quiet

variable {fastDiff d} {lane : Lane η}

variable {phase : LanePhase η}

/-- The pass only goes on to wait for something else than a read. -/
theorem Quiet.wait (ho : lane.IsOpen) (hsd : ({ lane with phase } : Lane η).Sound fastDiff d)
    (hph : ∀ stage ticket read, phase ≠ .reading stage ticket read) :
    Quiet fastDiff d lane { lane with phase } := by
  refine ⟨.refl _, rfl, hsd, ?_, fun stage ticket read h => absurd h (hph stage ticket read)⟩
  intro _ hs
  rw [ho.1] at hs
  cases hs

/-- The decision is stale, and the pass comes back. -/
theorem Quiet.followup (ho : lane.IsOpen) (hph : phase = .done ∨ phase = .preserveStale) :
    Quiet fastDiff d lane { lane.followup with phase } := by
  have hs : ({ lane.followup with phase } : Lane η).IsStale := ⟨rfl, ho.2⟩
  refine ⟨spares_followup _, rfl, ?_, fun _ _ => followup_answered d _, ?_⟩
  · rcases hph with rfl | rfl
    · exact .inl hs
    · exact hs
  rintro stage ticket read h
  rcases hph with rfl | rfl <;> cases h

variable {world : PathWorld η}

/-- A text that is held waits for its recheck. -/
theorem Quiet.held (ho : lane.IsOpen) (hspares : Spares lane.world world)
    (hh : d.text ∈ world.automaticRecoveryHolds) :
    Quiet fastDiff d lane { lane with world, staleDecision := true, phase := .done } := by
  refine ⟨hspares, rfl, .inl ⟨rfl, ho.2⟩, ?_, ?_⟩
  · exact fun _ _ => .inr ⟨d.text, hh, .inr rfl⟩
  · exact nofun

theorem Quiet.of_spares {lane' : Lane η} (h : Quiet fastDiff d { lane with world } lane')
    (hspares : Spares lane.world world) : Quiet fastDiff d lane lane' := by
  refine ⟨hspares.trans h.spares, h.settled, h.sound, h.answered, ?_⟩
  intro stage ticket read hph
  rcases h.reading stage ticket read hph with heq | ⟨hr, hs⟩
  · exact .inl heq
  · exact .inr ⟨hr, fun file hf => (hs file hf).trans (by rw [hspares.stat])⟩

theorem Quiet.project (ho : lane.IsOpen)
    (hs : ({ lane with phase } : Lane η).Sound fastDiff d)
    (hph : ∀ stage ticket read, phase ≠ .reading stage ticket read) :
    Quiet fastDiff d lane (lane.project phase) := by
  unfold Lane.project
  split
  · exact .wait ho hs hph
  · exact .followup ho (.inl rfl)

/-- An attempt leaves everything as it is until the file has been read. -/
theorem Quiet.attempt {stage : MutationStage} (ho : lane.IsOpen)
    (hsg : stage.Sound fastDiff d) : Quiet fastDiff d lane (lane.attempt d stage) := by
  have hspares := capture_spares d lane.world
  have hs : ∀ ticket, (captureMutationTicket d lane.world).1 = some ticket →
      ∀ file, d.file = some file → ticket.stat = lane.world.stat file :=
    fun ticket htic file hfi => capture_stat htic hfi
  unfold Lane.attempt
  generalize captureMutationTicket d lane.world = captured at hspares hs
  obtain ⟨ticket, world⟩ := captured
  have hstays : ∀ phase : LanePhase η, lane.staleDecision = false →
      ({ lane with world, phase } : Lane η).staleDecision = true →
        Answered d ({ lane with world, phase } : Lane η).world := by
    intro phase hf htrue
    rw [hf] at htrue
    cases htrue
  cases ticket with
  | none => exact ⟨hspares, rfl, ho, hstays _, fun _ _ _ h => by cases h⟩
  | some ticket =>
    dsimp only
    split
    · exact ⟨hspares, rfl, ho, hstays _, fun _ _ _ h => by cases h⟩
    refine ⟨hspares, rfl, ⟨hsg, ho⟩, hstays _, ?_⟩
    intro stage' ticket' read' h
    cases h
    exact .inr ⟨rfl, hs ticket rfl⟩

/-- An admission that is refused ends the pass, one that is given lets it go on. -/
theorem Quiet.admit {lane' : PathWorld η → Lane η} (ho : lane.IsOpen)
    (hg : ∀ world, Spares lane.world world → Quiet fastDiff d { lane with world } (lane' world)) :
    Quiet fastDiff d lane
      (if (admitAutomaticRecovery d.text d.diskContent lane.world).1 then
        lane' (admitAutomaticRecovery d.text d.diskContent lane.world).2
      else
        { lane with
          world := (admitAutomaticRecovery d.text d.diskContent lane.world).2
          staleDecision := true
          phase := .done }) := by
  obtain ⟨hspares, hh⟩ := admit_spec d.text d.diskContent lane.world
  split
  · exact (hg _ hspares).of_spares hspares
  · next href => exact .held ho hspares (hh (Bool.eq_false_iff.mpr href))

variable [DecidableEq η] {sha : JsString → η}

theorem Quiet.execute {plan : ClosedFilePlan η} {action : ClosedFileReconcileAction}
    (ho : lane.IsOpen) (hnoOp : action = .noOp → sha d.diskContent = sha d.crdtContent) :
    Quiet fastDiff d lane (lane.execute sha d plan action) := by
  have hq : Quiet fastDiff d lane (lane.project (.queued false)) :=
    .project ho ho (fun _ _ _ h => by cases h)
  cases action with
  | noOp => simpa only [Lane.execute, hnoOp rfl, ne_eq, not_true_eq_false, if_false] using hq
  | deferToCrdtFlush => exact hq
  | importDiskToCrdt =>
    have hg : ∀ world, Spares lane.world world → Quiet fastDiff d { lane with world }
        (Lane.attempt { lane with world } d .importDisk) := by
      intro world _
      exact .attempt ho trivial
    exact Quiet.admit ho hg
  | applyRemoteToDisk =>
    simp only [Lane.execute]
    split <;> exact .wait ho ho (fun _ _ _ h => by cases h)
  | createConflictArtifact reason winner preserve =>
    have hg : ∀ world, Quiet fastDiff d { lane with world }
        (if reason = .bothChanged ∧ plan.baselineHash ≠ none then
          { lane with world, phase := .mergeBase plan winner }
        else { lane with world, phase := .discard winner }) := by
      intro world
      split <;> exact .wait ho ho (fun _ _ _ h => by cases h)
    cases winner with
    | disk =>
      have hadm := Quiet.admit ho fun world _ => hg world
      simp only [Lane.execute, if_true, Bool.not_eq_true']
      split at hadm
      · next hadmitted => simpa only [hadmitted, Bool.true_eq_false, if_false] using hadm
      · next href =>
        rw [if_pos (Bool.eq_false_iff.mpr href)]
        exact hadm
    | crdt => exact hg lane.world

/-- The decision itself changes nothing: an authoritative plan for unequal texts acts. -/
theorem Quiet.decideAction (ho : lane.IsOpen) :
    Quiet fastDiff d lane (lane.decideAction sha d) := by
  unfold Lane.decideAction
  split
  · exact .followup ho (.inl rfl)
  split
  · exact .wait ho ho (fun _ _ _ h => by cases h)
  · exact .execute ho nofun
  · exact .execute ho nofun
  all_goals
    refine .execute ho ?_
    intro hp
    by_contra hne
    exact plan_ne_noOp (Lane.planInput sha lane d) rfl rfl hne hp

end Quiet

section Steps

variable {fastDiff d} [DecidableEq η] {sha : JsString → η} {lane : Lane η}
  {result : DiskWriteResult η}

/-- An await that ends changes neither side, makes the attempted mutation, or ends a flush. -/
theorem resume_cases (hs : lane.Sound fastDiff d) (result : DiskWriteResult η) :
    Quiet fastDiff d lane (lane.resume fastDiff sha d result) ∨
    (∃ stage ticket read, lane.phase = .reading stage ticket (some read) ∧
      (isMutationCurrent d ticket read lane.world).1 = true ∧
      lane.resume fastDiff sha d result = commit fastDiff sha
        { lane with
          world := (isMutationCurrent d ticket read lane.world).2
          phase := .attempted stage true } d stage) ∨
    ∃ expected provisional,
      (lane.phase = .mergeFlush expected ∨ lane.phase = .flush expected provisional) ∧
      lane.resume fastDiff sha d result = lane.flushed provisional result := by
  have hstays : Quiet fastDiff d lane lane := by
    refine ⟨.refl _, rfl, hs, ?_, fun _ _ _ _ => .inl rfl⟩
    intro hf htrue
    rw [hf] at htrue
    cases htrue
  cases hph : lane.phase with
    (simp only [Lane.Sound, hph] at hs; simp only [resume, hph])
  | hashDisk =>
    left
    exact .wait hs hs (fun _ _ _ h => by cases h)
  | hashCrdt =>
    left
    exact .decideAction hs
  | visibleAuthority =>
    left
    exact .followup hs (.inl rfl)
  | mergeBase plan winner =>
    left
    split
    · next mergedText hm =>
      refine .attempt hs ?_
      cases hb : plan.baselineHash.bind lane.world.baselineText with
      | none =>
        rw [hb] at hm
        cases hm
      | some baseText => exact ⟨baseText, hb ▸ hm⟩
    · exact .wait hs hs (fun _ _ _ h => by cases h)
  | discard winner =>
    left
    cases winner with dsimp only
    | disk => exact .attempt hs trivial
    | crdt => exact .wait hs hs (fun _ _ _ h => by cases h)
  | backup | remoteBackup =>
    left
    exact .project hs hs (fun _ _ _ h => by cases h)
  | remoteBase plan baselineHash =>
    left
    split
    · exact .project hs hs (fun _ _ _ h => by cases h)
    · exact .wait hs hs (fun _ _ _ h => by cases h)
  | remoteDiscard plan =>
    left
    split
    · exact .wait hs hs (fun _ _ _ h => by cases h)
    · exact .project hs hs (fun _ _ _ h => by cases h)
  | reading stage ticket read =>
    cases read with
    | none =>
      exact .inl hstays
    | some read =>
      cases hcur : (isMutationCurrent d ticket read lane.world).1 with
      | true =>
        refine .inr (.inl ⟨stage, ticket, read, rfl, hcur, ?_⟩)
        simp only [hcur, if_true]
      | false =>
        left
        simp only [hcur, Bool.false_eq_true, if_false]
        have hwait : Quiet fastDiff d
            { lane with world := (isMutationCurrent d ticket read lane.world).2 }
            { lane with
              world := (isMutationCurrent d ticket read lane.world).2
              phase := .attempted stage false } :=
          .wait hs.2 hs.2 (fun _ _ _ h => by cases h)
        exact hwait.of_spares (current_spares d ticket read lane.world)
  | attempted stage committed =>
    left
    cases committed with
    | false =>
      exact .followup hs (.inr rfl)
    | true =>
      cases stage with dsimp only
      | autoMerge mergedText => exact .project hs ⟨rfl, hs⟩ (fun _ _ _ h => by cases h)
      | importDisk | diskWins =>
        refine ⟨.refl _, rfl, .inr hs, ?_, fun _ _ _ h => by cases h⟩
        intro _ hst
        rw [hs.1] at hst
        cases hst
  | preserveStale =>
    left
    refine ⟨.refl _, rfl, .inl hs, ?_, fun _ _ _ h => by cases h⟩
    intro hf htrue
    rw [hf] at htrue
    cases htrue
  | mergeFlush expected =>
    exact .inr (.inr ⟨expected, false, .inl rfl, rfl⟩)
  | queued provisional =>
    left
    exact .wait hs ⟨rfl, hs⟩ (fun _ _ _ h => by cases h)
  | flush expected provisional =>
    exact .inr (.inr ⟨expected, provisional, .inr rfl, rfl⟩)
  | done => exact .inl hstays

/-- The text that the change with its postcondition leaves. -/
theorem applyDiff_eq_snd (ytext oldText newText : JsString) :
    applyDiffToYTextWithPostcondition fastDiff ytext oldText newText =
      (Sync.applyDiffToYTextWithPostcondition fastDiff ytext oldText newText).2 := by
  by_cases h : ytext = oldText
  · subst h
    rw [postcondition_fresh]
    simp [applyDiffToYTextWithPostcondition, applyDiffToYText_self]
  rw [postcondition_stale h]
  simp [applyDiffToYTextWithPostcondition, applyDiffToYText_self, h]

theorem applyDiff_self (oldText newText : JsString) :
    applyDiffToYTextWithPostcondition fastDiff oldText oldText newText = newText := by
  rw [applyDiff_eq_snd, postcondition_fresh]

omit [DecidableEq η] in
/-- A commit puts its target in the place of the text it was decided on. -/
theorem commit_spec (fastDiff : Differ UInt16) (sha : JsString → η) (lane : Lane η)
    (stage : MutationStage) (hc : lane.world.content d.text = d.crdtContent) :
    (lane.commit fastDiff sha d stage).world.content =
        Function.update lane.world.content d.text (stage.target d) ∧
      (lane.commit fastDiff sha d stage).world.disk = lane.world.disk ∧
      (lane.commit fastDiff sha d stage).phase = lane.phase ∧
      (lane.commit fastDiff sha d stage).staleDecision = lane.staleDecision := by
  cases stage <;> simp [commit, recordSettledBaseline, PathWorld.setText, hc, applyDiff_self]

omit [DecidableEq η] in
/-- A flush that has ended leaves the texts and the disk to `flushWrite`. -/
theorem flushed_spec (ho : lane.IsOpen) (provisional : Bool) (result : DiskWriteResult η) :
    Spares lane.world (lane.flushed provisional result).world ∧
      (lane.flushed provisional result).phase = .done ∧
      (if result.isSettled then (lane.flushed provisional result).IsSettled
        else (lane.flushed provisional result).IsStale ∧
          (result.retries = true → Answered d (lane.flushed provisional result).world)) := by
  cases result with
  | written content contentHash | unchanged content contentHash =>
    exact ⟨⟨rfl, rfl, rfl, rfl⟩, rfl, ho.1, rfl⟩
  | deferred reason =>
    simp only [flushed, DiskWriteResult.isSettled, Bool.false_eq_true, if_false]
    split
    · exact ⟨spares_followup _, trivial, ⟨rfl, ho.2⟩, fun _ => followup_answered d _⟩
    · next hf => exact ⟨.refl _, trivial, ⟨rfl, ho.2⟩, fun h => absurd h hf⟩
  | blocked | failed => exact ⟨.refl _, rfl, ⟨rfl, ho.2⟩, nofun⟩

omit [DecidableEq η] in
variable {ticket : MutationTicket}

omit [DecidableEq η] in
/-- What the second half of a commit has found. -/
theorem current_spec {read : Option JsString} {w : PathWorld η}
    (h : (isMutationCurrent d ticket read w).1 = true) : some w.diskRevision = d.diskRevision ∧
      (∀ file, d.file = some file → w.stat file = ticket.stat ∧
        w.isAtPath file = true ∧ w.file = some file) ∧
      read = some d.diskContent ∧ w.openViews = [] ∧ w.isBound = false ∧ w.text = some d.text ∧
      w.content d.text = d.crdtContent ∧ w.preservedUnresolved = none := by
  unfold isMutationCurrent at h
  dsimp only at h
  split at h
  · cases h
  · next hcur =>
    simp only [not_or, not_not, Bool.not_eq_true, ne_eq] at hcur
    obtain ⟨hrev, hs, hiden, hrs, hr, hviews, hb, ht, hc, hpres⟩ := hcur
    refine ⟨hrev, ?_, hr, hviews, hb, ht, hc, hpres⟩
    intro file hf
    simp only [hf, hr, hrs, any_some, decide_eq_false_iff_not, not_not,
      Bool.or_eq_false_iff, isSome_some, Bool.not_false, Bool.true_and,
      Bool.not_eq_false'] at hs hiden
    exact ⟨hs, hiden.2.1, hiden.2.2⟩

omit [DecidableEq η] in
theorem Lane.Sound.isOpen_of_flush {expected : JsString} {provisional : Bool}
    (hs : lane.Sound fastDiff d)
    (hph : lane.phase = .mergeFlush expected ∨ lane.phase = .flush expected provisional) :
    expected = d.diskContent ∧ lane.IsOpen := by
  rcases hph with hph | hph <;> simp only [Lane.Sound, hph] at hs <;> exact hs

/-- A read that is there is used up. -/
theorem resume_read (fastDiff : Differ UInt16) {stage : MutationStage}
    {read : Option JsString} (hph : lane.phase = .reading stage ticket (some read))
    (result : DiskWriteResult η) : ∃ committed, (lane.resume fastDiff sha d result).phase =
      .attempted stage committed := by
  simp only [resume, hph]
  split
  · refine ⟨true, ?_⟩
    cases stage <;> rfl
  · exact ⟨false, rfl⟩

theorem resume_sound (hs : lane.Sound fastDiff d) (result : DiskWriteResult η) :
    (lane.resume fastDiff sha d result).Sound fastDiff d := by
  rcases resume_cases hs result with hq | ⟨stage, ticket, read, hph, hcur, heq⟩ |
    ⟨expected, provisional, hph, heq⟩
  · exact hq.sound
  · rw [heq]
    simp only [Lane.Sound, hph] at hs
    cases stage with
    | autoMerge mergedText => exact hs.2
    | importDisk | diskWins => exact ⟨hs.2.1, rfl⟩
  rw [heq]
  obtain ⟨-, hd, hend⟩ := flushed_spec (d := d) (hs.isOpen_of_flush hph).2 provisional result
  simp only [Lane.Sound, hd]
  split at hend
  · exact .inr hend
  · exact .inl hend.1

end Steps

section Runs

variable [DecidableEq η] (sha : JsString → η) (lane : Lane η)
  (events : List (LaneEvent η))

/-- The pass before the `n`-th event. -/
def laneAt (n : ℕ) : Lane η := stateAt (next fastDiff sha d) lane events n

def LanePhase.isReading : LanePhase η → Bool
  | .reading .. => true
  | _ => false

def LanePhase.isFlush : LanePhase η → Bool
  | .mergeFlush _ => true
  | .flush .. => true
  | _ => false

/-- The evidence on which a text is changed: what the decision was made on is still there; since
the attempt to commit began the file has been read afresh, and its stat has not changed. -/
structure MutationEvidence (n : ℕ) : Prop where
  text : (laneAt fastDiff d sha lane events n).world.text = some d.text
  content : (laneAt fastDiff d sha lane events n).world.content d.text = d.crdtContent
  revision : some (laneAt fastDiff d sha lane events n).world.diskRevision = d.diskRevision
  file : ∃ file, d.file = some file ∧
    (laneAt fastDiff d sha lane events n).world.file = some file ∧
    (laneAt fastDiff d sha lane events n).world.isAtPath file = true ∧
    ∃ m k, m < k ∧ k < n ∧
      (laneAt fastDiff d sha lane events m).phase.isReading = false ∧
      (∀ j, m < j → j ≤ n → (laneAt fastDiff d sha lane events j).phase.isReading = true) ∧
      (laneAt fastDiff d sha lane events k).world.disk file = some d.diskContent ∧
      (laneAt fastDiff d sha lane events n).world.stat file =
        (laneAt fastDiff d sha lane events m).world.stat file
  closed : (laneAt fastDiff d sha lane events n).world.openViews = [] ∧
    (laneAt fastDiff d sha lane events n).world.isBound = false
  attention : (laneAt fastDiff d sha lane events n).world.preservedUnresolved = none

variable {fastDiff d sha lane events}

theorem next_sound {event : LaneEvent η} (h : lane.Sound fastDiff d) :
    (lane.next fastDiff sha d event).Sound fastDiff d := by
  cases event with
  | world w => exact h
  | read =>
    simp only [next]
    split
    · next stage ticket hph =>
      simp only [Lane.Sound, hph] at h
      exact h
    · exact h
  | resume result => exact resume_sound h result

/-- A read that is awaited began at a step since which the pass has been reading. -/
theorem reading_since (hsta : lane.phase = .hashDisk) (hsd : lane.Sound fastDiff d) (n : ℕ)
    (stage : MutationStage) (ticket : MutationTicket) (read : Option (Option JsString))
    (hph : (laneAt fastDiff d sha lane events n).phase = .reading stage ticket read) :
    ∃ m < n, (laneAt fastDiff d sha lane events m).phase.isReading = false ∧
      (∀ j, m < j → j ≤ n → (laneAt fastDiff d sha lane events j).phase.isReading = true) ∧
      (∀ file, d.file = some file → ticket.stat =
        (laneAt fastDiff d sha lane events m).world.stat file) ∧
      ∀ content, read = some content → ∃ k, m < k ∧ k < n ∧
        content = d.file.bind (laneAt fastDiff d sha lane events k).world.disk := by
  induction n generalizing stage ticket read with
  | zero =>
    rw [laneAt, stateAt_zero, hsta] at hph
    cases hph
  | succ n ih =>
    have hl : ∀ m, m < n → (∀ j, m < j → j ≤ n →
        (laneAt fastDiff d sha lane events j).phase.isReading = true) →
        ∀ j, m < j → j ≤ n + 1 → (laneAt fastDiff d sha lane events j).phase.isReading = true := by
      intro m _ hr j hmj hjn
      rcases Nat.lt_or_eq_of_le hjn with hlt | rfl
      · exact hr j hmj (Nat.le_of_lt_succ hlt)
      rw [hph]
      rfl
    -- what was being read a step before is still being read
    have hs : ∀ read', (laneAt fastDiff d sha lane events n).phase =
        .reading stage ticket read' → (read = read' ∨ read = some
          (d.file.bind (laneAt fastDiff d sha lane events n).world.disk)) →
        ∃ m < n + 1, (laneAt fastDiff d sha lane events m).phase.isReading = false ∧
          (∀ j, m < j → j ≤ n + 1 → (laneAt fastDiff d sha lane events j).phase.isReading = true) ∧
          (∀ file, d.file = some file → ticket.stat =
            (laneAt fastDiff d sha lane events m).world.stat file) ∧
          ∀ content, read = some content → ∃ k, m < k ∧ k < n + 1 ∧ content =
            d.file.bind (laneAt fastDiff d sha lane events k).world.disk := by
      intro read' hb hrd
      obtain ⟨m, hlt, hnot, hr, hst, hsam⟩ := ih stage ticket read' hb
      refine ⟨m, by omega, hnot, hl m hlt hr, hst, ?_⟩
      rintro content rfl
      rcases hrd with hsa | hnow
      · obtain ⟨k, hmk, hkn, hc⟩ := hsam content hsa.symm
        exact ⟨k, hmk, by omega, hc⟩
      · exact ⟨n, hlt, by omega, some.inj hnow⟩
    rcases stateAt_step (next fastDiff sha d) lane events n with
      ⟨-, heq⟩ | ⟨event, -, heq⟩
    · exact hs read (by rw [← hph, laneAt, laneAt, heq]) (.inl rfl)
    change laneAt fastDiff d sha lane events (n + 1) = next fastDiff
      sha d (laneAt fastDiff d sha lane events n) event at heq
    have hsoun : (laneAt fastDiff d sha lane events n).Sound fastDiff d :=
      stateAt_invariant hsd (fun _ _ h => next_sound h) n
    rw [heq] at hph
    cases event with
    | world w => exact hs read hph (.inl rfl)
    | read =>
      simp only [next] at hph
      split at hph
      · next stage' ticket' hb =>
        cases hph
        exact hs none hb (.inr rfl)
      · exact hs read hph (.inl rfl)
    | resume result =>
      cases hb : (laneAt fastDiff d sha lane events n).phase.isReading with
      | true =>
        generalize hnow : (laneAt fastDiff d sha lane events n).phase = phase at hb
        cases phase with
        | reading stage' ticket' read' =>
          cases read' with
          | none =>
            simp only [next, resume, hnow] at hph
            cases hph
            exact hs none hnow (.inl rfl)
          | some read' =>
            obtain ⟨committed, hatt⟩ := resume_read fastDiff hnow result
            cases hatt.symm.trans hph
        | _ => cases hb
      | false =>
        rcases resume_cases hsoun result with hq |
          ⟨stage', ticket', read', hr, -⟩ | ⟨expected, provisional, hf, hflus⟩
        · rcases hq.reading stage ticket read hph with hsa | ⟨rfl, hst⟩
          · exact hs read (hsa.symm.trans hph) (.inl rfl)
          refine ⟨n, by omega, hb, ?_, hst, nofun⟩
          intro j hnj hjn
          rw [show j = n + 1 by omega, heq, hph]
          rfl
        · rw [hr] at hb
          cases hb
        have ho := (hsoun.isOpen_of_flush hf).2
        have hd := (flushed_spec (d := d) ho provisional result).2.1
        rw [← hflus] at hd
        cases hd.symm.trans hph

theorem mutation_evidence (hsta : lane.phase = .hashDisk) (hs : lane.Sound fastDiff d)
    {n : ℕ} {stage : MutationStage} {ticket : MutationTicket} {read : Option JsString}
    (hph : (laneAt fastDiff d sha lane events n).phase = .reading stage ticket (some read))
    (hcur : (isMutationCurrent d ticket read
      (laneAt fastDiff d sha lane events n).world).1 = true) :
    MutationEvidence fastDiff d sha lane events n := by
  obtain ⟨hrev, hf, hrd, hviews, hb, ht, hc, hpres⟩ := current_spec hcur
  obtain ⟨m, -, hnot, hr, hst, hsampled⟩ := reading_since hsta hs n stage ticket (some read) hph
  obtain ⟨k, hmk, hkn, hsam⟩ := hsampled read rfl
  refine ⟨ht, hc, hrev, ?_, ⟨hviews, hb⟩, hpres⟩
  cases hd : d.file with
  | none =>
    rw [hd, hrd] at hsam
    cases hsam
  | some file =>
    obtain ⟨hnow, hat, hsa⟩ := hf file hd
    rw [hd, hrd] at hsam
    exact ⟨file, rfl, hsa, hat, m, k, hmk, hkn, hnot, hr, hsam.symm, hnow.trans (hst file hd)⟩

variable (fastDiff d sha lane events)

/-- One step of the pass. -/
structure PassStep (n : ℕ) (result : DiskWriteResult η) : Prop where
  /-- A text is changed on evidence, into the disk text or into a clean merge. -/
  text : ∀ text, (laneAt fastDiff d sha lane events (n + 1)).world.content text ≠
    (laneAt fastDiff d sha lane events n).world.content text →
      text = d.text ∧ MutationEvidence fastDiff d sha lane events n ∧
        ((laneAt fastDiff d sha lane events (n + 1)).world.content text =
          d.diskContent ∨ ∃ baseText, mergeTexts3 fastDiff (some baseText) d.diskContent
            d.crdtContent = .cleanMerge
              ((laneAt fastDiff d sha lane events (n + 1)).world.content text))
  disk : (laneAt fastDiff d sha lane events (n + 1)).world.disk =
    (laneAt fastDiff d sha lane events n).world.disk
  /-- `flushWrite` is given the disk text of the decision. -/
  flush : ∀ expected provisional,
    (laneAt fastDiff d sha lane events n).phase = .mergeFlush expected ∨
      (laneAt fastDiff d sha lane events n).phase = .flush expected provisional →
        expected = d.diskContent
  /-- A new baseline is recorded with a change of the text or after a flush. -/
  baseline : (laneAt fastDiff d sha lane events (n + 1)).settled ≠
    (laneAt fastDiff d sha lane events n).settled →
      MutationEvidence fastDiff d sha lane events n ∨
        (laneAt fastDiff d sha lane events n).phase.isFlush = true ∧ result.isSettled = true
  /-- A decision that is found stale is made again. -/
  stale : (laneAt fastDiff d sha lane events n).staleDecision = false →
    (laneAt fastDiff d sha lane events (n + 1)).staleDecision = true →
      Answered d (laneAt fastDiff d sha lane events (n + 1)).world ∨
        (laneAt fastDiff d sha lane events n).phase.isFlush = true ∧
          result.isSettled = false ∧ result.retries = false
  /-- At the end the index entry stays as it was or there is a new baseline. -/
  ended : (laneAt fastDiff d sha lane events (n + 1)).phase = .done →
    (∀ previous stat settledNow, updateIndex previous (some stat)
      (laneAt fastDiff d sha lane events (n + 1)).staleDecision
      ((laneAt fastDiff d sha lane events (n + 1)).settled.map Prod.fst)
      settledNow = previous) ∨
    (laneAt fastDiff d sha lane events (n + 1)).IsSettled

variable {fastDiff d sha lane events}

/-- The pass changes a text on current evidence only, never the disk, and what it does not settle
it leaves as it is and comes back to. -/
theorem closed_file_commits_on_evidence (scan : ClosedFileScan) (w : PathWorld η)
    (hbegin : beginLane scan w = some (d, lane)) {n : ℕ} {result : DiskWriteResult η}
    (hevent : events[n]? = some (.resume result)) :
    PassStep fastDiff d sha lane events n result := by
  have hlane : lane = { world := w, phase := .hashDisk } := by
    simp only [beginLane] at hbegin
    split at hbegin
    · cases hbegin
    cases ht : w.text with rw [ht] at hbegin
    | none => cases hbegin
    | some text =>
      cases hbegin
      rfl
  have hst : lane.phase = .hashDisk := by rw [hlane]
  have hsd : lane.Sound fastDiff d := by
    rw [hlane]
    exact ⟨rfl, rfl⟩
  have hsoun : (laneAt fastDiff d sha lane events n).Sound fastDiff d :=
    stateAt_invariant hsd (fun _ _ h => next_sound h) n
  have ha : (laneAt fastDiff d sha lane events (n + 1)).Sound fastDiff d :=
    stateAt_invariant hsd (fun _ _ h => next_sound h) (n + 1)
  have heq : laneAt fastDiff d sha lane events (n + 1) =
      (laneAt fastDiff d sha lane events n).resume fastDiff sha d
        result := stateAt_succ hevent
  have he : (laneAt fastDiff d sha lane events (n + 1)).phase = .done →
      (∀ previous stat settledNow, updateIndex previous (some stat)
        (laneAt fastDiff d sha lane events (n + 1)).staleDecision
        ((laneAt fastDiff d sha lane events (n + 1)).settled.map Prod.fst)
        settledNow = previous) ∨
      (laneAt fastDiff d sha lane events (n + 1)).IsSettled := by
    intro hd
    simp only [Lane.Sound, hd] at ha
    refine ha.imp_left ?_
    rintro ⟨hs, -⟩ previous stat settledNow
    rw [hs]
    rfl
  rcases resume_cases hsoun result with hq |
    ⟨stage, ticket, read, hph, hc, hco⟩ | ⟨expected, provisional, hf, hflus⟩
  · rw [← heq] at hq
    refine ⟨fun text hne => absurd (congrFun hq.spares.content text) hne, hq.spares.disk,
      fun expected provisional hf => (hsoun.isOpen_of_flush hf).1,
      fun hne => absurd hq.settled hne, fun h h' => .inl (hq.answered h h'), he⟩
  · have hevid := mutation_evidence hst hsd hph hc
    have hspares := current_spares d ticket read
      (laneAt fastDiff d sha lane events n).world
    have hsg : stage.Sound fastDiff d := by
      simp only [Lane.Sound, hph] at hsoun
      exact hsoun.1
    have hcom := commit_spec fastDiff sha
      { laneAt fastDiff d sha lane events n with
        world := (isMutationCurrent d ticket read (laneAt fastDiff d sha lane events n).world).2
        phase := .attempted stage true } stage
      ((congrFun hspares.content d.text).trans hevid.content)
    rw [← hco, ← heq] at hcom
    obtain ⟨hcon, hdisk, -, hs⟩ := hcom
    refine ⟨?_, hdisk.trans hspares.disk,
      fun expected provisional hf => (hsoun.isOpen_of_flush hf).1,
      fun _ => .inl hevid, ?_, he⟩
    · intro text hne
      rw [hcon, hspares.content] at hne ⊢
      by_cases ht : text = d.text
      · subst ht
        refine ⟨rfl, hevid, ?_⟩
        rw [Function.update_self]
        cases stage with
        | importDisk | diskWins => exact .inl rfl
        | autoMerge mergedText => exact .inr hsg
      · exact absurd (Function.update_of_ne ht ..) hne
    intro hfa htrue
    rw [hs] at htrue
    rw [hfa] at htrue
    cases htrue
  obtain ⟨hexp, ho⟩ := hsoun.isOpen_of_flush hf
  obtain ⟨hspares, -, hend⟩ := flushed_spec (d := d) ho provisional result
  rw [← hflus, ← heq] at hspares hend
  have hisF : (laneAt fastDiff d sha lane events n).phase.isFlush = true := by
    rcases hf with hf | hf <;> rw [hf] <;> rfl
  refine ⟨fun text hne => absurd (congrFun hspares.content text) hne, hspares.disk,
    fun expected provisional hf => (hsoun.isOpen_of_flush hf).1, ?_, ?_, he⟩
  · intro hne
    split at hend
    · next hset => exact .inr ⟨hisF, hset⟩
    · exact absurd (hend.1.2.trans ho.2.symm) hne
  intro _ hs
  split at hend
  · rw [hend.1] at hs
    cases hs
  · next huns =>
    cases hret : result.retries with
    | true => exact .inl (hend.2 hret)
    | false => exact .inr ⟨hisF, Bool.eq_false_iff.mpr huns, rfl⟩

end Runs

/-- A closed note, with one file and one text. -/
def closedNote (disk crdt baseline : JsString) : PathWorld JsString where
  text := some 0
  content := fun _ => crdt
  file := some 0
  isAtPath := fun _ => true
  stat := fun _ => (some 1, some 1)
  disk := fun _ => some disk
  diskRevision := 0
  openViews := []
  isBound := false
  preservedUnresolved := none
  automaticRecoveryHolds := []
  isTrackedText := fun _ => true
  keepsLocal := false
  recoveryPaused := false
  recoveryRevision := none
  diskIndex := some ⟨1, 1, some baseline, none⟩
  visibleAuthority := none
  hasPendingWrite := false
  lastDiskWriteOkHash := none
  hasPendingLocalCreate := false
  pathBindingStatus := .ok
  lastDiskIndexPersistedAt := none
  baselineText := some
  projectionAdmitted := true
  reconcilePending := false

def closedNoteDecision (disk crdt : JsString) : ClosedFileDecision :=
  ⟨some 0, disk, some 0, none, 0, crdt⟩

/-- A disk text that has changed alone is imported. -/
theorem closed_file_commits_on_evidence_import :
    (laneAt affixDiffer (closedNoteDecision [1] [2]) id
        { world := closedNote [1] [2] [2], phase := .hashDisk }
        [.resume .failed, .resume .failed, .read, .resume .failed] 4).world.content 0 = [1] ∧
      MutationEvidence affixDiffer (closedNoteDecision [1] [2]) id
        { world := closedNote [1] [2] [2], phase := .hashDisk }
        [.resume .failed, .resume .failed, .read, .resume .failed] 3 := by
  have hs : PassStep affixDiffer (closedNoteDecision [1] [2]) id
      { world := closedNote [1] [2] [2], phase := .hashDisk }
      [.resume .failed, .resume .failed, .read, .resume .failed] 3 .failed :=
    closed_file_commits_on_evidence ⟨some 0, [1], some 0, none⟩ (closedNote [1] [2] [2]) rfl rfl
  exact ⟨rfl, (hs.text 0 (by decide)).2.1⟩

/-- A flush that fails is not repeated, and a stat that has changed before the attempt to commit
began is not noticed. -/
theorem failed_flush_is_not_repeated :
    (∃ (scan : ClosedFileScan) (w : PathWorld JsString) (d : ClosedFileDecision)
      (lane : Lane JsString) (events : List (LaneEvent JsString)),
      beginLane scan w = some (d, lane) ∧
      (laneAt affixDiffer d id lane events events.length).phase = .done ∧
      (laneAt affixDiffer d id lane events events.length).world.disk = w.disk ∧
      (laneAt affixDiffer d id lane events events.length).world.content = w.content ∧
      (laneAt affixDiffer d id lane events events.length).staleDecision = true ∧
      ¬ Answered d (laneAt affixDiffer d id lane events events.length).world) ∧
    ∃ (scan : ClosedFileScan) (w : PathWorld JsString) (d : ClosedFileDecision)
      (lane : Lane JsString) (events : List (LaneEvent JsString)) (n : ℕ),
      beginLane scan w = some (d, lane) ∧
      (laneAt affixDiffer d id lane events n).world.stat 0 ≠ w.stat 0 ∧
      (laneAt affixDiffer d id lane events (n + 1)).world.content 0 ≠
        (laneAt affixDiffer d id lane events n).world.content 0 := by
  constructor
  · refine ⟨⟨some 0, [1], some 0, none⟩, closedNote [1] [2] [1], closedNoteDecision [1] [2],
      { world := closedNote [1] [2] [1], phase := .hashDisk },
      List.replicate 5 (.resume .failed), rfl, rfl, rfl, rfl, rfl, ?_⟩
    rintro (hpen | ⟨text, hh, -⟩)
    · cases hpen
    · cases hh
  exact ⟨⟨some 0, [1], some 0, none⟩, closedNote [1] [2] [2], closedNoteDecision [1] [2],
    { world := closedNote [1] [2] [2], phase := .hashDisk },
    [.world { closedNote [1] [2] [2] with stat := fun _ => (some 2, some 1) }, .resume .failed,
      .resume .failed, .read, .resume .failed], 4, rfl, by decide, by decide⟩

end Kaos.Runtime
