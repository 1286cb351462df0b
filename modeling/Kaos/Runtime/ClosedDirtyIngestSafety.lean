import Kaos.Runtime.ClosedDirtyIngest

/-! The drained lane replaces a side only on a baseline or on what the editors said, and asks for a
pass where neither decides, as long as there is a baseline. -/
namespace Kaos.Runtime

open Kaos.Lib Kaos.Sync Kaos.Utils DirtyLane List Option

variable {η : Type*} {fastDiff : Differ UInt16} {sha : JsString → η}
  {shouldBlockFrontmatterIngest : JsString → JsString → Bool} {d : DirtyDecision η}
  {lane : DirtyLane η} {log : List DirtyEffect} {e : DirtyEffect}

section Decisions

variable (sha d)

/-- The baseline is that of the shared text. -/
def DiskAlone : Prop := d.baselineHash = some (sha d.crdtContent)

/-- The baseline is that of the disk text. -/
def CrdtAlone : Prop := d.baselineHash = some (sha d.diskContent)

/-- The texts differ, the editors say nothing, and the baseline is missing or that of neither. -/
def Undecided : Prop :=
  d.visible = .none ∧ d.diskContent ≠ d.crdtContent ∧ ¬ DiskAlone sha d ∧ ¬ CrdtAlone sha d

/-- An effect on top of older ones: the shared text is replaced by a change of the disk alone or by
what the editors said, once it has been recorded; the disk text likewise. -/
def Justified (e : DirtyEffect) (older : List DirtyEffect) : Prop :=
  match e with
  | .overwrote content => content = d.crdtContent ∧
    (DiskAlone sha d ∨ d.visible = .diskWins ∧ .discarded d.crdtContent ∈ older)
  | .projected => CrdtAlone sha d ∨ d.visible = .crdtWins
  | _ => True

/-- Every effect of the lane is justified; where nothing decides both sides stay, and when the lane
is done a pass has been asked for. -/
structure SafeIngest (lane : DirtyLane η) : Prop where
  justified : ∀ newer e older, lane.log = newer ++ e :: older → Justified sha d e older
  spares : Undecided sha d → (∀ content, .overwrote content ∉ lane.log) ∧ .projected ∉ lane.log
  asks : Undecided sha d → lane.phase = .done → .followup ∈ lane.log

/-- What the planner is given for the same two texts, when the disk text is not the mirror's own. -/
def dirtyPlannerInput (diskMtime lastDiskIndexPersistedAt lastFileSettledAtMs : Option ℕ)
    (hasPendingLocalCreate : Bool) : ClosedFileReconcileInput η where
  baselineHash := d.baselineHash
  diskHash := sha d.diskContent
  crdtHash := sha d.crdtContent
  diskChangeIsSelfMirror := false
  diskMtime
  lastDiskIndexPersistedAt
  lastFileSettledAtMs
  authoritative := true
  isOpenOrBound := false
  hasPendingLocalCreate
  pathBindingStatus := .ok

variable [DecidableEq η] in
/-- What the planner does about two different texts: it imports or projects where one side changed
alone, and has the losing side preserved where nothing decides. -/
structure PlannerAgrees (diskMtime persistedAt settledAt : Option ℕ) (pendingCreate : Bool) :
    Prop where
  disk : DiskAlone sha d → planClosedFileReconcile (dirtyPlannerInput
    sha d diskMtime persistedAt settledAt pendingCreate) = .importDiskToCrdt
  crdt : CrdtAlone sha d → planClosedFileReconcile (dirtyPlannerInput
    sha d diskMtime persistedAt settledAt pendingCreate) = .applyRemoteToDisk
  neither : Undecided sha d → ∃ reason winner preserve,
    planClosedFileReconcile (dirtyPlannerInput sha d diskMtime persistedAt
      settledAt pendingCreate) = .createConflictArtifact reason winner preserve ∧ winner ≠ preserve

variable [DecidableEq η] in
theorem planner_agrees (hinj : Function.Injective sha)
    (hne : d.diskContent ≠ d.crdtContent) (diskMtime persistedAt settledAt : Option ℕ)
    (pendingCreate : Bool) :
    PlannerAgrees sha d diskMtime persistedAt settledAt pendingCreate := by
  have hh : sha d.diskContent ≠ sha d.crdtContent :=
    fun h => hne (hinj h)
  constructor
  · intro hd
    unfold DiskAlone at hd
    simp [planClosedFileReconcile, dirtyPlannerInput, hh, hd, decideClosedFileConflict,
      mapConflictDecisionToAction]
  · intro hcrdt
    unfold CrdtAlone at hcrdt
    have hh' := hh.symm
    simp [planClosedFileReconcile, dirtyPlannerInput, hh, hh', hcrdt,
      decideClosedFileConflict, mapConflictDecisionToAction]
  rintro ⟨-, -, hd, hcrdt⟩
  unfold DiskAlone at hd
  unfold CrdtAlone at hcrdt
  cases hb : d.baselineHash with
  | none =>
    cases pendingCreate with
    | true =>
      refine ⟨.missingBaseline, .disk, .crdt, ?_, by simp⟩
      simp [planClosedFileReconcile, dirtyPlannerInput, hh, hb]
    | false =>
      have hmiss : ∀ newer, ∃ winner preserve, mapConflictDecisionToAction
          (missingBaselineDecision newer) = .createConflictArtifact .missingBaseline winner
            preserve ∧ winner ≠ preserve := by
        intro newer
        cases newer with
        | true => exact ⟨.disk, .crdt, rfl, by simp⟩
        | false => exact ⟨.crdt, .disk, rfl, by simp⟩
      have hp : ∃ newer, planClosedFileReconcile (dirtyPlannerInput sha d
          diskMtime persistedAt settledAt false) =
            mapConflictDecisionToAction (missingBaselineDecision newer) := by
        simp only [planClosedFileReconcile, dirtyPlannerInput, hh, hb,
          decideClosedFileConflict, if_false, Bool.not_true, Bool.false_eq_true, ne_eq,
          not_true_eq_false, false_and, and_false]
        split <;> exact ⟨_, rfl⟩
      obtain ⟨newer, hp⟩ := hp
      obtain ⟨winner, preserve, hact, ho⟩ := hmiss newer
      exact ⟨_, winner, preserve, hp.trans hact, ho⟩
  | some baselineHash =>
    rw [hb] at hd hcrdt
    have hd' : sha d.crdtContent ≠ baselineHash := fun h => hd (h ▸ rfl)
    have hcrdt' : sha d.diskContent ≠ baselineHash := fun h => hcrdt (h ▸ rfl)
    refine ⟨.bothChanged, .disk, .crdt, ?_, by simp⟩
    simp [planClosedFileReconcile, dirtyPlannerInput, hh, hb, decideClosedFileConflict,
      mapConflictDecisionToAction, hd', hcrdt']

/-- What an attempt to commit rests on. -/
def DirtyCommit.Sound (commit : DirtyCommit) (log : List DirtyEffect) : Prop :=
  match commit with
  | .importDisk => DiskAlone sha d
  | .diskWins => d.visible = .diskWins ∧ .discarded d.crdtContent ∈ log
  | .crdtWins => d.visible = .crdtWins

def DirtyPhase.Sound (phase : DirtyPhase) (log : List DirtyEffect) : Prop :=
  match phase with
  | .discard .disk => d.visible = .diskWins
  | .discard .crdt => d.visible = .crdtWins
  | .hashDisk | .hashCrdt => d.baselineHash ≠ none
  | .reading commit _ _ | .attempted commit _ => commit.Sound sha d log
  | .flushing | .settling _ => ¬ Undecided sha d
  | .done => Undecided sha d → .followup ∈ log
  | .visibleAuthority => True

structure DirtyLane.Sound (lane : DirtyLane η) : Prop where
  justified : ∀ newer e older, lane.log = newer ++ e :: older → Justified sha d e older
  phase : lane.phase.Sound sha d lane.log

end Decisions

theorem DirtyCommit.Sound.not_undecided {commit : DirtyCommit}
    (h : commit.Sound sha d log) : ¬ Undecided sha d := by
  rintro ⟨hvis, -, hd, -⟩
  cases commit with
  | importDisk => exact hd h
  | diskWins => cases hvis.symm.trans h.1
  | crdtWins => cases hvis.symm.trans h

theorem DirtyCommit.Sound.cons {commit : DirtyCommit} (h : commit.Sound sha d log)
    (e : DirtyEffect) : commit.Sound sha d (e :: log) := by
  cases commit with
  | importDisk | crdtWins => exact h
  | diskWins => exact ⟨h.1, mem_cons_of_mem _ h.2⟩

/-- Where nothing decides no justified effect touches a side. -/
theorem DirtyLane.Sound.safe (h : lane.Sound sha d) : SafeIngest sha d lane := by
  refine ⟨h.justified, ?_, ?_⟩
  · rintro ⟨hvis, -, hdisk, hcrdt⟩
    constructor
    · intro content hmem
      obtain ⟨newer, older, hlog⟩ := append_of_mem hmem
      rcases (h.justified newer _ older hlog).2 with ha | ⟨hwins, -⟩
      · exact hdisk ha
      · cases hvis.symm.trans hwins
    intro hmem
    obtain ⟨newer, older, hlog⟩ := append_of_mem hmem
    rcases h.justified newer _ older hlog with ha | hwins
    · exact hcrdt ha
    · cases hvis.symm.trans hwins
  intro hund hd
  have hph := h.phase
  rw [hd] at hph
  exact hph hund

variable {sha : JsString → η}

section Steps

variable {world : PathWorld η} {phase : DirtyPhase} {commit : DirtyCommit}

section

variable (h : lane.Sound sha d)
include h

theorem DirtyLane.Sound.wait (hph : phase.Sound sha d lane.log) :
    ({ lane with world, phase } : DirtyLane η).Sound sha d :=
  ⟨h.justified, hph⟩

/-- One more effect. -/
theorem DirtyLane.Sound.push (he : Justified sha d e lane.log)
    (hphase : phase.Sound sha d (e :: lane.log)) :
    ({ world, phase, log := e :: lane.log } : DirtyLane η).Sound sha d := by
  refine ⟨?_, hphase⟩
  intro newer e' older hlog
  cases newer with
  | nil =>
    cases hlog
    exact he
  | cons e'' newer =>
    rw [cons_append, List.cons.injEq] at hlog
    exact h.justified newer e' older hlog.2

theorem DirtyLane.Sound.followup : lane.followup.Sound sha d :=
  h.push trivial fun _ => mem_cons_self

theorem DirtyLane.Sound.project (hcrdt : CrdtAlone sha d ∨ d.visible = .crdtWins) :
    lane.project.Sound sha d := by
  have hdec : ¬ Undecided sha d := by
    rintro ⟨hvis, -, -, hnot⟩
    rcases hcrdt with ha | hwins
    · exact hnot ha
    · cases hvis.symm.trans hwins
  unfold DirtyLane.project
  split
  · exact h.push hcrdt hdec
  · exact h.wait fun hund => absurd hund hdec

theorem DirtyLane.Sound.attempt (hc : commit.Sound sha d lane.log) :
    (lane.attempt d commit).Sound sha d := by
  unfold DirtyLane.attempt
  dsimp only
  split
  · exact h.wait hc
  refine h.wait ?_
  split <;> exact hc

/-- The mutation replaces the text of the decision. -/
theorem DirtyLane.Sound.overwrite (hc : commit.Sound sha d lane.log) (hne : commit ≠ .crdtWins)
    (hco : lane.world.content d.text = d.crdtContent) :
    (lane.overwrite fastDiff d commit).Sound sha d := by
  refine h.push ⟨hco, ?_⟩ (hc.cons _)
  cases commit with
  | importDisk => exact .inl hc
  | diskWins => exact .inr hc
  | crdtWins => exact absurd rfl hne

variable [DecidableEq η]

/-- With a baseline the import is that of a disk text that has changed alone. -/
theorem DirtyLane.Sound.decideAction (hb : d.baselineHash ≠ none) (aborted : Bool) :
    (lane.decideAction sha shouldBlockFrontmatterIngest d aborted).Sound
      sha d := by
  obtain ⟨baselineHash, hs⟩ := ne_none_iff_exists'.mp hb
  simp only [DirtyLane.decideAction, hs, isSome_some, all_some, any_some,
    Bool.true_and, ne_eq, decide_not, Bool.not_not]
  by_cases hd : sha d.diskContent = baselineHash
  · by_cases hcrdt : sha d.crdtContent = baselineHash
    · simpa [hd, hcrdt] using h.followup
    · simpa [hd, hcrdt] using h.project (.inl (hs.trans (congrArg some hd.symm)))
  by_cases hcrdt : sha d.crdtContent = baselineHash
  · have ha : DiskAlone sha d := hs.trans (congrArg some hcrdt.symm)
    simp only [hd, hcrdt, decide_true, decide_false, Bool.not_true, Bool.not_false,
      Bool.and_false, Bool.false_and, Bool.and_self, Bool.false_eq_true, if_false]
    unfold DirtyLane.importDisk
    split
    · exact h.followup
    split
    · exact h.wait fun hund => hund.2.2.1 ha
    split
    · exact h.wait fun hund => absurd ha hund.2.2.1
    · exact h.attempt ha
  · simpa [hd, hcrdt] using h.followup

theorem DirtyLane.Sound.resume (answer : DirtyAnswer η) :
    (lane.resume fastDiff sha shouldBlockFrontmatterIngest d answer).Sound
      sha d := by
  have hs := h.phase
  cases hph : lane.phase with
    (rw [hph] at hs; simp only [DirtyLane.resume, hph])
  | visibleAuthority => exact h.followup
  | discard winner =>
    cases winner with
    | disk =>
      have hpus : ({ lane with log := .discarded d.crdtContent :: lane.log } :
          DirtyLane η).Sound sha d := by
        refine h.push trivial ?_
        rw [hph]
        exact hs
      simp only [hph] at hpus ⊢
      exact hpus.attempt ⟨hs, mem_cons_self⟩
    | crdt =>
      have hpus : ({ lane with log := .discarded d.diskContent :: lane.log } :
          DirtyLane η).Sound sha d := by
        refine h.push trivial ?_
        rw [hph]
        exact hs
      have hc : DirtyCommit.crdtWins.Sound sha d
          (.discarded d.diskContent :: lane.log) := hs
      exact hpus.attempt hc
  | hashDisk =>
    exact h.wait hs
  | hashCrdt =>
    exact h.decideAction hs answer.aborted
  | reading commit ticket read =>
    cases read with
    | none => exact h
    | some read =>
      by_cases hc : commit = .crdtWins
      · subst hc
        exact h.wait hs
      have hcur : (if (isMutationCurrent d.toClosedFileDecision ticket read lane.world).1 then
          DirtyLane.overwrite fastDiff
            { lane with
              world := (isMutationCurrent d.toClosedFileDecision ticket read lane.world).2 }
            d commit
        else
          { lane with
            world := (isMutationCurrent d.toClosedFileDecision ticket read lane.world).2
            phase := .attempted commit false }).Sound sha d := by
        split
        · next hcur =>
          have hspares := current_spares d.toClosedFileDecision ticket read lane.world
          obtain ⟨-, -, -, -, -, -, hco, -⟩ := current_spec hcur
          have hm : ({ lane with
              world := (isMutationCurrent d.toClosedFileDecision ticket read lane.world).2 } :
              DirtyLane η).Sound sha d := h.wait h.phase
          exact hm.overwrite hs hc ((congrFun hspares.content d.text).trans hco)
        · exact h.wait hs
      cases commit with
      | crdtWins => exact absurd rfl hc
      | importDisk | diskWins => exact hcur
  | attempted commit committed =>
    have hc : commit.Sound sha d lane.log := hs
    cases committed with
    | false => exact h.followup
    | true =>
      cases commit with
      | crdtWins => exact h.project (.inr hc)
      | importDisk | diskWins => exact h.wait hc.not_undecided
  | flushing =>
    split
    · exact h.wait hs
    split
    · exact h.followup
    · exact h.wait fun hund => absurd hund hs
  | settling retries =>
    split
    · exact h.followup
    · exact h.wait fun hund => absurd hund hs
  | done => exact h

theorem DirtyLane.Sound.next (event : DirtyLaneEvent η) :
    (lane.next fastDiff sha shouldBlockFrontmatterIngest d event).Sound
      sha d := by
  cases event with
  | world w => exact h.wait h.phase
  | read =>
    have hs := h.phase
    simp only [DirtyLane.next]
    split
    · next commit ticket hph =>
      rw [hph] at hs
      exact h.wait hs
    · exact h
  | resume answer => exact h.resume answer

theorem DirtyLane.Sound.run (events : List (DirtyLaneEvent η)) :
    (lane.run fastDiff sha shouldBlockFrontmatterIngest d events).Sound
      sha d := by
  induction events generalizing lane with
  | nil => exact h
  | cons event events ih => exact ih (h.next event)

end

end Steps

section Begin

variable {read : StableMarkdownRead} {w : PathWorld η}

/-- A drained path starts with what is read of it, and settled editors are on both sides. -/
theorem begin_spec (hbegin : beginDirtyLane read w = some (d, lane)) :
    d.file = some read.file ∧ d.diskRevision = some read.diskRevision ∧
      (d.visible = .settled → d.crdtContent = d.diskContent) ∧
      ∃ world, lane = start { world, phase := .done } d := by
  simp only [beginDirtyLane] at hbegin
  split at hbegin
  · cases hbegin
  obtain ⟨text, -, heq⟩ := map_eq_some_iff.mp hbegin
  obtain ⟨rfl, rfl⟩ := heq
  refine ⟨rfl, rfl, ?_, _, rfl⟩
  dsimp only
  unfold decideDeferredVisibleAuthority
  intro hset
  split at hset
  · cases hset
  split at hset
  · split at hset
    · next hboth => exact hboth.2.trans hboth.1.symm
    split at hset
    · cases hset
    split at hset <;> cases hset
  · cases hset

/-- What the lane needs to be safe: the editors decide or leave it open, the texts are equal, or
there is a baseline. -/
def HasEvidence (d : DirtyDecision η) : Prop :=
  d.visible ≠ .none ∨ d.crdtContent = d.diskContent ∨ d.baselineHash ≠ none

theorem start_sound (hset : d.visible = .settled → d.crdtContent = d.diskContent)
    (hevid : HasEvidence d) (world : PathWorld η) :
    (start { world, phase := .done } d).Sound sha d := by
  have hblank : ∀ w phase, phase.Sound sha d [] →
      ({ world := w, phase } : DirtyLane η).Sound sha d := by
    intro w phase hph
    refine ⟨?_, hph⟩
    intro newer e older hlog
    simp at hlog
  have hcom (hvis : d.visible = .none ∨ d.visible = .settled) :
      (if d.crdtContent = d.diskContent then DirtyPhase.settling false else .hashDisk).Sound
        sha d [] := by
    split
    · next heq => exact fun hund => hund.2.1 heq.symm
    · next hne =>
      rcases hvis with hn | hboth
      · rcases hevid with hmar | heq | hb
        · exact absurd hn hmar
        · exact absurd heq hne
        · exact hb
      · exact absurd (hset hboth) hne
  have hwins (hvis : d.visible = .diskWins) (admitted : Bool) :
      (if admitted then DirtyPhase.discard .disk else .done).Sound sha d [] := by
    cases admitted with
    | true => exact hvis
    | false => exact fun hund => by cases hvis.symm.trans hund.1
  unfold start
  cases hvis : d.visible with
  | unresolved => exact hblank _ _ trivial
  | diskWins => exact hblank _ _ (hwins hvis _)
  | crdtWins => exact hblank _ _ hvis
  | none => exact hblank _ _ (hcom (.inl hvis))
  | settled => exact hblank _ _ (hcom (.inr hvis))

end Begin

section Converse

variable {file : ℕ}

/-- A note at rest, with the texts of the decision. -/
def restingNote (d : DirtyDecision η) (file : ℕ) : PathWorld η where
  text := some d.text
  content := fun _ => d.crdtContent
  file := some file
  isAtPath := fun _ => true
  stat := fun _ => (some 1, some 1)
  disk := fun _ => some d.diskContent
  diskRevision := d.diskRevision.getD 0
  openViews := []
  isBound := false
  preservedUnresolved := none
  automaticRecoveryHolds := []
  isTrackedText := fun _ => true
  keepsLocal := false
  recoveryPaused := false
  recoveryRevision := none
  diskIndex := none
  visibleAuthority := none
  hasPendingWrite := false
  lastDiskWriteOkHash := none
  hasPendingLocalCreate := false
  pathBindingStatus := .ok
  lastDiskIndexPersistedAt := none
  baselineText := fun _ => none
  projectionAdmitted := true
  reconcilePending := false

/-- A note at rest lets its text be recovered, and keeps no hold. -/
theorem restingNote_admits (d : DirtyDecision η) (file : ℕ) :
    admitAutomaticRecovery d.text d.diskContent (restingNote d file) =
      (true, restingNote d file) := by
  simp [admitAutomaticRecovery, restingNote, PathWorld.pruneAutomaticRecoveryHolds,
    PathWorld.releaseAutomaticRecovery, isLocalOnly]

theorem restingNote_passes (d : DirtyDecision η) (file : ℕ) :
    (captureAutomaticRecoveryFence d.text d.diskContent (restingNote d file)).passes
      (restingNote d file) = (true, restingNote d file) := by
  have hadm := restingNote_admits d file
  simp only [RecoveryFence.passes, captureAutomaticRecoveryFence, hadm]
  simp

variable [DecidableEq η]

variable (fastDiff shouldBlockFrontmatterIngest) in
/-- Without a baseline the disk text goes over the shared one, unless the guard of the frontmatter
stops it; then nobody is asked. -/
theorem unsafe_without_baseline (hf : d.file = some file) (hrev : d.diskRevision ≠ none)
    (hevid : ¬ HasEvidence d) (world : PathWorld η) :
    ∃ events, ¬ SafeIngest sha d ((start { world, phase := .done } d).run
      fastDiff sha shouldBlockFrontmatterIngest d events) := by
  simp only [HasEvidence, not_or, not_not, ne_eq] at hevid
  obtain ⟨hvis, hne, hb⟩ := hevid
  have hund : Undecided sha d := by
    refine ⟨hvis, fun heq => hne heq.symm, ?_, ?_⟩ <;> intro ha
    · cases hb.symm.trans ha
    · cases hb.symm.trans ha
  have hst : start { world, phase := .done } d = { world, phase := .hashDisk } := by
    simp [start, hvis, hne]
  let answer : DirtyAnswer η := ⟨.failed, true, false⟩
  have hcalm : ∀ events, run fastDiff sha shouldBlockFrontmatterIngest d
      { world, phase := .hashDisk } (.world (restingNote d file) :: .resume answer ::
        .resume answer :: events) =
      run fastDiff sha shouldBlockFrontmatterIngest d
        (importDisk shouldBlockFrontmatterIngest
          { world := restingNote d file, phase := .hashCrdt } d false) events := by
    intro events
    simp [run, DirtyLane.next, resume, decideAction, hb, answer]
  rw [hst]
  by_cases hblocks : shouldBlockFrontmatterIngest d.crdtContent d.diskContent = true
  · refine ⟨[.world (restingNote d file), .resume answer, .resume answer, .resume answer], ?_⟩
    intro hsafe
    rw [hcalm] at hsafe
    have hd : run fastDiff sha shouldBlockFrontmatterIngest d
        (importDisk shouldBlockFrontmatterIngest
          { world := restingNote d file, phase := .hashCrdt } d false) [.resume answer] =
        { world := restingNote d file, phase := .done } := by
      simp [importDisk, restingNote, hblocks, run, DirtyLane.next, resume]
    rw [hd] at hsafe
    have hasks := hsafe.asks hund rfl
    simp at hasks
  refine ⟨[.world (restingNote d file), .resume answer, .resume answer, .read, .resume answer], ?_⟩
  intro hsafe
  rw [hcalm] at hsafe
  obtain ⟨revision, hrev⟩ := ne_none_iff_exists'.mp hrev
  have hpas := restingNote_passes d file
  have himp : importDisk shouldBlockFrontmatterIngest
      { world := restingNote d file, phase := .hashCrdt } d false =
      { world := restingNote d file
        phase := .reading .importDisk
          { fence := captureAutomaticRecoveryFence d.text d.diskContent (restingNote d file)
            stat := (some 1, some 1)
            readFails := false
            identityChanged := false } none } := by
    simp only [importDisk, hblocks, attempt, captureMutationTicket, hpas, hf]
    simp [restingNote]
  have hcur : isMutationCurrent d.toClosedFileDecision
      { fence := captureAutomaticRecoveryFence d.text d.diskContent (restingNote d file)
        stat := (some 1, some 1)
        readFails := false
        identityChanged := false } (some d.diskContent) (restingNote d file) =
      (true, restingNote d file) := by
    simp only [isMutationCurrent, hpas, hf, hrev]
    simp [restingNote, hrev]
  have hlog : (run fastDiff sha shouldBlockFrontmatterIngest d
      (importDisk shouldBlockFrontmatterIngest
        { world := restingNote d file, phase := .hashCrdt } d false)
      [.read, .resume answer]).log = [.overwrote d.crdtContent] := by
    rw [himp]
    simp only [run, foldl_cons, foldl_nil, DirtyLane.next, resume, hf, bind_some]
    rw [show (restingNote d file).disk file = some d.diskContent from rfl, hcur]
    rfl
  have hspares := (hsafe.spares hund).1 d.crdtContent
  rw [hlog] at hspares
  exact hspares mem_cons_self

end Converse

variable [DecidableEq η]

variable (fastDiff shouldBlockFrontmatterIngest) in
/-- In every run the drained lane is safe, and does what the planner does, just where there is
evidence. -/
theorem dirty_ingest_safe_iff (hinjective : Function.Injective sha)
    (read : StableMarkdownRead) (w : PathWorld η)
    (hbegin : beginDirtyLane read w = some (d, lane)) :
    ((∀ events, SafeIngest sha d
        (lane.run fastDiff sha shouldBlockFrontmatterIngest d events)) ∧
      (d.diskContent ≠ d.crdtContent → ∀ diskMtime persistedAt settledAt pendingCreate,
        PlannerAgrees sha d diskMtime persistedAt settledAt pendingCreate)) ↔
      HasEvidence d := by
  obtain ⟨hf, hrev, hs, world, rfl⟩ := begin_spec hbegin
  constructor
  · rintro ⟨hsafe, -⟩
    by_contra hevid
    have hr : d.diskRevision ≠ none := by simp [hrev]
    obtain ⟨events, huns⟩ := unsafe_without_baseline fastDiff shouldBlockFrontmatterIngest hf
      hr hevid world
    exact huns (hsafe events)
  intro hevid
  refine ⟨?_, fun hne => planner_agrees sha d hinjective hne⟩
  intro events
  exact ((start_sound hs hevid world).run events).safe

/-- A note whose disk text has changed alone is imported in a run that is safe. -/
theorem dirty_ingest_safe_iff_import :
    ∃ (d : DirtyDecision JsString) (lane : DirtyLane JsString),
      beginDirtyLane ⟨0, [1], 0⟩ (closedNote [1] [2] [2]) = some (d, lane) ∧
      ∀ events, SafeIngest id d (lane.run affixDiffer id (fun _ _ => false) d events) := by
  refine ⟨_, _, rfl, ?_⟩
  exact ((dirty_ingest_safe_iff affixDiffer (fun _ _ => false) Function.injective_id ⟨0, [1], 0⟩
    (closedNote [1] [2] [2]) rfl).mpr (.inr (.inr (by decide)))).1

/-- Without a baseline a closed note's disk text goes over the shared text. -/
theorem dirty_ingest_overwrites_without_baseline :
    ∃ (d : DirtyDecision JsString) (lane : DirtyLane JsString),
      beginDirtyLane ⟨0, [1], 0⟩ { closedNote [1] [2] [2] with diskIndex := none } =
        some (d, lane) ∧
      d.visible = .none ∧ d.baselineHash = none ∧
      (lane.run affixDiffer id (fun _ _ => false) d [.resume ⟨.failed, true, false⟩,
        .resume ⟨.failed, true, false⟩, .read, .resume ⟨.failed, true, false⟩]).world.content 0 =
          [1] ∧
      ¬ SafeIngest id d (lane.run affixDiffer id (fun _ _ => false) d
        [.resume ⟨.failed, true, false⟩, .resume ⟨.failed, true, false⟩, .read,
          .resume ⟨.failed, true, false⟩]) := by
  refine ⟨_, _, rfl, rfl, rfl, by decide, ?_⟩
  intro hsafe
  refine (hsafe.spares ⟨rfl, by decide, ?_, ?_⟩).1 [2] (by decide) <;> nofun

end Kaos.Runtime
