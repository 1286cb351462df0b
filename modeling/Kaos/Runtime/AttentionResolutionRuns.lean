import Kaos.Runtime.AttentionResolutionSafety

/-! Runs of the operations on an Attention entry: it stays until the operation on its episode has
come to an agreement. -/
namespace Kaos.Runtime

open Kaos.Lib Kaos.Sync Kaos.Utils AttentionLane

variable {η : Type*}

section Holds

variable {w : PathWorld η} {text : ℕ} {disk : JsString}

/-- An admission leaves the entry alone. -/
theorem admit_attention : (admitAutomaticRecovery text disk w).2.preservedUnresolved =
    w.preservedUnresolved := by
  unfold admitAutomaticRecovery
  dsimp only
  split
  · rfl
  split
  · rfl
  split
  · rfl
  split
  · rfl
  split
  · rfl
  · split <;> rfl

theorem passes_attention (fence : RecoveryFence) :
    (fence.passes w).2.preservedUnresolved = w.preservedUnresolved := by
  unfold RecoveryFence.passes
  dsimp only
  split
  · split <;> rfl
  split
  · exact admit_attention
  · split <;> exact admit_attention

theorem capture_attention (d : ClosedFileDecision) :
    (captureMutationTicket d w).2.preservedUnresolved = w.preservedUnresolved := by
  unfold captureMutationTicket
  dsimp only
  split <;> exact passes_attention _

theorem resolution_attention (episode : ℕ) (d : ClosedFileDecision) (ticket : MutationTicket)
    (read : Option JsString) :
    (isResolutionCurrent episode d ticket read w).2.preservedUnresolved =
      w.preservedUnresolved := by
  unfold isResolutionCurrent
  dsimp only
  split
  · rfl
  · exact passes_attention _

end Holds

/-- An operation goes on with its episode, and the entry stays unless it is cleared. -/
structure KeepsEntry (lane lane' : AttentionLane η) : Prop where
  episode : lane'.episode = lane.episode
  entry : lane'.world.preservedUnresolved = lane.world.preservedUnresolved ∨
    lane'.cleared = some lane.world

namespace KeepsEntry

variable {lane : AttentionLane η} {text : ℕ} {content : JsString}

theorem same (lane : AttentionLane η) : KeepsEntry lane lane := ⟨rfl, .inl rfl⟩

theorem finish (lane : AttentionLane η) : KeepsEntry lane lane.finish := ⟨rfl, .inl rfl⟩

theorem awaiting (phase : AttentionPhase η) : KeepsEntry lane (lane.awaiting phase) :=
  ⟨rfl, .inl rfl⟩

theorem clear (lane : AttentionLane η) : KeepsEntry lane lane.clear := ⟨rfl, .inr rfl⟩

theorem settle (after : AfterSettlement) (stat : Option (ℕ × ℕ)) (file : ℕ)
    (expected : Option ℕ) : KeepsEntry lane (lane.settle after content stat file expected) :=
  ⟨rfl, .inl rfl⟩

theorem settled (after : AfterSettlement) (call : BaselineSettlement η) (result : Bool) :
    KeepsEntry lane (lane.settled after call result) := by
  cases after with
  | clears =>
    simp only [AttentionLane.settled]
    split
    · exact clear lane
    · exact finish lane
  | keepLocal text | freshDiskEvent text =>
    simp only [AttentionLane.settled]
    split
    · exact awaiting _
    · exact finish lane
  | useMerged text => exact awaiting _

theorem finalChecked (settled : Bool) (call : BaselineSettlement η) (read : Option JsString) :
    KeepsEntry lane (lane.finalChecked text settled call read) := by
  unfold AttentionLane.finalChecked
  split
  · exact clear lane
  · exact finish lane

theorem flushMerge (merge : AppliedMerge) : KeepsEntry lane (lane.flushMerge merge) := by
  unfold AttentionLane.flushMerge
  split
  · exact awaiting _
  · exact finish lane

theorem discardDisk (merge : AppliedMerge) : KeepsEntry lane (lane.discardDisk merge) := by
  unfold AttentionLane.discardDisk
  split
  · exact flushMerge merge
  · exact awaiting _

theorem flushRemote (flush : AttentionFlush) : KeepsEntry lane (lane.flushRemote flush) := by
  unfold AttentionLane.flushRemote
  split
  · exact awaiting _
  · exact finish lane

theorem attemptFresh (event : FreshDiskEvent) (crdtContent : JsString) :
    KeepsEntry lane (lane.attemptFresh event text crdtContent) := by
  unfold AttentionLane.attemptFresh
  split
  · exact finish lane
  dsimp only
  split
  · exact ⟨rfl, .inl (capture_attention _)⟩
  · split <;> exact ⟨rfl, .inl (capture_attention _)⟩

theorem beginFresh (event : FreshDiskEvent) : KeepsEntry lane (lane.beginFresh event) := by
  unfold AttentionLane.beginFresh
  split
  · exact finish lane
  split
  · exact finish lane
  dsimp only
  split
  · exact finish lane
  split
  · exact attemptFresh event _
  · exact awaiting _

/-- The entry has stayed since the operation began. -/
theorem beginAttention {operation : AttentionOperation} {w : AttentionWorld η}
    (hbegin : beginAttention operation w = some lane) :
    w.preservedUnresolved = some lane.episode := by
  obtain ⟨episode, he, rfl⟩ := Option.map_eq_some_iff.mp hbegin
  rw [he]
  congr 1
  symm
  cases operation with
  | keepLocal =>
    dsimp only
    split
    · split <;> rfl
    · rfl
  | useRemote =>
    dsimp only
    split
    · unfold beginRemote
      split
      · rfl
      dsimp only
      split
      · rfl
      · exact (flushRemote _).episode
    · rfl
  | useMerged choice =>
    dsimp only
    split
    · unfold beginMerged
      split
      · rfl
      · split <;> rfl
    · rfl
  | freshDiskEvent event => exact (beginFresh event).episode
  | healFencedWinner diskContent =>
    dsimp only
    unfold beginHeal
    split
    · rfl
    split
    · dsimp only
      split <;> rfl
    · rfl

section Resume

variable [DecidableEq η] {fastDiff : Differ UInt16} {sha : JsString → η}

omit [DecidableEq η] in
theorem publishLocal (read : StableAttentionRead) (ensured : Option ℕ) :
    KeepsEntry lane (lane.publishLocal fastDiff read ensured) := by
  unfold AttentionLane.publishLocal
  dsimp only
  split
  · exact finish lane
  split
  · exact finish lane
  · split <;> exact ⟨rfl, .inl rfl⟩

omit [DecidableEq η] in
theorem applyMerge (choice : MergedChoice) (previousContent : JsString) (file session : ℕ)
    (read : StableAttentionRead) :
    KeepsEntry lane (lane.applyMerge fastDiff choice text previousContent file session read) := by
  unfold AttentionLane.applyMerge
  dsimp only
  split
  · exact finish lane
  split
  · unfold AttentionLane.discardDisk
    split
    · unfold AttentionLane.flushMerge
      split <;> exact ⟨rfl, .inl rfl⟩
    · exact ⟨rfl, .inl rfl⟩
  · exact ⟨rfl, .inl rfl⟩

omit [DecidableEq η] in
theorem commitFresh (event : FreshDiskEvent) (d : ClosedFileDecision) (ticket : MutationTicket)
    (read : Option JsString) : KeepsEntry lane (lane.commitFresh fastDiff event d ticket read) := by
  unfold AttentionLane.commitFresh
  dsimp only
  split <;> exact ⟨rfl, .inl (resolution_attention _ _ _ _)⟩

theorem heal (file : ℕ) (diskContent crdtContent : JsString) (baselineHash : Option η) :
    KeepsEntry lane (lane.heal sha file diskContent crdtContent baselineHash) := by
  unfold AttentionLane.heal
  split
  · exact beginFresh _
  split
  · exact flushRemote _
  · exact finish lane

omit [DecidableEq η] in
theorem flushed (flush : AttentionFlush) : KeepsEntry lane (lane.flushed flush text content) := by
  cases flush with
  | useMerged merged file mergedText =>
    simp only [AttentionLane.flushed]
    split
    · exact settle _ _ _ _
    · exact finish lane
  | useRemote =>
    simp only [AttentionLane.flushed]
    split
    · exact ⟨rfl, .inl rfl⟩
    · exact ⟨rfl, .inr rfl⟩
  | heal file => exact ⟨rfl, .inl rfl⟩

theorem resumeSettlement (after : AfterSettlement) (call : BaselineSettlement η)
    (answer : AttentionAnswer) (phase : SettlementPhase) :
    KeepsEntry lane (lane.resumeSettlement sha after call answer phase) := by
  cases phase with
  | stat | hash =>
    simp only [AttentionLane.resumeSettlement]
    split <;> exact awaiting _
  | reading file read =>
    cases read with
    | none => exact same lane
    | some read =>
      simp only [AttentionLane.resumeSettlement]
      split
      · exact ⟨rfl, .inl rfl⟩
      · exact awaiting _
  | returned result => exact settled _ _ _

theorem resume (answer : AttentionAnswer) : KeepsEntry lane (lane.resume fastDiff sha answer) := by
  unfold AttentionLane.resume
  split
  · split
    · exact publishLocal _ _
    · exact finish lane
  · exact settle _ _ _ _
  · split
    · exact applyMerge _ _ _ _ _
    · exact finish lane
  · exact discardDisk _
  · exact flushMerge _
  · exact same lane
  · exact finish lane
  · split
    · exact awaiting _
    · exact flushRemote _
  · exact flushRemote _
  · split
    · exact finish lane
    · exact awaiting _
  · exact attemptFresh _ _
  · exact same lane
  · exact commitFresh _ _ _ _
  · split
    · exact settle _ _ _ _
    · exact finish lane
  · exact awaiting _
  · exact heal _ _ _ _
  · split
    · exact flushed _
    · exact finish lane
  · exact finish lane
  · exact resumeSettlement _ _ _ _
  · exact same lane
  · exact finalChecked _ _ _
  · exact same lane

/-- Only the environment changes the entry otherwise. -/
theorem next (e : AttentionEvent η) (he : ∀ w, e ≠ .world w) :
    KeepsEntry lane (lane.next fastDiff sha e) := by
  cases e with
  | world w => exact absurd rfl (he w)
  | resume answer => exact resume answer
  | read =>
    simp only [AttentionLane.next]
    split
    · exact awaiting _
    · exact awaiting _
    · exact awaiting _
    · exact awaiting _
    · exact same lane
  | write =>
    simp only [AttentionLane.next]
    split
    · exact awaiting _
    · exact same lane

end Resume

end KeepsEntry

section Run

-- `fast-diff`, and the digest of a text
variable [DecidableEq η] (fastDiff : Differ UInt16) (sha : JsString → η)

/-- Events one after another, each under a condition. -/
inductive AttentionRun (cond : AttentionLane η → AttentionEvent η → Prop) :
    AttentionLane η → AttentionLane η → Prop
  | refl {lane : AttentionLane η} : AttentionRun cond lane lane
  | step {lane lane' : AttentionLane η} {e : AttentionEvent η} :
      AttentionRun cond lane lane' → cond lane' e →
        AttentionRun cond lane (lane'.next fastDiff sha e)

variable {fastDiff sha} {cond : AttentionLane η → AttentionEvent η → Prop}
  {lane lane' : AttentionLane η}

theorem AttentionRun.sound (h : AttentionSound sha lane)
    (hrun : AttentionRun fastDiff sha Undisturbed lane lane') :
    AttentionSound sha lane' := by
  induction hrun with
  | refl => exact h
  | step _ hcond ih => exact ih.next hcond

theorem AttentionRun.episode (hrun : AttentionRun fastDiff sha cond lane lane') :
    lane'.episode = lane.episode := by
  induction hrun with
  | refl => rfl
  | @step lane' e _ _ ih =>
    rw [← ih]
    cases e with
    | world w => rfl
    | read => exact (KeepsEntry.next .read (by simp)).episode
    | write => exact (KeepsEntry.next .write (by simp)).episode
    | resume answer => exact (KeepsEntry.next (.resume answer) (by simp)).episode

/-- In an undisturbed run of any operation the entry is cleared only while it is the episode that
the operation began with, the file and the baseline have the text that has been chosen, and the
path's `Y.Text` is the one that had it when it was applied; otherwise the operation leaves it. -/
theorem attention_cleared_at_agreement {operation : AttentionOperation} {w : AttentionWorld η}
    (hbegin : beginAttention operation w = some lane)
    (hrun : AttentionRun fastDiff sha Undisturbed lane lane') :
    w.preservedUnresolved = some lane'.episode ∧
    (∀ w' ∈ lane'.cleared, ∃ content ∈ lane'.chosen,
      AgreedOn sha lane'.episode content lane'.applied w') ∧
    ∀ e, (∀ w', e ≠ .world w') →
      (lane'.next fastDiff sha e).world.preservedUnresolved =
          lane'.world.preservedUnresolved ∨
        (lane'.next fastDiff sha e).cleared = some lane'.world := by
  refine ⟨?_, (hrun.sound (.beginAttention hbegin)).agreed, ?_⟩
  · rw [hrun.episode]
    exact KeepsEntry.beginAttention hbegin
  intro e he
  exact (KeepsEntry.next e he).entry

end Run

section Example

/-- A closed note whose entry is the third episode. -/
def fencedNote (disk crdt baseline : JsString) : AttentionWorld JsString where
  toPathWorld := { closedNote disk crdt baseline with preservedUnresolved := some 3 }
  isMarkdownPathSyncable := true
  isConflictWinnerDeferred := false
  maxFileSizeBytes := 0
  session := 0
  diskBaselineRevision := 0
  isActivelyEdited := false
  isIngestAborted := false
  shouldBlockFrontmatterIngest := fun _ _ => false

def remoteChoice (disk crdt baseline : JsString) : AttentionLane JsString where
  world := fencedNote disk crdt baseline
  episode := 3
  phase := .remoteRead 0 crdt none
  chosen := some crdt

/-- The remote text is chosen while the file has it already. -/
theorem attention_cleared_at_agreement_remote :
    ∃ lane : AttentionLane JsString, (∃ w, lane.cleared = some w) ∧
      ∀ w ∈ lane.cleared, ∃ content ∈ lane.chosen,
        AgreedOn id lane.episode content lane.applied w := by
  have hbegin : beginAttention .useRemote (fencedNote [2] [2] [1]) =
      some (remoteChoice [2] [2] [1]) := rfl
  have hchosen : AttentionRun affixDiffer id Undisturbed (remoteChoice [2] [2] [1]) _ :=
    .step (e := .read) .refl trivial
  have hflus := hchosen.step (e := .resume {}) (by rintro _ ⟨⟩)
  have hwrit := hflus.step (e := .write) trivial
  have hset := hwrit.step (e := .resume { writeSettled := true })
    fun _ _ _ => Option.some_ne_none 0
  have hhas := hset.step (e := .resume {}) (by rintro _ ⟨⟩)
  have hr := hhas.step (e := .read) trivial
  have hs := hr.step (e := .resume {}) (by rintro _ ⟨⟩)
  have hclr := hs.step (e := .resume {}) (by rintro _ ⟨⟩)
  exact ⟨_, ⟨_, rfl⟩, (attention_cleared_at_agreement hbegin hclr).2.1⟩

theorem run_attention_events (lane lane' : AttentionLane JsString)
    (events : List (AttentionEvent JsString))
    (hrun : AttentionRun affixDiffer id (fun _ _ => True) lane lane') :
    AttentionRun affixDiffer id (fun _ _ => True) lane
      (events.foldl (AttentionLane.next affixDiffer id) lane') := by
  induction events generalizing lane' with
  | nil => exact hrun
  | cons e events ih => exact ih _ (.step hrun trivial)

/-- The remote text is chosen. While the local one is put on record the shared text is edited; the
file gets the edit as well, and the entry is cleared. Or the file goes once it has been written,
and with it comes another episode; this one is cleared. -/
theorem use_remote_clears_too_early :
    (∃ lane lane' : AttentionLane JsString, ∃ w,
      beginAttention .useRemote (fencedNote [1] [2] [1]) = some lane ∧
      AttentionRun affixDiffer id (fun _ _ => True) lane lane' ∧
      lane'.cleared = some w ∧ lane'.chosen = some [2] ∧
      w.disk 0 = some [2, 3] ∧ w.diskIndex.bind (·.contentHash) = some [2, 3] ∧
      ∀ content ∈ lane'.chosen, ¬ AgreedOn id lane'.episode content lane'.applied w) ∧
    ∃ lane lane' : AttentionLane JsString, ∃ w,
      beginAttention .useRemote (fencedNote [2] [2] [1]) = some lane ∧
      AttentionRun affixDiffer id (fun _ _ => True) lane lane' ∧
      lane'.cleared = some w ∧ lane'.episode = 3 ∧ w.preservedUnresolved = some 4 := by
  constructor
  · have hrun := run_attention_events (remoteChoice [1] [2] [1]) _
      [.read, .resume {}, .world (fencedNote [1] [2, 3] [1]), .resume {}, .write,
        .world (fencedNote [2, 3] [2, 3] [1]), .resume { writeSettled := true }, .resume {},
        .read, .resume {}, .resume {}] .refl
    refine ⟨_, _, _, rfl, hrun, rfl, rfl, rfl, rfl, ?_⟩
    rintro content ⟨⟩ hagr
    obtain ⟨text, -, hap⟩ := hagr.text
    cases hap
  let gone : AttentionWorld JsString :=
    { fencedNote [2] [2] [1] with file := none, preservedUnresolved := some 4 }
  have hrun := run_attention_events (remoteChoice [2] [2] [1]) _
    [.read, .resume {}, .write, .world gone, .resume { writeSettled := true }] .refl
  exact ⟨_, _, _, rfl, hrun, rfl, rfl, rfl⟩

end Example

end Kaos.Runtime
