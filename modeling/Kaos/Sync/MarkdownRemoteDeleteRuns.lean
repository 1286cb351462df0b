import Kaos.Sync.MarkdownRemoteDeleteSafety

/-! Runs of a remote delete: its own steps leave the vault alone, only the primitives touch it. -/
namespace Kaos.Sync

open Kaos.Lib

variable {η : Type*}

/-- The delete goes on with what it captured, and the vault stays as it is. -/
structure KeepsReplica (d d' : RemoteDelete η) : Prop where
  generation : d'.generation = d.generation
  fingerprint : d'.fingerprint = d.fingerprint
  entry : d'.world.entry = d.world.entry
  disk : d'.world.disk = d.world.disk

namespace KeepsReplica

variable {d : RemoteDelete η} {file : ℕ} {marker : Option NoteEpisode}

theorem same (d : RemoteDelete η) : KeepsReplica d d := ⟨rfl, rfl, rfl, rfl⟩

theorem finish (d : RemoteDelete η) : KeepsReplica d d.finish := ⟨rfl, rfl, rfl, rfl⟩

theorem awaiting (phase : RemoteDeletePhase η) : KeepsReplica d (d.awaiting phase) :=
  ⟨rfl, rfl, rfl, rfl⟩

theorem record (w : NoteWorld η) :
    w.recordRemoteDelete.entry = w.entry ∧ w.recordRemoteDelete.disk = w.disk := by
  unfold NoteWorld.recordRemoteDelete
  split <;> exact ⟨rfl, rfl⟩

theorem ensure (w : NoteWorld η) :
    w.ensureRemoteDelete.entry = w.entry ∧ w.ensureRemoteDelete.disk = w.disk := by
  unfold NoteWorld.ensureRemoteDelete
  split
  · exact ⟨rfl, rfl⟩
  · exact record w

theorem tryVaultTrash : KeepsReplica d (d.tryVaultTrash file marker) := by
  unfold RemoteDelete.tryVaultTrash
  split
  · exact awaiting _
  split
  · exact awaiting _
  split
  · exact awaiting _
  · exact ⟨rfl, rfl, rfl, rfl⟩

theorem deleteLocalReplica : KeepsReplica d (d.deleteLocalReplica file marker) := by
  unfold RemoteDelete.deleteLocalReplica
  split
  · exact tryVaultTrash
  split
  · exact awaiting _
  split
  · exact awaiting _
  · exact ⟨rfl, rfl, rfl, rfl⟩

theorem primitiveSettled {primitive : TrashPrimitive} {resolved : Bool} :
    KeepsReplica d (d.primitiveSettled file primitive marker resolved) := by
  unfold RemoteDelete.primitiveSettled
  split
  · exact awaiting _
  split
  · exact awaiting _
  split
  · exact awaiting _
  split
  · exact tryVaultTrash
  · exact awaiting _

theorem afterTrash {mode : DeleteMode} {newEpisode : ℕ} :
    KeepsReplica d (d.afterTrash mode marker newEpisode) := by
  unfold RemoteDelete.afterTrash
  split
  · exact ⟨rfl, rfl, (ensure _).1, (ensure _).2⟩
  split
  · split
    · unfold NoteWorld.ensurePathCollision
      split <;> exact ⟨rfl, rfl, rfl, rfl⟩
    · split
      · exact ⟨rfl, rfl, (ensure _).1, (ensure _).2⟩
      · exact finish d
    · exact finish d
  · split
    · exact ⟨rfl, rfl, rfl, rfl⟩
    · exact finish d

theorem commitDecision {decision : RemoteDeleteDecision} :
    KeepsReplica d (d.commitDecision file decision) := by
  unfold RemoteDelete.commitDecision
  split
  · exact finish d
  dsimp only
  split
  · exact deleteLocalReplica
  · exact ⟨rfl, rfl, (ensure _).1, (ensure _).2⟩
  · split <;> exact ⟨rfl, rfl, (record _).1, (record _).2⟩

theorem inspect {baseline : Option JsString} : KeepsReplica d (d.inspect file baseline) := by
  unfold RemoteDelete.inspect
  split
  · exact commitDecision
  split
  · exact commitDecision
  · exact commitDecision
  · exact awaiting _
  split
  · exact awaiting _
  · exact commitDecision

variable {text : JsString} {read : Option JsString}

theorem afterFirstRead : KeepsReplica d (d.afterFirstRead file text read) := by
  unfold RemoteDelete.afterFirstRead
  split
  · exact commitDecision
  split
  · exact commitDecision
  split
  · exact finish d
  split
  · split
    · exact awaiting _
    · exact commitDecision
  · exact finish d

theorem afterFinalRead : KeepsReplica d (d.afterFinalRead file text read) := by
  have hc : KeepsReplica { d with inspected := read.map fun content => (file, content) }
      (d.afterFinalRead file text read) := commitDecision
  exact ⟨hc.generation, hc.fingerprint, hc.entry, hc.disk⟩

section Resume

variable [DecidableEq η] {sha : JsString → η}

theorem resume {answer : RemoteDeleteAnswer} : KeepsReplica d (d.resume sha answer) := by
  unfold RemoteDelete.resume
  split
  · split
    · exact finish d
    split
    · split <;> exact awaiting _
    · exact awaiting _
  · split <;> exact awaiting _
  · split
    · exact ⟨rfl, rfl, rfl, rfl⟩
    · exact awaiting _
  · split
    · exact finish d
    split
    · exact inspect
    · exact finish d
  · exact same d
  · exact afterFirstRead
  · exact same d
  · exact afterFinalRead
  · exact primitiveSettled
  · exact afterTrash
  · exact finish d
  · exact same d

variable (sha d) in
/-- Only the environment, and with it a primitive, changes the vault. -/
theorem next {e : RemoteDeleteEvent η} (he : ∀ w, e ≠ .world w) :
    KeepsReplica d (d.next sha e) := by
  cases e with
  | world w => exact absurd rfl (he w)
  | resume answer => exact resume
  | read =>
    simp only [RemoteDelete.next]
    split
    · exact awaiting _
    · exact awaiting _
    · exact same d

end Resume

end KeepsReplica

section Run

variable [DecidableEq η] {sha : JsString → η} {d : RemoteDelete η}
  {w : NoteWorld η}

omit [DecidableEq η] in
theorem remoteDeleteSound_start (hst : handleRemoteDelete w = some d) :
    RemoteDeleteSound sha d ∧ w.deleteFingerprint = some d.fingerprint ∧
      d.generation = w.remoteDeleteGeneration + 1 := by
  unfold handleRemoteDelete at hst
  split at hst
  · cases hst
  obtain ⟨fingerprint, hprint, rfl⟩ := Option.map_eq_some_iff.mp hst
  refine ⟨?_, hprint, rfl⟩
  refine { safe := ?_, ongoing := fun _ => ⟨rfl, rfl⟩, meaning := rfl }
  refine { calls := ?_, first := ?_, resolved := ?_, ended := ?_ }
  · intro call hmem
    cases hmem
  · intro call hl
    cases hl
  · rintro _ ⟨⟩
  · rintro _ ⟨⟩

theorem remoteDeleteSound_run (h : RemoteDeleteSound sha d)
    (events : List (RemoteDeleteEvent η)) :
    RemoteDeleteSound sha (events.foldl (RemoteDelete.next sha) d) ∧
      (events.foldl (RemoteDelete.next sha) d).generation = d.generation ∧
      (events.foldl (RemoteDelete.next sha) d).fingerprint = d.fingerprint := by
  induction events generalizing d with
  | nil => exact ⟨h, rfl, rfl⟩
  | cons e events ih =>
    obtain ⟨hs, hgen, hprint⟩ := ih h.next
    have hk : (d.next sha e).generation = d.generation ∧
        (d.next sha e).fingerprint = d.fingerprint := by
      cases e with
      | world w => exact ⟨rfl, rfl⟩
      | read =>
        have hn : KeepsReplica d (d.next sha .read) := .next d sha (by simp)
        exact ⟨hn.generation, hn.fingerprint⟩
      | resume answer =>
        have hn : KeepsReplica d (d.next sha (.resume answer)) := .next d sha (by simp)
        exact ⟨hn.generation, hn.fingerprint⟩
    exact ⟨hs, hgen.trans hk.1, hprint.trans hk.2⟩

/-- A primitive gets the file that was inspected, which is at the path, under the tombstone, the
generation and the admission that were captured; the first one gets a file that was read with the
text of the baseline, as its editors have it. The entry that was there goes only at an absent path.
The delete itself leaves the vault alone, and it ends with the path flagged unless it is not current
or there is no note. -/
theorem remote_delete_trashes_clean_replica (hstart : handleRemoteDelete w = some d)
    (events : List (RemoteDeleteEvent η)) (d' : RemoteDelete η)
    (hrun : d' = events.foldl (RemoteDelete.next sha) d) :
    w.deleteFingerprint = some d'.fingerprint ∧
    d'.generation = w.remoteDeleteGeneration + 1 ∧
    (∀ call ∈ d'.calls, call.Sound d') ∧
    (∀ call, d'.calls.getLast? = some call → call.Clean sha d') ∧
    (∀ w' ∈ d'.resolved, d'.Resolves w') ∧
    (∀ w' ∈ d'.endedIn, d'.EndsWell w') ∧
    ∀ e, (∀ w', e ≠ .world w') →
      (d'.next sha e).world.entry = d'.world.entry ∧
        (d'.next sha e).world.disk = d'.world.disk := by
  obtain ⟨hs, hfin, hgen⟩ := remoteDeleteSound_start hstart
  obtain ⟨ha, hk, hsa⟩ := remoteDeleteSound_run hs events
  subst hrun
  refine ⟨hsa ▸ hfin, hk.trans hgen, ha.safe.calls, ha.safe.first,
    ha.safe.resolved, ha.safe.ended, ?_⟩
  intro e he
  have hn := KeepsReplica.next
    (events.foldl (RemoteDelete.next sha) d) sha he
  exact ⟨hn.entry, hn.disk⟩

end Run

section Example

/-- A clean note under a tombstone. -/
def tombstonedNote (fingerprint generation : ℕ) : NoteWorld JsString where
  entry := some (.file 0)
  isAtPath := fun _ => true
  disk := fun _ => some [1]
  hasBaselineProviders := true
  baselineHash := some [1]
  openViews := []
  hasOpaqueOpenFileView := false
  deleteFingerprint := some fingerprint
  remoteDeleteGeneration := generation
  isAdmissionCaptured := true
  isAdmissionCurrent := true
  entersCriticalSection := true
  isMarkdownPathSyncable := true
  preservedUnresolved := none
  hasTrashFile := true
  hasVaultTrash := true

def trashedNote (fingerprint generation : ℕ) : NoteWorld JsString :=
  { tombstonedNote fingerprint generation with entry := none }

def deleteNote : RemoteDelete JsString where
  world := tombstonedNote 7 1
  generation := 1
  fingerprint := 7
  phase := .queued

/-- The delete up to the call of the first primitive. -/
def untilTrash : List (RemoteDeleteEvent JsString) :=
  [.resume {}, .resume { baselineText := some [1] }, .resume {}, .resume {}, .read, .resume {},
    .read, .resume {}]

def untilTrashed : List (RemoteDeleteEvent JsString) :=
  untilTrash ++ [.world (trashedNote 7 1), .resume { trashResolved := true }, .resume {}]

/-- A clean note goes to the trash. -/
theorem remote_delete_trashes_clean_replica_applied :
    ∃ d' : RemoteDelete JsString, d'.calls.length = 1 ∧
      (∀ call ∈ d'.calls, call.Sound d') ∧
      ∀ call, d'.calls.getLast? = some call → call.Clean id d' := by
  have hst : handleRemoteDelete (tombstonedNote 7 0) = some deleteNote := rfl
  have hdel := remote_delete_trashes_clean_replica hst untilTrashed
    (untilTrashed.foldl (RemoteDelete.next id) deleteNote) rfl
  exact ⟨_, rfl, hdel.2.2.1, hdel.2.2.2.1⟩

/-- While the file goes to the trash its path gets a newer tombstone: the file is gone and the path
is not flagged. The admission expires: the path is not flagged under the same tombstone. -/
theorem remote_delete_ends_unflagged :
    handleRemoteDelete (tombstonedNote 7 0) = some deleteNote ∧
    (∃ events : List (RemoteDeleteEvent JsString), ∃ w,
      (events.foldl (RemoteDelete.next id) deleteNote).endedIn = some w ∧
      w.entry = none ∧ w.deleteFingerprint = some 8 ∧ w.preservedUnresolved = none) ∧
    ∃ events : List (RemoteDeleteEvent JsString), ∃ w,
      (events.foldl (RemoteDelete.next id) deleteNote).endedIn = some w ∧
      w.entry = some (.file 0) ∧ w.deleteFingerprint = some 7 ∧ w.preservedUnresolved = none := by
  refine ⟨rfl, ?_, ?_⟩
  · exact ⟨untilTrash ++ [.world (trashedNote 8 2), .resume { trashResolved := true },
      .resume {}], _, rfl, rfl, rfl, rfl⟩
  exact ⟨[.world { tombstonedNote 7 1 with isAdmissionCurrent := false }, .resume {}], _, rfl,
    rfl, rfl, rfl⟩

end Example

end Kaos.Sync
