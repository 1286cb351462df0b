import Kaos.Lib.OrderedMap
import Kaos.Lib.Run
import Kaos.Paths.NormalizePath

/-! Waiting until the transfers of a path have settled. -/
namespace Kaos.Sync

open Kaos.Lib Kaos.Paths List Option

inductive TransferDirection
  | upload
  | download
  deriving DecidableEq

abbrev TransferKey := TransferDirection × JsString

structure TransferItem where
  processing : Bool
  generation : ℕ
  deriving DecidableEq

/-- A `processUpload` or `processDownload` that has not ended. -/
structure TransferAttempt where
  key : TransferKey
  generation : ℕ
  deriving DecidableEq

/-- Where `waitForTransfersToSettle` stands: its waiter is registered, the waiter has been resolved,
or the call has. -/
inductive SettlePhase
  | waiting
  | woken
  | settled
  deriving DecidableEq

structure SettleCall where
  normalized : JsString
  phase : SettlePhase
  deriving DecidableEq

/-- The queues and the sets of paths in flight hold a path with its direction. -/
structure PathTransfers where
  transferGenerations : OrderedMap JsString ℕ := .empty
  queue : OrderedMap TransferKey TransferItem := .empty
  inflight : List TransferKey := []
  running : List TransferAttempt := []
  calls : List SettleCall := []

namespace PathTransfers

variable (paths : NormalizePath) (s : PathTransfers)

def currentTransferGeneration (path : JsString) : ℕ :=
  (s.transferGenerations.get? (paths.normalize path)).getD 0

/-- `enqueueUpload` and `enqueueDownload`; an item that is being processed runs once more. -/
def enqueue (key : TransferKey) : PathTransfers :=
  let processing := ((s.queue.get? key).map (·.processing)).getD false
  { s with queue := s.queue.set key ⟨processing, s.currentTransferGeneration paths key.2⟩ }

def fenceTransfersForPath (path : JsString) : PathTransfers :=
  let normalized := paths.normalize path
  { s with
    transferGenerations :=
      s.transferGenerations.set normalized (s.currentTransferGeneration paths normalized + 1)
    queue := s.queue.filterKeys fun key => paths.normalize key.2 ≠ normalized }

/-- One turn of a drain loop. When it comes round, and which pending item is ready, is left open. -/
def start (key : TransferKey) : PathTransfers :=
  match s.queue.get? key with
  | some item =>
    if item.processing then s
    else
      { s with
        queue := s.queue.set key { item with processing := true }
        inflight := s.inflight.insert key
        running := s.running ++ [⟨key, item.generation⟩] }
  | none => s

/-- What an attempt does with its item: it is tried again, or it leaves the queue. -/
def release (key : TransferKey) (again : Bool) : PathTransfers :=
  { s with
    queue := match s.queue.get? key with
      | some item =>
        if again then s.queue.set key { item with processing := false } else s.queue.delete key
      | none => s.queue }

def notifyTransferSettled (path : JsString) : PathTransfers :=
  { s with
    calls := s.calls.map fun call =>
      if call.phase = .waiting ∧ call.normalized = paths.normalize path then
        { call with phase := .woken }
      else call }

/-- The `finally` of an attempt. -/
def finish (attempt : TransferAttempt) : PathTransfers :=
  if attempt ∈ s.running then
    { s with
      inflight := s.inflight.filter fun key => key ≠ attempt.key
      running := s.running.erase attempt }.notifyTransferSettled paths attempt.key.2
  else s

def hasInFlightTransferForPath (path : JsString) : Prop :=
  ∃ key ∈ s.inflight, paths.normalize key.2 = paths.normalize path

instance (path : JsString) : Decidable (s.hasInFlightTransferForPath paths path) :=
  inferInstanceAs (Decidable (∃ key ∈ _, _))

/-- The condition of the loop, with the registration of a waiter. -/
def settle (normalized : JsString) : SettleCall :=
  ⟨normalized, if s.hasInFlightTransferForPath paths normalized then .waiting else .settled⟩

def waitForTransfersToSettle (path : JsString) : PathTransfers :=
  { s with calls := s.calls ++ [s.settle paths (paths.normalize path)] }

/-- A call goes on once its waiter has been resolved. -/
def resume (i : ℕ) : PathTransfers :=
  { s with
    calls := match s.calls[i]? with
      | some call =>
        if call.phase = .woken then s.calls.set i (s.settle paths call.normalized) else s.calls
      | none => s.calls }

end PathTransfers

inductive TransferEvent
  | enqueue (key : TransferKey)
  | fence (path : JsString)
  | start (key : TransferKey)
  | release (key : TransferKey) (again : Bool)
  | finish (attempt : TransferAttempt)
  | wait (path : JsString)
  | resume (i : ℕ)

def PathTransfers.next (paths : NormalizePath) (s : PathTransfers) : TransferEvent → PathTransfers
  | .enqueue key => s.enqueue paths key
  | .fence path => s.fenceTransfersForPath paths path
  | .start key => s.start key
  | .release key again => s.release key again
  | .finish attempt => s.finish paths attempt
  | .wait path => s.waitForTransfersToSettle paths path
  | .resume i => s.resume paths i

def transfersAt (paths : NormalizePath) (events : List TransferEvent) (n : ℕ) : PathTransfers :=
  stateAt (PathTransfers.next paths) {} events n

namespace PathTransfers

/-- No attempt for the path is running. -/
def Idle (paths : NormalizePath) (s : PathTransfers) (normalized : JsString) : Prop :=
  ∀ attempt ∈ s.running, paths.normalize attempt.key.2 ≠ normalized

/-- From one state to the next a call resolves only when its path is idle, and when it is, the call
has resolved or does so at its next check. -/
structure SettlesExactly (paths : NormalizePath) (s s' : PathTransfers) : Prop where
  resolves : ∀ (i : ℕ) (call : SettleCall), s'.calls[i]? = some call → s.calls[i]? ≠ some call →
    call.phase = .settled → s'.Idle paths call.normalized
  opens : ∀ call ∈ s.calls, s.Idle paths call.normalized → call.phase = .settled ∨
    call.phase = .woken ∧ (s.settle paths call.normalized).phase = .settled

/-- A call at a waiter waits for a path in flight. -/
def Waits (paths : NormalizePath) (s : PathTransfers) (call : SettleCall) : Prop :=
  paths.normalize call.normalized = call.normalized ∧
    (call.phase = .waiting → s.hasInFlightTransferForPath paths call.normalized)

/-- Only running attempts are in flight, and every waiter waits for one of them. -/
structure Wakes (paths : NormalizePath) (s : PathTransfers) : Prop where
  backed : ∀ key ∈ s.inflight, ∃ attempt ∈ s.running, attempt.key = key
  waits : ∀ call ∈ s.calls, s.Waits paths call

/-- Every running attempt is in flight, and no two are for one path and direction. -/
structure Tracks (s : PathTransfers) : Prop where
  listed : ∀ attempt ∈ s.running, attempt.key ∈ s.inflight
  alone : (s.running.map (·.key)).Nodup

variable {paths : NormalizePath} {s : PathTransfers} {key : TransferKey} {normalized : JsString}
  {call : SettleCall} {i j : ℕ}

theorem settle_idle (h : s.Tracks) (hset : (s.settle paths normalized).phase = .settled)
    (hnorm : paths.normalize normalized = normalized) : s.Idle paths normalized := by
  intro attempt hatt heq
  rw [settle] at hset
  split at hset
  · cases hset
  · next hn => exact hn ⟨_, h.listed attempt hatt, heq.trans hnorm.symm⟩

theorem waits_settle (hnorm : paths.normalize normalized = normalized) :
    s.Waits paths (s.settle paths normalized) := by
  refine ⟨hnorm, fun hwait => ?_⟩
  rw [settle] at hwait
  split at hwait
  · assumption
  · cases hwait

/-- A call that goes on makes its check. -/
theorem resume_calls (hc : (s.resume paths i).calls[j]? = some call) :
    s.calls[j]? = some call ∨ ∃ old ∈ s.calls, call = s.settle paths old.normalized := by
  rw [resume] at hc
  split at hc
  · next old hold =>
    split at hc
    · rcases getElem?_set_cases hc with ⟨-, hs⟩ | ⟨-, rfl⟩
      · exact .inl hs
      · exact .inr ⟨old, mem_of_getElem? hold, rfl⟩
    · exact .inl hc
  · exact .inl hc

theorem Wakes.start (h : s.Wakes paths) (key : TransferKey) : (s.start key).Wakes paths := by
  unfold PathTransfers.start
  split
  · split
    · exact h
    refine ⟨?_, ?_⟩
    · intro other ho
      rcases mem_insert_iff.mp ho with rfl | hold
      · exact ⟨⟨other, _⟩, mem_append_right _ (mem_singleton_self _), rfl⟩
      · obtain ⟨attempt, hatt, heq⟩ := h.backed other hold
        exact ⟨attempt, mem_append_left _ hatt, heq⟩
    · intro call hc
      obtain ⟨hnorm, hwaits⟩ := h.waits call hc
      refine ⟨hnorm, fun hwait => ?_⟩
      obtain ⟨other, ho, heq⟩ := hwaits hwait
      exact ⟨other, mem_insert_of_mem ho, heq⟩
  · exact h

theorem Wakes.finish (h : s.Wakes paths) (attempt : TransferAttempt) :
    (s.finish paths attempt).Wakes paths := by
  unfold PathTransfers.finish
  split
  · refine ⟨?_, ?_⟩
    · intro key hkey
      obtain ⟨hold, hne⟩ := mem_filter.mp hkey
      obtain ⟨other, ho, rfl⟩ := h.backed key hold
      refine ⟨other, (mem_erase_of_ne ?_).mpr ho, rfl⟩
      rintro rfl
      simp at hne
    · intro call hc
      obtain ⟨old, hold, rfl⟩ := mem_map.mp hc
      obtain ⟨hnorm, hwaits⟩ := h.waits old hold
      split
      · exact ⟨hnorm, nofun⟩
      · next hnot =>
        refine ⟨hnorm, fun hwait => ?_⟩
        obtain ⟨key, hkey, heq⟩ := hwaits hwait
        refine ⟨key, mem_filter.mpr ⟨hkey, decide_eq_true ?_⟩, heq⟩
        rintro rfl
        exact hnot ⟨hwait, (heq.trans hnorm).symm⟩
  · exact h

theorem Wakes.next (h : s.Wakes paths) (event : TransferEvent) :
    (s.next paths event).Wakes paths := by
  cases event with
  | enqueue | fence | release => exact ⟨h.backed, h.waits⟩
  | start key => exact h.start key
  | finish attempt => exact h.finish attempt
  | wait path =>
    refine ⟨h.backed, fun call hc => ?_⟩
    rcases mem_append.mp hc with hold | hnew
    · exact h.waits call hold
    · rw [mem_singleton.mp hnew]
      exact waits_settle (paths.normalize_normalize path)
  | resume i =>
    refine ⟨h.backed, fun call hc => ?_⟩
    obtain ⟨j, hj⟩ := mem_iff_getElem?.mp hc
    rcases resume_calls hj with hold | ⟨old, hold, rfl⟩
    · exact h.waits call (mem_of_getElem? hold)
    · exact waits_settle (h.waits old hold).1

theorem wakes_transfersAt (paths : NormalizePath) (events : List TransferEvent) (n : ℕ) :
    (transfersAt paths events n).Wakes paths :=
  stateAt_invariant ⟨fun _ => nofun, fun _ => nofun⟩ (fun _ event h => h.next event) n

theorem Tracks.start (h : s.Tracks) (hsingle : ∀ attempt ∈ s.running, attempt.key ≠ key) :
    (s.start key).Tracks := by
  unfold PathTransfers.start
  split
  · split
    · exact h
    refine ⟨?_, ?_⟩
    · intro attempt hatt
      rcases mem_append.mp hatt with hold | hnew
      · exact mem_insert_of_mem (h.listed attempt hold)
      · rw [mem_singleton.mp hnew]
        exact mem_insert_self
    · dsimp only
      rw [map_append, nodup_append]
      refine ⟨h.alone, nodup_singleton _, ?_⟩
      intro old hold new hnew
      obtain ⟨attempt, hatt, rfl⟩ := mem_map.mp hold
      rw [mem_singleton.mp hnew]
      exact hsingle attempt hatt
  · exact h

theorem Tracks.finish (h : s.Tracks) (attempt : TransferAttempt) :
    (s.finish paths attempt).Tracks := by
  unfold PathTransfers.finish
  split
  · next hmem =>
    refine ⟨?_, h.alone.sublist ((erase_sublist).map _)⟩
    intro other ho
    obtain ⟨hne, ho⟩ := (h.alone.of_map.mem_erase_iff).mp ho
    refine mem_filter.mpr ⟨h.listed other ho, decide_eq_true fun heq => hne ?_⟩
    exact inj_on_of_nodup_map h.alone ho hmem heq
  · exact h

theorem Tracks.next (h : s.Tracks) (event : TransferEvent)
    (hsingle : ∀ key, event = .start key → ∀ attempt ∈ s.running, attempt.key ≠ key) :
    (s.next paths event).Tracks := by
  cases event with
  | enqueue | fence | release | wait | resume => exact ⟨h.listed, h.alone⟩
  | start key => exact h.start (hsingle key rfl)
  | finish attempt => exact h.finish attempt

/-- A call that resolves in a step was let through by the check of that step. -/
theorem settled_next {event : TransferEvent} (hc : (s.next paths event).calls[i]? = some call)
    (hnew : s.calls[i]? ≠ some call) (hset : call.phase = .settled) :
    call = s.settle paths call.normalized ∧ (s.next paths event).running = s.running := by
  cases event with
  | enqueue | fence | release => exact absurd hc hnew
  | start key =>
    rw [PathTransfers.next, PathTransfers.start] at hc
    split at hc
    · split at hc <;> exact absurd hc hnew
    · exact absurd hc hnew
  | finish attempt =>
    rw [PathTransfers.next, PathTransfers.finish] at hc
    split at hc
    · rw [notifyTransferSettled, getElem?_map] at hc
      obtain ⟨old, hold, rfl⟩ := map_eq_some_iff.mp hc
      split at hset
      · cases hset
      · next hnot =>
        rw [if_neg hnot] at hnew
        exact absurd hold hnew
    · exact absurd hc hnew
  | wait path =>
    rcases getElem?_append_one hc with hold | ⟨-, rfl⟩
    · exact absurd hold hnew
    · exact ⟨rfl, rfl⟩
  | resume j =>
    rcases resume_calls hc with hold | ⟨old, -, rfl⟩
    · exact absurd hold hnew
    · exact ⟨rfl, rfl⟩

variable {events : List TransferEvent}

theorem tracks_transfersAt (hs : ∀ n key, events[n]? = some (.start key) →
    ∀ attempt ∈ (transfersAt paths events n).running, attempt.key ≠ key) (n : ℕ) :
    (transfersAt paths events n).Tracks := by
  refine stateAt_from (Nat.zero_le n) ⟨nofun, nodup_nil⟩ fun k event _ hev h => ?_
  refine h.next event fun key hkey => hs k key ?_
  rw [hev, hkey]

/-- While no attempt starts for a path and direction that has another one running, the calls that
wait for the transfers of a path resolve just when they should. -/
theorem transfers_settle_exactly (hsingle : ∀ n key, events[n]? = some (.start key) →
    ∀ attempt ∈ (transfersAt paths events n).running, attempt.key ≠ key) (n : ℕ) :
    SettlesExactly paths (transfersAt paths events n) (transfersAt paths events (n + 1)) := by
  have htracks := tracks_transfersAt hsingle n
  have hwakes := wakes_transfersAt paths events n
  refine ⟨?_, ?_⟩
  · intro i call hc hnew hs
    rcases stateAt_step (PathTransfers.next paths) {} events n with ⟨-, h⟩ | ⟨event, -, h⟩
    · exact absurd ((congrArg (·.calls[i]?) h).symm.trans hc) hnew
    have hwaits := (wakes_transfersAt paths events (n + 1)).waits call (mem_of_getElem? hc)
    change transfersAt paths events (n + 1) = (transfersAt paths events n).next paths event at h
    rw [h] at hc ⊢
    obtain ⟨hch, hr⟩ := settled_next hc hnew hs
    have hidle := settle_idle htracks (hch ▸ hs) hwaits.1
    rwa [Idle, hr]
  · intro call hc hidle
    obtain ⟨hnor, hwaits⟩ := hwakes.waits call hc
    have hn : ¬ (transfersAt paths events n).hasInFlightTransferForPath paths call.normalized := by
      rintro ⟨key, hkey, heq⟩
      obtain ⟨attempt, hatt, rfl⟩ := hwakes.backed key hkey
      exact hidle attempt hatt (heq.trans hnor)
    cases hph : call.phase with
    | waiting => exact absurd (hwaits hph) hn
    | settled => exact .inl rfl
    | woken =>
      refine .inr ⟨rfl, ?_⟩
      rw [settle, if_neg hn]

/-- A download of a path outlasts an upload of it, and an upload of another path outlasts both. -/
def threeTransfers : List TransferEvent :=
  [.enqueue (.upload, js "a"), .enqueue (.download, js "a"), .enqueue (.upload, js "b"),
    .start (.upload, js "a"), .start (.download, js "a"), .wait (js "a"), .start (.upload, js "b"),
    .wait (js "b"), .finish ⟨(.upload, js "a"), 0⟩, .resume 0, .finish ⟨(.download, js "a"), 0⟩,
    .resume 0]

theorem transfers_settle_upload :
    (∀ n < 12, SettlesExactly .plain (transfersAt .plain threeTransfers n)
      (transfersAt .plain threeTransfers (n + 1))) ∧
    (transfersAt .plain threeTransfers 10).calls.map (·.phase) = [.waiting, .waiting] ∧
    (transfersAt .plain threeTransfers 12).calls.map (·.phase) = [.settled, .waiting] := by
  refine ⟨fun n _ => transfers_settle_exactly ?_ n, by decide, by decide⟩
  intro k key h attempt hatt
  match k with
  | 3 => cases hatt
  | 4 | 6 =>
    cases h
    exact ne_of_mem_of_not_mem (mem_map_of_mem hatt) (by decide)
  | 0 | 1 | 2 | 5 | 7 | 8 | 9 | 10 | 11 => cases h
  | k + 12 => cases h

/-- A fence lets a second upload start beside the first, and the end of the first lets a call
through. -/
def fencedRun : List TransferEvent :=
  [.enqueue (.upload, js "a"), .enqueue (.upload, js "b"), .start (.upload, js "a"),
    .start (.upload, js "b"), .fence (js "a"), .enqueue (.upload, js "a"),
    .finish ⟨(.upload, js "b"), 0⟩, .start (.upload, js "a"), .wait (js "a"),
    .finish ⟨(.upload, js "a"), 0⟩, .resume 0]

theorem barrier_opens_early : ¬ SettlesExactly .plain (transfersAt .plain fencedRun 10)
    (transfersAt .plain fencedRun 11) :=
  fun h => absurd (h.resolves 0 ⟨js "a", .settled⟩ (by decide) (by decide) rfl
    ⟨(.upload, js "a"), 1⟩ (by decide)) (by decide)

end PathTransfers

end Kaos.Sync
