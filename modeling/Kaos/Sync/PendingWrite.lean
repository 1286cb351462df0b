import Kaos.Lib.Run

/-! What the disk mirror owes to one path, and what `hasPendingWrite` says of it. -/
namespace Kaos.Sync

open Kaos.Lib

/-- What `scheduleWrite` does: nothing, for a path that is excluded or preserved unresolved, or it
debounces a write of an open or a closed file. -/
inductive WriteRoute
  | skipped
  | opened
  | closed
  deriving DecidableEq

/-- How `flushWrite` ends: settled, or in another way in which it may schedule a write again;
`retry` is the end of its attempts under an admission. -/
inductive FlushOutcome
  | written
  | unchanged
  | other (again : WriteRoute)
  | retry (again : WriteRoute)
  deriving DecidableEq

/-- A call of `flushWrite` waits for the lock, has last read the text after so many changes, has come
to its end, or has let the lock go a microtask later. -/
inductive ChainedFlush
  | waiting
  | running (read : ℕ)
  | ended
  | released
  deriving DecidableEq

/-- One path: its timers, its place in the queue, the last call in the chain of its lock, the calls,
and the two stamps. `changes` counts the admitted remote changes, `reads` has for each flush that
settled how many of them it had read, and `lastFlush` whether the last flush to end settled, and
after how many. -/
structure PathWriteState where
  now : ℕ := 0
  debounceTimer : Bool := false
  openWriteTimer : Bool := false
  pendingOpenWrite : Bool := false
  queued : Bool := false
  pathWriteLock : Option ℕ := none
  flushes : List ChainedFlush := []
  lastRemoteTextChangeAt : Option ℕ := none
  lastDiskWriteOkAt : Option ℕ := none
  changes : ℕ := 0
  reads : List ℕ := []
  lastFlush : Option (Bool × ℕ) := none

/-- A timer may fire whenever it is set. `read` is any reading of the text by a flush: at the start
of an attempt or in the check before it settles. -/
inductive PathWriteEvent
  | tick (elapsed : ℕ)
  | remoteChange (route : WriteRoute)
  | scheduleWrite (route : WriteRoute)
  | debounceFires
  | openTimerFires (defers : Option Bool)
  | opened (skips : Bool)
  | closed (skips : Bool)
  | flushOpen (skips : Bool)
  | drain (excluded : Bool)
  | flush
  | read (flush : ℕ)
  | settle (flush : ℕ) (outcome : FlushOutcome)
  | release (flush : ℕ)

namespace PathWriteState

variable (s : PathWriteState)

def hasPendingWrite : Bool :=
  if s.debounceTimer || s.openWriteTimer || s.pendingOpenWrite || s.queued ||
      s.pathWriteLock.isSome then true
  else
    match s.lastRemoteTextChangeAt, s.lastDiskWriteOkAt with
    | none, _ => false
    | some _, none => true
    | some changedAt, some writtenAt => changedAt > writtenAt

def scheduleOpenWrite (skips : Bool) : PathWriteState :=
  if skips then s else { s with pendingOpenWrite := true, openWriteTimer := true }

def scheduleWrite : WriteRoute → PathWriteState
  | .skipped => s
  | .opened => s.scheduleOpenWrite false
  | .closed => { s with debounceTimer := true }

/-- With an admission; without one it does nothing. -/
def scheduleRemoteWrite (route : WriteRoute) : PathWriteState :=
  { s with lastRemoteTextChangeAt := some s.now }.scheduleWrite route

def queueImmediateWrite (skips : Bool) : PathWriteState :=
  if skips then s else { s with queued := true }

/-- The timer is set again where the editor is busy. -/
def fireOpenTimer (defers : Option Bool) : PathWriteState :=
  if s.pendingOpenWrite then
    match defers with
    | some skips => { s with openWriteTimer := false }.scheduleOpenWrite skips
    | none => { s with openWriteTimer := false, pendingOpenWrite := false, queued := true }
  else { s with openWriteTimer := false }

def takeQueued (skips : Bool) : PathWriteState :=
  if s.queued then { s with queued := false }.scheduleOpenWrite skips else s

def takeDebounced (skips : Bool) : PathWriteState :=
  if s.debounceTimer then
    { s with debounceTimer := false, queued := false }.scheduleOpenWrite skips
  else s

def notifyFileOpened (skips : Bool) : PathWriteState := (s.takeQueued skips).takeDebounced skips

/-- The deferral of an open file ends in the queue. -/
def queueOpenWrite (skips : Bool) : PathWriteState :=
  if s.openWriteTimer || s.pendingOpenWrite then
    { s with openWriteTimer := false, pendingOpenWrite := false }.queueImmediateWrite skips
  else s

def queueDebounced (skips : Bool) : PathWriteState :=
  if s.debounceTimer then { s with debounceTimer := false }.queueImmediateWrite skips else s

def notifyFileClosed (skips : Bool) : PathWriteState :=
  (s.queueDebounced skips).queueOpenWrite skips

/-- `runPathWriteLocked`: the call is the last in the chain. -/
def startFlush : PathWriteState :=
  { s with pathWriteLock := some s.flushes.length, flushes := s.flushes ++ [.waiting] }

/-- The calls before it in the chain are done. -/
def isTurnOf (flush : ℕ) : Bool := (s.flushes.take flush).all (· = .released)

def endFlush (flush : ℕ) (settled : Bool) : PathWriteState :=
  { s with flushes := s.flushes.set flush .ended, lastFlush := some (settled, s.changes) }

def settleFlush (flush read : ℕ) : FlushOutcome → PathWriteState
  | .written =>
    { s.endFlush flush true with lastDiskWriteOkAt := some s.now, reads := s.reads ++ [read] }
  | .unchanged => { s.endFlush flush true with reads := s.reads ++ [read] }
  | .other again => (s.scheduleWrite again).endFlush flush false
  | .retry again => (s.scheduleRemoteWrite again).endFlush flush false

def next (s : PathWriteState) : PathWriteEvent → PathWriteState
  | .tick elapsed => { s with now := s.now + elapsed }
  | .remoteChange route => { s with changes := s.changes + 1 }.scheduleRemoteWrite route
  | .scheduleWrite route => s.scheduleWrite route
  | .debounceFires => if s.debounceTimer then { s with debounceTimer := false, queued := true } else s
  | .openTimerFires defers => if s.openWriteTimer then s.fireOpenTimer defers else s
  | .opened skips => s.notifyFileOpened skips
  | .closed skips => s.notifyFileClosed skips
  | .flushOpen skips => s.queueOpenWrite skips
  | .drain excluded =>
    if s.queued then
      if excluded then { s with queued := false } else { s with queued := false }.startFlush
    else s
  | .flush => s.startFlush
  | .read flush =>
    match s.flushes[flush]? with
    | some .waiting | some (.running _) =>
      if s.isTurnOf flush then { s with flushes := s.flushes.set flush (.running s.changes) } else s
    | _ => s
  | .settle flush outcome =>
    match s.flushes[flush]? with
    | some (.running read) => s.settleFlush flush read outcome
    | _ => s
  | .release flush =>
    match s.flushes[flush]? with
    | some .ended =>
      { s with
        flushes := s.flushes.set flush .released
        pathWriteLock := if s.pathWriteLock = some flush then none else s.pathWriteLock }
    | _ => s

/-- No timer, queue entry, deferral or lock. -/
structure Idle : Prop where
  debounceTimer : s.debounceTimer = false
  openWriteTimer : s.openWriteTimer = false
  pendingOpenWrite : s.pendingOpenWrite = false
  queued : s.queued = false
  pathWriteLock : s.pathWriteLock = none

/-- `hasPendingWrite` is true from a remote change until a flush has settled that had read it, and
false on an idle path whose last flush settled after the last change. -/
structure SaysOwed : Prop where
  owed : ∀ change < s.changes, (∀ read ∈ s.reads, read ≤ change) → s.hasPendingWrite = true
  settled : s.Idle → s.lastFlush = some (true, s.changes) → s.hasPendingWrite = false

/-- The remote change is later than the last write. -/
def StampsPending : Prop :=
  ∃ changedAt, s.lastRemoteTextChangeAt = some changedAt ∧
    ∀ writtenAt ∈ s.lastDiskWriteOkAt, writtenAt < changedAt

/-- A remote change comes later than the last write, a flush that writes has read the last change,
and one that finds the file unchanged has no change to settle. -/
def Undisturbed : PathWriteEvent → Prop
  | .remoteChange _ => ∀ writtenAt ∈ s.lastDiskWriteOkAt, writtenAt < s.now
  | .settle flush .written => ∀ read, s.flushes[flush]? = some (.running read) → read = s.changes
  | .settle flush .unchanged => ∀ read, s.flushes[flush]? = some (.running read) → ¬ s.StampsPending
  | _ => True

end PathWriteState

namespace PathWriteState

variable {s t u : PathWriteState}

theorem hasPendingWrite_iff : s.hasPendingWrite = true ↔ ¬ s.Idle ∨ s.StampsPending := by
  have hidle : s.Idle ↔ (s.debounceTimer || s.openWriteTimer || s.pendingOpenWrite || s.queued ||
      s.pathWriteLock.isSome) = false := by
    simp only [Bool.or_eq_false_iff, Option.isSome_eq_false_iff, Option.isNone_iff_eq_none]
    exact ⟨fun ⟨a, b, c, d, e⟩ => ⟨⟨⟨⟨a, b⟩, c⟩, d⟩, e⟩, fun ⟨⟨⟨⟨a, b⟩, c⟩, d⟩, e⟩ => ⟨a, b, c, d, e⟩⟩
  rw [hidle, hasPendingWrite, StampsPending]
  split
  · rename_i hbusy
    simp [hbusy]
  · rename_i hf
    cases s.lastRemoteTextChangeAt with
    | none => simp [hf]
    | some changedAt => cases s.lastDiskWriteOkAt <;> simp [hf]

/-- The two states agree on the stamps and on what has been settled. -/
structure SameStamps (s t : PathWriteState) : Prop where
  now : t.now = s.now
  changed : t.lastRemoteTextChangeAt = s.lastRemoteTextChangeAt
  written : t.lastDiskWriteOkAt = s.lastDiskWriteOkAt
  changes : t.changes = s.changes
  reads : t.reads = s.reads
  lastFlush : t.lastFlush = s.lastFlush

theorem SameStamps.trans (h : SameStamps s t) (h' : SameStamps t u) : SameStamps s u :=
  ⟨h'.now.trans h.now, h'.changed.trans h.changed, h'.written.trans h.written,
    h'.changes.trans h.changes, h'.reads.trans h.reads, h'.lastFlush.trans h.lastFlush⟩

variable (skips : Bool)

theorem sameStamps_scheduleOpenWrite : SameStamps s (s.scheduleOpenWrite skips) := by
  unfold scheduleOpenWrite
  split <;> exact ⟨rfl, rfl, rfl, rfl, rfl, rfl⟩

theorem sameStamps_scheduleWrite (route : WriteRoute) : SameStamps s (s.scheduleWrite route) := by
  cases route with
  | skipped | closed => exact ⟨rfl, rfl, rfl, rfl, rfl, rfl⟩
  | opened => exact sameStamps_scheduleOpenWrite false

theorem sameStamps_queueImmediateWrite : SameStamps s (s.queueImmediateWrite skips) := by
  unfold queueImmediateWrite
  split <;> exact ⟨rfl, rfl, rfl, rfl, rfl, rfl⟩

theorem sameStamps_fireOpenTimer (defers : Option Bool) :
    SameStamps s (s.fireOpenTimer defers) := by
  unfold fireOpenTimer
  split
  · cases defers with
    | none => exact ⟨rfl, rfl, rfl, rfl, rfl, rfl⟩
    | some skips =>
      exact .trans (t := { s with openWriteTimer := false }) ⟨rfl, rfl, rfl, rfl, rfl, rfl⟩
        (sameStamps_scheduleOpenWrite skips)
  · exact ⟨rfl, rfl, rfl, rfl, rfl, rfl⟩

theorem sameStamps_notifyFileOpened : SameStamps s (s.notifyFileOpened skips) := by
  have hq : SameStamps s (s.takeQueued skips) := by
    unfold takeQueued
    split
    · exact .trans (t := { s with queued := false }) ⟨rfl, rfl, rfl, rfl, rfl, rfl⟩
        (sameStamps_scheduleOpenWrite skips)
    · exact ⟨rfl, rfl, rfl, rfl, rfl, rfl⟩
  refine hq.trans ?_
  unfold notifyFileOpened
  generalize s.takeQueued skips = t
  unfold takeDebounced
  split
  · exact .trans (t := { t with debounceTimer := false, queued := false })
      ⟨rfl, rfl, rfl, rfl, rfl, rfl⟩ (sameStamps_scheduleOpenWrite skips)
  · exact ⟨rfl, rfl, rfl, rfl, rfl, rfl⟩

theorem sameStamps_queueOpenWrite : SameStamps s (s.queueOpenWrite skips) := by
  unfold queueOpenWrite
  split
  · exact .trans (t := { s with openWriteTimer := false, pendingOpenWrite := false })
      ⟨rfl, rfl, rfl, rfl, rfl, rfl⟩ (sameStamps_queueImmediateWrite skips)
  · exact ⟨rfl, rfl, rfl, rfl, rfl, rfl⟩

theorem sameStamps_notifyFileClosed : SameStamps s (s.notifyFileClosed skips) := by
  have hdeb : SameStamps s (s.queueDebounced skips) := by
    unfold queueDebounced
    split
    · exact .trans (t := { s with debounceTimer := false }) ⟨rfl, rfl, rfl, rfl, rfl, rfl⟩
        (sameStamps_queueImmediateWrite skips)
    · exact ⟨rfl, rfl, rfl, rfl, rfl, rfl⟩
  exact hdeb.trans (sameStamps_queueOpenWrite skips)

/-- The stamps tell what is owed. -/
structure Stamped (s : PathWriteState) : Prop where
  changed : ∀ changedAt ∈ s.lastRemoteTextChangeAt, changedAt ≤ s.now
  owed : ∀ change < s.changes, (∀ read ∈ s.reads, read ≤ change) → s.StampsPending
  settled : s.lastFlush = some (true, s.changes) → ¬ s.StampsPending
  last : ∀ settled changes, s.lastFlush = some (settled, changes) → changes ≤ s.changes

theorem Stamped.of_same (h : Stamped s) (hs : SameStamps s t) : Stamped t := by
  obtain ⟨hnow, hch, hw, hchan, hr, hl⟩ := hs
  constructor
  · rw [hch, hnow]
    exact h.changed
  · rw [hchan, hr, StampsPending, hch, hw]
    exact h.owed
  · rw [hchan, hl, StampsPending, hch, hw]
    exact h.settled
  rw [hchan, hl]
  exact h.last

theorem stamped_initial : Stamped {} where
  changed := nofun
  owed := nofun
  settled := nofun
  last := nofun

section

variable (h : Stamped s)
include h

theorem Stamped.remoteChange (route : WriteRoute)
    (hl : ∀ writtenAt ∈ s.lastDiskWriteOkAt, writtenAt < s.now) :
    Stamped (s.next (.remoteChange route)) := by
  have hch : Stamped { s with
      changes := s.changes + 1, lastRemoteTextChangeAt := some s.now } := by
    constructor
    · intro changedAt heq
      cases heq
      exact Nat.le_refl _
    · exact fun _ _ _ => ⟨s.now, rfl, hl⟩
    · intro heq
      exact absurd (h.last _ _ heq) (Nat.not_succ_le_self _)
    · exact fun settled changes heq => Nat.le_succ_of_le (h.last settled changes heq)
  exact hch.of_same (sameStamps_scheduleWrite route)

/-- A flush that wrote the last change leaves nothing owed. -/
theorem Stamped.written (flush : ℕ) : Stamped (s.settleFlush flush s.changes .written) := by
  constructor
  · exact h.changed
  · intro change hlt hr
    exact absurd (hr s.changes (List.mem_append_right _ (.head _))) (Nat.not_le.mpr hlt)
  · rintro - ⟨changedAt, hch, hl⟩
    exact absurd (h.changed changedAt hch) (Nat.not_le.mpr (hl s.now rfl))
  intro settled changes heq
  cases heq
  exact Nat.le_refl _

/-- Where nothing is owed, a flush that finds the file unchanged keeps it so. -/
theorem Stamped.unchanged (flush read : ℕ) (hn : ¬ s.StampsPending) :
    Stamped (s.settleFlush flush read .unchanged) := by
  constructor
  · exact h.changed
  · intro change hlt hr
    exact absurd (h.owed change hlt fun old hold => hr old (List.mem_append_left _ hold)) hn
  · exact fun _ => hn
  intro settled changes heq
  cases heq
  exact Nat.le_refl _

theorem Stamped.failed (flush : ℕ) : Stamped (s.endFlush flush false) where
  changed := h.changed
  owed := h.owed
  settled := nofun
  last := by
    intro settled changes heq
    cases heq
    exact Nat.le_refl _

/-- A remote write that a flush schedules once more is stamped anew. -/
theorem Stamped.retry (flush : ℕ) (again : WriteRoute) :
    Stamped ((s.scheduleRemoteWrite again).endFlush flush false) := by
  have hfailed := h.failed flush
  have hres : Stamped { s.endFlush flush false with lastRemoteTextChangeAt := some s.now } := by
    constructor
    · intro changedAt heq
      cases heq
      exact Nat.le_refl _
    · intro change hlt hr
      obtain ⟨changedAt, hch, hl⟩ := h.owed change hlt hr
      refine ⟨s.now, rfl, fun writtenAt hw => ?_⟩
      exact Nat.lt_of_lt_of_le (hl writtenAt hw) (h.changed changedAt hch)
    · nofun
    · exact hfailed.last
  refine hres.of_same ?_
  obtain ⟨hnow, hch, hw, hchan, hr, -⟩ :=
    sameStamps_scheduleWrite (s := { s with lastRemoteTextChangeAt := some s.now }) again
  exact ⟨hnow, hch, hw, hchan, hr, congrArg (fun n => some (false, n)) hchan⟩

theorem Stamped.next (e : PathWriteEvent) (hquiet : s.Undisturbed e) : Stamped (s.next e) := by
  cases e with
  | tick elapsed =>
    exact ⟨fun changedAt hat => Nat.le_add_right_of_le (h.changed changedAt hat), h.owed, h.settled,
      h.last⟩
  | remoteChange route => exact h.remoteChange route hquiet
  | scheduleWrite route => exact h.of_same (sameStamps_scheduleWrite route)
  | debounceFires | release flush =>
    rw [PathWriteState.next]
    split
    · exact h.of_same ⟨rfl, rfl, rfl, rfl, rfl, rfl⟩
    · exact h
  | openTimerFires defers =>
    rw [PathWriteState.next]
    split
    · exact h.of_same (sameStamps_fireOpenTimer defers)
    · exact h
  | opened skips => exact h.of_same (sameStamps_notifyFileOpened skips)
  | closed skips => exact h.of_same (sameStamps_notifyFileClosed skips)
  | flushOpen skips => exact h.of_same (sameStamps_queueOpenWrite skips)
  | drain excluded =>
    rw [PathWriteState.next]
    split
    · split <;> exact h.of_same ⟨rfl, rfl, rfl, rfl, rfl, rfl⟩
    · exact h
  | flush => exact h.of_same ⟨rfl, rfl, rfl, rfl, rfl, rfl⟩
  | read flush =>
    rw [PathWriteState.next]
    split
    · split
      · exact h.of_same ⟨rfl, rfl, rfl, rfl, rfl, rfl⟩
      · exact h
    · split
      · exact h.of_same ⟨rfl, rfl, rfl, rfl, rfl, rfl⟩
      · exact h
    · exact h
  | settle flush outcome =>
    rw [PathWriteState.next]
    split
    · rename_i read hrun
      cases outcome with
      | written =>
        have hr : read = s.changes := hquiet read hrun
        subst hr
        exact h.written flush
      | unchanged => exact h.unchanged flush read (hquiet read hrun)
      | other again => exact (h.of_same (sameStamps_scheduleWrite again)).failed flush
      | retry again => exact h.retry flush again
    · exact h

theorem Stamped.saysOwed : s.SaysOwed where
  owed := fun change hlt hr => hasPendingWrite_iff.mpr (.inr (h.owed change hlt hr))
  settled := by
    intro hidle hl
    rw [← Bool.not_eq_true, hasPendingWrite_iff]
    rintro (hbusy | hp)
    · exact hbusy hidle
    · exact h.settled hl hp

end

/-- In every run whose steps are undisturbed `hasPendingWrite` says in each state what is owed. -/
theorem hasPendingWrite_saysOwed (events : List PathWriteEvent)
    (hquiet : ∀ n e, events[n]? = some e → (stateAt next {} events n).Undisturbed e) (n : ℕ) :
    (stateAt next {} events n).SaysOwed := by
  have hstam : Stamped (stateAt next {} events n) :=
    stateAt_from (Nat.zero_le n) stamped_initial fun k e _ he h => h.next e (hquiet k e he)
  exact hstam.saysOwed

/-- A remote change of a closed file is written. -/
def writtenChange : List PathWriteEvent :=
  [.tick 1, .remoteChange .closed, .debounceFires, .drain false, .read 0, .settle 0 .written,
    .release 0]

theorem hasPendingWrite_saysOwed_written : (stateAt next {} writtenChange 7).SaysOwed := by
  refine hasPendingWrite_saysOwed writtenChange ?_ 7
  intro n e he
  match n, he with
  | 0, rfl | 2, rfl | 3, rfl | 4, rfl | 6, rfl => trivial
  | 1, rfl =>
    intro writtenAt hwrit
    cases hwrit
  | 5, rfl =>
    intro read hr
    cases hr
    rfl

/-- The flush of a change that finds its text on the disk settles, and the path stays pending. -/
theorem unchanged_stays_pending : ¬ (stateAt next {}
    [.tick 1, .remoteChange .closed, .debounceFires, .drain false, .read 0, .settle 0 .unchanged,
      .release 0] 7).SaysOwed := by
  intro h
  exact absurd (h.settled ⟨rfl, rfl, rfl, rfl, rfl⟩ rfl) (by decide)

end PathWriteState

end Kaos.Sync
