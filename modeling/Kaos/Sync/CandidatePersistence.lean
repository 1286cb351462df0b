import Kaos.Lib.Base64
import Kaos.Lib.Run
import Kaos.Sync.ServerAckTracker

/-! What is stored of the candidate, over runs of a tracker and its store. -/
namespace Kaos.Sync

open Kaos.Lib Kaos.Lib.Base64 Kaos.Yjs ServerAckTracker List

/-- Vectors as bytes, stored in base64. -/
abbrev Tracker := ServerAckTracker (List UInt8) JsString

abbrev StoredState := PersistedCandidateState JsString

/-- An empty string counts as none. -/
def readCandidate (s : JsString) : Option (List UInt8) :=
  if s = [] then none else decodeBytesBase64 s

/-- The record an operation leaves, whatever there was. -/
def StoreOp.outcome : StoreOp JsString → Option StoredState
  | .save state => some state
  | .clear => none

inductive StartupPhase
  | notStarted
  | loading
  | read (stored : Option StoredState)
  | resolved

/-- `store` is what a load would give; `landed` numbers the operations that took effect. -/
structure ReceiptWorld where
  tracker : Tracker := {}
  store : Option StoredState
  startup : StartupPhase := .notStarted
  landed : List ℕ := []

inductive ReceiptEvent
  | attach (provider persistence : Option ℕ)
  | update (origin : Option ℕ) (sv : List UInt8) (now : ℕ)
  | echo (serverSv : List UInt8) (now : ℕ)
  | clear (clearStore : Bool)
  | onStartup
  | load (throws : Bool)
  | loaded (currentSv : List UInt8) (now : ℕ)
  | persist (succeeds : Bool)

section Steps

variable (decodeStateVector : List UInt8 → Option StateVector)

def receiptNext (w : ReceiptWorld) : ReceiptEvent → ReceiptWorld
  | .attach provider persistence => { w with tracker := w.tracker.attach provider persistence }
  | .update origin sv now =>
    { w with tracker := w.tracker.onUpdate encodeBytesBase64 origin sv now }
  | .echo serverSv now =>
    { w with
      tracker := w.tracker.recordServerSvEcho (isStateVectorGe decodeStateVector)
        encodeBytesBase64 serverSv now }
  | .clear clearStore => { w with tracker := w.tracker.clearLocalReceiptState clearStore }
  | .onStartup =>
    match w.startup with
    | .notStarted => { w with tracker := w.tracker.onStartup, startup := .loading }
    | _ => w
  | .load throws =>
    match w.startup with
    | .loading => { w with startup := .read (if throws then none else w.store) }
    | _ => w
  | .loaded currentSv now =>
    match w.startup with
    | .read stored =>
      { w with
        tracker := w.tracker.startupLoaded (isStateVectorGe decodeStateVector) encodeBytesBase64
          readCandidate stored currentSv now
        startup := .resolved }
    | _ => w
  | .persist succeeds =>
    match w.tracker.persistChain with
    | [] => w
    | (k, op) :: _ =>
      { w with
        tracker := w.tracker.persistSettled succeeds
        store := if succeeds then op.outcome else w.store
        landed := if succeeds then w.landed ++ [k] else w.landed }

end Steps

/-- A run of events, with anything in the store at first. -/
structure ReceiptRun where
  decodeStateVector : List UInt8 → Option StateVector
  stored : Option StoredState
  events : List ReceiptEvent

/-- The world after some events. -/
def ReceiptRun.world (run : ReceiptRun) (n : ℕ) : ReceiptWorld :=
  stateAt (receiptNext run.decodeStateVector) { store := run.stored } run.events n

/-- What the operations of a chain leave when all of them succeed. -/
def drained (stored : Option StoredState) (chain : List (ℕ × StoreOp JsString)) :
    Option StoredState := chain.foldl (fun _ op => op.2.outcome) stored

/-- What is stored once the chain is drained. -/
def ReceiptWorld.left (w : ReceiptWorld) : Option StoredState :=
  drained w.store w.tracker.persistChain

/-- The candidate vector, capture time and last known echo time of a record. -/
def decodedReceipt (stored : Option StoredState) : Option (List UInt8) × Option ℕ × Option ℕ :=
  match stored with
  | none => (none, none, none)
  | some state => (state.candidateSvBase64.bind decodeBytesBase64, state.candidateCapturedAt,
      state.lastKnownServerReceiptEchoAt)

/-- After startup the drained chain leaves the tracker's receipt, and operations take effect in the
order they were enqueued in. -/
structure SurvivesCrash (run : ReceiptRun) : Prop where
  left : ∀ n, (run.world n).startup = .resolved →
    decodedReceipt (run.world n).left = (run.world n).tracker.receipt
  ordered : ∀ n, (run.world n).landed.Pairwise (· < ·)

/-- Startup stores another candidate, or none, in the place of the one it validates. -/
def Replaces (decodeStateVector : List UInt8 → Option StateVector) (t : Tracker)
    (currentSv candidate : List UInt8) : Prop :=
  t.attached ≠ none ∧ svEqual (isStateVectorGe decodeStateVector) currentSv candidate = false

/-- The event enqueues an operation on the store. -/
def ReceiptWorld.Stores (w : ReceiptWorld) : ReceiptEvent → Prop
  | .update origin _ _ => w.tracker.hasStore = true ∧ w.tracker.tracks origin = true
  | .echo _ _ | .clear true => w.tracker.hasStore = true
  | _ => False

namespace ReceiptRun

variable (run : ReceiptRun)

def StoresAt (k : ℕ) : Prop := ∃ event, run.events[k]? = some event ∧ (run.world k).Stores event

/-- No event has stored anything yet. -/
def Untouched (n : ℕ) : Prop := ∀ k < n, ¬ run.StoresAt k

/-- The last event that has stored something. -/
def LastStored (k n : ℕ) : Prop :=
  k < n ∧ run.StoresAt k ∧ ∀ i, k < i → i < n → ¬ run.StoresAt i

/-- Memory alone has been cleared after an event. -/
def ClearedSince (k n : ℕ) : Prop := ∃ i, k < i ∧ i < n ∧ run.events[i]? = some (.clear false)

/-- What the end of startup and a clearing of memory alone find. Without a readable candidate,
memory holds what is stored: the record as it was, or what was stored last, not cleared since. With
one, startup saves, or memory holds the record's candidate and times, or these were stored last. -/
def LosesNoReceipt (n : ℕ) : ReceiptEvent → Prop
  | .loaded currentSv _ => ∀ answer, (run.world n).startup = .read answer →
    match storedCandidate readCandidate answer, (run.world n).tracker.lastUnconfirmedCandidateSv with
    | none, _ =>
      (run.Untouched n → decodedReceipt run.stored = (run.world n).tracker.receipt) ∧
        ∀ k, run.LastStored k n → run.ClearedSince k n →
          (run.world (k + 1)).tracker.receipt = (none, none, none)
    | some (sv, state), none =>
      Replaces run.decodeStateVector (run.world n).tracker currentSv sv ∨
        ∀ k, run.LastStored k n → (run.world (k + 1)).tracker.receipt =
          (some sv, state.candidateCapturedAt, state.lastKnownServerReceiptEchoAt)
    | some (sv, state), some live =>
      Replaces run.decodeStateVector (run.world n).tracker currentSv live ∨
        (run.Untouched n → live = sv ∧
          (run.world n).tracker.candidateCapturedAt = state.candidateCapturedAt) ∧
        (¬ run.Untouched n → (run.world n).tracker.lastKnownServerReceiptEchoAt =
          state.lastKnownServerReceiptEchoAt)
  | .clear false => (run.world n).startup = .resolved →
    (run.world n).tracker.receipt = (none, none, none)
  | _ => True

end ReceiptRun

variable {decodeStateVector : List UInt8 → Option StateVector} {t : Tracker} {w : ReceiptWorld}
  {event : ReceiptEvent} {stored : Option StoredState} {op : StoreOp JsString}

/-- What an operation of the tracker can do to its chain. -/
def Queues (t t' : Tracker) : Prop :=
  t'.hasStore = t.hasStore ∧
    (t'.enqueued = t.enqueued ∧ t'.persistChain = t.persistChain ∨
      ∃ op, t'.enqueued = t.enqueued + 1 ∧ t'.persistChain = t.persistChain ++ [(t.enqueued, op)])

theorem queues_persistAsync : Queues t (t.persistAsync encodeBytesBase64) := by
  unfold persistAsync
  split
  · exact ⟨rfl, .inr ⟨_, rfl, rfl⟩⟩
  · exact ⟨rfl, .inl ⟨rfl, rfl⟩⟩

theorem queues_onUpdate (origin : Option ℕ) (sv : List UInt8) (now : ℕ) :
    Queues t (t.onUpdate encodeBytesBase64 origin sv now) := by
  unfold onUpdate
  split
  · exact queues_persistAsync (t := { t with
      lastUnconfirmedCandidateSv := some sv
      candidateCapturedAt := some now
      serverAppliedLocalState := some false })
  · exact ⟨rfl, .inl ⟨rfl, rfl⟩⟩

theorem queues_clear (clearStore : Bool) : Queues t (t.clearLocalReceiptState clearStore) := by
  unfold clearLocalReceiptState
  extract_lets cleared
  split
  · exact ⟨rfl, .inr ⟨_, rfl, rfl⟩⟩
  · exact ⟨rfl, .inl ⟨rfl, rfl⟩⟩

theorem queues_recordServerSvEcho (isGe : List UInt8 → List UInt8 → Bool) (serverSv : List UInt8)
    (now : ℕ) : Queues t (t.recordServerSvEcho isGe encodeBytesBase64 serverSv now) := by
  unfold recordServerSvEcho
  extract_lets seen confirmed
  have h : Queues confirmed (confirmed.persistAsync encodeBytesBase64) := queues_persistAsync
  have hse : confirmed.hasStore = t.hasStore ∧ confirmed.enqueued = t.enqueued ∧
      confirmed.persistChain = t.persistChain := by
    unfold confirmed
    split <;> exact ⟨rfl, rfl, rfl⟩
  obtain ⟨hs, henq, hchain⟩ := hse
  rwa [Queues, hs, henq, hchain] at h

theorem queues_startupLoaded (isGe : List UInt8 → List UInt8 → Bool) (currentSv : List UInt8)
    (now : ℕ) : Queues t (t.startupLoaded isGe encodeBytesBase64 readCandidate stored currentSv
      now) := by
  unfold startupLoaded
  split
  · exact ⟨rfl, .inl ⟨rfl, rfl⟩⟩
  · next sv state _ =>
    have hres : (t.restore sv state).hasStore = t.hasStore ∧
        (t.restore sv state).enqueued = t.enqueued ∧
        (t.restore sv state).persistChain = t.persistChain := by
      unfold restore
      split <;> exact ⟨rfl, rfl, rfl⟩
    obtain ⟨hs, henq, hchain⟩ := hres
    rw [Queues, ← hs, ← henq, ← hchain]
    unfold validateCandidateAgainstDoc
    split
    · split
      · exact ⟨rfl, .inl ⟨rfl, rfl⟩⟩
      split
      · exact queues_persistAsync (t := { t.restore sv state with
          lastUnconfirmedCandidateSv := some currentSv
          candidateCapturedAt := some now
          serverAppliedLocalState := some false })
      exact queues_persistAsync (t := { t.restore sv state with
        lastUnconfirmedCandidateSv := none
        candidateCapturedAt := none
        serverAppliedLocalState := none })
    · exact ⟨rfl, .inl ⟨rfl, rfl⟩⟩

theorem persistChain_persistSettled (succeeds : Bool) :
    (t.persistSettled succeeds).persistChain = t.persistChain.tail := by
  cases succeeds <;> rfl

theorem enqueued_persistSettled (succeeds : Bool) :
    (t.persistSettled succeeds).enqueued = t.enqueued := by
  cases succeeds <;> rfl

theorem hasStore_persistSettled (succeeds : Bool) :
    (t.persistSettled succeeds).hasStore = t.hasStore := by
  cases succeeds <;> rfl

theorem receipt_persistSettled (succeeds : Bool) :
    (t.persistSettled succeeds).receipt = t.receipt := by
  cases succeeds <;> rfl

/-- The numbers of the operations that took effect and of those still in the chain. -/
def ReceiptWorld.numbers (w : ReceiptWorld) : List ℕ :=
  w.landed ++ w.tracker.persistChain.map Prod.fst

/-- Operations are numbered in the order they are enqueued in. -/
structure InOrder (w : ReceiptWorld) : Prop where
  pairwise : w.numbers.Pairwise (· < ·)
  lt : ∀ k ∈ w.numbers, k < w.tracker.enqueued

theorem InOrder.queues (h : InOrder w) {t' : Tracker} (hqueues : Queues w.tracker t')
    (startup : StartupPhase) : InOrder { w with tracker := t', startup } := by
  rcases hqueues.2 with ⟨henq, hchain⟩ | ⟨op, henq, hchain⟩
  · constructor
    · rw [ReceiptWorld.numbers, hchain]
      exact h.pairwise
    rw [ReceiptWorld.numbers, hchain, henq]
    exact h.lt
  have hnum : ({ w with tracker := t', startup } : ReceiptWorld).numbers =
      w.numbers ++ [w.tracker.enqueued] := by
    rw [ReceiptWorld.numbers, ReceiptWorld.numbers, hchain, map_append, append_assoc]
    rfl
  constructor
  · rw [hnum, pairwise_append]
    refine ⟨h.pairwise, pairwise_singleton _ _, ?_⟩
    intro k hk j hj
    rw [mem_singleton.mp hj]
    exact h.lt k hk
  rw [hnum, henq]
  intro k hk
  rcases mem_append.mp hk with hk | hk
  · exact (h.lt k hk).trans (Nat.lt_succ_self _)
  rw [mem_singleton.mp hk]
  exact Nat.lt_succ_self _

theorem inOrder_next (h : InOrder w) (event : ReceiptEvent) :
    InOrder (receiptNext decodeStateVector w event) := by
  cases event with
  | attach provider persistence => exact ⟨h.pairwise, h.lt⟩
  | update origin sv now => exact h.queues (queues_onUpdate origin sv now) _
  | echo serverSv now => exact h.queues (queues_recordServerSvEcho _ serverSv now) _
  | clear clearStore => exact h.queues (queues_clear clearStore) _
  | onStartup | load throws =>
    rw [receiptNext]
    split
    · exact ⟨h.pairwise, h.lt⟩
    · exact h
  | loaded currentSv now =>
    rw [receiptNext]
    split
    · exact h.queues (queues_startupLoaded _ currentSv now) _
    · exact h
  | persist succeeds =>
    rw [receiptNext]
    split
    · exact h
    · next k op chain hchain =>
      -- An operation that fails drops out, one that takes effect only changes lists.
      have hsub : ((if succeeds then w.landed ++ [k] else w.landed) ++
          chain.map Prod.fst).Sublist w.numbers := by
        rw [ReceiptWorld.numbers, hchain, map_cons]
        cases succeeds with
        | true | false => simp
      have hnum : ({ w with
          tracker := w.tracker.persistSettled succeeds
          store := if succeeds then op.outcome else w.store
          landed := if succeeds then w.landed ++ [k] else w.landed } : ReceiptWorld).numbers =
            (if succeeds then w.landed ++ [k] else w.landed) ++ chain.map Prod.fst := by
        rw [ReceiptWorld.numbers, persistChain_persistSettled, hchain]
        rfl
      constructor
      · rw [hnum]
        exact h.pairwise.sublist hsub
      rw [hnum, enqueued_persistSettled]
      intro j hj
      exact h.lt j (hsub.subset hj)

theorem drained_append (chain : List (ℕ × StoreOp JsString)) (k : ℕ) :
    drained stored (chain ++ [(k, op)]) = op.outcome := by
  rw [drained, foldl_append]
  rfl

theorem decodedReceipt_capturedState :
    decodedReceipt (some (t.capturedState encodeBytesBase64)) = t.receipt := by
  unfold decodedReceipt capturedState receipt
  cases t.lastUnconfirmedCandidateSv with
  | none => rfl
  | some sv => simp only [Option.map_some, Option.bind_some, decodeBytesBase64_encodeBytesBase64]

/-- A save captures the receipt as it stands. -/
theorem recorded_persistAsync (h : t.hasStore = true) :
    decodedReceipt (drained stored (t.persistAsync encodeBytesBase64).persistChain) =
      (t.persistAsync encodeBytesBase64).receipt := by
  unfold persistAsync
  rw [if_pos h]
  unfold enqueuePersistence
  rw [drained_append, StoreOp.outcome, decodedReceipt_capturedState]
  rfl

theorem recorded_recordServerSvEcho (h : t.hasStore = true)
    (isGe : List UInt8 → List UInt8 → Bool) (serverSv : List UInt8) (now : ℕ) :
    decodedReceipt (drained stored
        (t.recordServerSvEcho isGe encodeBytesBase64 serverSv now).persistChain) =
      (t.recordServerSvEcho isGe encodeBytesBase64 serverSv now).receipt := by
  unfold recordServerSvEcho
  extract_lets seen confirmed
  apply recorded_persistAsync
  unfold confirmed
  split <;> exact h

/-- A candidate that validation does not keep is replaced or discarded in the store as well. -/
theorem recorded_validate {candidate : List UInt8} (stored : Option StoredState)
    (h : t.hasStore = true) (hcand : t.lastUnconfirmedCandidateSv = some candidate)
    (isGe : List UInt8 → List UInt8 → Bool) (currentSv : List UInt8) (now : ℕ) :
    decodedReceipt (drained stored (t.validateCandidateAgainstDoc isGe encodeBytesBase64 currentSv
        now).persistChain) =
      (t.validateCandidateAgainstDoc isGe encodeBytesBase64 currentSv now).receipt ↔
        t.attached ≠ none ∧ svEqual isGe currentSv candidate = false ∨
          decodedReceipt (drained stored t.persistChain) = t.receipt := by
  unfold validateCandidateAgainstDoc
  rw [hcand]
  cases hatt : t.attached with
  | none => simp
  | some origins =>
    dsimp only
    cases hequal : svEqual isGe currentSv candidate with
    | true => simp
    | false =>
      simp only [Bool.false_eq_true, ↓reduceIte, ne_eq, reduceCtorEq, not_false_eq_true, and_self,
        true_or, iff_true]
      split
      all_goals
        apply recorded_persistAsync
        exact h

theorem restore_spec (sv : List UInt8) (state : StoredState) :
    (t.restore sv state).hasStore = t.hasStore ∧ (t.restore sv state).attached = t.attached ∧
      (t.restore sv state).persistChain = t.persistChain ∧
      (t.restore sv state).lastUnconfirmedCandidateSv =
        some (t.lastUnconfirmedCandidateSv.getD sv) ∧
      (t.restore sv state).receipt = (some (t.lastUnconfirmedCandidateSv.getD sv),
        if t.lastUnconfirmedCandidateSv = none then state.candidateCapturedAt
          else t.candidateCapturedAt,
        state.lastKnownServerReceiptEchoAt) := by
  unfold restore receipt
  cases hcand : t.lastUnconfirmedCandidateSv with
  | none => exact ⟨rfl, rfl, rfl, rfl, rfl⟩
  | some candidate => exact ⟨rfl, rfl, rfl, rfl, by simp⟩

/-- Startup restores a candidate and keeps it, or stores what it puts in its place. -/
theorem recorded_startupLoaded (h : t.hasStore = true) (answer : Option StoredState)
    (currentSv : List UInt8) (now : ℕ) :
    (decodedReceipt (drained stored (t.startupLoaded (isStateVectorGe decodeStateVector)
        encodeBytesBase64 readCandidate answer currentSv now).persistChain) =
      (t.startupLoaded (isStateVectorGe decodeStateVector) encodeBytesBase64 readCandidate answer
        currentSv now).receipt) ↔
      match storedCandidate readCandidate answer, t.lastUnconfirmedCandidateSv with
      | none, _ => decodedReceipt (drained stored t.persistChain) = t.receipt
      | some (sv, state), none => Replaces decodeStateVector t currentSv sv ∨
        decodedReceipt (drained stored t.persistChain) =
          (some sv, state.candidateCapturedAt, state.lastKnownServerReceiptEchoAt)
      | some (_, state), some live => Replaces decodeStateVector t currentSv live ∨
        decodedReceipt (drained stored t.persistChain) =
          (some live, t.candidateCapturedAt, state.lastKnownServerReceiptEchoAt) := by
  unfold startupLoaded
  cases storedCandidate readCandidate answer with
  | none => exact Iff.rfl
  | some found =>
    obtain ⟨sv, state⟩ := found
    obtain ⟨hs, hatt, hchain, hcand, hrec⟩ := restore_spec (t := t) sv state
    have hval := recorded_validate stored (hs.trans h) hcand
      (isStateVectorGe decodeStateVector) currentSv now
    rw [hatt, hchain, hrec] at hval
    cases hl : t.lastUnconfirmedCandidateSv with rw [hl] at hval
    | none => exact hval
    | some live => exact hval

/-- The event ends the load of startup. -/
def ReceiptWorld.EndsLoad (w : ReceiptWorld) (event : ReceiptEvent) : Prop :=
  ∃ currentSv now answer, event = .loaded currentSv now ∧ w.startup = .read answer

/-- What is stored is the receipt. -/
theorem next_of_stores (h : w.Stores event) :
    (receiptNext decodeStateVector w event).startup = w.startup ∧
      (receiptNext decodeStateVector w event).tracker.hasStore = true ∧
      decodedReceipt (receiptNext decodeStateVector w event).left =
        (receiptNext decodeStateVector w event).tracker.receipt := by
  cases event with
  | update origin sv now =>
    refine ⟨rfl, (queues_onUpdate origin sv now).1.trans h.1, ?_⟩
    rw [receiptNext, ReceiptWorld.left, onUpdate, if_pos h.2]
    exact recorded_persistAsync h.1
  | echo serverSv now =>
    exact ⟨rfl, (queues_recordServerSvEcho _ serverSv now).1.trans h,
      recorded_recordServerSvEcho h _ serverSv now⟩
  | clear clearStore =>
    cases clearStore with
    | false => exact h.elim
    | true =>
      have hopen : w.tracker.hasStore = true := h
      refine ⟨rfl, (queues_clear true).1.trans h, ?_⟩
      rw [receiptNext, ReceiptWorld.left]
      unfold clearLocalReceiptState
      dsimp only
      rw [Bool.true_and, if_pos hopen, enqueuePersistence, drained_append]
      rfl
  | _ => exact h.elim

/-- What an event does that stores nothing and does not end the load of startup. -/
structure Passes (w : ReceiptWorld) (event : ReceiptEvent) (w' : ReceiptWorld) : Prop where
  hasStore : w.tracker.hasStore = true → w'.tracker.hasStore = true
  startup : w'.startup = w.startup ∨
    w.startup = .notStarted ∧ w'.startup = .loading ∧ w'.tracker.hasStore = true ∨
    w.startup = .loading ∧ ∃ answer, w'.startup = .read answer ∧ (answer = none ∨ answer = w.store)
  idle : w.tracker.persistChain = [] → w'.store = w.store ∧ w'.tracker.persistChain = []
  left : event ≠ .persist false → w'.left = w.left
  receipt : w.tracker.hasStore = true →
    event = .clear false ∧ w'.tracker.receipt = (none, none, none) ∨
      event ≠ .clear false ∧ w'.tracker.receipt = w.tracker.receipt

theorem passes_next (h : ¬ w.Stores event) (hload : ¬ w.EndsLoad event) :
    Passes w event (receiptNext decodeStateVector w event) := by
  have hsa : event ≠ .clear false → Passes w event w := fun hev =>
    ⟨id, .inl rfl, fun h => ⟨rfl, h⟩, fun _ => rfl, fun _ => .inr ⟨hev, rfl⟩⟩
  -- without a store the receipt is free to change
  have hclosed : ∀ t : Tracker, ¬ w.tracker.hasStore = true → t.hasStore = w.tracker.hasStore →
      t.persistChain = w.tracker.persistChain →
      Passes w event { w with tracker := t.persistAsync encodeBytesBase64 } := by
    intro t hclosed hs hchain
    rw [persistAsync, if_neg (hs ▸ hclosed)]
    refine ⟨fun hopen => absurd hopen hclosed, .inl rfl, fun h => ⟨rfl, hchain.trans h⟩, ?_,
      fun hopen => absurd hopen hclosed⟩
    intro _
    rw [ReceiptWorld.left, hchain]
    rfl
  cases event with
  | attach provider persistence =>
    exact ⟨id, .inl rfl, fun h => ⟨rfl, h⟩, fun _ => rfl, fun _ => .inr ⟨nofun, rfl⟩⟩
  | update origin sv now =>
    rw [receiptNext, onUpdate]
    split
    · next htracks => exact hclosed _ (fun hopen => h ⟨hopen, htracks⟩) rfl rfl
    · exact hsa nofun
  | echo serverSv now =>
    apply hclosed _ h <;> dsimp only <;> split <;> rfl
  | clear clearStore =>
    rw [receiptNext, clearLocalReceiptState]
    cases clearStore with
    | true =>
      have hshut : ¬ w.tracker.hasStore = true := h
      rw [Bool.true_and, if_neg hshut]
      exact ⟨id, .inl rfl, fun h => ⟨rfl, h⟩, fun _ => rfl, fun hopen => absurd hopen h⟩
    | false => exact ⟨id, .inl rfl, fun h => ⟨rfl, h⟩, fun _ => rfl, fun _ => .inl ⟨rfl, rfl⟩⟩
  | onStartup =>
    rw [receiptNext]
    split
    · next hstar =>
      exact ⟨fun _ => rfl, .inr (.inl ⟨hstar, rfl, rfl⟩), fun h => ⟨rfl, h⟩, fun _ => rfl,
        fun _ => .inr ⟨nofun, rfl⟩⟩
    · exact hsa nofun
  | load throws =>
    rw [receiptNext]
    split
    · next hstar =>
      refine ⟨id, .inr (.inr ⟨hstar, _, rfl, ?_⟩), fun h => ⟨rfl, h⟩, fun _ => rfl,
        fun _ => .inr ⟨nofun, rfl⟩⟩
      cases throws with
      | true => exact .inl rfl
      | false => exact .inr rfl
    · exact hsa nofun
  | loaded currentSv now =>
    rw [receiptNext]
    split
    · next answer hr => exact absurd ⟨currentSv, now, answer, rfl, hr⟩ hload
    · exact hsa nofun
  | persist succeeds =>
    rw [receiptNext]
    split
    · exact hsa nofun
    · next k op chain hchain =>
      refine ⟨(hasStore_persistSettled succeeds).trans, .inl rfl, ?_, ?_,
        fun _ => .inr ⟨nofun, receipt_persistSettled succeeds⟩⟩
      · rw [hchain]
        exact nofun
      intro hfails
      cases succeeds with
      | false => exact absurd rfl hfails
      | true =>
        rw [ReceiptWorld.left, ReceiptWorld.left, persistChain_persistSettled, hchain]
        rfl

/-- Only the end of its load ends startup. -/
theorem resolved_next (h : ¬ w.EndsLoad event) :
    (receiptNext decodeStateVector w event).startup = .resolved ↔ w.startup = .resolved := by
  by_cases hstores : w.Stores event
  · rw [(next_of_stores hstores).1]
  rcases (@passes_next decodeStateVector _ _ hstores h).startup with
    hs | ⟨hold, hnew, -⟩ | ⟨hold, answer, hnew, -⟩
  · rw [hs]
  · simp [hold, hnew]
  · simp [hold, hnew]

variable {run : ReceiptRun} {n : ℕ}

namespace ReceiptRun

theorem world_succ (h : run.events[n]? = some event) :
    run.world (n + 1) = receiptNext run.decodeStateVector (run.world n) event := stateAt_succ h

theorem hasStore (run : ReceiptRun) (n : ℕ) :
    (run.world n).startup ≠ .notStarted → (run.world n).tracker.hasStore = true := by
  apply stateAt_invariant (P := fun w : ReceiptWorld =>
    w.startup ≠ .notStarted → w.tracker.hasStore = true)
  · intro h
    exact absurd rfl h
  intro w event h hn
  by_cases hstores : w.Stores event
  · exact (next_of_stores hstores).2.1
  by_cases hload : w.EndsLoad event
  · obtain ⟨currentSv, now, answer, rfl, hr⟩ := hload
    simp only [receiptNext, hr]
    exact (queues_startupLoaded _ currentSv now).1.trans (h (by simp [hr]))
  have hpas := @passes_next run.decodeStateVector _ _ hstores hload
  rcases hpas.startup with hs | ⟨-, -, hopen⟩ | ⟨hold, -⟩
  · exact hpas.hasStore (h (hs ▸ hn))
  · exact hopen
  · exact hpas.hasStore (h (by simp [hold]))

theorem inOrder (run : ReceiptRun) (n : ℕ) : InOrder (run.world n) := by
  apply stateAt_invariant (P := InOrder)
  · exact ⟨List.Pairwise.nil, nofun⟩
  intro w event h
  exact inOrder_next h event

/-- Nothing has been stored: the store is as it was, and a load answers so or throws. -/
structure Fresh (run : ReceiptRun) (n : ℕ) : Prop where
  untouched : run.Untouched n
  store : (run.world n).store = run.stored
  chain : (run.world n).tracker.persistChain = []
  answer : ∀ answer, (run.world n).startup = .read answer → answer = none ∨ answer = run.stored

/-- The chain leaves what was stored last; memory holds it too unless it alone was cleared. -/
structure Saved (run : ReceiptRun) (k n : ℕ) : Prop where
  last : run.LastStored k n
  hasStore : (run.world n).tracker.hasStore = true
  left : decodedReceipt (run.world n).left = (run.world (k + 1)).tracker.receipt
  receipt : run.ClearedSince k n ∧ (run.world n).tracker.receipt = (none, none, none) ∨
    ¬ run.ClearedSince k n ∧ (run.world n).tracker.receipt = (run.world (k + 1)).tracker.receipt

theorem Fresh.next (h : run.Fresh n) (hnot : ¬ run.StoresAt n)
    (hpasses : Passes (run.world n) event (run.world (n + 1))) : run.Fresh (n + 1) := by
  obtain ⟨hs, hchain⟩ := hpasses.idle h.chain
  refine ⟨?_, hs.trans h.store, hchain, ?_⟩
  · intro k hk
    rcases Nat.eq_or_lt_of_le (Nat.le_of_lt_succ hk) with rfl | hk
    · exact hnot
    · exact h.untouched k hk
  intro answer hr
  rcases hpasses.startup with hsa | ⟨-, hnew, -⟩ | ⟨-, answer', hnew, hans⟩
  · exact h.answer answer (hsa ▸ hr)
  · cases hnew.symm.trans hr
  · cases hnew.symm.trans hr
    exact hans.imp_right (·.trans h.store)

variable {k : ℕ}

theorem Saved.next (h : run.Saved k n) (hnot : ¬ run.StoresAt n)
    (hevent : run.events[n]? = some event) (hfails : event ≠ .persist false)
    (hpasses : Passes (run.world n) event (run.world (n + 1))) : run.Saved k (n + 1) := by
  obtain ⟨⟨hkn, hk, hla⟩, hopen, hl, hrec⟩ := h
  refine ⟨⟨Nat.lt_succ_of_lt hkn, hk, ?_⟩, hpasses.hasStore hopen, (hpasses.left hfails ▸ hl :), ?_⟩
  · intro i hki hi
    rcases Nat.eq_or_lt_of_le (Nat.le_of_lt_succ hi) with rfl | hi
    · exact hnot
    · exact hla i hki hi
  have hcleared : run.ClearedSince k (n + 1) ↔ run.ClearedSince k n ∨ event = .clear false := by
    constructor
    · rintro ⟨i, hki, hi, hclr⟩
      rcases Nat.eq_or_lt_of_le (Nat.le_of_lt_succ hi) with rfl | hi
      · exact .inr (Option.some.inj (hevent.symm.trans hclr))
      · exact .inl ⟨i, hki, hi, hclr⟩
    rintro (⟨i, hki, hi, hclr⟩ | rfl)
    · exact ⟨i, hki, Nat.lt_succ_of_lt hi, hclr⟩
    · exact ⟨n, hkn, Nat.lt_succ_self n, hevent⟩
  rw [hcleared]
  rcases hpasses.receipt hopen with ⟨hclr, hnow⟩ | ⟨hclr, hnow⟩
  · exact .inl ⟨.inr hclr, hnow⟩
  rw [hnow]
  exact hrec.imp (And.imp_left .inl) (And.imp_left fun hc => not_or.mpr ⟨hc, hclr⟩)

section Startup

variable (hsucceed : .persist false ∉ run.events) (hopen : (run.world n).startup ≠ .resolved)
include hsucceed hopen

/-- Before the end of startup. -/
theorem history (hn : n ≤ run.events.length) : run.Fresh n ∨ ∃ k, run.Saved k n := by
  induction n with
  | zero => exact .inl ⟨fun k hk => absurd hk (Nat.not_lt_zero k), rfl, rfl, nofun⟩
  | succ n ih =>
    have hev := List.getElem?_eq_getElem hn
    have hnx := world_succ hev
    have hload : ¬ (run.world n).EndsLoad run.events[n] := by
      rintro ⟨currentSv, now, answer, heq, hr⟩
      rw [hnx, heq] at hopen
      simp only [receiptNext, hr] at hopen
      exact hopen rfl
    by_cases hstores : (run.world n).Stores run.events[n]
    · right
      obtain ⟨-, hs, hl⟩ := @next_of_stores run.decodeStateVector _ _ hstores
      rw [← hnx] at hs hl
      refine ⟨n, ⟨Nat.lt_succ_self n, ⟨_, hev, hstores⟩, fun i hni hin => by omega⟩, hs,
        hl, .inr ⟨?_, rfl⟩⟩
      rintro ⟨i, hni, hin, -⟩
      omega
    have hnot : ¬ run.StoresAt n := by
      rintro ⟨event, hev', hstores'⟩
      cases hev.symm.trans hev'
      exact hstores hstores'
    have hpas := @passes_next run.decodeStateVector _ _ hstores hload
    rw [← hnx] at hpas
    rw [hnx, Ne, resolved_next hload] at hopen
    rcases ih hopen (Nat.le_of_succ_le hn) with hfr | ⟨k, hsaved⟩
    · exact .inl (hfr.next hnot hpas)
    · exact .inr ⟨k, hsaved.next hnot hev (fun h => hsucceed (h ▸ getElem_mem hn)) hpas⟩

end Startup

theorem LastStored.eq {j : ℕ} (hk : run.LastStored k n) (hj : run.LastStored j n) : k = j := by
  rcases Nat.lt_trichotomy k j with hlt | heq | hlt
  · exact absurd hj.2.1 (hk.2.2 j hlt hj.1)
  · exact heq
  · exact absurd hk.2.1 (hj.2.2 k hlt hk.1)

theorem Saved.touched (h : run.Saved k n) : ¬ run.Untouched n :=
  fun hn => hn k h.last.1 h.last.2.1

theorem Fresh.left (h : run.Fresh n) : (run.world n).left = run.stored := by
  rw [ReceiptWorld.left, h.store, h.chain]
  rfl

theorem Fresh.not_lastStored (h : run.Fresh n) : ¬ run.LastStored k n :=
  fun hk => h.untouched k hk.1 hk.2.1

/-- A candidate that a load gives is that of the record that was stored at first. -/
theorem Fresh.decodedReceipt (h : run.Fresh n) {answer : Option StoredState} {sv : List UInt8}
    {state : StoredState} (hr : (run.world n).startup = .read answer)
    (hst : storedCandidate readCandidate answer = some (sv, state)) :
    decodedReceipt run.stored =
      (some sv, state.candidateCapturedAt, state.lastKnownServerReceiptEchoAt) := by
  obtain ⟨state', hans, hcan⟩ := Option.bind_eq_some_iff.mp hst
  rcases h.answer answer hr with hn | hf
  · cases hn.symm.trans hans
  obtain ⟨sv', hsv, heq⟩ := Option.map_eq_some_iff.mp hcan
  obtain ⟨rfl, rfl⟩ := Prod.mk.inj heq
  obtain ⟨s, hs, hdec⟩ := Option.bind_eq_some_iff.mp hsv
  unfold readCandidate at hdec
  split at hdec
  · cases hdec
  · rw [← hf, hans, Sync.decodedReceipt, hs, Option.bind_some, hdec]

/-- What the end of startup leaves is the receipt just where nothing is lost. -/
theorem left_loaded_iff (hsucceed : .persist false ∉ run.events) (hn : n ≤ run.events.length)
    {answer : Option StoredState} (hr : (run.world n).startup = .read answer)
    (currentSv : List UInt8) (now : ℕ) :
    Sync.decodedReceipt (receiptNext run.decodeStateVector (run.world n)
        (.loaded currentSv now)).left =
      (receiptNext run.decodeStateVector (run.world n) (.loaded currentSv now)).tracker.receipt ↔
    run.LosesNoReceipt n (.loaded currentSv now) := by
  have hrec := @recorded_startupLoaded run.decodeStateVector _ (run.world n).store
    (run.hasStore n (by simp [hr])) answer currentSv now
  have hloses : run.LosesNoReceipt n (.loaded currentSv now) ↔ _ :=
    ⟨fun h => h answer hr, fun h other ho => by cases hr.symm.trans ho; exact h⟩
  rw [hloses]
  simp only [receiptNext, hr]
  refine hrec.trans ?_
  rw [← ReceiptWorld.left]
  rcases history hsucceed (by simp [hr]) hn with hfr | ⟨k, hsaved⟩
  · rw [hfr.left]
    cases hst : storedCandidate readCandidate answer with
    | none => simp [hfr.not_lastStored, hfr.untouched]
    | some found =>
      rw [hfr.decodedReceipt hr hst]
      cases (run.world n).tracker.lastUnconfirmedCandidateSv with
      | none => simp [hfr.not_lastStored]
      | some live => simp [hfr.untouched, eq_comm]
  have hunique : ∀ j, run.LastStored j n ↔ j = k :=
    fun j => ⟨fun hj => hj.eq hsaved.last, fun hj => hj ▸ hsaved.last⟩
  cases hst : storedCandidate readCandidate answer with
  | none =>
    rw [hsaved.left]
    simp only [hsaved.touched, hunique, forall_eq, false_implies, true_and]
    rcases hsaved.receipt with ⟨hclr, hnow⟩ | ⟨hclr, hnow⟩ <;> simp [hclr, hnow]
  | some found =>
    cases hl : (run.world n).tracker.lastUnconfirmedCandidateSv with
    | none => simp [hsaved.left, hunique]
    | some live =>
      rcases hsaved.receipt with ⟨-, hnow⟩ | ⟨-, hnow⟩
      · cases hl.symm.trans (congrArg Prod.fst hnow)
      rw [hsaved.left, ← hnow, receipt, hl]
      simp [hsaved.touched]

end ReceiptRun

open ReceiptRun in
/-- In every run whose store operations succeed, what the chain leaves is the tracker's receipt
after startup exactly when neither the end of startup nor a clearing of memory alone loses it. -/
theorem survivesCrash_iff (run : ReceiptRun) (hsucceed : .persist false ∉ run.events) :
    SurvivesCrash run ↔ ∀ n event, run.events[n]? = some event → run.LosesNoReceipt n event := by
  constructor
  · intro h n event hev
    have hl := h.left (n + 1)
    rw [world_succ hev] at hl
    cases event with
    | loaded currentSv now =>
      intro answer hr
      refine (left_loaded_iff hsucceed ?_ hr currentSv now).mp (hl ?_) answer hr
      · exact (List.getElem?_eq_some_iff.mp hev).1.le
      · simp only [receiptNext, hr]
    | clear clearStore =>
      cases clearStore with
      | true => trivial
      | false =>
        intro hres
        rw [← h.left n hres]
        exact hl hres
    | _ => trivial
  intro h
  refine ⟨fun n => ?_, fun n => (inOrder run n).pairwise.sublist (sublist_append_left _ _)⟩
  induction n with
  | zero => exact nofun
  | succ n ih =>
    rcases stateAt_step (receiptNext run.decodeStateVector) { store := run.stored } run.events n with
      ⟨-, hs⟩ | ⟨event, hev, -⟩
    · rw [world, hs]
      exact ih
    rw [world_succ hev]
    have hlose := h n event hev
    by_cases hload : (run.world n).EndsLoad event
    · obtain ⟨currentSv, now, answer, rfl, hr⟩ := hload
      intro _
      refine (left_loaded_iff hsucceed ?_ hr currentSv now).mpr hlose
      exact (List.getElem?_eq_some_iff.mp hev).1.le
    rw [resolved_next hload]
    intro hres
    by_cases hstores : (run.world n).Stores event
    · exact (next_of_stores hstores).2.2
    have hpas := @passes_next run.decodeStateVector _ _ hstores hload
    have hfails : event ≠ .persist false := fun heq => hsucceed (heq ▸ mem_of_getElem? hev)
    rw [hpas.left hfails, ih hres]
    rcases hpas.receipt (run.hasStore n (by simp [hres])) with ⟨rfl, hnow⟩ | ⟨-, hnow⟩
    · exact hlose hres
    · exact hnow.symm

section Example

/-- The vector of client 5 at clock 3. -/
def oneClient : StateVector where
  support := {5}
  toFun := fun client => if client = 5 then 3 else 0
  mem_support_toFun := by simp

/-- The bytes of the empty vector and of `oneClient`. -/
def decodeShortVector (bytes : List UInt8) : Option StateVector :=
  if bytes = [0] then some 0 else if bytes = [1, 5, 3] then some oneClient else none

def storedBefore : StoredState := ⟨some (encodeBytesBase64 [1, 5, 3]), some 1, none⟩

/-- Startup discards what is stored; an update, its echo and a clearing follow. -/
def updateAfterStartup : List ReceiptEvent :=
  [.attach (some 1) (some 2), .onStartup, .load false, .loaded [0] 1, .update none [1, 5, 3] 2,
    .persist true, .echo [1, 5, 3] 3, .persist true, .clear true]

theorem survivesCrash_updateAfterStartup :
    SurvivesCrash ⟨decodeShortVector, some storedBefore, updateAfterStartup⟩ := by
  apply (survivesCrash_iff _ (by simp [updateAfterStartup])).mpr
  intro n event hev
  rcases n with _ | _ | _ | _ | _ | _ | _ | _ | _ | n
  case succ.succ.succ.zero =>
    have hr : (ReceiptRun.world ⟨decodeShortVector, some storedBefore, updateAfterStartup⟩
        3).startup = .read (some storedBefore) := rfl
    cases hev
    intro answer hans
    cases hr.symm.trans hans
    exact .inl ⟨nofun, by decide⟩
  all_goals cases hev <;> trivial

/-- The stored candidate is loaded while an echo comes in. -/
def echoDuringStartup : List ReceiptEvent :=
  [.attach (some 1) (some 2), .onStartup, .load false, .echo [0] 7, .loaded [1, 5, 3] 8]

/-- The echo saves a record without a candidate over the one that startup then restores. -/
theorem echo_during_startup_loses_candidate : ¬ ∀ run : ReceiptRun,
    .persist false ∉ run.events → SurvivesCrash run := by
  intro h
  have hsur := h ⟨decodeShortVector, some storedBefore, echoDuringStartup⟩
    (by simp [echoDuringStartup])
  have hrec := hsur.left 5 rfl
  revert hrec
  decide

end Example

end Kaos.Sync
