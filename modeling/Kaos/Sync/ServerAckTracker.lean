import Kaos.Yjs.Update

/-! The client's receipt tracker: a candidate vector, the echoes that confirm it and its storage. -/
namespace Kaos.Sync

open Kaos.Yjs

/-- The first vector has every clock of the second; bytes that are no vector dominate nothing. -/
def isStateVectorGe {V : Type*} (decodeStateVector : V → Option StateVector) (a b : V) : Bool :=
  match decodeStateVector a, decodeStateVector b with
  | some svA, some svB => svB ≤ svA
  | _, _ => false

/-- What is stored of a candidate, apart from its scope. -/
structure PersistedCandidateState (S : Type*) where
  candidateSvBase64 : Option S
  candidateCapturedAt : Option ℕ
  lastKnownServerReceiptEchoAt : Option ℕ
  deriving DecidableEq

inductive StoreOp (S : Type*)
  | save (state : PersistedCandidateState S)
  | clear
  deriving DecidableEq

/-- Origins are object identities or null. -/
def isAckTrackedLocalOrigin (origin provider persistence : Option ℕ) : Bool :=
  if provider ≠ none ∧ origin = provider then false
  else if persistence ≠ none ∧ origin = persistence then false
  else true

/-- `attached` holds the provider and the persistence that `attach` was given. The operations of the
persistence chain are numbered as they are enqueued. -/
structure ServerAckTracker (V S : Type*) where
  lastUnconfirmedCandidateSv : Option V := none
  candidateCapturedAt : Option ℕ := none
  serverAppliedLocalState : Option Bool := none
  lastServerReceiptEchoAt : Option ℕ := none
  lastKnownServerReceiptEchoAt : Option ℕ := none
  candidatePersistenceHealthy : Bool := true
  candidatePersistenceFailureCount : ℕ := 0
  attached : Option (Option ℕ × Option ℕ) := none
  hasStore : Bool := false
  enqueued : ℕ := 0
  persistChain : List (ℕ × StoreOp S) := []

namespace ServerAckTracker

variable {V S : Type*}

def enqueuePersistence (t : ServerAckTracker V S) (op : StoreOp S) : ServerAckTracker V S :=
  { t with enqueued := t.enqueued + 1, persistChain := t.persistChain ++ [(t.enqueued, op)] }

/-- The record a save captures. -/
def capturedState (encodeBytesBase64 : V → S) (t : ServerAckTracker V S) :
    PersistedCandidateState S :=
  ⟨t.lastUnconfirmedCandidateSv.map encodeBytesBase64, t.candidateCapturedAt,
    t.lastKnownServerReceiptEchoAt⟩

def persistAsync (encodeBytesBase64 : V → S) (t : ServerAckTracker V S) : ServerAckTracker V S :=
  if t.hasStore then t.enqueuePersistence (.save (t.capturedState encodeBytesBase64)) else t

def attach (t : ServerAckTracker V S) (provider persistence : Option ℕ) : ServerAckTracker V S :=
  { t with attached := some (provider, persistence) }

def tracks (t : ServerAckTracker V S) (origin : Option ℕ) : Bool :=
  t.attached.any fun (provider, persistence) => isAckTrackedLocalOrigin origin provider persistence

/-- The listener of `attach`; `sv` is the vector of the document after the update. -/
def onUpdate (encodeBytesBase64 : V → S) (t : ServerAckTracker V S) (origin : Option ℕ) (sv : V)
    (now : ℕ) : ServerAckTracker V S :=
  if t.tracks origin then
    { t with
      lastUnconfirmedCandidateSv := some sv
      candidateCapturedAt := some now
      serverAppliedLocalState := some false }.persistAsync encodeBytesBase64
  else t

/-- `onStartup` up to its load. -/
def onStartup (t : ServerAckTracker V S) : ServerAckTracker V S := { t with hasStore := true }

/-- Both vectors dominate each other. -/
def svEqual (isStateVectorGe : V → V → Bool) (a b : V) : Bool :=
  isStateVectorGe a b && isStateVectorGe b a

def validateCandidateAgainstDoc (isStateVectorGe : V → V → Bool) (encodeBytesBase64 : V → S)
    (t : ServerAckTracker V S) (currentSv : V) (now : ℕ) : ServerAckTracker V S :=
  match t.lastUnconfirmedCandidateSv, t.attached with
  | some candidate, some _ =>
    if svEqual isStateVectorGe currentSv candidate then t
    else if isStateVectorGe currentSv candidate then
      { t with
        lastUnconfirmedCandidateSv := some currentSv
        candidateCapturedAt := some now
        serverAppliedLocalState := some false }.persistAsync encodeBytesBase64
    else
      { t with
        lastUnconfirmedCandidateSv := none
        candidateCapturedAt := none
        serverAppliedLocalState := none }.persistAsync encodeBytesBase64
  | _, _ => t

/-- A live candidate stands against the stored one. -/
def restore (t : ServerAckTracker V S) (sv : V) (stored : PersistedCandidateState S) :
    ServerAckTracker V S :=
  match t.lastUnconfirmedCandidateSv with
  | some _ => { t with lastKnownServerReceiptEchoAt := stored.lastKnownServerReceiptEchoAt }
  | none =>
    { t with
      lastUnconfirmedCandidateSv := some sv
      candidateCapturedAt := stored.candidateCapturedAt
      serverAppliedLocalState := none
      lastKnownServerReceiptEchoAt := stored.lastKnownServerReceiptEchoAt }

/-- The candidate a record holds, where `onStartup` can read one. -/
def storedCandidate (readCandidate : S → Option V) (stored : Option (PersistedCandidateState S)) :
    Option (V × PersistedCandidateState S) :=
  stored.bind fun state => (state.candidateSvBase64.bind readCandidate).map fun sv => (sv, state)

/-- The rest of `onStartup`, with what the load gave; a load that throws gives nothing. -/
def startupLoaded (isStateVectorGe : V → V → Bool) (encodeBytesBase64 : V → S)
    (readCandidate : S → Option V) (t : ServerAckTracker V S)
    (stored : Option (PersistedCandidateState S)) (currentSv : V) (now : ℕ) :
    ServerAckTracker V S :=
  match storedCandidate readCandidate stored with
  | none => t
  | some (sv, state) => (t.restore sv state).validateCandidateAgainstDoc isStateVectorGe
      encodeBytesBase64 currentSv now

def recordServerSvEcho (isStateVectorGe : V → V → Bool) (encodeBytesBase64 : V → S)
    (t : ServerAckTracker V S) (serverSv : V) (now : ℕ) : ServerAckTracker V S :=
  let t := { t with lastServerReceiptEchoAt := some now }
  let t := match t.lastUnconfirmedCandidateSv with
    | none => t
    | some candidate =>
      let confirmed := isStateVectorGe serverSv candidate
      { t with
        serverAppliedLocalState := some confirmed
        lastKnownServerReceiptEchoAt :=
          if confirmed then some now else t.lastKnownServerReceiptEchoAt }
  t.persistAsync encodeBytesBase64

def clearLocalReceiptState (t : ServerAckTracker V S) (clearStore : Bool) : ServerAckTracker V S :=
  let t := { t with
    lastUnconfirmedCandidateSv := none
    candidateCapturedAt := none
    serverAppliedLocalState := none
    lastServerReceiptEchoAt := none
    lastKnownServerReceiptEchoAt := none
    candidatePersistenceFailureCount := 0 }
  if clearStore && t.hasStore then t.enqueuePersistence .clear else t

/-- The operation at the head of the chain has settled. -/
def persistSettled (t : ServerAckTracker V S) (succeeded : Bool) : ServerAckTracker V S :=
  let t := { t with persistChain := t.persistChain.tail }
  if succeeded then { t with candidatePersistenceHealthy := true }
  else { t with
    candidatePersistenceFailureCount := t.candidatePersistenceFailureCount + 1
    candidatePersistenceHealthy := false }

/-- The candidate vector, its capture time and the last known echo time. -/
def receipt (t : ServerAckTracker V S) : Option V × Option ℕ × Option ℕ :=
  (t.lastUnconfirmedCandidateSv, t.candidateCapturedAt, t.lastKnownServerReceiptEchoAt)

end ServerAckTracker

end Kaos.Sync
