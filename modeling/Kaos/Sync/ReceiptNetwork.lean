import Kaos.Lib.Run
import Kaos.Server.PersistenceHealth
import Kaos.Server.RoomContents
import Kaos.Sync.ServerAckTracker

/-! A device that tracks its receipts, the room it syncs with, and the other clients of the room. -/
namespace Kaos.Sync

open Kaos.Lib Kaos.Server Kaos.Yjs

/-- `Y.encodeStateVector` and `Y.decodeStateVector` between vectors and their bytes. -/
structure VectorBytes (V : Type*) where
  encode : StateVector → V
  decode : V → Option StateVector
  decode_encode : ∀ sv, decode (encode sv) = some sv

/-- An echo on its way, with what the server had persisted when it produced it. -/
structure SvEcho (V : Type*) where
  sv : V
  persisted : Update

def providerOrigin : Option ℕ := some 0

def persistenceOrigin : Option ℕ := some 1

/-- `messages` holds every update that was ever sent, `used` every id that was ever given to an
item. The last three fields of the device are no state of it: the document at the capture or
validation of the candidate, the tracked updates so far, and the state behind the echo that
confirmed last. -/
structure ReceiptNetwork (V S : Type*) where
  doc : Doc := ⊥
  persistence : Update := ⊥
  tracker : ServerAckTracker V S := {}
  starting : Bool := false
  captured : Doc := ⊥
  made : List Update := []
  confirming : Option Update := none
  server : Room
  clients : ℕ → Doc := fun _ => ⊥
  messages : List Update := []
  used : Finset ItemId
  echoes : List (SvEcho V) := []

inductive NetworkEvent (S : Type*)
  | localUpdate (update : Update) (origin : Option ℕ) (now : ℕ)
  | receive (k now : ℕ)
  | sync (sv : Option StateVector)
  | persistUpdate (k : ℕ)
  | persistState
  | loadPersistence (now : ℕ)
  | initializeServerAckTracking (localYjsPersistenceLoaded : Bool)
  | startupLoaded (stored : Option (PersistedCandidateState S)) (now : ℕ)
  | persistSettled (succeeded : Bool)
  | clear (clearStore : Bool)
  | restart
  | receiveEcho (k now : ℕ)
  | serverReceive (k : ℕ)
  | serverSync (sv : Option StateVector)
  | serverEvent (event : RoomEvent)
  | serverRestart
  | echo
  | clientUpdate (j : ℕ) (update : Update)
  | clientReceive (j k : ℕ)
  | clientSync (j : ℕ) (sv : Option StateVector)

/-- `ensureDocumentLoaded` of a new instance over the same store. -/
def reloadRoom (r : Room) : Room where
  document := r.stored
  coordinator := { lastPersistedStateVector := some (encodeStateVector r.stored) }
  store := r.store
  saveChain := []
  running := .idle

namespace ReceiptNetwork

variable {V S : Type*} (cfg : PersistenceCoordinatorOptions) (e : Encoding) (bytes : VectorBytes V)
  (encodeBytesBase64 : V → S) (readCandidate : S → Option V)

def send (w : ReceiptNetwork V S) (update : Update) : ReceiptNetwork V S :=
  { w with messages := w.messages ++ [update] }

/-- The update event of the document reaches the listener of `attach`. -/
def docUpdate (w : ReceiptNetwork V S) (update : Update) (origin : Option ℕ) (now : ℕ) :
    ReceiptNetwork V S :=
  let doc := applyUpdate w.doc update
  { w with
    doc := doc
    tracker := w.tracker.onUpdate encodeBytesBase64 origin (bytes.encode (encodeStateVector doc)) now
    captured := if w.tracker.tracks origin then doc else w.captured
    made := if w.tracker.tracks origin then w.made ++ [update] else w.made }

/-- A transaction of the device gives new ids to what it inserts and numbers it on from the
document. -/
def localUpdate (w : ReceiptNetwork V S) (update : Update) (origin : Option ℕ) (now : ℕ) :
    ReceiptNetwork V S :=
  if Disjoint update.items w.used ∧ ∀ item ∈ update.items,
      item.clock < encodeStateVector (applyUpdate w.doc update) item.client then
    ({ w with used := w.used ∪ update.items }.docUpdate bytes encodeBytesBase64 update origin
      now).send update
  else w

/-- The candidate is read from the store once, after `attach`. -/
def startupLoaded (w : ReceiptNetwork V S) (stored : Option (PersistedCandidateState S))
    (now : ℕ) : ReceiptNetwork V S :=
  if w.starting then
    { w with
      starting := false
      tracker := w.tracker.startupLoaded (isStateVectorGe bytes.decode) encodeBytesBase64
        readCandidate stored (bytes.encode (encodeStateVector w.doc)) now
      captured := if (ServerAckTracker.storedCandidate readCandidate stored).isSome then w.doc
        else w.captured }
  else w

/-- It runs once. -/
def initializeServerAckTracking (w : ReceiptNetwork V S) (localYjsPersistenceLoaded : Bool) :
    ReceiptNetwork V S :=
  if w.tracker.attached.isSome then w
  else
    let tracker := w.tracker.attach providerOrigin persistenceOrigin
    if localYjsPersistenceLoaded then { w with tracker := tracker.onStartup, starting := true }
    else { w with tracker := tracker }

/-- The vector dominates the candidate. -/
def confirms (w : ReceiptNetwork V S) (sv : V) : Bool :=
  w.tracker.lastUnconfirmedCandidateSv.any fun candidate => isStateVectorGe bytes.decode sv candidate

def receiveEcho (w : ReceiptNetwork V S) (echo : SvEcho V) (now : ℕ) : ReceiptNetwork V S :=
  { w with
    tracker := w.tracker.recordServerSvEcho (isStateVectorGe bytes.decode) encodeBytesBase64 echo.sv
      now
    confirming := if w.confirms bytes echo.sv then some echo.persisted else w.confirming }

/-- `trySendSvEchoStateVector` of the last persisted vector, after a save or on a connection. -/
def echo (w : ReceiptNetwork V S) : ReceiptNetwork V S :=
  match w.server.coordinator.lastPersistedStateVector with
  | some sv => { w with echoes := w.echoes ++ [⟨bytes.encode sv, w.server.stored⟩] }
  | none => w

def clientUpdate (w : ReceiptNetwork V S) (j : ℕ) (update : Update) : ReceiptNetwork V S :=
  if Disjoint update.items w.used then
    { w with
      used := w.used ∪ update.items
      clients := Function.update w.clients j (applyUpdate (w.clients j) update) }.send update
  else w

def serverEvent (w : ReceiptNetwork V S) (event : RoomEvent) : ReceiptNetwork V S :=
  { w with server := w.server.advance cfg e event }

end ReceiptNetwork

open ReceiptNetwork

variable {V S : Type*} (cfg : PersistenceCoordinatorOptions) (e : Encoding) (bytes : VectorBytes V)
  (encodeBytesBase64 : V → S) (readCandidate : S → Option V)

/-- Messages arrive late, in any order, any number of times or never. -/
def networkNext (w : ReceiptNetwork V S) : NetworkEvent S → ReceiptNetwork V S
  | .localUpdate update origin now => w.localUpdate bytes encodeBytesBase64 update origin now
  | .receive k now =>
    match w.messages[k]? with
    | some update => w.docUpdate bytes encodeBytesBase64 update providerOrigin now
    | none => w
  | .sync sv => w.send (encodeStateAsUpdate w.doc sv)
  | .persistUpdate k =>
    match w.messages[k]? with
    | some update => { w with persistence := w.persistence ⊔ update }
    | none => w
  | .persistState => { w with persistence := w.persistence ⊔ w.doc }
  | .loadPersistence now => w.docUpdate bytes encodeBytesBase64 w.persistence persistenceOrigin now
  | .initializeServerAckTracking loaded => w.initializeServerAckTracking loaded
  | .startupLoaded stored now => w.startupLoaded bytes encodeBytesBase64 readCandidate stored now
  | .persistSettled succeeded => { w with tracker := w.tracker.persistSettled succeeded }
  | .clear clearStore => { w with tracker := w.tracker.clearLocalReceiptState clearStore }
  | .restart => { w with doc := ⊥, tracker := {}, starting := false, captured := ⊥ }
  | .receiveEcho k now =>
    match w.echoes[k]? with
    | some echo => w.receiveEcho bytes encodeBytesBase64 echo now
    | none => w
  | .serverReceive k =>
    match w.messages[k]? with
    | some update => w.serverEvent cfg e (.update update)
    | none => w
  | .serverSync sv => w.send (encodeStateAsUpdate w.server.document sv)
  | .serverEvent event =>
    match event with
    | .update _ => w
    | event => w.serverEvent cfg e event
  | .serverRestart => { w with server := reloadRoom w.server }
  | .echo => w.echo bytes
  | .clientUpdate j update => w.clientUpdate j update
  | .clientReceive j k =>
    match w.messages[k]? with
    | some update =>
      { w with clients := Function.update w.clients j (applyUpdate (w.clients j) update) }
    | none => w
  | .clientSync j sv => w.send (encodeStateAsUpdate (w.clients j) sv)

/-- A new device and a room that has just loaded its document. -/
def joinRoom (r : Room) : ReceiptNetwork V S where
  server := r
  used := r.stored.items

/-- The network after the first `n` events of a run. -/
def networkAt (r : Room) (events : List (NetworkEvent S)) (n : ℕ) : ReceiptNetwork V S :=
  stateAt (networkNext cfg e bytes encodeBytesBase64 readCandidate) (joinRoom r) events n

/-- A receipt that is claimed is one: the server had persisted every tracked update when it
produced the echo that confirmed. -/
def Truthful (w : ReceiptNetwork V S) : Prop :=
  w.tracker.serverAppliedLocalState = some true →
    ∃ persisted, w.confirming = some persisted ∧ ∀ u ∈ w.made, u ≤ persisted

/-- The vector of a document shows that it holds the update: something is inserted, and the vector
is past all of it. -/
def shows (doc : Doc) (u : Update) : Bool :=
  u.items.Nonempty ∧ ∀ item ∈ u.items, item.clock < encodeStateVector doc item.client

/-- An echo that confirms comes from a persisted state with every tracked update that the vector of
the candidate does not show. -/
def ConfirmsHidden (w : ReceiptNetwork V S) (k : ℕ) : Prop :=
  ∀ echo ∈ w.echoes[k]?, w.confirms bytes echo.sv = true →
    ∀ u ∈ w.made, shows w.captured u = false → u ≤ echo.persisted

instance (bytes : VectorBytes V) (w : ReceiptNetwork V S) (k : ℕ) :
    Decidable (ConfirmsHidden bytes w k) :=
  inferInstanceAs (Decidable (∀ echo ∈ w.echoes[k]?, w.confirms bytes echo.sv = true →
    ∀ u ∈ w.made, shows w.captured u = false → u ≤ echo.persisted))

end Kaos.Sync
