import Kaos.Lib.Run
import Kaos.Sync.FileMeta
import Kaos.Sync.MarkdownCreationHistory

/-! The gate that lets a path be created only if no history knows it. -/
namespace Kaos.Sync

open Kaos.Lib Kaos.Paths

/-- `${generation}:${revision}` -/
abbrev CreationToken := ℕ × ℕ

structure MarkdownCreationHistoryGate where
  snapshot : MetaSnapshot
  revision : ℕ := 0
  checkedNew : OrderedMap JsString CreationToken := .empty
  known : MarkdownCreationHistory := .empty

/-- The path that a change takes a file from. -/
def MetaSemanticChange.leftPath : MetaSemanticChange → Option JsString
  | .pathChanged _ previousPath _ _ _ => some previousPath
  | .removed _ previous => some previous.path
  | .deleted _ path _ => some path
  | .added _ _ | .revived _ _ | .mtimeChanged _ _ | .deviceChanged _ _ | .invalid _ => none

/-- A change that makes earlier answers stale; a new file of this device makes none. -/
def MetaSemanticChange.isStructural (isLocal : Bool) : MetaSemanticChange → Bool
  | .added _ _ => !isLocal
  | .mtimeChanged _ _ | .deviceChanged _ _ => false
  | .removed _ _ | .pathChanged _ _ _ _ _ | .deleted _ _ _ | .revived _ _ | .invalid _ => true

namespace MarkdownCreationHistoryGate

variable (nfc : Nfc) (gate : MarkdownCreationHistoryGate)

def token (generation : ℕ) : CreationToken := (generation, gate.revision)

def remember (path : JsString) (entries : List MarkdownPathHistoryEntry) :
    MarkdownCreationHistoryGate :=
  let key := pathKey nfc path
  let known := entries.foldl pushEntry ((gate.known.get? key).getD [])
  if known.length > 0 then { gate with known := gate.known.set key known } else gate

/-- One turn of the loop over the changes of a transaction. -/
def observeChange (isLocal : Bool) (change : MetaSemanticChange) : MarkdownCreationHistoryGate :=
  let gate := match change.leftPath with
    | some path => gate.remember nfc path
        [⟨change.fileId, js "observed:" ++ change.fileId ++ js ":" ++ path⟩]
    | none => gate
  if change.isStructural isLocal then
    { gate with revision := gate.revision + 1, checkedNew := .empty }
  else gate

/-- The changes that the gate sees, and its snapshot afterwards. -/
def changes (metaMap : MetaMap) (affected : Option (List JsString)) :
    List MetaSemanticChange × MetaSnapshot :=
  match affected with
  | none =>
    let next := buildMetaSnapshot metaMap
    (computeMetaSemanticChanges gate.snapshot next, next)
  | some affected => computeIncrementalMetaChanges metaMap gate.snapshot affected

def observe (isLocal : Bool) (metaMap : MetaMap) (affected : Option (List JsString)) :
    MarkdownCreationHistoryGate :=
  let changes := gate.changes metaMap affected
  changes.1.foldl (fun gate change => gate.observeChange nfc isLocal change)
    { gate with snapshot := changes.2 }

/-- The paths that `prepare` still has to check, by their keys. -/
def pending (token : CreationToken) (paths : List JsString) : List JsString :=
  (paths.map (pathKey nfc)).eraseDups.filter fun path =>
    (gate.known.get? path).isNone && gate.checkedNew.get? path ≠ some token

def markChecked (token : CreationToken) (paths : List JsString) : MarkdownCreationHistoryGate :=
  { gate with checkedNew := gate.checkedNew.setAll (paths.map fun path => (path, token)) }

/-- The loop over what was loaded, and whether it comes to its end. -/
def settle (token current : CreationToken) (result : MarkdownCreationHistory) :
    MarkdownCreationHistoryGate → List JsString → MarkdownCreationHistoryGate × Bool
  | gate, [] => (gate, true)
  | gate, path :: rest =>
    match result.get? path with
    | none => (gate, false)
    | some entries =>
      let gate := gate.remember nfc path entries
      settle token current result
        (if entries.length = 0 ∧ token = current then gate.markChecked token [path] else gate) rest

def canCreate (generation : ℕ) (path : JsString) : Bool :=
  (gate.known.get? (pathKey nfc path)).isNone &&
    gate.checkedNew.get? (pathKey nfc path) = some (gate.token generation)

end MarkdownCreationHistoryGate

/-- The readings begun, each with its token, and the one that is kept. -/
structure HistoryLoader where
  cachedToken : Option CreationToken := none
  cached : Option ℕ := none
  readings : List (CreationToken × HistoryResult) := []

namespace HistoryLoader

variable (loader : HistoryLoader)

/-- A new reading, unless the one kept is of this token. -/
def request (token : CreationToken) : HistoryLoader × ℕ :=
  match loader.cached with
  | some reading =>
    if loader.cachedToken = some token then (loader, reading) else start
  | none => start
where
  start : HistoryLoader × ℕ :=
    ({ cachedToken := some token
       cached := some loader.readings.length
       readings := loader.readings ++ [(token, .pending)] }, loader.readings.length)

/-- A reading returns, or throws and is kept no longer. -/
def finish (reading : ℕ) (result : HistoryResult) : HistoryLoader :=
  match loader.readings[reading]?, result with
  | some (token, .pending), .returned history =>
    { loader with readings := loader.readings.set reading (token, .returned history) }
  | some (token, .pending), .threw =>
    { loader with
      cached := if loader.cached = some reading then none else loader.cached
      readings := loader.readings.set reading (token, .threw) }
  | _, _ => loader

/-- A reading has returned, begun under a token. -/
def Returned (reading : ℕ) (token : CreationToken) (all : MarkdownCreationHistory) : Prop :=
  loader.readings[reading]? = some (token, HistoryResult.returned all)

end HistoryLoader

/-- What the loader answers from the whole history. -/
def answer (nfc : Nfc) (all : MarkdownCreationHistory) (paths : List JsString) :
    MarkdownCreationHistory :=
  OrderedMap.empty.setAll (paths.map fun path =>
    (pathKey nfc path, (all.get? (pathKey nfc path)).getD []))

/-- A call of `prepare` that waits for a reading, or has ended, well or not. -/
inductive PrepareCall
  | waiting (token : CreationToken) (unchecked : List JsString) (reading : ℕ)
  | ended (ok : Bool)

structure CreationWorld where
  generation : ℕ
  metaMap : MetaMap
  gate : MarkdownCreationHistoryGate
  loader : HistoryLoader := {}
  prepares : List PrepareCall := []

/-- A transaction brings a new map; the explicit seed permission answers for each path. -/
inductive CreationEvent
  | transaction (isLocal : Bool) (metaMap : MetaMap) (affected : Option (List JsString))
  | connected
  | prepare (paths : List JsString) (canSeedExplicitly : JsString → Bool)
  | read (reading : ℕ) (pages : List (Option HistoryPage))
  | resume (call : ℕ)

section World

variable (nfc : Nfc) (w : CreationWorld)

def CreationWorld.token : CreationToken := w.gate.token w.generation

/-- `prepare` up to its await. -/
def CreationWorld.prepare (paths : List JsString) (canSeedExplicitly : JsString → Bool) :
    CreationWorld :=
  let pending := w.gate.pending nfc w.token paths
  let gate := w.gate.markChecked w.token (pending.filter canSeedExplicitly)
  let unchecked := pending.filter fun path => !canSeedExplicitly path
  if unchecked.length = 0 then { w with gate, prepares := w.prepares ++ [.ended true] }
  else
    let request := w.loader.request w.token
    { w with
      gate
      loader := request.1
      prepares := w.prepares ++ [.waiting w.token unchecked request.2] }

/-- `prepare` after its await. -/
def CreationWorld.resume (call : ℕ) : CreationWorld :=
  match w.prepares[call]? with
  | some (.waiting token unchecked reading) =>
    match w.loader.readings[reading]? with
    | some (_, .returned all) =>
      let settled := MarkdownCreationHistoryGate.settle nfc token w.token
        (answer nfc all unchecked) w.gate unchecked
      { w with gate := settled.1, prepares := w.prepares.set call (.ended settled.2) }
    | some (_, .threw) => { w with prepares := w.prepares.set call (.ended false) }
    | some (_, .pending) | none => w
  | some (.ended _) | none => w

def creationNext : CreationEvent → CreationWorld
  | .transaction isLocal metaMap affected =>
    { w with metaMap, gate := w.gate.observe nfc isLocal metaMap affected }
  | .connected => { w with generation := w.generation + 1 }
  | .prepare paths canSeedExplicitly => w.prepare nfc paths canSeedExplicitly
  | .read reading pages =>
    { w with loader := w.loader.finish reading (readMarkdownCreationHistory nfc none pages) }
  | .resume call => w.resume nfc call

/-- The gate starts with the metadata there are. -/
def CreationWorld.start (generation : ℕ) (metaMap : MetaMap) : CreationWorld :=
  { generation, metaMap, gate := { snapshot := buildMetaSnapshot metaMap } }

/-- The world before the `n`-th event. -/
def creationAt (generation : ℕ) (metaMap : MetaMap) (events : List CreationEvent) (n : ℕ) :
    CreationWorld :=
  stateAt (creationNext nfc) (CreationWorld.start generation metaMap) events n

def CreationWorld.canCreate (path : JsString) : Bool := w.gate.canCreate nfc w.generation path

/-- A file is active at a path with this key. -/
def ActiveAt (fileId key : JsString) : Prop :=
  ∃ decoded, (buildMetaSnapshot w.metaMap).get? fileId = some decoded ∧
    decoded.isDeleted = false ∧ pathKey nfc decoded.path = key

/-- Entries that are not reported have not changed. -/
def ReportsAffected : CreationEvent → Prop
  | .transaction _ metaMap (some affected) =>
    affected.Nodup ∧ ∀ fileId ∉ affected, w.metaMap.get? fileId = metaMap.get? fileId
  | .transaction _ _ none | .connected | .prepare _ _ | .read _ _ | .resume _ => True

/-- No transaction moves a file and deletes it at once. -/
def KeepsPath : CreationEvent → Prop
  | .transaction _ metaMap _ => ∀ fileId prev curr,
    (buildMetaSnapshot w.metaMap).get? fileId = some prev →
      (buildMetaSnapshot metaMap).get? fileId = some curr →
        prev.isDeleted = false → curr.isDeleted = true →
          pathKey nfc prev.path = pathKey nfc curr.path
  | .connected | .prepare _ _ | .read _ _ | .resume _ => True

end World

/-- A file that comes, goes, moves, is deleted or revived; a new one of this device apart. -/
def Restructured (isLocal : Bool) : Option DecodedFileMeta → Option DecodedFileMeta → Prop
  | none, none => False
  | none, some _ => isLocal = false
  | some _, none => True
  | some prev, some curr => prev.isDeleted ≠ curr.isDeleted ∨ prev.path ≠ curr.path

/-- What the history that was read says of a key. -/
def entriesAt (all : MarkdownCreationHistory) (key : JsString) : List MarkdownPathHistoryEntry :=
  (all.get? key).getD []

section Admission

variable (nfc : Nfc) (generation : ℕ) (metaMap : MetaMap) (events : List CreationEvent)

/-- Before the `n`-th event the seed permission covered a key, under this token. -/
def Seeded (n : ℕ) (token : CreationToken) (key : JsString) : Prop :=
  ∃ k < n, ∃ paths canSeedExplicitly,
    events[k]? = some (.prepare paths canSeedExplicitly) ∧
      (creationAt nfc generation metaMap events k).token = token ∧
      key ∈ paths.map (pathKey nfc) ∧ canSeedExplicitly key = true

/-- Before the `n`-th event a load of this token covered a key and found nothing. -/
def Loaded (n : ℕ) (token : CreationToken) (key : JsString) : Prop :=
  ∃ k < n, ∃ call unchecked reading all,
    events[k]? = some (.resume call) ∧
      (creationAt nfc generation metaMap events k).prepares[call]? =
        some (.waiting token unchecked reading) ∧
      (creationAt nfc generation metaMap events k).loader.Returned reading token all ∧
      key ∈ unchecked ∧ entriesAt all key = []

/-- The gate never takes a path with history for new. -/
structure AdmitsOnlyNew : Prop where
  left : ∀ n m fileId path, n ≤ m →
    ActiveAt nfc (creationAt nfc generation metaMap events n) fileId (pathKey nfc path) →
      ¬ ActiveAt nfc (creationAt nfc generation metaMap events m) fileId (pathKey nfc path) →
        (creationAt nfc generation metaMap events m).canCreate nfc path = false
  /-- No path is new that the reading of the current token mentions. -/
  mentioned : ∀ n reading all path,
    (creationAt nfc generation metaMap events n).loader.Returned reading
        (creationAt nfc generation metaMap events n).token all →
      entriesAt all (pathKey nfc path) ≠ [] →
        ¬ Seeded nfc generation metaMap events n
            (creationAt nfc generation metaMap events n).token (pathKey nfc path) →
          (creationAt nfc generation metaMap events n).canCreate nfc path = false
  /-- Nor does any later reading make a path new that a load has found. -/
  remembered : ∀ n m call token unchecked reading all path, n < m →
    events[n]? = some (.resume call) →
      (creationAt nfc generation metaMap events n).prepares[call]? =
        some (.waiting token unchecked reading) →
      (creationAt nfc generation metaMap events n).loader.Returned reading token all →
      (creationAt nfc generation metaMap events (n + 1)).prepares[call]? = some (.ended true) →
        pathKey nfc path ∈ unchecked → entriesAt all (pathKey nfc path) ≠ [] →
          (creationAt nfc generation metaMap events m).canCreate nfc path = false
  covered : ∀ n path, (creationAt nfc generation metaMap events n).canCreate nfc path = true →
    Seeded nfc generation metaMap events n
        (creationAt nfc generation metaMap events n).token (pathKey nfc path) ∨
      Loaded nfc generation metaMap events n
        (creationAt nfc generation metaMap events n).token (pathKey nfc path)
  revises : ∀ n isLocal next affected fileId,
    events[n]? = some (.transaction isLocal next affected) →
      Restructured isLocal
          ((buildMetaSnapshot (creationAt nfc generation metaMap events n).metaMap).get? fileId)
          ((buildMetaSnapshot next).get? fileId) →
        (creationAt nfc generation metaMap events n).gate.revision <
          (creationAt nfc generation metaMap events (n + 1)).gate.revision
  reads : ∀ n reading token all,
    (creationAt nfc generation metaMap events n).loader.Returned reading token all →
      ∃ k < n, ∃ pages, events[k]? = some (.read reading pages) ∧ ReadInFull nfc none pages all

end Admission

end Kaos.Sync
