import Mathlib.Data.List.Sort
import Mathlib.Data.List.Dedup
import Kaos.Lib.JsString
import Kaos.Lib.LockChain
import Kaos.Lib.Run
import Kaos.Lib.Transition

/-! The per-path write locks of the disk mirror. -/
namespace Kaos.Sync

open Kaos.Lib

/-- A settled work was fulfilled or rejected. -/
inductive WorkStatus
  | notStarted
  | running
  | settled (fulfilled : Bool)
  deriving DecidableEq

/-- A call: the paths it takes, in this order, and its work. -/
structure LockRequest where
  paths : List JsString
  work : WorkStatus := .notStarted

/-- What a link runs for a request: it acquires the first of the paths in `rest`, or starts the
request's own work. `inner` is the link it acquires, `outcome` how its promise is settled. -/
structure LockWork where
  request : ℕ
  rest : List JsString
  inner : Option ℕ := none
  outcome : Option Bool := none

abbrev PathLink := Link JsString LockWork

/-- The tails of the chains are `pathWriteLocks`. -/
structure PathLocks where
  chains : LockChains JsString LockWork := {}
  requests : List LockRequest := []

inductive LockEvent
  | runPathWriteLocked (path : JsString)
  | runPathWritesLocked (paths : List JsString)
  | start (k : ℕ)
  | settleWork (r : ℕ) (fulfilled : Bool)
  | clean (k : ℕ)
  | settle (k : ℕ)

/-- A call of either function. -/
def LockEvent.isRequest : LockEvent → Bool
  | .runPathWriteLocked _ | .runPathWritesLocked _ => true
  | _ => false

namespace PathLocks

/-- A new link for the first path, or the start of the request's work when no path is left; with
the link that was made. -/
def acquire (w : PathLocks) (r : ℕ) : List JsString → PathLocks × Option ℕ
  | [] => ({ w with
      requests := w.requests.modify r fun request => { request with work := .running } }, none)
  | path :: rest =>
    ({ w with chains := w.chains.push path { request := r, rest } }, some w.chains.links.length)

def request (w : PathLocks) (paths : List JsString) : PathLocks :=
  (acquire { w with requests := w.requests ++ [{ paths }] } w.requests.length paths).1

def runPathWriteLocked (w : PathLocks) (path : JsString) : PathLocks := w.request [path]

/-- The distinct normalized paths in code unit order. -/
def normalizedPaths (normalizePath : JsString → JsString) (paths : List JsString) : List JsString :=
  ((paths.map normalizePath).dedup).insertionSort fun p q => p.le q

/-- The paths that a call takes, in this order. -/
def requestedPaths (normalizePath : JsString → JsString) : LockEvent → Option (List JsString)
  | .runPathWriteLocked path => some [path]
  | .runPathWritesLocked paths => some (normalizedPaths normalizePath paths)
  | _ => none

def runPathWritesLocked (normalizePath : JsString → JsString) (w : PathLocks)
    (paths : List JsString) : PathLocks :=
  w.request (normalizedPaths normalizePath paths)

/-- How the promise that a link's work returned is settled, if it is. -/
def workOutcome (w : PathLocks) (link : PathLink) : Option Bool :=
  match link.work.inner with
  | none =>
    match (w.requests[link.work.request]?).map LockRequest.work with
    | some (.settled fulfilled) => some fulfilled
    | _ => none
  | some c =>
    match w.chains.links[c]? with
    | none => none
    | some link' => if link'.status = .settled then link'.work.outcome else none

def start (w : PathLocks) (k : ℕ) (link : PathLink) : PathLocks :=
  let acquired := w.acquire link.work.request link.work.rest
  { acquired.1 with
    chains := acquired.1.chains.start k link { link.work with inner := acquired.2 } }

variable (normalizePath : JsString → JsString)

/-- A call, a promise job or the end of a work, where it can happen. -/
def lockStep (w : PathLocks) : LockEvent → Option PathLocks
  | .runPathWriteLocked path => some (w.runPathWriteLocked path)
  | .runPathWritesLocked paths => some (runPathWritesLocked normalizePath w paths)
  | .start k => do
    let link ← w.chains.links[k]?
    if link.status = .waiting ∧ w.chains.isFree link then some (w.start k link) else none
  | .settleWork r fulfilled => do
    let request ← w.requests[r]?
    if request.work = .running then
      some { w with requests := w.requests.set r { request with work := .settled fulfilled } }
    else none
  | .clean k => do
    let link ← w.chains.links[k]?
    let fulfilled ← w.workOutcome link
    if link.status = .running then
      some { w with
        chains := w.chains.clean k link { link.work with outcome := some fulfilled } }
    else none
  | .settle k => do
    let link ← w.chains.links[k]?
    if link.status = .cleaned then some { w with chains := w.chains.settle k link } else none

def lockNext (w : PathLocks) (event : LockEvent) : PathLocks :=
  (w.lockStep normalizePath event).getD w

/-- The locks after some events; what cannot happen changes nothing. -/
def locksAt (events : List LockEvent) (n : ℕ) : PathLocks :=
  stateAt (lockNext normalizePath) {} events n

end PathLocks

end Kaos.Sync
