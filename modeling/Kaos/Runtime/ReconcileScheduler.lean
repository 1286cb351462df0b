import Mathlib.Algebra.Order.Ring.Int
import Mathlib.Data.List.Basic
import Kaos.Lib.Run

/-! When reconciliation passes start: the in-flight flag, the pending flag and the cooldown timer that
the passes, their requests, the reconnect runner and `reset` share. -/
namespace Kaos.Runtime

inductive ReconcileMode
  | authoritative
  | conservative
  deriving DecidableEq

def RECONCILE_COOLDOWN_MS : ℤ := 10000

/-- What the scheduler reads of the vault sync. -/
structure VaultSyncView where
  localReady : Bool
  idbError : Bool
  connectionGeneration : ℕ
  safeReconcileMode : ReconcileMode
  deriving DecidableEq

/-- The vault sync and the disk mirror as a step finds them. -/
structure SchedulerDeps where
  vaultSync : Option VaultSyncView
  diskMirror : Bool
  deriving DecidableEq

def getSafeReconcileMode (deps : SchedulerDeps) (fallbackMode : ReconcileMode) : ReconcileMode :=
  (deps.vaultSync.map (·.safeReconcileMode)).getD fallbackMode

structure CooldownTimer where
  fallbackMode : ReconcileMode
  delay : ℤ
  deriving DecidableEq

/-- The body of a pass, from its start to its `finally`. Passes are numbered as they begin. -/
structure PassBody where
  id : ℕ
  mode : ReconcileMode
  lifecycleGeneration : ℕ
  deriving DecidableEq

/-- Where a call of `runReconnectReconciliation` stands. -/
inductive ReconnectPhase
  | refreshing
  | awaitingPass (id : ℕ)
  | returned
  deriving DecidableEq

/-- `madeAt` counts the passes that had begun when the call was made. -/
structure ReconnectCall where
  generation : ℕ
  madeAt : ℕ
  phase : ReconnectPhase
  deriving DecidableEq

/-- The scheduling fields of the controller, the bodies that run and the reconnect calls under way.
The last four fields are what the results speak of: how many passes have begun, which have completed,
whether a request was turned away or noted since the last start, and whether `markPending` set the
flag. -/
structure Scheduler where
  reconcileInFlight : Bool := false
  reconcilePending : Bool := false
  reconcileCooldownTimer : Option CooldownTimer := none
  lastReconcileTime : ℤ := 0
  lastReconciledGeneration : ℕ := 0
  awaitingFirstProviderSync : Bool := false
  lifecycleGeneration : ℕ := 0
  bodies : List PassBody := []
  calls : List ReconnectCall := []
  begun : ℕ := 0
  completed : List ℕ := []
  owed : Bool := false
  marked : Bool := false
  deriving DecidableEq

namespace Scheduler

variable (deps : SchedulerDeps) (now : ℤ)

/-- The mode of a pass: local data that is not ready is not projected, unless it is forced. -/
def passMode (vaultSync : VaultSyncView) (mode : ReconcileMode) (forceUnhydrated : Bool) :
    ReconcileMode :=
  if mode = .authoritative ∧ (¬ vaultSync.localReady ∨ vaultSync.idbError) ∧ ¬ forceUnhydrated then
    .conservative
  else mode

/-- The early exits of `runReconciliation`, and the start of the body, whose number is returned. -/
def runReconciliation (mode : ReconcileMode) (forceUnhydrated : Bool) (s : Scheduler) :
    Scheduler × Option ℕ :=
  match deps.vaultSync with
  | none => (s, none)
  | some vaultSync =>
    if !deps.diskMirror then (s, none)
    else
      let mode := passMode vaultSync mode forceUnhydrated
      if s.reconcileInFlight then ({ s with reconcilePending := true, owed := true }, none)
      else
        let elapsed := now - s.lastReconcileTime
        if s.lastReconcileTime > 0 ∧ elapsed < RECONCILE_COOLDOWN_MS then
          ({ s with
            reconcilePending := true
            owed := true
            reconcileCooldownTimer := s.reconcileCooldownTimer.or
              (some ⟨mode, RECONCILE_COOLDOWN_MS - elapsed⟩) }, none)
        else
          ({ s with
            reconcileInFlight := true
            bodies := s.bodies ++ [⟨s.begun, mode, s.lifecycleGeneration⟩]
            begun := s.begun + 1
            owed := false }, some s.begun)

def schedulePendingReconciliation (fallbackMode : ReconcileMode) (s : Scheduler) : Scheduler :=
  if !s.reconcilePending || s.reconcileCooldownTimer.isSome then s
  else
    let elapsed := now - s.lastReconcileTime
    { s with
      reconcileCooldownTimer := some ⟨fallbackMode, max 0 (RECONCILE_COOLDOWN_MS - elapsed)⟩ }

/-- `held` says that an automatic recovery holds the text of the path. -/
def requestReconciliationFollowup (held : Bool) (s : Scheduler) : Scheduler :=
  if held then s
  else
    let s := { s with reconcilePending := true, owed := true }
    if s.reconcileInFlight then s
    else schedulePendingReconciliation now (getSafeReconcileMode deps .authoritative) s

def noteMarkdownDiskMutation (s : Scheduler) : Scheduler :=
  if s.reconcileInFlight then { s with reconcilePending := true, owed := true } else s

def markPending (s : Scheduler) : Scheduler := { s with reconcilePending := true, marked := true }

/-- The callback of the armed timer. -/
def timerFires (timer : CooldownTimer) (s : Scheduler) : Scheduler :=
  let s := { s with reconcileCooldownTimer := none }
  if s.reconcilePending then
    (runReconciliation deps now (getSafeReconcileMode deps timer.fallbackMode) false
      { s with reconcilePending := false, marked := false }).1
  else s

def revokeAsyncAuthority (s : Scheduler) : Scheduler :=
  { s with lifecycleGeneration := s.lifecycleGeneration + 1 }

/-- The bodies and the reconnect calls stay where they are suspended. -/
def reset (s : Scheduler) : Scheduler :=
  { revokeAsyncAuthority s with
    reconcileCooldownTimer := none
    reconcileInFlight := false
    reconcilePending := false
    lastReconciledGeneration := 0
    lastReconcileTime := 0
    owed := false
    marked := false }

/-- A call that awaited a pass goes on when it completes and fails with it. -/
def settleCall (id : ℕ) (completes : Bool) (call : ReconnectCall) : Option ReconnectCall :=
  if call.phase = .awaitingPass id then
    if completes then some { call with phase := .returned } else none
  else some call

/-- The `finally` of a body, and the callers that awaited it. -/
def passEnds (body : PassBody) (completes : Bool) (s : Scheduler) : Scheduler :=
  schedulePendingReconciliation now body.mode
    { s with
      reconcileInFlight := false
      lastReconcileTime := now
      bodies := s.bodies.erase body
      calls := s.calls.filterMap (settleCall body.id completes)
      completed := if completes then body.id :: s.completed else s.completed }

/-- `runReconnectReconciliation` up to its first await. -/
def reconnect (generation : ℕ) (s : Scheduler) : Scheduler :=
  if deps.vaultSync.isSome then { s with calls := s.calls ++ [⟨generation, s.begun, .refreshing⟩] }
  else s

/-- From the refreshed capabilities to the call of `runReconciliation`; a refresh may fail. -/
def refreshed (call : ReconnectCall) (succeeds : Bool) (s : Scheduler) : Scheduler :=
  let s := { s with calls := s.calls.erase call }
  if succeeds then
    let (s, started) := runReconciliation deps now .authoritative false s
    { s with calls := s.calls ++ [{ call with
      phase := (started.map .awaitingPass).getD .returned }] }
  else s

/-- What follows the await of `runReconciliation`. -/
def reconnected (call : ReconnectCall) (s : Scheduler) : Scheduler :=
  let s := { s with
    calls := s.calls.erase call
    lastReconciledGeneration := call.generation
    awaitingFirstProviderSync := false }
  if s.reconcilePending && s.reconcileCooldownTimer.isNone then
    let s := { s with reconcilePending := false, marked := false }
    match deps.vaultSync with
    | some nextVaultSync =>
      if nextVaultSync.connectionGeneration > s.lastReconciledGeneration then
        reconnect deps nextVaultSync.connectionGeneration s
      else (runReconciliation deps now (getSafeReconcileMode deps .authoritative) false s).1
    | none => (runReconciliation deps now (getSafeReconcileMode deps .authoritative) false s).1
  else s

end Scheduler

/-- What a body changes: Y.Texts that `reconcileVault` seeds, Y.Texts of closed and of open files,
files on disk of closed and of open files, and the entries of the disk index. -/
inductive BodyEffect
  | reconcileVault
  | closedMutation
  | openMutation
  | closedFlush
  | openFlush
  | indexCommit
  deriving DecidableEq

/-- The commits of the lanes for open files compare the lifecycle generation. -/
def BodyEffect.fenced : BodyEffect → Bool
  | .openMutation | .openFlush => true
  | _ => false

inductive SchedulerEvent
  | runReconciliation (deps : SchedulerDeps) (now : ℤ) (mode : ReconcileMode)
      (forceUnhydrated : Bool)
  | requestReconciliationFollowup (deps : SchedulerDeps) (now : ℤ) (held : Bool)
  | noteMarkdownDiskMutation
  | markPending
  | timerFires (deps : SchedulerDeps) (now : ℤ)
  | reset
  | revokeAsyncAuthority
  | bodyEffect (body : PassBody) (effect : BodyEffect)
  | passEnds (body : PassBody) (now : ℤ) (completes : Bool)
  | reconnect (deps : SchedulerDeps) (generation : ℕ)
  | refreshed (call : ReconnectCall) (deps : SchedulerDeps) (now : ℤ) (succeeds : Bool)
  | reconnected (call : ReconnectCall) (deps : SchedulerDeps) (now : ℤ)
  deriving DecidableEq

namespace Scheduler

/-- One step, where the event can happen. -/
def step (s : Scheduler) : SchedulerEvent → Option Scheduler
  | .runReconciliation deps now mode forceUnhydrated =>
    some (runReconciliation deps now mode forceUnhydrated s).1
  | .requestReconciliationFollowup deps now held =>
    some (requestReconciliationFollowup deps now held s)
  | .noteMarkdownDiskMutation => some (noteMarkdownDiskMutation s)
  | .markPending => some (markPending s)
  | .timerFires deps now => s.reconcileCooldownTimer.map fun timer => timerFires deps now timer s
  | .reset => some (reset s)
  | .revokeAsyncAuthority => some (revokeAsyncAuthority s)
  | .bodyEffect body effect =>
    if body ∈ s.bodies ∧
        (effect.fenced = true → body.lifecycleGeneration = s.lifecycleGeneration) then some s
    else none
  | .passEnds body now completes =>
    if body ∈ s.bodies then some (passEnds now body completes s) else none
  | .reconnect deps generation => some (reconnect deps generation s)
  | .refreshed call deps now succeeds =>
    if call ∈ s.calls ∧ call.phase = .refreshing then some (refreshed deps now call succeeds s)
    else none
  | .reconnected call deps now =>
    if call ∈ s.calls ∧ call.phase = .returned then some (reconnected deps now call s) else none

/-- The states a run goes through; the condition is asked of every step. -/
inductive Run (cond : Scheduler → SchedulerEvent → Prop) : Scheduler → Scheduler → Prop
  | refl {s : Scheduler} : Run cond s s
  | step {s t u : Scheduler} {e : SchedulerEvent} :
      Run cond s t → cond t e → t.step e = some u → Run cond s u

end Scheduler

end Kaos.Runtime
