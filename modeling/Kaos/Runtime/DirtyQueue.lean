import Kaos.Lib.OrderedMap

/-! The markdown paths that have changed on disk. A path waits in a map, then in the batch of a
drain, and is then handed to the ingest; meanwhile its file may be renamed. -/
namespace Kaos.Runtime

open Kaos.Lib

inductive MarkdownDirtyReason
  | create
  | modify
  deriving DecidableEq

def MARKDOWN_DIRTY_SETTLE_MS : ℕ := 350

def MARKDOWN_STABLE_READ_MAX_RETRIES : ℕ := 3

def OPEN_FILE_LOCAL_ONLY_RECOVERY_IDLE_MS : ℕ := 3000

structure MarkdownDirtyEntry where
  reason : MarkdownDirtyReason
  primaryOpId : Option ℕ
  coalescedOpIds : List ℕ
  retryCount : ℕ
  notBeforeMs : Option ℕ := none
  /-- The ingest generation of the path when the event was taken in. -/
  generation : Option ℕ
  preservedUnresolvedEpisodeIdAtAdmission : Option ℕ
  deriving DecidableEq

variable {π : Type*}

/-- The ingest of a path, with the changes of its file that it is to hand on. -/
structure ActiveMarkdownIngest (π : Type*) where
  path : π
  entry : MarkdownDirtyEntry
  redirectedTo : Option π := none
  generation : ℕ
  diskRevision : ℕ
  covers : List ℕ

/-- Where a drain waits: between two entries, for the answer whether the write was our own, or for
`syncFileFromDisk`. -/
inductive DrainPhase (π : Type*)
  | between
  | suppressing (active : ActiveMarkdownIngest π)
  | syncing (active : ActiveMarkdownIngest π)

def DrainPhase.active : DrainPhase π → Option (ActiveMarkdownIngest π)
  | .between => none
  | .suppressing active => some active
  | .syncing active => some active

def DrainPhase.redirect (phase : DrainPhase π) (newPath : π) : DrainPhase π :=
  match phase with
  | .between => .between
  | .suppressing active => .suppressing { active with redirectedTo := some newPath }
  | .syncing active => .syncing { active with redirectedTo := some newPath }

/-- A drain with the rest of its batch. -/
structure MarkdownDrain (π : Type*) where
  batch : List (π × MarkdownDirtyEntry)
  phase : DrainPhase π

/-- What becomes of a change. -/
inductive ChangeOutcome (π : Type*)
  | handed (path : π)
  | suppressed
  | dropped
  | cancelled
  | gone
  deriving DecidableEq

/-- The controller's queue, with every change that has been taken in and is still owed to the
ingest, under the path its file has now. -/
structure DirtyQueue (π : Type*) where
  dirtyMarkdownPaths : OrderedMap π MarkdownDirtyEntry
  drain : Option (MarkdownDrain π)
  markdownDrainTimer : Bool
  lastMarkdownDirtyAt : ℕ
  markdownIngestGenerations : π → ℕ
  markdownDiskRevisions : π → ℕ
  /-- The generation of the lease that a resolution of the path holds. -/
  resolutions : π → Option ℕ
  changes : ℕ
  owed : List (ℕ × π)
  outcomes : List (ℕ × ChangeOutcome π)

/-- What the controller sees of the vault and its editors. -/
structure DirtyWorld (π : Type*) where
  now : ℕ
  lastEditorActivity : π → Option ℕ
  isOpenOrBound : π → Bool
  preservedUnresolved : π → Option ℕ
  isFile : π → Bool
  isPendingRenameTarget : π → Bool

namespace DirtyQueue

def empty : DirtyQueue π where
  dirtyMarkdownPaths := .empty
  drain := none
  markdownDrainTimer := false
  lastMarkdownDirtyAt := 0
  markdownIngestGenerations := fun _ => 0
  markdownDiskRevisions := fun _ => 0
  resolutions := fun _ => none
  changes := 0
  owed := []
  outcomes := []

variable [DecidableEq π] (s : DirtyQueue π)

section Ledger

/-- The changes that are owed at a path. -/
def owedAt (path : π) : List ℕ := (s.owed.filter (·.2 = path)).map Prod.fst

/-- What is owed of these changes at the path is owed no longer. -/
def settle (changes : List ℕ) (path : π) (outcome : ChangeOutcome π) : DirtyQueue π :=
  let settled := s.owed.filter fun change => change.1 ∈ changes ∧ change.2 = path
  { s with
    owed := s.owed.filter fun change => ¬ (change.1 ∈ changes ∧ change.2 = path)
    outcomes := settled.map (fun change => (change.1, outcome)) ++ s.outcomes }

def settleAll (path : π) (outcome : ChangeOutcome π) : DirtyQueue π :=
  s.settle (s.owedAt path) path outcome

/-- A change of the file at the path. While the path is being resolved it is not taken in. -/
def change (path : π) : DirtyQueue π :=
  if (s.resolutions path).isSome then
    { s with changes := s.changes + 1, outcomes := (s.changes, .cancelled) :: s.outcomes }
  else { s with changes := s.changes + 1, owed := (s.changes, path) :: s.owed }

/-- The file is renamed. -/
def rename (oldPath newPath : π) : DirtyQueue π :=
  let s := { s with
    owed := s.owed.map fun change : ℕ × π =>
      (change.1, if change.2 = oldPath then newPath else change.2) }
  if (s.resolutions newPath).isSome then s.settleAll newPath .cancelled else s

end Ledger

def getNextMarkdownDrainDelayMs (now : ℕ) : ℕ :=
  let settleDelay := MARKDOWN_DIRTY_SETTLE_MS + s.lastMarkdownDirtyAt - now
  let deferred := s.dirtyMarkdownPaths.values.filterMap fun entry =>
    entry.notBeforeMs.filter (now < ·)
  if 0 < settleDelay then settleDelay
  else if deferred.length < s.dirtyMarkdownPaths.size then 0
  else match deferred with
    | [] => 0
    | first :: deferred => deferred.foldl min first - now

/-- When the timer fires is left to the environment. -/
def scheduleMarkdownDrain : DirtyQueue π := { s with markdownDrainTimer := true }

def getRecentEditorDirtyDeferUntil (w : DirtyWorld π) (path : π) (reason : MarkdownDirtyReason) :
    Option ℕ :=
  match reason with
  | .create => none
  | .modify =>
    if w.isOpenOrBound path then
      ((w.lastEditorActivity path).map (· + OPEN_FILE_LOCAL_ONLY_RECOVERY_IDLE_MS)).filter
        (w.now < ·)
    else none

/-- The entry of two events at one path. -/
def mergedDirtyEntry (previous incoming : MarkdownDirtyEntry) : MarkdownDirtyEntry :=
  let reason : MarkdownDirtyReason :=
    if previous.reason = .create ∨ incoming.reason = .create then .create else .modify
  let notBeforeMs := max (previous.notBeforeMs.getD 0) (incoming.notBeforeMs.getD 0)
  { reason
    primaryOpId := previous.primaryOpId <|> incoming.primaryOpId
    coalescedOpIds := (previous.coalescedOpIds ++ incoming.coalescedOpIds).eraseDups
    retryCount := min previous.retryCount incoming.retryCount
    notBeforeMs := if reason = .create ∨ notBeforeMs = 0 then none else some notBeforeMs
    generation := incoming.generation
    preservedUnresolvedEpisodeIdAtAdmission :=
      incoming.preservedUnresolvedEpisodeIdAtAdmission <|>
        previous.preservedUnresolvedEpisodeIdAtAdmission }

def mergeDirtyMarkdownPath (path : π) (incoming : MarkdownDirtyEntry) : DirtyQueue π :=
  let generation := s.markdownIngestGenerations path
  if (s.resolutions path).isSome then s
  else if incoming.generation.any (· ≠ generation) then s
  else
    let incoming := { incoming with generation := some generation }
    let previous := (s.dirtyMarkdownPaths.get? path).filter fun previous =>
      previous.generation.all (· = generation)
    { s with
      dirtyMarkdownPaths := s.dirtyMarkdownPaths.set path
        ((previous.map (mergedDirtyEntry · incoming)).getD incoming) }

def queueDirtyMarkdownPath (w : DirtyWorld π) (path : π) (reason : MarkdownDirtyReason)
    (opId : Option ℕ) (coalescedOpIds : List ℕ) (retryCount : ℕ) (episodeAtAdmission : Option ℕ) :
    DirtyQueue π :=
  if (s.resolutions path).isSome then s
  else
    let merged := s.mergeDirtyMarkdownPath path
      { reason
        primaryOpId := opId
        coalescedOpIds := coalescedOpIds.eraseDups
        retryCount
        notBeforeMs := getRecentEditorDirtyDeferUntil w path reason
        generation := some (s.markdownIngestGenerations path)
        preservedUnresolvedEpisodeIdAtAdmission := episodeAtAdmission <|>
          if retryCount = 0 then w.preservedUnresolved path else none }
    { merged with lastMarkdownDirtyAt := w.now }.scheduleMarkdownDrain

def noteMarkdownDiskMutation (path : π) : DirtyQueue π :=
  { s with
    markdownDiskRevisions := Function.update s.markdownDiskRevisions path
      (s.markdownDiskRevisions path + 1) }

def markMarkdownDirty (w : DirtyWorld π) (path : π) (reason : MarkdownDirtyReason)
    (opId : Option ℕ) : DirtyQueue π :=
  ((s.change path).noteMarkdownDiskMutation path).queueDirtyMarkdownPath w path reason opId
    opId.toList 0 none

/-- An external change that an editor has intercepted. -/
def noteInterceptedExternalDiskMutation (w : DirtyWorld π) (path : π) : DirtyQueue π :=
  (s.change path).queueDirtyMarkdownPath w path .modify none [] 0 none

def mergeDirtyEntryIntoPath (w : DirtyWorld π) (path : π) (entry : MarkdownDirtyEntry) :
    DirtyQueue π :=
  let merged := s.mergeDirtyMarkdownPath path
    { entry with coalescedOpIds := entry.coalescedOpIds.eraseDups }
  { merged with lastMarkdownDirtyAt := w.now }.scheduleMarkdownDrain

/-- The entry in the map, then that of the ingest under way. The batch is not asked. -/
def redirectPendingDirtyPath (w : DirtyWorld π) (oldPath newPath : π) : DirtyQueue π :=
  let s := s.rename oldPath newPath
  let s := match s.dirtyMarkdownPaths.get? oldPath with
    | none => s
    | some entry =>
      { s with dirtyMarkdownPaths := s.dirtyMarkdownPaths.delete oldPath }.mergeDirtyEntryIntoPath w
        newPath { entry with generation := some (s.markdownIngestGenerations newPath) }
  match s.drain with
  | none => s
  | some drain => match drain.phase.active with
    | none => s
    | some active =>
      if active.path = oldPath then
        { s with
          drain := some { drain with phase := drain.phase.redirect newPath }
        }.mergeDirtyEntryIntoPath w newPath
          { active.entry with generation := some (s.markdownIngestGenerations newPath) }
      else s

def dropDirtyPath (path : π) : DirtyQueue π :=
  { s.settleAll path .dropped with dirtyMarkdownPaths := s.dirtyMarkdownPaths.delete path }

/-- A second resolution of the path throws. -/
def acquireMarkdownRemoteDeleteResolution (path : π) : DirtyQueue π :=
  if (s.resolutions path).isSome then s
  else
    let generation := s.markdownIngestGenerations path + 1
    { s.settleAll path .cancelled with
      markdownIngestGenerations := Function.update s.markdownIngestGenerations path generation
      resolutions := Function.update s.resolutions path (some generation)
      dirtyMarkdownPaths := s.dirtyMarkdownPaths.delete path }

def releaseMarkdownRemoteDeleteResolution (path : π) (lease : ℕ) : DirtyQueue π :=
  if s.resolutions path = some lease then
    { s with resolutions := Function.update s.resolutions path none }
  else s

def beginActiveMarkdownIngest (path : π) (entry : MarkdownDirtyEntry) : ActiveMarkdownIngest π where
  path := path
  entry := entry
  generation := entry.generation.getD (s.markdownIngestGenerations path)
  diskRevision := s.markdownDiskRevisions path
  covers := s.owedAt path

def shouldAbortActiveMarkdownIngest (active : ActiveMarkdownIngest π) : Bool :=
  active.redirectedTo.isSome || (s.resolutions active.path).isSome ||
    active.generation ≠ s.markdownIngestGenerations active.path ||
    active.diskRevision ≠ s.markdownDiskRevisions active.path

/-- The first half of `processDirtyMarkdownPath`. -/
def processDirtyMarkdownPath (w : DirtyWorld π) (path : π) (entry : MarkdownDirtyEntry)
    (batch : List (π × MarkdownDirtyEntry)) : DirtyQueue π :=
  let active := s.beginActiveMarkdownIngest path entry
  if (s.resolutions path).isSome ∨ entry.generation.any (· ≠ s.markdownIngestGenerations path) then
    { s with drain := some ⟨batch, .between⟩ }
  else if s.shouldAbortActiveMarkdownIngest active then { s with drain := some ⟨batch, .between⟩ }
  else if !w.isFile path then
    { s.settle active.covers path .gone with drain := some ⟨batch, .between⟩ }
  else { s with drain := some ⟨batch, .suppressing active⟩ }

/-- The promise of the drain is settled. -/
def endMarkdownDrain : DirtyQueue π :=
  let s := { s with drain := none }
  if 0 < s.dirtyMarkdownPaths.size then s.scheduleMarkdownDrain else s

/-- The drain goes on to its next entry, or it ends. -/
def continueDrain (w : DirtyWorld π) : DirtyQueue π :=
  match s.drain with
  | some ⟨(path, entry) :: batch, .between⟩ => s.processDirtyMarkdownPath w path entry batch
  | some ⟨[], .between⟩ => s.endMarkdownDrain
  | _ => s

/-- An entry with what is known of the editors now. -/
def deferredEntry (w : DirtyWorld π) (path : π) (entry : MarkdownDirtyEntry) : MarkdownDirtyEntry :=
  match getRecentEditorDirtyDeferUntil w path entry.reason with
  | none => entry
  | some deferUntil =>
    { entry with notBeforeMs := some (max (entry.notBeforeMs.getD 0) deferUntil) }

/-- The entries that are not deferred are taken, and the first one is begun. -/
def drainDirtyMarkdownPaths (w : DirtyWorld π) : DirtyQueue π :=
  let dirtyMarkdownPaths := s.dirtyMarkdownPaths.mapValues (deferredEntry w)
  let batch := dirtyMarkdownPaths.entries.filter fun entry => entry.2.notBeforeMs.all (· ≤ w.now)
  let s := { s with
    dirtyMarkdownPaths := (batch.map Prod.fst).foldl OrderedMap.delete dirtyMarkdownPaths
    drain := some ⟨batch, .between⟩ }
  if batch.isEmpty then s else s.continueDrain w

def kickMarkdownDrain (w : DirtyWorld π) : DirtyQueue π :=
  if s.drain.isSome then s else s.drainDirtyMarkdownPaths w

def timerFires (w : DirtyWorld π) : DirtyQueue π :=
  if !s.markdownDrainTimer then s
  else
    let s := { s with markdownDrainTimer := false }
    if 0 < s.getNextMarkdownDrainDelayMs w.now then s.scheduleMarkdownDrain
    else s.kickMarkdownDrain w

/-- The changes of an ingest that its file still has at its path. -/
def settleIngest (active : ActiveMarkdownIngest π) (outcome : ChangeOutcome π) : DirtyQueue π :=
  if active.redirectedTo.isSome then s else s.settle active.covers active.path outcome

/-- `shouldSuppressCreate` or `shouldSuppressModify` has answered. -/
def suppressionAnswered (w : DirtyWorld π) (suppressed : Bool) : DirtyQueue π :=
  match s.drain with
  | some ⟨batch, .suppressing active⟩ =>
    if suppressed then
      { s.settleIngest active .suppressed with drain := some ⟨batch, .between⟩ }
    else if active.entry.reason = .create ∧ w.isPendingRenameTarget active.path then
      { s with drain := some ⟨batch, .between⟩ }
    else if s.shouldAbortActiveMarkdownIngest active then
      { s with drain := some ⟨batch, .between⟩ }
    else
      { s with
        drain := some ⟨batch, .syncing { active with covers := s.owedAt active.path }⟩ }
  | _ => s

def requeueUnstableMarkdownIngest (w : DirtyWorld π) (path : π) (entry : MarkdownDirtyEntry) :
    DirtyQueue π :=
  let nextRetry := entry.retryCount + 1
  if MARKDOWN_STABLE_READ_MAX_RETRIES < nextRetry then s
  else s.queueDirtyMarkdownPath w path entry.reason entry.primaryOpId entry.coalescedOpIds nextRetry
    entry.preservedUnresolvedEpisodeIdAtAdmission

/-- `syncFileFromDisk` has ended; a read that is unstable is repeated. -/
def ingestEnded (w : DirtyWorld π) (unstable : Bool) : DirtyQueue π :=
  match s.drain with
  | some ⟨batch, .syncing active⟩ =>
    let requeued := if unstable && !s.shouldAbortActiveMarkdownIngest active then
      s.requeueUnstableMarkdownIngest w active.path active.entry else s
    { requeued.settleIngest active (.handed active.path) with drain := some ⟨batch, .between⟩ }
  | _ => s

/-- What is awaited rejects, and with it the whole drain. -/
def drainRejected : DirtyQueue π :=
  match s.drain with
  | some ⟨_, .suppressing _⟩ => s.endMarkdownDrain
  | some ⟨_, .syncing active⟩ => (s.settleIngest active (.handed active.path)).endMarkdownDrain
  | _ => s

end DirtyQueue

inductive DirtyQueueEvent (π : Type*)
  | mark (path : π) (reason : MarkdownDirtyReason) (opId : Option ℕ)
  | intercepted (path : π)
  | redirect (oldPath newPath : π)
  | drop (path : π)
  | acquire (path : π)
  | release (path : π) (lease : ℕ)
  | timer
  | continue
  | suppression (suppressed : Bool)
  | ingestEnded (unstable : Bool)
  | rejected

def DirtyQueue.next [DecidableEq π] (s : DirtyQueue π) (w : DirtyWorld π) :
    DirtyQueueEvent π → DirtyQueue π
  | .mark path reason opId => s.markMarkdownDirty w path reason opId
  | .intercepted path => s.noteInterceptedExternalDiskMutation w path
  | .redirect oldPath newPath => s.redirectPendingDirtyPath w oldPath newPath
  | .drop path => s.dropDirtyPath path
  | .acquire path => s.acquireMarkdownRemoteDeleteResolution path
  | .release path lease => s.releaseMarkdownRemoteDeleteResolution path lease
  | .timer => s.timerFires w
  | .continue => s.continueDrain w
  | .suppression suppressed => s.suppressionAnswered w suppressed
  | .ingestEnded unstable => s.ingestEnded w unstable
  | .rejected => s.drainRejected

end Kaos.Runtime
