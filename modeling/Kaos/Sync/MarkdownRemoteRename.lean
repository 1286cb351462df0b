import Kaos.Sync.MarkdownRemoteDelete

/-! Remote renames of notes: each one moves the local replica, accepts what is at the target, has
the target created, or quarantines both paths. Paths are normalized ones. -/
namespace Kaos.Sync

open Kaos.Lib

inductive UnresolvedReason
  | pathCollision
  | unknown
  | other (reason : ℕ)
  deriving DecidableEq

structure UnresolvedEntry where
  episode : ℕ
  reason : UnresolvedReason
  deriving DecidableEq

/-- The token of a rename that the disk mirror issues; `call` is the call that has set it, which
the code does not keep. -/
structure PendingRemoteRename where
  oldPath : JsString
  newPath : JsString
  file : ℕ
  call : ℕ

/-- The vault and what the disk mirror keeps of its paths. A path has a pending write when it is in
the write queue or has a timer. -/
structure RenameWorld where
  entry : JsString → Option NoteEntry
  disk : ℕ → JsString
  /-- The path in the metadata of a file id that is there and not deleted. -/
  metaPath : ℕ → Option JsString
  /-- The `Y.Text` of a file id and its content. -/
  idToText : ℕ → Option (ℕ × JsString)
  isAdmissionCurrent : ℕ → Bool
  entersCriticalSection : ℕ → Bool
  capturesAdmission : JsString → Bool
  isMarkdownPathSyncable : JsString → Bool
  preservedUnresolved : JsString → Option UnresolvedEntry
  pendingRemoteRenames : JsString → Option PendingRemoteRename
  openPaths : JsString → Bool
  pendingWrites : JsString → Bool
  remoteCreateAuthorizations : JsString → Bool
  nextEpisode : ℕ

/-- Where a call waits; a read has sampled the file or not. -/
inductive RenamePhase
  | queued
  | targetRead (target : ℕ) (expected : ℕ × JsString) (read : Option (Option JsString))
  | sourceRead (file : ℕ) (read : Option (Option JsString))
  | creatingFolder (file : ℕ) (planned : JsString)
  | finalRead (file : ℕ) (planned : JsString) (read : Option (Option JsString))
  | renaming (file : ℕ)
  | ended

/-- A call under way. It keeps on record what it has read, last first, the file that it has handed
to `renameFile` with the world of that moment, and the world in which it ended. -/
structure RemoteRename where
  fileId : ℕ
  oldPath : JsString
  newPath : JsString
  admission : ℕ
  initialSourceEpisode : Option ℕ := none
  wasOpen : Bool := false
  phase : RenamePhase := .queued
  reads : List (ℕ × JsString) := []
  issued : Option (ℕ × RenameWorld) := none
  endedIn : Option RenameWorld := none

/-- A call that has the turn. -/
structure RenameTurn where
  world : RenameWorld
  call : RemoteRename
  id : ℕ

/-- `newNormalized.substring(0, newNormalized.lastIndexOf("/"))` -/
def folderOf (path : JsString) : JsString :=
  ((path.reverse.dropWhile (· ≠ 47)).drop 1).reverse

/-- `PreservedUnresolvedRedirectResult` -/
inductive RedirectResult
  | missing
  | targetOnly (entry : UnresolvedEntry)
  | unchanged
  | moved
  | collision

namespace RenameWorld

variable (w : RenameWorld)

def retirePendingWritesForPreservedPath (path : JsString) : RenameWorld :=
  { w with
    pendingWrites := Function.update w.pendingWrites path false
    remoteCreateAuthorizations := Function.update w.remoteCreateAuthorizations path false }

/-- `PreservedUnresolvedRegistry.record`: the episode goes on if its reason is the same. -/
def recordEntry (path : JsString) (reason : UnresolvedReason) : RenameWorld :=
  match w.preservedUnresolved path with
  | some previous =>
    if previous.reason = reason then w
    else
      { w with
        preservedUnresolved :=
          Function.update w.preservedUnresolved path (some ⟨w.nextEpisode, reason⟩)
        nextEpisode := w.nextEpisode + 1 }
  | none =>
    { w with
      preservedUnresolved :=
        Function.update w.preservedUnresolved path (some ⟨w.nextEpisode, reason⟩)
      nextEpisode := w.nextEpisode + 1 }

def recordPreservedUnresolved (path : JsString) (reason : UnresolvedReason) : RenameWorld :=
  (w.recordEntry path reason).retirePendingWritesForPreservedPath path

/-- Both paths are flagged as a path collision. -/
def recordCollision (oldPath newPath : JsString) : RenameWorld :=
  (w.recordPreservedUnresolved oldPath .pathCollision).recordPreservedUnresolved newPath
    .pathCollision

/-- An entry that moves leaves its path; in a merge the target's own fields win. -/
def moveEntry (oldPath newPath : JsString) (entry : UnresolvedEntry) : RenameWorld :=
  { w with
    preservedUnresolved := Function.update (Function.update w.preservedUnresolved oldPath none)
      newPath (some entry) }

def redirectPreservedUnresolved (oldPath newPath : JsString) : RedirectResult × RenameWorld :=
  match w.preservedUnresolved oldPath, w.preservedUnresolved newPath with
  | none, some entry => (.targetOnly entry, w)
  | none, none => (.missing, w)
  | some source, target =>
    if oldPath = newPath then (.unchanged, w)
    else match target with
      | some target =>
        if target.episode ≠ source.episode then (.collision, w.recordCollision oldPath newPath)
        else (.moved, ((w.moveEntry oldPath newPath target).retirePendingWritesForPreservedPath
          oldPath).retirePendingWritesForPreservedPath newPath)
      | none => (.moved, ((w.moveEntry oldPath newPath source).retirePendingWritesForPreservedPath
          oldPath).retirePendingWritesForPreservedPath newPath)

def retirePendingRemoteRename (oldPath newPath : JsString) (file : ℕ) : RenameWorld :=
  match w.pendingRemoteRenames newPath with
  | some pending =>
    if pending.oldPath = oldPath ∧ pending.newPath = newPath ∧ pending.file = file then
      { w with pendingRemoteRenames := Function.update w.pendingRemoteRenames newPath none }
    else w
  | none => w

def consumeRemoteRename (oldPath newPath : JsString) (file : ℕ) : Bool × RenameWorld :=
  match w.pendingRemoteRenames newPath with
  | some pending =>
    if pending.oldPath ≠ oldPath ∨ pending.newPath ≠ newPath ∨ pending.file ≠ file then (false, w)
    else (true,
      { w with pendingRemoteRenames := Function.update w.pendingRemoteRenames newPath none })
  | none => (false, w)

def settleRemoteRenamePathState (oldPath newPath : JsString) (wasOpen : Bool) : RenameWorld :=
  { w with
    openPaths := if wasOpen then
        Function.update (Function.update w.openPaths oldPath false) newPath true
      else w.openPaths
    pendingWrites := Function.update w.pendingWrites oldPath false
    remoteCreateAuthorizations := Function.update w.remoteCreateAuthorizations oldPath false }

def authorizeRemoteCreate (path : JsString) : RenameWorld :=
  { w with remoteCreateAuthorizations := Function.update w.remoteCreateAuthorizations path true }

def scheduleWrite (path : JsString) : RenameWorld :=
  if !w.isMarkdownPathSyncable path then w
  else if (w.preservedUnresolved path).isSome then w
  else { w with pendingWrites := Function.update w.pendingWrites path true }

def scheduleRemoteWrite (path : JsString) : RenameWorld :=
  if !w.capturesAdmission path then w else w.scheduleWrite path

/-- A file goes to a free path. -/
def moveFile (source target : JsString) (file : ℕ) : RenameWorld :=
  if w.entry source = some (.file file) ∧ w.entry target = none then
    { w with
      entry := Function.update (Function.update w.entry source none) target (some (.file file)) }
  else w

/-- A file or folder appears at a free path. -/
def createEntry (path : JsString) (entry : NoteEntry) : RenameWorld :=
  if w.entry path = none then { w with entry := Function.update w.entry path (some entry) } else w

/-- A file or folder goes. -/
def removeEntry (path : JsString) (entry : NoteEntry) : RenameWorld :=
  if w.entry path = some entry then { w with entry := Function.update w.entry path none } else w

def isIntentCurrent (call : RemoteRename) : Bool :=
  w.isAdmissionCurrent call.admission && decide (w.metaPath call.fileId = some call.newPath)

end RenameWorld

namespace RenameTurn

variable (t : RenameTurn)

def awaiting (phase : RenamePhase) : RenameTurn := { t with call := { t.call with phase } }

def finish : RenameTurn :=
  { t with call := { t.call with phase := .ended, endedIn := some t.world } }

def isIntentCurrent : Bool := t.world.isIntentCurrent t.call

def preserveCollision : RenameTurn :=
  { t with world := t.world.recordCollision t.call.oldPath t.call.newPath }.finish

def retire (file : ℕ) : RenameTurn :=
  { t with world := t.world.retirePendingRemoteRename t.call.oldPath t.call.newPath file }

/-- What the redirection of the old path's entry gives, and whether it has worked. -/
def redirectPreservedMarker : Bool × RenameWorld :=
  match t.world.redirectPreservedUnresolved t.call.oldPath t.call.newPath with
  | (.collision, w) => (false, w)
  | (.targetOnly entry, w) =>
    if t.call.initialSourceEpisode = some entry.episode then (true, w)
    else (false, w.recordCollision t.call.oldPath t.call.newPath)
  | (_, w) => (true, w)

def settlePaths (world : RenameWorld) : RenameTurn :=
  { t with
    world := world.settleRemoteRenamePathState t.call.oldPath t.call.newPath t.call.wasOpen }

def scheduleTarget (authorizeTargetCreate : Bool) : RenameTurn :=
  { t with
    world := (if authorizeTargetCreate then t.world.authorizeRemoteCreate t.call.newPath
      else t.world).scheduleRemoteWrite t.call.newPath }

/-- The end of a rename that has settled, or that has nothing on either side. -/
def conclude (scheduleTargetWrite authorizeTargetCreate : Bool) : RenameTurn :=
  if !t.isIntentCurrent then t.finish
  else
    let t' := t.settlePaths t.redirectPreservedMarker.2
    if !t.redirectPreservedMarker.1 then t'.finish
    else if scheduleTargetWrite then (t'.scheduleTarget authorizeTargetCreate).finish
    else t'.finish

/-- Whether another episode owns the target. -/
def ownsTarget : Bool :=
  match t.world.preservedUnresolved t.call.newPath with
  | none => false
  | some target => (t.world.preservedUnresolved t.call.oldPath).map (·.episode) ≠
      some target.episode

/-- The call keeps what the paths are like at first. -/
def capture : RenameTurn :=
  { t with
    call := { t.call with
      initialSourceEpisode := (t.world.preservedUnresolved t.call.oldPath).map (·.episode)
      wasOpen := t.world.openPaths t.call.oldPath } }

/-- The look at both paths. -/
def inspect : RenameTurn :=
  match t.world.entry t.call.oldPath, t.world.entry t.call.newPath with
  | some (.file file), none => t.awaiting (.sourceRead file none)
  | some (.file _), some _ => t.preserveCollision
  | _, some .folder => t.preserveCollision
  | _, some (.file target) => match t.world.idToText t.call.fileId with
    | none => t.preserveCollision
    | some expected => t.awaiting (.targetRead target expected none)
  | _, none => t.conclude true true

/-- Both paths are locked. -/
def start : RenameTurn :=
  if !t.isIntentCurrent then t.capture.finish
  else if t.ownsTarget then t.capture.preserveCollision
  else t.capture.inspect

/-- Whether the old path has no file, the target is the same file as before the read, and what was
read is the shared text, which has not changed. -/
def targetMatches (target : ℕ) (expected : ℕ × JsString) (content : JsString) : Bool :=
  (match t.world.entry t.call.oldPath with
    | some (.file _) => false
    | _ => true) && decide (t.world.entry t.call.newPath = some (.file target)) &&
    decide (t.world.idToText t.call.fileId = some expected) && decide (content = expected.2)

def afterTargetRead (target : ℕ) (expected : ℕ × JsString) (read : Option JsString) : RenameTurn :=
  match read with
  | none => t.preserveCollision
  | some content =>
    if !t.isIntentCurrent then t.finish
    else if !t.targetMatches target expected content then t.preserveCollision
    else t.conclude false false

def entersCriticalSection : Bool :=
  t.world.isAdmissionCurrent t.call.admission && t.world.entersCriticalSection t.call.admission

/-- The rename has thrown. -/
def failed (file : ℕ) : RenameTurn := (t.retire file).preserveCollision

/-- The folder of the target is there. -/
def afterFolder (file : ℕ) (planned : JsString) : RenameTurn :=
  if !t.isIntentCurrent then t.finish
  else if t.world.entry t.call.oldPath = some (.file file) ∧
      t.world.entry t.call.newPath = none then t.awaiting (.finalRead file planned none)
  else t.preserveCollision

def afterSourceRead (file : ℕ) (read : Option JsString) : RenameTurn :=
  match read with
  | none => t.failed file
  | some planned =>
    if !t.isIntentCurrent then t.finish
    else if folderOf t.call.newPath ≠ [] ∧ t.world.entry (folderOf t.call.newPath) = none then
      if !t.entersCriticalSection then t.finish
      else t.awaiting (.creatingFolder file planned)
    else t.afterFolder file planned

/-- The token of the call. -/
def setPendingRemoteRename (file : ℕ) : RenameTurn :=
  { t with
    world := { t.world with
      pendingRemoteRenames := Function.update t.world.pendingRemoteRenames t.call.newPath
        (some ⟨t.call.oldPath, t.call.newPath, file, t.id⟩) } }

/-- `renameFile` is called. -/
def issue (file : ℕ) : RenameTurn :=
  { t with call := { t.call with phase := .renaming file, issued := some (file, t.world) } }

def afterFinalRead (file : ℕ) (planned : JsString) (read : Option JsString) : RenameTurn :=
  match read with
  | none => t.failed file
  | some content =>
    if !t.isIntentCurrent then t.finish
    else if t.world.entry t.call.oldPath = some (.file file) ∧ content = planned ∧
        t.world.entry t.call.newPath = none then
      let t' := t.setPendingRemoteRename file
      if !t'.entersCriticalSection then (t'.retire file).finish else t'.issue file
    else t.preserveCollision

/-- The rename has come through, but the metadata have gone on. -/
def concludeStale : RenameTurn :=
  let t' := t.settlePaths t.redirectPreservedMarker.2
  if t.redirectPreservedMarker.1 ∧ t'.world.preservedUnresolved t.call.newPath = none then
    { t' with world := t'.world.recordPreservedUnresolved t.call.newPath .unknown }.finish
  else t'.finish

def afterRename (file : ℕ) (resolved : Bool) : RenameTurn :=
  if !resolved then t.failed file
  else
    let t' := t.retire file
    if t'.world.entry t.call.oldPath ≠ none ∨
        t'.world.entry t.call.newPath ≠ some (.file file) then t'.failed file
    else if !t'.isIntentCurrent then (t'.retire file).concludeStale
    else t'.conclude true false

/-- An await of the call ends. -/
def resume (resolved : Bool) : RenameTurn :=
  match t.call.phase with
  | .queued => t.start
  | .targetRead _ _ none => t
  | .targetRead target expected (some read) => t.afterTargetRead target expected read
  | .sourceRead _ none => t
  | .sourceRead file (some read) => t.afterSourceRead file read
  | .creatingFolder file planned =>
    if resolved then t.afterFolder file planned else t.failed file
  | .finalRead _ _ none => t
  | .finalRead file planned (some read) => t.afterFinalRead file planned read
  | .renaming file => t.afterRename file resolved
  | .ended => t

/-- A fresh read looks at its file, if it can. -/
def sample (file : ℕ) (fails : Bool) (phase : Option (Option JsString) → RenamePhase) :
    RenameTurn :=
  if fails then t.awaiting (phase (some none))
  else
    { t with
      call := { t.call with
        phase := phase (some (some (t.world.disk file)))
        reads := (file, t.world.disk file) :: t.call.reads } }

def read (fails : Bool) : RenameTurn :=
  match t.call.phase with
  | .targetRead target expected none => t.sample target fails (.targetRead target expected)
  | .sourceRead file none => t.sample file fails (.sourceRead file)
  | .finalRead file planned none => t.sample file fails (.finalRead file planned)
  | _ => t

/-- What the primitive that a call waits for does to the vault; `renameFile` moves the file from
where it is then and refuses a target that is there. -/
def perform (source : JsString) : RenameTurn :=
  match t.call.phase with
  | .creatingFolder _ _ =>
    { t with world := t.world.createEntry (folderOf t.call.newPath) .folder }
  | .renaming file => { t with world := t.world.moveFile source t.call.newPath file }
  | _ => t

end RenameTurn

/-- The disk mirror's renames. A call may take its turns whenever it has ended its wait: what holds
of these runs holds of those in which the locks of the paths keep some calls waiting. -/
structure RemoteRenames where
  world : RenameWorld
  calls : List RemoteRename := []

/-- The user and other programs change the vault; what else changes is given as a whole. -/
inductive RenameEvent
  | localCreate (path : JsString) (entry : NoteEntry)
  | localEdit (file : ℕ) (content : JsString)
  | localDelete (path : JsString) (entry : NoteEntry)
  | localRename (source target : JsString) (file : ℕ)
  | shared (w : RenameWorld)
  | consumeRemoteRename (oldPath newPath : JsString) (file : ℕ)
  | handleRemoteRename (fileId : ℕ) (oldPath newPath : JsString) (admission : ℕ)
  | read (call : ℕ) (fails : Bool)
  | perform (call : ℕ) (source : JsString)
  | resume (call : ℕ) (resolved : Bool)

namespace RemoteRenames

/-- `handleRemoteRename` up to the locks. -/
def handleRemoteRename (s : RemoteRenames) (fileId : ℕ) (oldPath newPath : JsString)
    (admission : ℕ) : RemoteRenames :=
  if oldPath = newPath then s
  else if !(s.world.capturesAdmission oldPath && s.world.capturesAdmission newPath &&
      s.world.isAdmissionCurrent admission) then s
  else if !(s.world.isMarkdownPathSyncable oldPath && s.world.isMarkdownPathSyncable newPath) then s
  else { s with calls := s.calls ++ [{ fileId, oldPath, newPath, admission }] }

/-- A call takes its turn. -/
def turn (s : RemoteRenames) (id : ℕ) (move : RenameTurn → RenameTurn) : RemoteRenames :=
  match s.calls[id]? with
  | some call =>
    let t := move ⟨s.world, call, id⟩
    { world := t.world, calls := s.calls.set id t.call }
  | none => s

/-- Everything but the vault and the tokens is as given. -/
def shared (s : RemoteRenames) (w : RenameWorld) : RemoteRenames :=
  { s with
    world := { w with
      entry := s.world.entry
      disk := s.world.disk
      pendingRemoteRenames := s.world.pendingRemoteRenames } }

def next (s : RemoteRenames) : RenameEvent → RemoteRenames
  | .localCreate path entry => { s with world := s.world.createEntry path entry }
  | .localEdit file content =>
    { s with world := { s.world with disk := Function.update s.world.disk file content } }
  | .localDelete path entry => { s with world := s.world.removeEntry path entry }
  | .localRename source target file => { s with world := s.world.moveFile source target file }
  | .shared w => s.shared w
  | .consumeRemoteRename oldPath newPath file =>
    { s with world := (s.world.consumeRemoteRename oldPath newPath file).2 }
  | .handleRemoteRename fileId oldPath newPath admission =>
    s.handleRemoteRename fileId oldPath newPath admission
  | .read id fails => s.turn id (·.read fails)
  | .perform id source => s.turn id (·.perform source)
  | .resume id resolved => s.turn id (·.resume resolved)

def run (s : RemoteRenames) (events : List RenameEvent) : RemoteRenames := events.foldl next s

/-- At first no call is under way and there is no token. -/
def init (w : RenameWorld) : RemoteRenames :=
  { world := { w with pendingRemoteRenames := fun _ => none } }

end RemoteRenames

end Kaos.Sync
