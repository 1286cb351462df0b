import Mathlib.Data.List.Dedup
import Kaos.Lib.JsString

/-! A remote delete of a note: the local replica is inspected against the durable baseline and goes
to the trash, or it stays and its path is quarantined. -/
namespace Kaos.Sync

open Kaos.Lib

/-- What the vault has at the path of a note. -/
inductive NoteEntry
  | file (file : ℕ)
  | folder
  deriving DecidableEq

/-- The episode of a remote delete has the name of the tombstone. -/
inductive NoteEpisode
  | remoteDelete (fingerprint : ℕ)
  | other (id : ℕ)
  deriving DecidableEq

inductive NoteEditorAuthority
  | none
  | single (content : JsString)
  | multiple
  | readFailed
  deriving DecidableEq

/-- What a remote delete reads of the path: the vault, the baseline, the editors, the tombstone and
the admission that it has captured. -/
structure NoteWorld (η : Type*) where
  entry : Option NoteEntry
  isAtPath : ℕ → Bool
  /-- What a fresh read of a file gives. -/
  disk : ℕ → Option JsString
  hasBaselineProviders : Bool
  baselineHash : Option η
  /-- The editors of the path, as far as they can be read. -/
  openViews : List (Option JsString)
  hasOpaqueOpenFileView : Bool
  /-- That of the tombstone, if the path has one and no note. -/
  deleteFingerprint : Option ℕ
  remoteDeleteGeneration : ℕ
  isAdmissionCaptured : Bool
  isAdmissionCurrent : Bool
  entersCriticalSection : Bool
  isMarkdownPathSyncable : Bool
  preservedUnresolved : Option NoteEpisode
  hasTrashFile : Bool
  hasVaultTrash : Bool

inductive TrashPrimitive
  | trashFile
  | vaultTrash
  deriving DecidableEq

inductive DeleteMode
  | trash
  | stale
  | failed
  deriving DecidableEq

inductive RemoteDeleteDecision
  | applyDelete
  | preserveLocal (content : JsString)
  | preserveUnresolved
  deriving DecidableEq

/-- Where the delete waits. -/
inductive RemoteDeletePhase (η : Type*)
  | queued
  | baselineText (expectedHash : η)
  | baselineHash (expectedHash : η) (text : JsString)
  | baselineResolved (baseline : Option JsString)
  | firstRead (file : ℕ) (baseline : JsString) (read : Option (Option JsString))
  | finalRead (file : ℕ) (baseline : JsString) (read : Option (Option JsString))
  | trashing (file : ℕ) (primitive : TrashPrimitive) (marker : Option NoteEpisode)
  | trashed (mode : DeleteMode) (marker : Option NoteEpisode)
  | backup
  | ended

/-- A file that is handed to a primitive, and what the world was like. -/
structure TrashCall (η : Type*) where
  file : ℕ
  primitive : TrashPrimitive
  world : NoteWorld η

/-- A delete under way. It keeps on record what it has done: the baseline text with the world in
which its hash was compared, the file that was inspected with what was read of it at last, the calls
of the primitives, the first one last, the world in which it flagged the path or resolved its entry,
and the one it ended in. -/
structure RemoteDelete (η : Type*) where
  world : NoteWorld η
  generation : ℕ
  fingerprint : ℕ
  phase : RemoteDeletePhase η
  baseline : Option (NoteWorld η × JsString) := none
  inspected : Option (ℕ × JsString) := none
  calls : List (TrashCall η) := []
  quarantined : Option (NoteWorld η) := none
  resolved : Option (NoteWorld η) := none
  endedIn : Option (NoteWorld η) := none

/-- What an await gives: the text of the baseline store, and whether a primitive's promise has
resolved. -/
structure RemoteDeleteAnswer where
  baselineText : Option JsString := none
  trashResolved : Bool := false
  newEpisode : ℕ := 0

variable {η : Type*}

namespace NoteWorld

variable (w : NoteWorld η)

def isExactDiskFileCurrent (file : ℕ) : Bool :=
  w.isAtPath file && decide (w.entry = some (.file file))

def getOpenEditorAuthority : NoteEditorAuthority :=
  if w.hasOpaqueOpenFileView || w.openViews.any (·.isNone) then .readFailed
  else match (w.openViews.filterMap id).dedup with
    | [] => .none
    | [content] => .single content
    | _ => .multiple

/-- Without a tombstone a remote delete's entry is not recorded. -/
def recordRemoteDelete : NoteWorld η :=
  match w.deleteFingerprint with
  | some fingerprint => { w with preservedUnresolved := some (.remoteDelete fingerprint) }
  | none => w

def ensureRemoteDelete : NoteWorld η :=
  if w.preservedUnresolved.isSome then w else w.recordRemoteDelete

def ensurePathCollision (id : ℕ) : NoteWorld η :=
  if w.preservedUnresolved.isSome then w else { w with preservedUnresolved := some (.other id) }

end NoteWorld

namespace RemoteDelete

variable (d : RemoteDelete η)

def awaiting (phase : RemoteDeletePhase η) : RemoteDelete η := { d with phase }

def finish : RemoteDelete η := { d with phase := .ended, endedIn := some d.world }

def isCurrent : Bool :=
  d.world.isAdmissionCurrent && decide (d.world.remoteDeleteGeneration = d.generation) &&
    decide (d.world.deleteFingerprint = some d.fingerprint)

/-- The path is flagged, which is put on record if it has an entry now. -/
def quarantine (world : NoteWorld η) : RemoteDelete η :=
  { d with
    world
    quarantined := if world.preservedUnresolved.isSome then some world else d.quarantined }

/-- A primitive is called. -/
def callPrimitive (file : ℕ) (primitive : TrashPrimitive) (marker : Option NoteEpisode) :
    RemoteDelete η :=
  { d with
    phase := .trashing file primitive marker
    calls := ⟨file, primitive, d.world⟩ :: d.calls }

/-- `isExactDeleteCurrent`, before a primitive is called. -/
def isExactBefore (file : ℕ) : Bool := d.isCurrent && d.world.isExactDiskFileCurrent file

def isExactAfter : Bool := d.isCurrent && decide (d.world.entry = none)

/-- The second primitive of `deleteLocalReplica`. -/
def tryVaultTrash (file : ℕ) (marker : Option NoteEpisode) : RemoteDelete η :=
  if !d.world.hasVaultTrash then d.awaiting (.trashed .failed marker)
  else if !d.isExactBefore file then d.awaiting (.trashed .stale marker)
  else if !(d.world.isAdmissionCurrent && d.world.entersCriticalSection) then
    d.awaiting (.trashed .stale marker)
  else d.callPrimitive file .vaultTrash marker

/-- `deleteLocalReplica` up to its first await. -/
def deleteLocalReplica (file : ℕ) (marker : Option NoteEpisode) : RemoteDelete η :=
  if !d.world.hasTrashFile then d.tryVaultTrash file marker
  else if !d.isExactBefore file then d.awaiting (.trashed .stale marker)
  else if !(d.world.isAdmissionCurrent && d.world.entersCriticalSection) then
    d.awaiting (.trashed .stale marker)
  else d.callPrimitive file .trashFile marker

/-- The primitive's promise has settled. -/
def primitiveSettled (file : ℕ) (primitive : TrashPrimitive) (marker : Option NoteEpisode)
    (resolved : Bool) : RemoteDelete η :=
  if d.isExactAfter then d.awaiting (.trashed .trash marker)
  else if resolved then d.awaiting (.trashed .stale marker)
  else if !d.isExactBefore file then d.awaiting (.trashed .stale marker)
  else match primitive with
    | .trashFile => d.tryVaultTrash file marker
    | .vaultTrash => d.awaiting (.trashed .failed marker)

/-- What becomes of the path once `deleteLocalReplica` has returned. -/
def afterTrash (mode : DeleteMode) (marker : Option NoteEpisode) (newEpisode : ℕ) :
    RemoteDelete η :=
  if mode = .failed then (d.quarantine d.world.ensureRemoteDelete).finish
  else if mode = .stale ∨ d.isCurrent = false ∨ d.world.entry ≠ none then
    match d.world.entry with
    | some .folder => (d.quarantine (d.world.ensurePathCollision newEpisode)).finish
    | some (.file _) =>
      if d.isCurrent then (d.quarantine d.world.ensureRemoteDelete).finish else d.finish
    | none => d.finish
  else if marker.isSome ∧ d.world.preservedUnresolved = marker then
    { d with
      world := { d.world with preservedUnresolved := none }
      resolved := some d.world }.finish
  else d.finish

/-- The decision is carried out, if the delete is still current. -/
def commitDecision (file : ℕ) (decision : RemoteDeleteDecision) : RemoteDelete η :=
  if !d.isCurrent then d.finish
  else
    let decision := if decision = .applyDelete ∧ d.world.isExactDiskFileCurrent file = false then
      .preserveUnresolved else decision
    match decision with
    | .applyDelete => d.deleteLocalReplica file d.world.preservedUnresolved
    | .preserveLocal _ => (d.quarantine d.world.ensureRemoteDelete).awaiting .backup
    | .preserveUnresolved =>
      let d := d.quarantine d.world.recordRemoteDelete
      match d.world.getOpenEditorAuthority with
      | .single _ => d.awaiting .backup
      | _ => d.finish

/-- The first look at a note's editors and file. -/
def inspect (file : ℕ) (baseline : Option JsString) : RemoteDelete η :=
  match baseline with
  | none => d.commitDecision file .preserveUnresolved
  | some text => match d.world.getOpenEditorAuthority with
    | .multiple => d.commitDecision file .preserveUnresolved
    | .readFailed => d.commitDecision file .preserveUnresolved
    | .none => d.awaiting (.firstRead file text none)
    | .single content =>
      if content = text then d.awaiting (.firstRead file text none)
      else d.commitDecision file (.preserveLocal content)

/-- After the first read; a file without changes is read once more. -/
def afterFirstRead (file : ℕ) (text : JsString) (read : Option JsString) : RemoteDelete η :=
  match read with
  | none => d.commitDecision file .preserveUnresolved
  | some content =>
    if content ≠ text then d.commitDecision file (.preserveLocal content)
    else if !d.isCurrent then d.finish
    else match d.world.entry with
      | some (.file latest) =>
        if latest = file then d.awaiting (.finalRead file text none)
        else d.commitDecision file .preserveUnresolved
      | _ => d.finish

/-- What the last read and the editors make of the delete. -/
def finalDecision (file : ℕ) (text : JsString) (read : Option JsString) : RemoteDeleteDecision :=
  match read with
  | none => .preserveUnresolved
  | some content =>
    if !d.world.isExactDiskFileCurrent file then .preserveUnresolved
    else match d.world.getOpenEditorAuthority with
      | .multiple => .preserveUnresolved
      | .readFailed => .preserveUnresolved
      | .none => if content = text then .applyDelete else .preserveLocal content
      | .single editor =>
        if editor ≠ text then .preserveLocal editor
        else if content = text then .applyDelete
        else .preserveLocal content

/-- After the last read. -/
def afterFinalRead (file : ℕ) (text : JsString) (read : Option JsString) : RemoteDelete η :=
  { d with inspected := read.map fun content => (file, content) }.commitDecision file
    (d.finalDecision file text read)

end RemoteDelete

/-- `handleRemoteDelete` up to the lock of the path. -/
def handleRemoteDelete (w : NoteWorld η) : Option (RemoteDelete η) :=
  if !(w.isAdmissionCaptured && w.isAdmissionCurrent && w.isMarkdownPathSyncable) then none
  else w.deleteFingerprint.map fun fingerprint =>
    { world := { w with remoteDeleteGeneration := w.remoteDeleteGeneration + 1 }
      generation := w.remoteDeleteGeneration + 1
      fingerprint
      phase := .queued }

section Resume

variable [DecidableEq η] (contentBaselineHash : JsString → η)

namespace RemoteDelete

/-- An await ends. -/
def resume (d : RemoteDelete η) (answer : RemoteDeleteAnswer) : RemoteDelete η :=
  match d.phase with
  | .queued =>
    if !d.isCurrent then d.finish
    else match d.world.baselineHash with
      | some expectedHash =>
        if d.world.hasBaselineProviders then d.awaiting (.baselineText expectedHash)
        else d.awaiting (.baselineResolved none)
      | none => d.awaiting (.baselineResolved none)
  | .baselineText expectedHash => match answer.baselineText with
    | some text => d.awaiting (.baselineHash expectedHash text)
    | none => d.awaiting (.baselineResolved none)
  | .baselineHash expectedHash text =>
    if d.world.baselineHash = some expectedHash ∧ contentBaselineHash text = expectedHash then
      { d with baseline := some (d.world, text) }.awaiting (.baselineResolved (some text))
    else d.awaiting (.baselineResolved none)
  | .baselineResolved baseline =>
    if !d.isCurrent then d.finish
    else match d.world.entry with
      | some (.file file) => d.inspect file baseline
      | _ => d.finish
  | .firstRead _ _ none => d
  | .firstRead file text (some read) => d.afterFirstRead file text read
  | .finalRead _ _ none => d
  | .finalRead file text (some read) => d.afterFinalRead file text read
  | .trashing file primitive marker => d.primitiveSettled file primitive marker answer.trashResolved
  | .trashed mode marker => d.afterTrash mode marker answer.newEpisode
  | .backup => d.finish
  | .ended => d

end RemoteDelete

/-- The environment changes what it likes, and with it go what the primitives do; a fresh read
samples the file; an await ends. -/
inductive RemoteDeleteEvent (η : Type*)
  | world (w : NoteWorld η)
  | read
  | resume (answer : RemoteDeleteAnswer)

def RemoteDelete.next (d : RemoteDelete η) : RemoteDeleteEvent η → RemoteDelete η
  | .world w => { d with world := w }
  | .read => match d.phase with
    | .firstRead file text none => d.awaiting (.firstRead file text (some (d.world.disk file)))
    | .finalRead file text none => d.awaiting (.finalRead file text (some (d.world.disk file)))
    | _ => d
  | .resume answer => d.resume contentBaselineHash answer

end Resume

end Kaos.Sync
