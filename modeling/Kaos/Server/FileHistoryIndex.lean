import Kaos.Lib.OrderedMap

/-! The file-history index of a room: which files are marked dirty, and how the attempts at a
recovery snapshot bring the index up to the document. -/
namespace Kaos.Server

open Kaos.Lib

variable {φ π μ τ ε : Type*}

/-- The shared maps of the document that file history reads. A path keeps its place when its file
id is deleted. -/
structure RoomFiles (φ π μ τ : Type*) where
  fileMeta : φ → Option μ
  text : φ → Option τ
  pathToId : List (π × Option φ)

/-- What a transaction changes of one of the maps. -/
inductive RoomEdit (φ π μ τ : Type*)
  | fileMeta (fileId : φ) (value : Option μ)
  | text (fileId : φ) (value : Option τ)
  | path (i : ℕ) (fileId : Option φ)
  | newPath (path : π) (fileId : φ)

/-- The record of the dirty marks in storage. -/
structure RecoveryDirtyRecord (φ : Type*) where
  entries : OrderedMap φ ℕ
  nextSeq : ℕ

/-- A snapshot whose contents go up in slices. An entry stands for its path, content hash and
deleted flag. -/
structure PreparedUpload (φ ε : Type*) where
  persistedState : φ → Option ε
  processedDirtyFileIds : List φ
  dirtyWatermark : ℕ

/-- Where an attempt at a snapshot waits. `selected` is the document whose metadata and paths are
read, `texts` the texts that are read since; a clean index has nothing to finish. -/
inductive SnapshotAttempt (φ π μ τ ε : Type*)
  | idle
  | loading (forceFull : Bool)
  | auditing (forceFull : Bool) (pendingUpload : Option (PreparedUpload φ ε))
  | scanning (index : Option (φ → Option ε)) (dirtyFileIds : List φ) (watermark : ℕ)
      (selected : Option (RoomFiles φ π μ τ)) (texts : φ → Option (Option τ))
  | uploading (prepared : PreparedUpload φ ε)
  | finishing (done : Option (PreparedUpload φ ε))
  | indexing (done : PreparedUpload φ ε)
  | clearing (done : PreparedUpload φ ε)

/-- The room. The index in memory is that in storage; `flushing` is the record that a flush
writes, `saving` the document that a save writes. On record is, of each attempt that has answered
noop because the index is clean, the index with the document of that moment. -/
structure FileHistory (φ π μ τ ε : Type*) where
  doc : RoomFiles φ π μ τ
  savedDoc : RoomFiles φ π μ τ
  saving : Option (RoomFiles φ π μ τ) := none
  recoveryDirtyMarks : OrderedMap φ ℕ := .empty
  recoveryDirtySeq : ℕ := 0
  storedDirty : Option (RecoveryDirtyRecord φ) := none
  flushing : Option (Option (RecoveryDirtyRecord φ)) := none
  recoveryIndex : Option (φ → Option ε) := none
  pendingRecoveryUpload : Option (PreparedUpload φ ε) := none
  storedPending : Option (PreparedUpload φ ε) := none
  bucketPending : Option (PreparedUpload φ ε) := none
  attempt : SnapshotAttempt φ π μ τ ε := .idle
  cleanNoops : List ((φ → Option ε) × RoomFiles φ π μ τ) := []

/-- What the calls of an attempt give. -/
structure SnapshotAnswer where
  fails : Bool := false
  bucketReads : Bool := true
  auditTrusted : Bool := true
  isDeferred : Bool := false
  complete : Bool := true
  storagePut : Bool := true
  bucketPut : Bool := true
  storageDeleted : Bool := true
  bucketDeleted : Bool := true

inductive FileHistoryEvent (φ π μ τ : Type*)
  | edit (edit : RoomEdit φ π μ τ)
  | beginSave
  | endSave (success : Bool)
  | flushRecoveryDirtyMarks
  | flushed (success : Bool)
  | restart
  | createRecoverySnapshotMaybe (forceFull : Bool)
  | select
  | readText (fileId : φ)
  | resume (answer : SnapshotAnswer)

namespace RoomFiles

variable [DecidableEq φ] (d : RoomFiles φ π μ τ)

/-- The paths of a file in the order of the map. -/
def paths (fileId : φ) : List π :=
  d.pathToId.filterMap fun entry => if entry.2 = some fileId then some entry.1 else none

def apply : RoomEdit φ π μ τ → RoomFiles φ π μ τ
  | .fileMeta fileId value => { d with fileMeta := Function.update d.fileMeta fileId value }
  | .text fileId value => { d with text := Function.update d.text fileId value }
  | .path i fileId => { d with
      pathToId := d.pathToId.modify i fun entry => (entry.1, fileId) }
  | .newPath path fileId => { d with pathToId := d.pathToId ++ [(path, some fileId)] }

/-- The files that the observers find affected. -/
def affected : RoomEdit φ π μ τ → List φ
  | .fileMeta fileId _ => [fileId]
  | .text fileId _ => [fileId]
  | .path i fileId => fileId.toList ++ ((d.pathToId[i]?).bind (·.2)).toList
  | .newPath _ fileId => [fileId]

end RoomFiles

namespace FileHistory

variable [DecidableEq φ] (s : FileHistory φ π μ τ ε)

def markRecoveryDirty (fileId : φ) : FileHistory φ π μ τ ε :=
  { s with
    recoveryDirtySeq := s.recoveryDirtySeq + 1
    recoveryDirtyMarks := s.recoveryDirtyMarks.set fileId (s.recoveryDirtySeq + 1) }

def markRecoveryDirtyFileIds (fileIds : List φ) : FileHistory φ π μ τ ε :=
  fileIds.foldl markRecoveryDirty s

def dirtyRecord : Option (RecoveryDirtyRecord φ) :=
  if s.recoveryDirtyMarks.size = 0 then none
  else some ⟨s.recoveryDirtyMarks, s.recoveryDirtySeq⟩

/-- A flush under way is joined. -/
def flushRecoveryDirtyMarks : FileHistory φ π μ τ ε :=
  match s.flushing with
  | some _ => s
  | none => { s with flushing := some s.dirtyRecord }

def flushed (success : Bool) : FileHistory φ π μ τ ε :=
  match s.flushing with
  | some record =>
    { s with flushing := none, storedDirty := if success then record else s.storedDirty }
  | none => s

/-- Memory is lost, storage stays. -/
def restart : FileHistory φ π μ τ ε where
  doc := s.savedDoc
  savedDoc := s.savedDoc
  recoveryDirtyMarks := (s.storedDirty.map (·.entries)).getD .empty
  recoveryDirtySeq := (s.storedDirty.map (·.nextSeq)).getD 0
  storedDirty := s.storedDirty
  recoveryIndex := s.recoveryIndex
  storedPending := s.storedPending
  bucketPending := s.bucketPending
  cleanNoops := s.cleanNoops

def awaiting (attempt : SnapshotAttempt φ π μ τ ε) : FileHistory φ π μ τ ε := { s with attempt }

/-- The pending upload is taken from memory, storage or the bucket, in this order. -/
def loadPending (bucketReads : Bool) : Option (PreparedUpload φ ε) :=
  s.pendingRecoveryUpload.or (s.storedPending.or (if bucketReads then s.bucketPending else none))

/-- The dirty marks are captured, and the attempt goes on as the index and the marks allow. -/
def capture (forceFull : Bool) (answer : SnapshotAnswer) : FileHistory φ π μ τ ε :=
  match s.recoveryIndex with
  | some index =>
    if !forceFull && answer.auditTrusted then
      if s.recoveryDirtyMarks.keys = [] then
        { s with
          attempt := .finishing none
          cleanNoops := (index, s.doc) :: s.cleanNoops }
      else s.awaiting (.scanning (some index) s.recoveryDirtyMarks.keys s.recoveryDirtySeq
        (some s.doc) fun _ => none)
    else if !forceFull && answer.isDeferred then s.awaiting .idle
    else s.awaiting (.scanning none s.recoveryDirtyMarks.keys s.recoveryDirtySeq none fun _ => none)
  | none =>
    if !forceFull && answer.isDeferred then s.awaiting .idle
    else s.awaiting (.scanning none s.recoveryDirtyMarks.keys s.recoveryDirtySeq none fun _ => none)

/-- The upload is kept for the next attempt; a payload that is too large goes to the bucket. -/
def keepPending (prepared : PreparedUpload φ ε) (answer : SnapshotAnswer) : FileHistory φ π μ τ ε :=
  if answer.storagePut then
    { s with
      attempt := .idle
      pendingRecoveryUpload := some prepared
      storedPending := some prepared }
  else if answer.bucketPut then
    { s with
      attempt := .idle
      pendingRecoveryUpload := some prepared
      bucketPending := some prepared
      storedPending := if answer.storageDeleted then none else s.storedPending }
  else { s with attempt := .idle, pendingRecoveryUpload := some prepared }

/-- The deletes of a pending upload that is done are best effort. -/
def dropPending (done : Option (PreparedUpload φ ε)) (answer : SnapshotAnswer) :
    FileHistory φ π μ τ ε :=
  { s with
    attempt := (done.map SnapshotAttempt.indexing).getD .idle
    pendingRecoveryUpload := none
    storedPending := if answer.storageDeleted then none else s.storedPending
    bucketPending := if answer.bucketDeleted then none else s.bucketPending }

def clearProcessedRecoveryDirtyFileIds (fileIds : List φ) (watermark : ℕ) : FileHistory φ π μ τ ε :=
  { s with
    recoveryDirtyMarks := fileIds.foldl (fun marks fileId =>
      match marks.get? fileId with
      | some seq => if seq ≤ watermark then marks.delete fileId else marks
      | none => marks) s.recoveryDirtyMarks }

section Entries

variable (recoveryEntry : Option μ → Option τ → List π → Option ε)

/-- The entry of a file in the state that a snapshot persists: what was read of it if it was
scanned, else what the index has. -/
def persistedEntry (index : Option (φ → Option ε)) (dirtyFileIds : List φ)
    (selected : RoomFiles φ π μ τ) (texts : φ → Option (Option τ)) (fileId : φ) : Option ε :=
  match index with
  | some entries =>
    if fileId ∈ dirtyFileIds then
      recoveryEntry (selected.fileMeta fileId) ((texts fileId).getD (s.doc.text fileId))
        (selected.paths fileId)
    else entries fileId
  | none => recoveryEntry (selected.fileMeta fileId) ((texts fileId).getD (s.doc.text fileId))
      (selected.paths fileId)

/-- An await of the attempt ends. A scan that finds no change goes by the upload of nothing: what
it leaves in the index has the entries that it has read. -/
def resume (answer : SnapshotAnswer) : FileHistory φ π μ τ ε :=
  if answer.fails then s.awaiting .idle
  else match s.attempt with
  | .idle => s
  | .loading forceFull =>
    { s with
      attempt := .auditing forceFull (s.loadPending answer.bucketReads)
      pendingRecoveryUpload := s.loadPending answer.bucketReads }
  | .auditing forceFull none => s.capture forceFull answer
  | .auditing _ (some pendingUpload) => s.awaiting (.uploading pendingUpload)
  | .scanning _ _ _ none _ => s
  | .scanning index dirtyFileIds watermark (some selected) texts =>
    s.awaiting (.uploading
      { persistedState := s.persistedEntry recoveryEntry index dirtyFileIds selected texts
        processedDirtyFileIds := dirtyFileIds
        dirtyWatermark := watermark })
  | .uploading prepared =>
    if answer.complete then s.awaiting (.finishing (some prepared))
    else s.keepPending prepared answer
  | .finishing done => s.dropPending done answer
  | .indexing done =>
    { s with attempt := .clearing done, recoveryIndex := some done.persistedState }
  | .clearing done =>
    (s.clearProcessedRecoveryDirtyFileIds done.processedDirtyFileIds
      done.dirtyWatermark).flushRecoveryDirtyMarks.awaiting .idle

def next (s : FileHistory φ π μ τ ε) : FileHistoryEvent φ π μ τ → FileHistory φ π μ τ ε
  | .edit edit =>
    { s with doc := s.doc.apply edit }.markRecoveryDirtyFileIds (s.doc.affected edit)
  | .beginSave => { s with saving := some s.doc }
  | .endSave success =>
    { s with saving := none, savedDoc := if success then s.saving.getD s.savedDoc else s.savedDoc }
  | .flushRecoveryDirtyMarks => s.flushRecoveryDirtyMarks
  | .flushed success => s.flushed success
  | .restart => s.restart
  | .createRecoverySnapshotMaybe forceFull => match s.attempt with
    | .idle => s.awaiting (.loading forceFull)
    | _ => s
  | .select => match s.attempt with
    | .scanning index dirtyFileIds watermark none texts =>
      s.awaiting (.scanning index dirtyFileIds watermark (some s.doc) texts)
    | _ => s
  | .readText fileId => match s.attempt with
    | .scanning index dirtyFileIds watermark (some selected) texts =>
      s.awaiting (.scanning index dirtyFileIds watermark (some selected)
        (Function.update texts fileId (some (s.doc.text fileId))))
    | _ => s
  | .resume answer => s.resume recoveryEntry answer

end Entries

end FileHistory

end Kaos.Server
