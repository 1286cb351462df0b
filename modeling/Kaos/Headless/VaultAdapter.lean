import Kaos.Lib.JsString
import Kaos.Lib.LinkedFiles
import Kaos.Lib.Run

/-! The writing operations of the headless vault, one system call at a time, among programs that
create, replace and delete files. -/
namespace Kaos.Headless

open Kaos.Lib

/-- A path of the vault, or a temporary name of the adapter, which no other program uses. -/
inductive VaultName
  | vault (path : JsString)
  | temporary (sequence : ℕ)
  deriving DecidableEq

abbrev VaultFiles (β : Type*) := LinkedFiles VaultName β

inductive ProcessError
  | changed
  | retained
  | call
  deriving DecidableEq

inductive ProcessOutcome (β : Type*)
  | returned (next : β)
  | failed (error : ProcessError)
  deriving DecidableEq

/-- The file that has been read, its content and what the callback made of it. -/
structure Transform (β : Type*) where
  source : ℕ
  current : β
  next : β
  deriving DecidableEq

/-- The call that comes next. -/
inductive ProcessPhase (β : Type*)
  | openSource
  | statSource (source : ℕ)
  | readSource (source : ℕ)
  | openTemporary (transform : Transform β)
  | writeTemporary (transform : Transform β) (file : ℕ)
  | statBefore (transform : Transform β)
  | readLatest (transform : Transform β) (before : ℕ)
  | statAfter (transform : Transform β) (before : ℕ) (latest : β)
  | beforeCommit (transform : Transform β)
  | displace (transform : Transform β)
  | statDisplacedBefore (transform : Transform β)
  | readDisplaced (transform : Transform β) (before : ℕ)
  | statDisplacedAfter (transform : Transform β) (before : ℕ) (content : β)
  | commit (transform : Transform β)
  | restore (transform : Transform β) (error : ProcessError)
  | closeSource (outcome : ProcessOutcome β) (cleanupDisplaced : Bool)
  | removeTemporary (outcome : ProcessOutcome β) (cleanupDisplaced : Bool)
  | removeDisplaced (outcome : ProcessOutcome β)
  | done (outcome : ProcessOutcome β)

structure ProcessOp (β : Type*) where
  path : JsString
  fn : β → Option β
  tmp : ℕ
  displaced : ℕ
  phase : ProcessPhase β

/-- `create`, and `createBinary` with it. -/
inductive CreatePhase
  | mkdir
  | openTemporary
  | writeTemporary (file : ℕ)
  | link
  | removeTemporary (created : Bool)
  | done (created : Bool)
  deriving DecidableEq

structure CreateOp (β : Type*) where
  path : JsString
  content : β
  tmp : ℕ
  phase : CreatePhase

/-- `file` is what was at the old path when it was linked. -/
inductive RenamePhase
  | mkdir
  | link
  | removeOld (file : ℕ)
  | removeNew (file : ℕ)
  | done (renamed : Bool)
  deriving DecidableEq

structure RenameOp where
  oldPath : JsString
  newPath : JsString
  phase : RenamePhase

inductive Op (β : Type*)
  | process (op : ProcessOp β)
  | create (op : CreateOp β)
  | rename (op : RenameOp)

def Op.paths {β : Type*} : Op β → List JsString
  | .process op => [op.path]
  | .create op => [op.path]
  | .rename op => [op.oldPath, op.newPath]

def Op.temporaries {β : Type*} : Op β → List ℕ
  | .process op => [op.tmp, op.displaced]
  | .create op => [op.tmp]
  | .rename _ => []

/-- The temporary names at which an operation creates files. -/
def Op.scratch {β : Type*} : Op β → List ℕ
  | .process op => [op.tmp]
  | .create op => [op.tmp]
  | .rename _ => []

def Op.isDone {β : Type*} : Op β → Bool
  | .process op => match op.phase with
    | .done _ => true
    | _ => false
  | .create op => match op.phase with
    | .done _ => true
    | _ => false
  | .rename op => match op.phase with
    | .done _ => true
    | _ => false

/-- What has happened to files: programs put them at paths and take them from there; a `process`
reads one, moves one aside, links its result and gives the moved one up. -/
inductive LogEntry (β : Type*)
  | put (path : JsString) (file : ℕ) (content : β)
  | took (path : JsString) (file : ℕ)
  | read (op file : ℕ) (content : β)
  | displaced (op : ℕ) (path : JsString) (file : ℕ)
  | committed (op : ℕ) (path : JsString) (content : β)
  | retired (op file : ℕ)

/-- `seen` is what the paths of an operation held when it began and what other programs have made of
them since. -/
structure Running (β : Type*) where
  op : Op β
  seen : List (JsString × Option ℕ)

structure VaultState (β : Type*) where
  fs : VaultFiles β
  temporaryFileSequence : ℕ
  ops : List (Running β) := []
  log : List (LogEntry β) := []

/-- A call of an operation can fail for a reason of its own, other than that a name is taken. -/
inductive Event (β : Type*)
  | process (path : JsString) (fn : β → Option β)
  | create (path : JsString) (content : β)
  | rename (oldPath newPath : JsString)
  | call (op : ℕ) (fault : Bool)
  | externalCreate (path : JsString) (content : β)
  | externalReplace (path : JsString) (content : β)
  | externalDelete (path : JsString)

section Calls

variable {β : Type*} [DecidableEq β] [Inhabited β]

/-- An operation after a call, the files and what is to be logged. -/
abbrev Called (β ω : Type*) := ω × VaultFiles β × List (LogEntry β)

/-- Before anything has been moved aside an error only ends the operation. -/
def ProcessOp.stop (error : ProcessError) : ProcessPhase β := .closeSource (.failed error) false

/-- One call of `process`; the default content is that of an empty file. -/
def ProcessOp.call (op : ProcessOp β) (index : ℕ) (fs : VaultFiles β) (fault : Bool) :
    Called β (ProcessPhase β) :=
  let path := VaultName.vault op.path
  let tmp := VaultName.temporary op.tmp
  let displaced := VaultName.temporary op.displaced
  match op.phase with
  | .openSource => match fault, fs.names path with
    | false, some source => (.statSource source, fs, [])
    | _, _ => (.done (.failed .call), fs, [])
  | .statSource source => if fault then (stop .call, fs, []) else (.readSource source, fs, [])
  | .readSource source =>
    if fault then (stop .call, fs, [])
    else match op.fn (fs.content source) with
    | some next => (.openTemporary ⟨source, fs.content source, next⟩, fs,
        [.read index source (fs.content source)])
    | none => (stop .call, fs, [])
  | .openTemporary transform =>
    if fault ∨ fs.names tmp ≠ none then (stop .call, fs, [])
    else (.writeTemporary transform fs.count, fs.create tmp default, [])
  | .writeTemporary transform file =>
    if fault then (stop .call, fs, [])
    else (.statBefore transform, fs.write file transform.next, [])
  | .statBefore transform => match fault, fs.names path with
    | false, some before => (.readLatest transform before, fs, [])
    | _, _ => (stop .call, fs, [])
  | .readLatest transform before => match fault, fs.names path with
    | false, some file => (.statAfter transform before (fs.content file), fs, [])
    | _, _ => (stop .call, fs, [])
  | .statAfter transform before latest => match fault, fs.names path with
    | false, some after =>
      if transform.source ≠ before ∨ transform.source ≠ after ∨ latest ≠ transform.current then
        (stop .changed, fs, [])
      else (.beforeCommit transform, fs, [])
    | _, _ => (stop .call, fs, [])
  | .beforeCommit transform =>
    if fault then (stop .call, fs, []) else (.displace transform, fs, [])
  | .displace transform => match fault, fs.names path with
    | false, some file =>
      (.statDisplacedBefore transform, fs.move path displaced, [.displaced index op.path file])
    | _, _ => (stop .call, fs, [])
  | .statDisplacedBefore transform => match fault, fs.names displaced with
    | false, some before => (.readDisplaced transform before, fs, [])
    | _, _ => (.restore transform .call, fs, [])
  | .readDisplaced transform before => match fault, fs.names displaced with
    | false, some file => (.statDisplacedAfter transform before (fs.content file), fs, [])
    | _, _ => (.restore transform .call, fs, [])
  | .statDisplacedAfter transform before content => match fault, fs.names displaced with
    | false, some after =>
      if transform.source ≠ before ∨ transform.source ≠ after ∨
          content ≠ transform.current then
        (.restore transform .changed, fs, [])
      else (.commit transform, fs, [])
    | _, _ => (.restore transform .call, fs, [])
  | .commit transform =>
    if fault then (.restore transform .call, fs, [])
    else match fs.names path, fs.names tmp with
    | none, some file =>
      (.closeSource (.returned transform.next) true, fs.bind path (some file),
        .committed index op.path (fs.content file) ::
          ((fs.names displaced).map (LogEntry.retired index)).toList)
    | some _, _ => (.restore transform .changed, fs, [])
    | none, none => (.restore transform .call, fs, [])
  | .restore _ error =>
    if fault then (.closeSource (.failed .retained) false, fs, [])
    else match fs.names path, fs.names displaced with
    | none, some file => (.closeSource (.failed error) true, fs.bind path (some file), [])
    | some _, _ => (.closeSource (.failed error) true, fs,
        ((fs.names displaced).map (LogEntry.retired index)).toList)
    | none, none => (.closeSource (.failed .retained) false, fs, [])
  | .closeSource outcome cleanup => (.removeTemporary outcome cleanup, fs, [])
  | .removeTemporary outcome cleanup =>
    (if cleanup then .removeDisplaced outcome else .done outcome,
      if fault then fs else fs.unlink tmp, [])
  | .removeDisplaced outcome => (.done outcome, if fault then fs else fs.unlink displaced, [])
  | .done outcome => (.done outcome, fs, [])

/-- One call of `create`. -/
def CreateOp.call (op : CreateOp β) (fs : VaultFiles β) (fault : Bool) : Called β CreatePhase :=
  let path := VaultName.vault op.path
  let tmp := VaultName.temporary op.tmp
  match op.phase with
  | .mkdir => (if fault then .done false else .openTemporary, fs, [])
  | .openTemporary =>
    if fault ∨ fs.names tmp ≠ none then (.removeTemporary false, fs, [])
    else (.writeTemporary fs.count, fs.create tmp default, [])
  | .writeTemporary file =>
    if fault then (.removeTemporary false, fs, [])
    else (.link, fs.write file op.content, [])
  | .link => match fault, fs.names path, fs.names tmp with
    | false, none, some file => (.removeTemporary true, fs.bind path (some file), [])
    | _, _, _ => (.removeTemporary false, fs, [])
  | .removeTemporary created => (.done created, if fault then fs else fs.unlink tmp, [])
  | .done created => (.done created, fs, [])

/-- One call of `rename`. -/
def RenameOp.call (op : RenameOp) (fs : VaultFiles β) (fault : Bool) : Called β RenamePhase :=
  let oldPath := VaultName.vault op.oldPath
  let newPath := VaultName.vault op.newPath
  match op.phase with
  | .mkdir => (if fault then .done false else .link, fs, [])
  | .link => match fault, fs.names oldPath, fs.names newPath with
    | false, some file, none => (.removeOld file, fs.bind newPath (some file), [])
    | _, _, _ => (.done false, fs, [])
  | .removeOld file => match fault, fs.names oldPath with
    | false, some _ => (.done true, fs.unlink oldPath, [])
    | _, _ => (.removeNew file, fs, [])
  | .removeNew _ => (.done false, if fault then fs else fs.unlink newPath, [])
  | .done renamed => (.done renamed, fs, [])

def Op.call (op : Op β) (index : ℕ) (fs : VaultFiles β) (fault : Bool) : Called β (Op β) :=
  match op with
  | .process op =>
    let called := op.call index fs fault
    (.process { op with phase := called.1 }, called.2)
  | .create op =>
    let called := op.call fs fault
    (.create { op with phase := called.1 }, called.2)
  | .rename op =>
    let called := op.call fs fault
    (.rename { op with phase := called.1 }, called.2)

end Calls

namespace VaultState

variable {β : Type*} [DecidableEq β] [Inhabited β] (s : VaultState β)

/-- What the paths of an operation hold. -/
def held (fs : VaultFiles β) (paths : List JsString) : List (JsString × Option ℕ) :=
  paths.map fun path => (path, fs.names (.vault path))

/-- An operation sees what another program has changed at its paths. -/
def Running.observe (fs fs' : VaultFiles β) (running : Running β) : Running β where
  op := running.op
  seen := running.seen ++ (held fs' running.op.paths).filter fun entry =>
    fs'.names (VaultName.vault entry.1) ≠ fs.names (VaultName.vault entry.1)

/-- Another program changes the files. -/
def interfere (fs' : VaultFiles β) (entries : List (LogEntry β)) : VaultState β :=
  { s with fs := fs', log := s.log ++ entries, ops := s.ops.map (Running.observe s.fs fs') }

/-- An operation begins, unless another one of its paths is under way: the vault runs the operations
of a path one after another. -/
def start (op : Op β) : VaultState β :=
  if s.ops.any fun running => !running.op.isDone && running.op.paths.any (· ∈ op.paths) then s
  else { s with
    temporaryFileSequence := s.temporaryFileSequence + op.temporaries.length
    ops := s.ops ++ [{ op, seen := held s.fs op.paths }] }

def took (path : JsString) : List (LogEntry β) :=
  ((s.fs.names (.vault path)).map (LogEntry.took path)).toList

def next (s : VaultState β) : Event β → VaultState β
  | .process path fn =>
    s.start (.process ⟨path, fn, s.temporaryFileSequence, s.temporaryFileSequence + 1, .openSource⟩)
  | .create path content => s.start (.create ⟨path, content, s.temporaryFileSequence, .mkdir⟩)
  | .rename oldPath newPath =>
    s.start (.rename ⟨oldPath, newPath, if oldPath = newPath then .done true else .mkdir⟩)
  | .call index fault => match s.ops[index]? with
    | none => s
    | some running =>
      let called := running.op.call index s.fs fault
      { s with
        fs := called.2.1
        log := s.log ++ called.2.2
        ops := s.ops.set index { running with op := called.1 } }
  | .externalCreate path content => match s.fs.names (.vault path) with
    | some _ => s
    | none => s.interfere (s.fs.create (.vault path) content) [.put path s.fs.count content]
  | .externalReplace path content =>
    s.interfere (s.fs.create (.vault path) content) (s.took path ++ [.put path s.fs.count content])
  | .externalDelete path => s.interfere (s.fs.unlink (.vault path)) (s.took path)

end VaultState

end Kaos.Headless
