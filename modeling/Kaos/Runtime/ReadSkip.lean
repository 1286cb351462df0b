import Mathlib.Logic.Function.Basic
import Kaos.Runtime.ClosedFileReconcile

/-! Files that an authoritative pass does not read, because their stat is that of the disk index and
their text still hashes to its baseline. -/
namespace Kaos.Runtime

open Kaos.Lib

/-- Modification time and size. -/
abbrev FileStat := ℕ × ℕ

structure DiskFile where
  stat : FileStat
  bytes : JsString
  deriving DecidableEq

variable {π η : Type*}

def DiskIndexEntry.stat (entry : DiskIndexEntry η) : FileStat := (entry.mtime, entry.size)

def hasChanged (entry : Option (DiskIndexEntry η)) (stat : FileStat) : Bool :=
  match entry with
  | none => true
  | some entry => decide (entry.mtime ≠ stat.1 ∨ entry.size ≠ stat.2)

def shouldSkipDiskRead [DecidableEq η] (statMatchesIndex : Bool)
    (baselineHash crdtHash : Option η) : Bool :=
  statMatchesIndex && baselineHash.isSome && crdtHash.isSome && crdtHash = baselineHash

/-- What a pass knows of a path; with the stat go the bytes and the entry there were when it was
taken, and with a skip the text that was hashed. -/
structure PathScan (η : Type*) where
  baselineRevisionAtStart : ℕ
  stat : Option FileStat := none
  atStat : Option (JsString × Option (DiskIndexEntry η)) := none
  indexForSkip : Option (DiskIndexEntry η) := none
  skipped : Option JsString := none
  diskContent : Option JsString := none
  settled : Option JsString := none
  excluded : Bool := false
  projectionBlocked : Bool := false

/-- A call of `updateDiskIndexForPath`, from the stat that it is to record on. -/
structure BaselineUpdate where
  stat : FileStat
  currentDiskContent : Option JsString := none

/-- A path, with the passes and updates that are under way there. A file that has been renamed has
with it its former path and the entry that was left there. -/
structure IndexedPath (π η : Type*) where
  file : Option DiskFile
  text : Option JsString
  entry : Option (DiskIndexEntry η)
  baselineRevision : ℕ
  renamedFrom : Option (π × Option (DiskIndexEntry η)) := none
  scans : ℕ → Option (PathScan η) := fun _ => none
  updates : ℕ → Option BaselineUpdate := fun _ => none

namespace IndexedPath

variable (s : IndexedPath π η)

def setScan (pass : ℕ) (scan : PathScan η) : IndexedPath π η :=
  { s with scans := Function.update s.scans pass (some scan) }

/-- The file changes, or it comes or goes. -/
def setFile (file : Option DiskFile) : IndexedPath π η := { s with file, renamedFrom := none }

def beginScan (pass : ℕ) : IndexedPath π η :=
  s.setScan pass { baselineRevisionAtStart := s.baselineRevision }

/-- `collectFileStats`, once in a pass and before anything is read. -/
def statFile (pass : ℕ) : IndexedPath π η :=
  match s.scans pass, s.file with
  | some scan, some file =>
    if scan.atStat.isSome || scan.diskContent.isSome || scan.settled.isSome then s
    else s.setScan pass { scan with stat := some file.stat, atStat := some (file.bytes, s.entry) }
  | _, _ => s

/-- The pass takes the index by which it will skip. -/
def takeIndex (pass : ℕ) : IndexedPath π η :=
  match s.scans pass with
  | some scan => s.setScan pass { scan with indexForSkip := s.entry }
  | none => s

def readFile (pass : ℕ) : IndexedPath π η :=
  match s.scans pass, s.file with
  | some scan, some file => s.setScan pass { scan with diskContent := some file.bytes }
  | _, _ => s

/-- The file is found missing after its stat. -/
def dropMissingAfterScan (pass : ℕ) : IndexedPath π η :=
  match s.scans pass with
  | some scan => s.setScan pass { scan with stat := none, diskContent := none }
  | none => s

/-- `recordSettledBaseline` with the text that was read. -/
def settleDisk (pass : ℕ) : IndexedPath π η :=
  match s.scans pass with
  | some scan => match scan.diskContent with
    | some content => s.setScan pass { scan with settled := some content }
    | none => s
  | none => s

def exclude (pass : ℕ) : IndexedPath π η :=
  match s.scans pass with
  | some scan => s.setScan pass { scan with excluded := true }
  | none => s

def blockProjection (pass : ℕ) : IndexedPath π η :=
  match s.scans pass with
  | some scan => s.setScan pass { scan with excluded := true, projectionBlocked := true }
  | none => s

def abort (pass : ℕ) : IndexedPath π η := { s with scans := Function.update s.scans pass none }

def beginUpdate (update : ℕ) : IndexedPath π η :=
  match s.file with
  | some file =>
    let begun : BaselineUpdate := { stat := file.stat }
    { s with updates := Function.update s.updates update (some begun) }
  | none => s

def readUpdate (update : ℕ) : IndexedPath π η :=
  match s.updates update, s.file with
  | some under, some file =>
    let read : BaselineUpdate := { under with currentDiskContent := some file.bytes }
    { s with updates := Function.update s.updates update (some read) }
  | _, _ => s

section Hashes

variable [DecidableEq η] (contentBaselineHash : JsString → η)

/-- The decision to skip a file, for one whose text is there. -/
def decideSkip (pass : ℕ) : IndexedPath π η :=
  match s.scans pass, s.text with
  | some scan, some crdtContent => match scan.stat with
    | some stat =>
      if !hasChanged scan.indexForSkip stat &&
          shouldSkipDiskRead true (scan.indexForSkip.bind (·.contentHash))
            (some (contentBaselineHash crdtContent)) then
        s.setScan pass { scan with skipped := some crdtContent }
      else s
    | none => s
  | _, _ => s

/-- The callback of a disk write. -/
def diskWritten (content : JsString) (now : ℕ) : IndexedPath π η :=
  let contentHash := some (contentBaselineHash content)
  { s with
    baselineRevision := s.baselineRevision + 1
    entry := match s.entry with
      | some entry => some { entry with contentHash, settledAtMs := some now }
      | none => some { mtime := 0, size := 0, contentHash, settledAtMs := some now } }

/-- The text reaches the disk, or it is there already. -/
def flushWrite (stat : FileStat) (recordBaseline : Bool) (now : ℕ) : IndexedPath π η :=
  match s.text with
  | none => s
  | some content =>
    let flushed := if s.file.map (·.bytes) = some content then s
      else s.setFile (some { stat, bytes := content })
    if recordBaseline then flushed.diskWritten contentBaselineHash content now else flushed

/-- A flush of the pass, which settles the path. -/
def settleFlush (pass : ℕ) (stat : FileStat) (recordBaseline : Bool) (now : ℕ) : IndexedPath π η :=
  match s.scans pass, s.text with
  | some scan, some content =>
    (s.flushWrite contentBaselineHash stat recordBaseline now).setScan pass
      { scan with settled := some content }
  | _, _ => s

/-- The index that a pass commits, at the path. -/
def nextDiskIndex (scan : PathScan η) (now : ℕ) : Option (DiskIndexEntry η) :=
  let settledHash := scan.settled.map contentBaselineHash
  let updated := updateIndex s.entry scan.stat scan.excluded settledHash now
  let updated := if scan.projectionBlocked && s.entry.isSome then s.entry else updated
  let hash := s.entry.bind (·.contentHash)
  let updated := if hash.isSome && (s.baselineRevision ≠ scan.baselineRevisionAtStart ||
      settledHash = hash && scan.stat.isNone) then s.entry else updated
  match settledHash, updated with
  | some hash, none =>
    if scan.excluded then none
    else match s.entry with
      | some previous => some { previous with contentHash := some hash }
      | none => some { mtime := 0, size := 0, contentHash := some hash, settledAtMs := none }
  | _, updated => updated

def commit (pass : ℕ) (now : ℕ) : IndexedPath π η :=
  match s.scans pass with
  | some scan =>
    { s with
      entry := s.nextDiskIndex contentBaselineHash scan now
      scans := Function.update s.scans pass none }
  | none => s

/-- The end of `updateDiskIndexForPath`: with a text only if the fresh read has found that text and
all other fences hold, without one whatever the file is. -/
def updateDiskIndexForPath (update : ℕ) (settledContent : Option JsString) (current : Bool)
    (now : ℕ) : IndexedPath π η :=
  match s.updates update with
  | none => s
  | some under =>
    let s := { s with updates := Function.update s.updates update none }
    match settledContent with
    | some content =>
      if current && under.currentDiskContent = some content then
        let entry : DiskIndexEntry η :=
          { mtime := under.stat.1
            size := under.stat.2
            contentHash := some (contentBaselineHash content)
            settledAtMs := some now }
        { s with baselineRevision := s.baselineRevision + 1, entry := some entry }
      else s
    | none =>
      let entry : DiskIndexEntry η :=
        { mtime := under.stat.1
          size := under.stat.2
          contentHash := s.entry.bind (·.contentHash)
          settledAtMs := s.entry.bind (·.settledAtMs) }
      { s with entry := some entry }

end Hashes

end IndexedPath

/-- Passes are begun and committed for all paths at once, everything else is at one path. -/
inductive IndexEvent (π η : Type*)
  | setText (path : π) (text : Option JsString)
  | setFile (path : π) (file : Option DiskFile)
  | renameFile (oldPath newPath : π)
  | moveIndexEntry (oldPath newPath : π)
  | flushWrite (path : π) (stat : FileStat) (recordBaseline : Bool)
  | beginPass (pass : ℕ)
  | statFile (pass : ℕ) (path : π)
  | takeIndex (pass : ℕ)
  | decideSkip (pass : ℕ) (path : π)
  | readFile (pass : ℕ) (path : π)
  | dropMissing (pass : ℕ) (path : π)
  | settleDisk (pass : ℕ) (path : π)
  | settleFlush (pass : ℕ) (path : π) (stat : FileStat) (recordBaseline : Bool)
  | exclude (pass : ℕ) (path : π)
  | blockProjection (pass : ℕ) (path : π)
  | commit (pass : ℕ)
  | abort (pass : ℕ)
  | beginUpdate (update : ℕ) (path : π)
  | readUpdate (update : ℕ) (path : π)
  | endUpdate (update : ℕ) (path : π) (settledContent : Option JsString) (current : Bool)

section Vault

variable [DecidableEq π]

/-- One rename of `moveIndexEntries`. -/
def moveIndexEntry (v : π → IndexedPath π η) (oldPath newPath : π) : π → IndexedPath π η :=
  match (v oldPath).entry with
  | none => v
  | some entry =>
    let moved := Function.update v newPath { v newPath with entry := some entry }
    Function.update moved oldPath { moved oldPath with entry := none }

/-- The file goes to another path, where the index does not know it yet. -/
def renameFile (v : π → IndexedPath π η) (oldPath newPath : π) : π → IndexedPath π η :=
  let moved := Function.update v newPath
    { v newPath with
      file := (v oldPath).file
      renamedFrom := some (oldPath, (v oldPath).entry) }
  Function.update moved oldPath ((v oldPath).setFile none)

/-- An event, at a time. -/
def indexNext [DecidableEq η] (contentBaselineHash : JsString → η) (v : π → IndexedPath π η)
    (now : ℕ) : IndexEvent π η → π → IndexedPath π η
  | .setText path text => Function.update v path { v path with text }
  | .setFile path file => Function.update v path ((v path).setFile file)
  | .renameFile oldPath newPath => renameFile v oldPath newPath
  | .moveIndexEntry oldPath newPath => moveIndexEntry v oldPath newPath
  | .flushWrite path stat recordBaseline => Function.update v path
      ((v path).flushWrite contentBaselineHash stat recordBaseline now)
  | .beginPass pass => fun path => (v path).beginScan pass
  | .statFile pass path => Function.update v path ((v path).statFile pass)
  | .takeIndex pass => fun path => (v path).takeIndex pass
  | .decideSkip pass path => Function.update v path ((v path).decideSkip contentBaselineHash pass)
  | .readFile pass path => Function.update v path ((v path).readFile pass)
  | .dropMissing pass path => Function.update v path ((v path).dropMissingAfterScan pass)
  | .settleDisk pass path => Function.update v path ((v path).settleDisk pass)
  | .settleFlush pass path stat recordBaseline => Function.update v path
      ((v path).settleFlush contentBaselineHash pass stat recordBaseline now)
  | .exclude pass path => Function.update v path ((v path).exclude pass)
  | .blockProjection pass path => Function.update v path ((v path).blockProjection pass)
  | .commit pass => fun path => (v path).commit contentBaselineHash pass now
  | .abort pass => fun path => (v path).abort pass
  | .beginUpdate update path => Function.update v path ((v path).beginUpdate update)
  | .readUpdate update path => Function.update v path ((v path).readUpdate update)
  | .endUpdate update path settledContent current => Function.update v path
      ((v path).updateDiskIndexForPath contentBaselineHash update settledContent current now)

end Vault

section Plan

variable [DecidableEq η] (contentBaselineHash : JsString → η)

/-- Whether a pass that nothing disturbs leaves the file unread. -/
def IndexedPath.skipsRead (s : IndexedPath π η) : Bool :=
  match s.file, s.text with
  | some file, some crdtContent => !hasChanged s.entry file.stat &&
    shouldSkipDiskRead true (s.entry.bind (·.contentHash)) (some (contentBaselineHash crdtContent))
  | _, _ => false

/-- What a pass does about a path: a text is written, two texts are planned, a text is seeded. -/
inductive PathPlan
  | createOnDisk (crdtContent : JsString)
  | update (diskContent crdtContent : JsString)
  | seedToCrdt (diskContent : JsString)
  | nothing
  deriving DecidableEq

/-- `reconcileVault` at a path of an authoritative pass, with or without skipped reads. -/
def IndexedPath.reconcile (s : IndexedPath π η) (skips : Bool) : PathPlan :=
  match s.file, s.text with
  | none, some crdtContent => .createOnDisk crdtContent
  | some file, some crdtContent =>
    if skips && s.skipsRead contentBaselineHash then .nothing
    else if crdtContent ≠ file.bytes then .update file.bytes crdtContent
    else .nothing
  | some file, none => .seedToCrdt file.bytes
  | none, none => .nothing

end Plan

end Kaos.Runtime
