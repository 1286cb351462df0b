import Mathlib.Data.List.Dedup
import Mathlib.Data.List.Sort
import Kaos.Runtime.ClosedFilePlanner

/-! Renames that no event reported, inferred from the paths on one side only and their hashes. -/
namespace Kaos.Runtime

open Kaos.Lib

inductive PathBindingRenameEvidence
  | none
  | explicitRename
  | pendingRename
  deriving DecidableEq

/-- The baseline hash may be absent or known to be none. -/
structure PathBindingIntegrityInput where
  path : JsString
  fileId : Option JsString := none
  activeFileIdsForPath : List JsString := []
  candidatePath : Option JsString := none
  diskHash : Option JsString := none
  crdtHash : Option JsString := none
  baselineHash : Option (Option JsString) := none
  renameEvidence : PathBindingRenameEvidence := .none

def hasStructuralCandidate (input : PathBindingIntegrityInput) : Bool :=
  input.candidatePath.any fun candidate => candidate ≠ [] ∧ candidate ≠ input.path

/-- Absent and empty strings count as none. -/
def isBlank (s : Option JsString) : Bool := s.all (· = [])

def evaluatePathBindingIntegrity (input : PathBindingIntegrityInput) : PathBindingIntegrityStatus :=
  let activeFileIds := (input.activeFileIdsForPath.filter (· ≠ [])).dedup
  if input.path = [] then .unknown
  else if 1 < activeFileIds.length then .duplicateActivePath
  else if !isBlank input.fileId ∧ activeFileIds.length = 1 ∧ activeFileIds.head? ≠ input.fileId then
    .fileIdPathDrift
  else if input.baselineHash = some none ∧ hasStructuralCandidate input ∧
      input.diskHash.isSome ∧ input.crdtHash.isSome ∧ input.diskHash ≠ input.crdtHash then
    .missingBaselineRisk
  else if hasStructuralCandidate input ∧ input.renameEvidence = .none then
    .ambiguousStructuralRename
  else if isBlank input.fileId ∧ activeFileIds = [] ∧ isBlank input.diskHash ∧
      isBlank input.crdtHash then .unknown
  else .ok

structure StructuralPathHash where
  path : JsString
  contentHash : JsString
  deriving DecidableEq

inductive StructuralEvidenceReason
  | explicitRename
  | pendingRename
  deriving DecidableEq

structure StructuralRenameEvidence where
  oldPath : JsString
  newPath : JsString
  reason : StructuralEvidenceReason
  deriving DecidableEq

inductive PlannedRenameReason
  | evidence (reason : StructuralEvidenceReason)
  | baselineHashContinuity
  deriving DecidableEq

structure PlannedStructuralRename where
  oldPath : JsString
  newPath : JsString
  contentHash : JsString
  reason : PlannedRenameReason
  deriving DecidableEq

inductive UnresolvedStructuralReason
  | ambiguousStructuralRename
  | ambiguousDuplicateContent
  | countMismatch
  | contentDivergedSameBasename
  deriving DecidableEq

structure UnresolvedStructuralChange where
  oldPaths : List JsString
  newPaths : List JsString
  contentHash : JsString
  reason : UnresolvedStructuralReason
  deriving DecidableEq

structure NoEventStructuralPlan where
  renames : List PlannedStructuralRename
  unresolved : List UnresolvedStructuralChange
  deriving DecidableEq

/-- The disk index gives for its own keys the content hash, where that is known. -/
structure NoEventStructuralInput where
  missingCrdtPaths : List StructuralPathHash
  extraDiskPaths : List StructuralPathHash
  renameEvidence : List StructuralRenameEvidence
  authoritative : Bool
  previousDiskIndex : JsString → Option (Option JsString)

/-- What follows the last slash. -/
def basename (path : JsString) : JsString := (path.reverse.takeWhile (· ≠ 47)).reverse

/-- The paths of a hash in the order of `sort`. -/
def groupByHash (paths : List StructuralPathHash) (hash : JsString) : List JsString :=
  ((paths.filter (·.contentHash = hash)).map (·.path)).insertionSort
    fun s t => JsString.le s t = true

/-- The entry of a path, the last one if there are more. -/
def entryByPath (paths : List StructuralPathHash) (path : JsString) : Option StructuralPathHash :=
  paths.reverse.find? (·.path = path)

def pairHash (old new : JsString) : JsString := old ++ js ":" ++ new

/-- The plan as it grows, and the paths that are in it. -/
structure StructuralMatching where
  renames : List PlannedStructuralRename := []
  unresolved : List UnresolvedStructuralChange := []
  consumedOld : List JsString := []
  consumedNew : List JsString := []

def StructuralMatching.addRename (m : StructuralMatching) (rename : PlannedStructuralRename) :
    StructuralMatching :=
  { m with
    renames := m.renames ++ [rename]
    consumedOld := rename.oldPath :: m.consumedOld
    consumedNew := rename.newPath :: m.consumedNew }

def StructuralMatching.addUnresolved (m : StructuralMatching)
    (change : UnresolvedStructuralChange) : StructuralMatching :=
  { m with
    unresolved := m.unresolved ++ [change]
    consumedOld := change.oldPaths ++ m.consumedOld
    consumedNew := change.newPaths ++ m.consumedNew }

section Plan

variable (localeCompare : JsString → JsString → Ordering) (input : NoEventStructuralInput)

/-- `localeCompare` of the old paths, then of the new ones. -/
def comparePaths (oldA newA oldB newB : JsString) : Ordering :=
  (localeCompare oldA oldB).then (localeCompare newA newB)

def sortedEvidence : List StructuralRenameEvidence :=
  input.renameEvidence.insertionSort fun a b =>
    comparePaths localeCompare a.oldPath a.newPath b.oldPath b.newPath ≠ .gt

def planEvidence (m : StructuralMatching) (evidence : StructuralRenameEvidence) :
    StructuralMatching :=
  match entryByPath input.missingCrdtPaths evidence.oldPath,
    entryByPath input.extraDiskPaths evidence.newPath with
  | some oldEntry, some newEntry =>
    if evidence.oldPath ∈ m.consumedOld ∨ evidence.newPath ∈ m.consumedNew then m
    else m.addRename
      { oldPath := evidence.oldPath
        newPath := evidence.newPath
        contentHash :=
          if oldEntry.contentHash = newEntry.contentHash then oldEntry.contentHash
          else pairHash oldEntry.contentHash newEntry.contentHash
        reason := .evidence evidence.reason }
  | _, _ => m

/-- A rename without evidence needs the hash, the baseline, the history and the counts. -/
def provesContinuity (hash oldPath newPath : JsString) : Bool :=
  input.authoritative ∧ (groupByHash input.missingCrdtPaths hash).length = 1 ∧
    (groupByHash input.extraDiskPaths hash).length = 1 ∧
    input.previousDiskIndex oldPath = some (some hash) ∧
    input.previousDiskIndex newPath = none

def planPair (m : StructuralMatching) (hash oldPath newPath : JsString) : StructuralMatching :=
  if basename oldPath ≠ basename newPath then m
  else if provesContinuity input hash oldPath newPath then
    m.addRename
      { oldPath
        newPath
        contentHash := hash
        reason := .baselineHashContinuity }
  else m.addUnresolved
    { oldPaths := [oldPath]
      newPaths := [newPath]
      contentHash := hash
      reason :=
        if evaluatePathBindingIntegrity
            { path := oldPath
              candidatePath := some newPath
              diskHash := some hash
              crdtHash := some hash
              baselineHash := some none
              renameEvidence := .none } = .ambiguousStructuralRename
        then .ambiguousStructuralRename else .ambiguousDuplicateContent }

def planHash (m : StructuralMatching) (hash : JsString) : StructuralMatching :=
  let oldPaths := (groupByHash input.missingCrdtPaths hash).filter (· ∉ m.consumedOld)
  let newPaths := (groupByHash input.extraDiskPaths hash).filter (· ∉ m.consumedNew)
  match oldPaths, newPaths with
  | [], _ => m
  | _, [] => m
  | [oldPath], [newPath] => planPair input m hash oldPath newPath
  | oldPaths, newPaths => m.addUnresolved
    { oldPaths
      newPaths
      contentHash := hash
      reason :=
        if oldPaths.length = newPaths.length then .ambiguousDuplicateContent
        else .countMismatch }

def sortedHashes : List JsString :=
  ((input.missingCrdtPaths ++ input.extraDiskPaths).map (·.contentHash)).dedup.insertionSort
    fun s t => JsString.le s t = true

/-- One old and one new path of a name, whose contents differ. -/
def planBasename (olds news : List StructuralPathHash) (m : StructuralMatching)
    (name : JsString) : StructuralMatching :=
  match olds.filter (basename ·.path = name), news.filter (basename ·.path = name) with
  | [oldEntry], [newEntry] => m.addUnresolved
    { oldPaths := [oldEntry.path]
      newPaths := [newEntry.path]
      contentHash := pairHash oldEntry.contentHash newEntry.contentHash
      reason := .contentDivergedSameBasename }
  | _, _ => m

/-- The keys of a `Map` in the order in which they were first set. -/
def firstOccurrences (names : List JsString) : List JsString := names.reverse.dedup.reverse

def afterEvidence : StructuralMatching :=
  (sortedEvidence localeCompare input).foldl (planEvidence input) {}

def afterHashes : StructuralMatching :=
  (sortedHashes input).foldl (planHash input) (afterEvidence localeCompare input)

def remainingOld : List StructuralPathHash :=
  input.missingCrdtPaths.filter (·.path ∉ (afterHashes localeCompare input).consumedOld)

def remainingNew : List StructuralPathHash :=
  input.extraDiskPaths.filter (·.path ∉ (afterHashes localeCompare input).consumedNew)

def afterBasenames : StructuralMatching :=
  (firstOccurrences ((remainingOld localeCompare input).map (basename ·.path))).foldl
    (planBasename (remainingOld localeCompare input) (remainingNew localeCompare input))
    (afterHashes localeCompare input)

def planNoEventStructuralRenames : NoEventStructuralPlan where
  renames := (afterBasenames localeCompare input).renames.insertionSort fun a b =>
    comparePaths localeCompare a.oldPath a.newPath b.oldPath b.newPath ≠ .gt
  unresolved := (afterBasenames localeCompare input).unresolved.insertionSort fun a b =>
    localeCompare a.contentHash b.contentHash ≠ .gt

end Plan

end Kaos.Runtime
