import Kaos.Sync.ConcurrentEdits

/-! The editor binding that holds remote changes back while text is being composed. -/
namespace Kaos.Sync

open Kaos.Lib

inductive CompositionFlushPlan
  | noOp
  | pushOnly (mergedText : JsString)
  | projectionOnly (mergedText : JsString)
  | merge (mergedText : JsString) (hasConflict : Bool)
  deriving DecidableEq

structure CompositionHoldState where
  holding : Bool := false
  conflictHold : Bool := false
  heldEvents : ℕ := 0
  baseText : Option JsString := none
  deriving DecidableEq

/-- The plugin value of an attached view, with the texts it binds. `queued` counts the microtasks
that have not run yet. -/
structure CompositionAwareYSync where
  editor : JsString
  ytext : JsString
  composing : Bool
  state : CompositionHoldState := {}
  capTimer : Bool := false
  lastAgreedContent : Option JsString
  queued : ℕ := 0
  deriving DecidableEq

/-- U+000D, which no editor document holds. -/
def carriageReturn : UInt16 := 13

/-- How the editor reads a string into its document: `\r\n` and `\r` become `\n`. -/
structure EditorText where
  toText : JsString → JsString
  keeps : ∀ text, carriageReturn ∉ text → toText text = text
  clean : ∀ text, carriageReturn ∉ toText text

/-- The changes as the editor takes them. -/
def EditorText.read (codeMirror : EditorText) (changes : List (Splice UInt16)) :
    List (Splice UInt16) :=
  changes.map fun change => { change with content := codeMirror.toText change.content }

variable (fastDiff : Differ UInt16) (codeMirror : EditorText)

def planCompositionFlush (base editor ytext : JsString) : CompositionFlushPlan :=
  if editor = ytext then .noOp
  else if ytext = base then .pushOnly editor
  else if editor = base then .projectionOnly ytext
  else
    let merge := mergeConcurrentEdits fastDiff base editor ytext
    .merge merge.mergedText merge.hadConflictingOverlap

def CompositionFlushPlan.mergedText? : CompositionFlushPlan → Option JsString
  | .noOp => none
  | .pushOnly mergedText | .projectionOnly mergedText | .merge mergedText _ => some mergedText

/-- `plan.kind === "merge" && plan.hasConflict` -/
def CompositionFlushPlan.conflicts : CompositionFlushPlan → Bool
  | .merge _ hasConflict => hasConflict
  | _ => false

def computeContentDiffChanges (source target : JsString) : List (Splice UInt16) :=
  Delta.splicesFrom 0 (List.map Delta.ofSegment (fastDiff.diff source target))

/-- The loop over the changes of an editor update; `adj` is what the earlier ones added. -/
def pushChanges : ℤ → JsString → List (Splice UInt16) → JsString
  | _, ytext, [] => ytext
  | adj, ytext, change :: changes =>
    let index := (change.baseStart + adj).toNat
    let ytext := if change.baseStart ≠ change.baseEnd then
        ytext.take index ++ ytext.drop (index + (change.baseEnd - change.baseStart))
      else ytext
    let ytext := if change.content ≠ [] then ytext.take index ++ change.content ++ ytext.drop index
      else ytext
    pushChanges (adj + (change.content.length - (change.baseEnd - change.baseStart))) ytext changes

namespace CompositionAwareYSync

variable (p : CompositionAwareYSync)

def hasUnsyncedEdits : Bool :=
  match p.lastAgreedContent with
  | none => false
  | some content => decide (p.editor ≠ content)

/-- Changes that do not fit the document make `dispatch` throw. -/
def dispatchChanges (changes : List (Splice UInt16)) : CompositionAwareYSync :=
  if Splice.Sequential p.editor.length changes then
    let editor := Splice.applyFrom p.editor p.editor.length 0 (codeMirror.read changes)
    { p with editor := editor, lastAgreedContent := some editor }
  else p

def dispatchProjection (delta : Delta UInt16) : CompositionAwareYSync :=
  let changes := Delta.splicesFrom 0 delta
  if changes = [] then p else p.dispatchChanges codeMirror changes

def dispatchContentDiff (source target : JsString) : CompositionAwareYSync :=
  let changes := computeContentDiffChanges fastDiff source target
  if changes = [] then p else p.dispatchChanges codeMirror changes

/-- The hold that the observer arms, with its cap timer. -/
def armHold (base : JsString) : CompositionAwareYSync :=
  { p with
    state := { p.state with holding := true, baseText := some base }
    capTimer := true }

def countHeld : CompositionAwareYSync :=
  { p with state := { p.state with heldEvents := p.state.heldEvents + 1 } }

/-- The observer of the `Y.Text`, for an event of another origin. -/
def observer (delta : Delta UInt16) : CompositionAwareYSync :=
  if p.state.holding || p.composing then
    let p := if p.state.holding then p else p.armHold (p.lastAgreedContent.getD p.editor)
    p.countHeld
  else if p.hasUnsyncedEdits then
    let base := p.lastAgreedContent.getD p.editor
    if (planCompositionFlush fastDiff base p.editor p.ytext).conflicts then
      { p with
        state := { p.state with baseText := some base, holding := true, conflictHold := true }
        capTimer := false }
    else
      let p := if p.state.holding then p else p.armHold base
      p.countHeld
  else p.dispatchProjection codeMirror delta

/-- The `Y.Text` is written first, then the editor. -/
def converge (editorText ytextText mergedText : JsString) : CompositionAwareYSync :=
  let p := if mergedText ≠ ytextText then
      { p with ytext := applyDiffToYText fastDiff p.ytext ytextText mergedText }
    else p
  if mergedText ≠ editorText then p.dispatchContentDiff fastDiff codeMirror editorText mergedText else p

def flush : CompositionAwareYSync :=
  if p.state.holding then
    let base := p.state.baseText.getD p.editor
    let editorText := p.editor
    let ytextText := p.ytext
    let plan := planCompositionFlush fastDiff base editorText ytextText
    if plan.conflicts then
      { p with
        capTimer := false
        state := { p.state with conflictHold := true } }
    else
      let p := { p with state := {}, capTimer := false }
      match plan.mergedText? with
      | none => p
      | some mergedText =>
        let p := p.converge fastDiff codeMirror editorText ytextText mergedText
        { p with lastAgreedContent := some mergedText }
  else p

/-- An empty string is as good as no base here. -/
def flushResidualComposition : CompositionAwareYSync :=
  if p.state.holding then p
  else if p.editor = p.ytext then p
  else match p.lastAgreedContent with
    | none | some [] => p
    | some base =>
      match planCompositionFlush fastDiff base p.editor p.ytext with
      | .pushOnly mergedText =>
        { p with
          ytext := applyDiffToYText fastDiff p.ytext p.ytext mergedText
          lastAgreedContent := some mergedText }
      | _ => p

def onCompositionSessionEnded : CompositionAwareYSync :=
  if p.state.holding then p.flush fastDiff codeMirror
  else if !p.composing then p.flushResidualComposition fastDiff
  else { p with queued := p.queued + 1 }

/-- What `onCompositionSessionEnded` queued. -/
def runMicrotask : CompositionAwareYSync :=
  if p.queued = 0 then p
  else
    let p := { p with queued := p.queued - 1 }
    if p.composing then p
    else if p.state.holding then p.flush fastDiff codeMirror
    else p.flushResidualComposition fastDiff

/-- The cap timer fires, where it is armed. -/
def capTimeout : CompositionAwareYSync :=
  if p.capTimer then
    let p := { p with capTimer := false }
    if p.state.holding then p.flush fastDiff codeMirror else p
  else p

/-- `update` after a transaction of the user; changes that do not fit are no transaction, and
without a change `docChanged` is false. -/
def update (changes : List (Splice UInt16)) : CompositionAwareYSync :=
  let changes := codeMirror.read changes
  if Splice.Sequential p.editor.length changes ∧
      ∃ change ∈ changes, change.baseStart ≠ change.baseEnd ∨ change.content ≠ [] then
    let p := { p with editor := Splice.applyFrom p.editor p.editor.length 0 changes }
    if p.state.holding then p
    else
      { p with
        ytext := pushChanges 0 p.ytext changes
        lastAgreedContent := some p.editor }
  else p

end CompositionAwareYSync

/-- What may happen to an attached view. -/
inductive MirrorEvent
  | localUpdate (changes : List (Splice UInt16))
  | remote (delta : Delta UInt16)
  | composing (active : Bool)
  | sessionEnded
  | microtask
  | capTimeout
  | flushResidue

def mirrorNext (p : CompositionAwareYSync) : MirrorEvent → CompositionAwareYSync
  | .localUpdate changes => p.update codeMirror changes
  | .remote delta =>
    if delta.span ≤ p.ytext.length then
      { p with ytext := delta.apply p.ytext }.observer fastDiff codeMirror delta
    else p
  | .composing active => { p with composing := active }
  | .sessionEnded => p.onCompositionSessionEnded fastDiff codeMirror
  | .microtask => p.runMicrotask fastDiff codeMirror
  | .capTimeout => p.capTimeout fastDiff codeMirror
  | .flushResidue => p.flushResidualComposition fastDiff

/-- The event flushes the hold of the view. -/
def flushesHold (p : CompositionAwareYSync) : MirrorEvent → Bool
  | .sessionEnded => p.state.holding
  | .microtask => p.queued ≠ 0 && !p.composing && p.state.holding
  | .capTimeout => p.capTimer && p.state.holding
  | _ => false

/-- A view of a document that is attached to a `Y.Text` with the same content. -/
def attachedView (text : JsString) (composing : Bool) : CompositionAwareYSync where
  editor := codeMirror.toText text
  ytext := codeMirror.toText text
  composing := composing
  lastAgreedContent := some (codeMirror.toText text)

end Kaos.Sync
