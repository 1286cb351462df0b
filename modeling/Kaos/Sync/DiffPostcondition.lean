import Kaos.Sync.Diff

/-! Text changes to a `Y.Text` with what they report of the text afterwards. -/
namespace Kaos.Sync

open Kaos.Lib List

inductive ExactDiffResult
  | unchanged
  | applied
  | staleBase (currentText : JsString)
  | postconditionFailed (currentText : JsString)
  deriving DecidableEq

structure DiffPostconditionResult where
  diffSkippedDueToStaleBase : Bool
  matchesAfterDiff : Bool
  forceReplaceApplied : Bool
  finalMatchesExpected : Bool
  finalLength : ℕ
  deriving DecidableEq

/-- `ytext.delete(0, ytext.length)`, then `ytext.insert(0, newText)`, each unless it is empty. -/
def forceReplaceYText (ytext newText : JsString) : JsString :=
  let ytext := if ytext.length > 0 then ytext.drop ytext.length else ytext
  if newText.length > 0 then newText ++ ytext else ytext

-- `fast-diff`, of which any script that rewrites one string into the other is expected
variable (fastDiff : Differ UInt16)

/-- The result, and the text afterwards. -/
def applyExactDiffToYText (ytext expectedOldText newText : JsString) : ExactDiffResult × JsString :=
  if ytext ≠ expectedOldText then (.staleBase ytext, ytext)
  else if ytext = newText then (.unchanged, ytext)
  else
    let after := applyDiffToYText fastDiff ytext expectedOldText newText
    (if after = newText then .applied else .postconditionFailed after, after)

/-- The result, and the text afterwards. -/
def applyDiffToYTextWithPostcondition (ytext oldText newText : JsString) :
    DiffPostconditionResult × JsString :=
  if ytext ≠ oldText then
    let concurrent := mergeConcurrentEdits fastDiff oldText ytext newText
    let afterMergedDiff := applyDiffToYText fastDiff ytext ytext concurrent.mergedText
    if afterMergedDiff = newText then
      ({ diffSkippedDueToStaleBase := true
         matchesAfterDiff := true
         forceReplaceApplied := false
         finalMatchesExpected := true
         finalLength := afterMergedDiff.length }, afterMergedDiff)
    else if afterMergedDiff ≠ concurrent.mergedText then
      let afterForce := forceReplaceYText afterMergedDiff concurrent.mergedText
      ({ diffSkippedDueToStaleBase := true
         matchesAfterDiff := false
         forceReplaceApplied := true
         finalMatchesExpected := afterForce = newText
         finalLength := afterForce.length }, afterForce)
    else
      ({ diffSkippedDueToStaleBase := true
         matchesAfterDiff := false
         forceReplaceApplied := false
         finalMatchesExpected := false
         finalLength := afterMergedDiff.length }, afterMergedDiff)
  else
    let afterDiff := applyDiffToYText fastDiff ytext oldText newText
    if afterDiff = newText then
      ({ diffSkippedDueToStaleBase := false
         matchesAfterDiff := true
         forceReplaceApplied := false
         finalMatchesExpected := true
         finalLength := afterDiff.length }, afterDiff)
    else
      let afterForce := forceReplaceYText afterDiff newText
      ({ diffSkippedDueToStaleBase := false
         matchesAfterDiff := false
         forceReplaceApplied := true
         finalMatchesExpected := afterForce = newText
         finalLength := afterForce.length }, afterForce)

/-- The loop of a transaction over the operations of any script, empty segments or not. -/
def replayScript (ytext : JsString) (script : EditScript UInt16) : JsString :=
  ((diffToCharOps script).foldl Delta.editStep (0, ytext)).2

/-- The text is what the result says of it. -/
structure ReportsFinal (result : DiffPostconditionResult) (newText finalText : JsString) : Prop where
  finalMatchesExpected : result.finalMatchesExpected = decide (finalText = newText)
  finalLength : result.finalLength = finalText.length

variable {fastDiff} {script : EditScript UInt16} {ytext oldText newText : JsString}

/-- The operations read no further than the source of their script, and write its target. -/
theorem diffToCharOps_spec (script : EditScript UInt16) :
    Delta.span (diffToCharOps script) = script.source.length ∧
      Delta.apply (diffToCharOps script) script.source = script.target := by
  obtain ⟨hspan, hap⟩ := Delta.ofScript_spec script
  obtain ⟨hspan', hap'⟩ := foldl_push script []
  constructor
  · rw [diffToCharOps, hspan', nil_append, hspan]
  have htgt := hap []
  rw [append_nil, append_nil] at htgt
  rw [diffToCharOps, hap', nil_append, htgt]

/-- A script that is replayed on its source gives its target. -/
theorem replayScript_source (script : EditScript UInt16) :
    replayScript script.source script = script.target := by
  obtain ⟨hspan, hap⟩ := diffToCharOps_spec script
  have hedit := Delta.foldl_editStep (Nat.le_of_eq hspan) []
  rw [length_nil, nil_append, nil_append] at hedit
  rw [replayScript, hedit, hap]

theorem exact_stale (h : ytext ≠ oldText) :
    applyExactDiffToYText fastDiff ytext oldText newText = (.staleBase ytext, ytext) :=
  if_pos h

/-- From its base an exact change lands. -/
theorem exact_fresh : applyExactDiffToYText fastDiff oldText oldText newText =
    (if oldText = newText then .unchanged else .applied, newText) := by
  rw [applyExactDiffToYText, if_neg (not_not.mpr rfl)]
  by_cases h : oldText = newText
  · rw [if_pos h, if_pos h, h]
  rw [if_neg h, if_neg h, applyDiffToYText_self]
  simp

/-- From a stale base the merge of both changes lands. -/
theorem postcondition_stale (h : ytext ≠ oldText) :
    let merged := (mergeConcurrentEdits fastDiff oldText ytext newText).mergedText
    applyDiffToYTextWithPostcondition fastDiff ytext oldText newText =
      ({ diffSkippedDueToStaleBase := true
         matchesAfterDiff := merged = newText
         forceReplaceApplied := false
         finalMatchesExpected := merged = newText
         finalLength := merged.length }, merged) := by
  intro merged
  rw [applyDiffToYTextWithPostcondition, if_pos h]
  simp only [applyDiffToYText_self]
  by_cases hm : merged = newText
  · rw [if_pos hm]
    simp [hm, merged]
  rw [if_neg hm, if_neg (not_not.mpr rfl)]
  simp [hm, merged]

/-- From its base a change lands. -/
theorem postcondition_fresh :
    applyDiffToYTextWithPostcondition fastDiff oldText oldText newText =
      ({ diffSkippedDueToStaleBase := false
         matchesAfterDiff := true
         forceReplaceApplied := false
         finalMatchesExpected := true
         finalLength := newText.length }, newText) := by
  rw [applyDiffToYTextWithPostcondition, if_neg (not_not.mpr rfl)]
  simp only [applyDiffToYText_self]
  exact if_pos trivial

/-- A change always lands: from its base at the new text, from a stale one nowhere or at the merge,
by a replayed script alone, and the results say so. -/
theorem text_change_lands (fastDiff : Differ UInt16) (ytext oldText newText : JsString) :
    (∀ script : EditScript UInt16, script.source = oldText → script.target = newText →
      replayScript oldText script = newText) ∧
    applyDiffToYText fastDiff oldText oldText newText = newText ∧
    (ytext ≠ oldText →
      applyExactDiffToYText fastDiff ytext oldText newText = (.staleBase ytext, ytext)) ∧
    applyExactDiffToYText fastDiff oldText oldText newText =
      (if oldText = newText then .unchanged else .applied, newText) ∧
    (let final := applyDiffToYTextWithPostcondition fastDiff ytext oldText newText
     final.2 = (if ytext = oldText then newText
        else (mergeConcurrentEdits fastDiff oldText ytext newText).mergedText) ∧
      final.1.forceReplaceApplied = false ∧
      final.1.diffSkippedDueToStaleBase = decide (ytext ≠ oldText) ∧
      final.1.matchesAfterDiff = decide (final.2 = newText) ∧
      ReportsFinal final.1 newText final.2) := by
  refine ⟨?_, applyDiffToYText_self fastDiff oldText newText, exact_stale, exact_fresh, ?_⟩
  · rintro script rfl rfl
    exact replayScript_source script
  by_cases h : ytext = oldText
  · subst h
    rw [postcondition_fresh, if_pos rfl]
    exact ⟨rfl, rfl, by simp, by simp, by simp, rfl⟩
  rw [postcondition_stale h, if_neg h]
  exact ⟨rfl, rfl, by simp [h], rfl, rfl, rfl⟩

/-- An empty segment in a script, a text typed meanwhile, and a change that overlaps it. -/
theorem text_change_lands_typed :
    replayScript (js "ab") [(.equal, js "a"), (.insert, []), (.delete, js "b"),
      (.insert, js "cd")] = js "acd" ∧
    applyExactDiffToYText affixDiffer (js "xab") (js "ab") (js "b") =
      (.staleBase (js "xab"), js "xab") := by
  have hlands := text_change_lands affixDiffer (js "xab") (js "ab") (js "acd")
  have hs := text_change_lands affixDiffer (js "xab") (js "ab") (js "b")
  exact ⟨hlands.1 _ (by decide) (by decide), hs.2.2.1 (by decide)⟩

end Kaos.Sync
