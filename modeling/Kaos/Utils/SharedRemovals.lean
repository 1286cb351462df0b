import Mathlib.Algebra.Order.BigOperators.Group.List
import Kaos.Utils.MergeSymmetry

/-! A clean merge brings no line back that both sides removed. -/
namespace Kaos.Utils

open Kaos.Lib List OrderedMap

section Counts

variable {counts : OrderedMap JsString ℤ} {lines : List JsString} {delta : ℤ}

/-- What a table of counts says of a line. -/
def countIn (counts : OrderedMap JsString ℤ) (line : JsString) : ℤ := (counts.get? line).getD 0

theorem countIn_adjust (counts : OrderedMap JsString ℤ) (line line' : JsString) (delta : ℤ) :
    countIn (adjust counts line delta) line' =
      countIn counts line' + if line' = line then delta else 0 := by
  unfold adjust countIn
  dsimp only
  by_cases hline : line' = line
  · subst hline
    rw [if_pos rfl]
    split
    · next hzero =>
      rw [get?_delete_self]
      exact hzero.symm
    rw [get?_set_self]
    rfl
  rw [if_neg hline, add_zero]
  split
  · rw [get?_delete_of_ne hline]
  · rw [get?_set_of_ne hline]

theorem countIn_foldl_adjust (line : JsString) :
    countIn (lines.foldl (fun counts line => adjust counts line delta) counts) line =
      countIn counts line + lines.count line * delta := by
  induction lines generalizing counts with
  | nil => simp
  | cons first lines ih =>
    rw [foldl_cons, ih, countIn_adjust, count_cons]
    by_cases hf : line = first
    · subst hf
      simp
      ring
    have hne : ¬ first = line := fun h => hf h.symm
    simp [hf, hne]

/-- The table counts the lines of the base with the changes. -/
theorem countIn_countLinesAfterChanges (baseLines : List JsString) (changes : List LineChange)
    (line : JsString) : countIn (countLinesAfterChanges baseLines changes) line =
      baseLines.count line + (changes.map (Splice.gain baseLines line)).sum := by
  have hb : countIn (baseLines.foldl (fun counts line => adjust counts line 1) .empty) line =
      baseLines.count line := by
    rw [countIn_foldl_adjust]
    simp [countIn]
  unfold countLinesAfterChanges
  rw [← hb]
  clear hb
  generalize baseLines.foldl (fun counts line => adjust counts line 1) .empty = start
  induction changes generalizing start with
  | nil => simp
  | cons change changes ih =>
    rw [foldl_cons, ih, countIn_foldl_adjust, countIn_foldl_adjust, map_cons, sum_cons, Splice.gain]
    ring

end Counts

section Removed

variable {lines : List JsString} {line : JsString}

theorem countIn_retained {counts : OrderedMap JsString ℤ} (line : JsString) :
    countIn (lines.foldl (fun counts line => counts.set line ((counts.get? line).getD 0 + 1))
      counts) line = countIn counts line + lines.count line := by
  induction lines generalizing counts with
  | nil => simp
  | cons first lines ih =>
    rw [foldl_cons, ih, count_cons]
    by_cases hf : line = first
    · subst hf
      simp [countIn, get?_set_self]
      ring
    have hne : ¬ first = line := fun h => hf h.symm
    simp [countIn, get?_set_of_ne hf, hne]

/-- The loop over the base lines finds those of which fewer are retained than it meets. -/
theorem mem_removed_foldl {retainedCounts : OrderedMap JsString ℤ} {removed : List JsString}
    (hnon : ∀ line, 0 ≤ countIn retainedCounts line) :
    line ∈ (lines.foldl (fun (retainedCounts, removed) line =>
        let retained := (retainedCounts.get? line).getD 0
        if retained > 0 then (retainedCounts.set line (retained - 1), removed)
        else (retainedCounts, removed.insert line)) (retainedCounts, removed)).2 ↔
      line ∈ removed ∨ countIn retainedCounts line < lines.count line := by
  induction lines generalizing retainedCounts removed with
  | nil =>
    have hline := hnon line
    simp only [foldl_nil, count_nil, Nat.cast_zero]
    constructor
    · exact .inl
    rintro (hmem | hlt)
    · exact hmem
    · omega
  | cons first lines ih =>
    rw [foldl_cons]
    have hf := hnon first
    by_cases hret : (retainedCounts.get? first).getD 0 > 0
    · have hset : ∀ other, countIn (retainedCounts.set first (countIn retainedCounts first - 1))
          other = if other = first then countIn retainedCounts first - 1
            else countIn retainedCounts other := by
        intro other
        unfold countIn
        rw [get?_set]
        split <;> rfl
      have hset_nonneg : ∀ other, 0 ≤ countIn (retainedCounts.set first
          (countIn retainedCounts first - 1)) other := by
        intro other
        rw [hset]
        split
        · exact Int.sub_nonneg_of_le hret
        · exact hnon other
      have hn := @ih _ removed hset_nonneg
      dsimp only
      rw [if_pos hret]
      refine hn.trans ?_
      rw [hset, count_cons]
      by_cases hline : line = first
      · subst hline
        refine or_congr Iff.rfl ?_
        simp only [if_true, beq_self_eq_true, Nat.cast_add, Nat.cast_one]
        omega
      have hne : ¬ first = line := fun h => hline h.symm
      simp [hline, hne]
    have hzero : countIn retainedCounts first = 0 := Int.le_antisymm (not_lt.mp hret) hf
    have hn := @ih retainedCounts (removed.insert first) hnon
    dsimp only
    rw [if_neg hret]
    refine hn.trans ?_
    by_cases hline : line = first
    · subst hline
      rw [hzero]
      simp
    have hne : ¬ first = line := fun h => hline h.symm
    simp [hline, hne]

/-- A shared change removes exactly the lines of which it puts fewer back than it takes. -/
theorem mem_removedLines {baseLines : List JsString} {shared : LineChange} :
    line ∈ removedLines baseLines shared ↔ shared.content.count line <
      (slice baseLines shared.baseStart shared.baseEnd).count line := by
  have hcounts := @countIn_retained shared.content .empty
  unfold removedLines
  rw [mem_removed_foldl]
  · rw [hcounts]
    simp [countIn]
  intro other
  rw [hcounts]
  simp [countIn]

end Removed

section Merge

variable {baseLines : List JsString} {lefts rights : List LineChange} {c : LineChange}
  {line : JsString}

/-- The changes that both sides make. -/
def sharedChanges (leftChanges rightChanges : List LineChange) : List LineChange :=
  leftChanges.filter fun left => rightChanges.any fun right => lineChangesEqual left right

/-- The changes of one side that the other does not make. -/
def unilateralChanges (changes otherChanges : List LineChange) : List LineChange :=
  changes.filter fun change => !(otherChanges.any fun other => lineChangesEqual change other)

/-- The `output` of `applyNonConflictingChanges`. -/
def mergedLines (baseLines : List JsString) (leftChanges rightChanges : List LineChange) :
    List JsString :=
  Splice.applyFrom baseLines baseLines.length 0
    (sortChanges (combineDistinctChanges leftChanges rightChanges))

theorem sharedChanges_append_unilateralChanges (lefts rights : List LineChange) :
    (sharedChanges lefts rights ++ unilateralChanges lefts rights).Perm lefts :=
  filter_append_perm _ _

/-- The distinct changes are the shared ones and those of one side alone. -/
theorem combineDistinctChanges_perm (hlefts : lefts.Nodup) (hrig : rights.Nodup) :
    (combineDistinctChanges lefts rights).Perm (sharedChanges lefts rights ++
      unilateralChanges lefts rights ++ unilateralChanges rights lefts) := by
  apply (perm_ext_iff_of_nodup nodup_combineDistinctChanges ?_).mpr
  · intro c
    rw [mem_combineDistinctChanges, mem_append,
      (sharedChanges_append_unilateralChanges lefts rights).mem_iff]
    simp only [unilateralChanges, mem_filter, Bool.not_eq_true', any_eq_false, lineChangesEqual_iff]
    constructor
    · rintro (hc | hc)
      · exact .inl hc
      by_cases hl : c ∈ lefts
      · exact .inl hl
      refine .inr ⟨hc, fun d hd heq => hl ?_⟩
      rwa [heq]
    · rintro (hc | hc)
      · exact .inl hc
      · exact .inr hc.1
  apply List.Nodup.append
  · exact (sharedChanges_append_unilateralChanges lefts rights).nodup_iff.mpr hlefts
  · exact hrig.filter _
  intro c hc ho
  have hl := (sharedChanges_append_unilateralChanges lefts rights).mem_iff.mp hc
  have hn := (mem_filter.mp ho).2
  rw [Bool.not_eq_true', any_eq_false] at hn
  exact hn c hl (lineChangesEqual_iff.mpr rfl)

/-- Where no conflict is found, what one side does alone brings no line back that a shared change
removes: either none of its changes puts the line in, or the side has no more of it than the shared
changes leave. -/
theorem unilateral_gain_nonpos {shared : LineChange} {removed : List JsString}
    {common changes others : List LineChange}
    (hs : (common ++ unilateralChanges changes others).Perm changes)
    (hn : collectUnilateralReintroductions shared removed
      (countLinesAfterChanges baseLines common) changes others
      (countLinesAfterChanges baseLines changes) = [])
    (hshared : shared ∈ others) (hline : line ∈ removed) :
    ((unilateralChanges changes others).map (Splice.gain baseLines line)).sum ≤ 0 := by
  by_cases hco : ∃ c ∈ unilateralChanges changes others, line ∈ c.content
  · obtain ⟨c, hc, hcline⟩ := hco
    obtain ⟨hch, ho⟩ := mem_filter.mp hc
    rw [Bool.not_eq_true'] at ho
    have hne : ¬ lineChangesEqual c shared = true := by
      intro heq
      exact any_eq_false.mp ho shared hshared heq
    have hcand := filterMap_eq_nil_iff.mp hn c hch
    rw [if_neg hne, ho, if_neg Bool.false_ne_true] at hcand
    have hfew : ¬ countIn (countLinesAfterChanges baseLines changes) line >
        countIn (countLinesAfterChanges baseLines common) line := by
      intro hmore
      have hany : (c.content.any fun line => removed.contains line &&
          decide (((countLinesAfterChanges baseLines changes).get? line).getD 0 >
            ((countLinesAfterChanges baseLines common).get? line).getD 0)) = true := by
        refine any_eq_true.mpr ⟨line, hcline, ?_⟩
        rw [Bool.and_eq_true]
        exact ⟨contains_iff_mem.mpr hline, decide_eq_true hmore⟩
      rw [hany, if_neg (by simp)] at hcand
      cases hcand
    have hsum := (hs.map (Splice.gain baseLines line)).sum_eq
    rw [map_append, sum_append] at hsum
    rw [countIn_countLinesAfterChanges, countIn_countLinesAfterChanges] at hfew
    omega
  have hgains : ∀ gained ∈ (unilateralChanges changes others).map (Splice.gain baseLines line),
      gained ≤ 0 := by
    intro gained hgained
    obtain ⟨c, hc, rfl⟩ := mem_map.mp hgained
    apply Splice.gain_nonpos
    intro hcline
    exact hco ⟨c, hc, hcline⟩
  simpa using sum_le_card_nsmul _ 0 hgains

/-- No line that a shared change removes is found more often in the merged lines than the shared
changes leave it. -/
theorem count_mergedLines_le (hlefts : Splice.Separated baseLines.length lefts)
    (hrig : Splice.Separated baseLines.length rights)
    (hcon : conflictRangesOf baseLines lefts rights = []) {shared : LineChange}
    (hl : shared ∈ lefts) (hr : shared ∈ rights)
    (hrem : shared.content.count line <
      (slice baseLines shared.baseStart shared.baseEnd).count line) :
    (mergedLines baseLines lefts rights).count line ≤
      (Splice.patched baseLines (sharedChanges lefts rights)).count line := by
  have hline : line ∈ removedLines baseLines shared := mem_removedLines.mpr hrem
  have hmem : shared ∈ sharedChanges lefts rights := by
    refine mem_filter.mpr ⟨hl, ?_⟩
    exact any_eq_true.mpr ⟨shared, hr, lineChangesEqual_iff.mpr rfl⟩
  have hremoval : shared.baseStart < shared.baseEnd := by
    by_contra he
    rw [slice_of_le (Nat.le_of_not_lt he)] at hrem
    exact Nat.not_lt_zero _ hrem
  have hn := mergeBaseRanges_eq_nil.mp (append_eq_nil_iff.mp
    (append_eq_nil_iff.mp (mergeBaseRanges_eq_nil.mp hcon)).1).2
  have hsides := flatMap_eq_nil_iff.mp hn shared (mem_filter.mpr ⟨hmem, decide_eq_true hremoval⟩)
  rw [if_neg (ne_nil_of_mem hline)] at hsides
  obtain ⟨hnoneLeft, hnon⟩ := append_eq_nil_iff.mp hsides
  have hgainLeft := unilateral_gain_nonpos (sharedChanges_append_unilateralChanges lefts rights)
    hnoneLeft hr hline
  have hs : (sharedChanges lefts rights ++ unilateralChanges rights lefts).Perm rights := by
    have hcomm : sharedChanges lefts rights = sharedChanges rights lefts := shared_comm hlefts hrig
    rw [hcomm]
    exact sharedChanges_append_unilateralChanges rights lefts
  have hgain := unilateral_gain_nonpos hs hnon hl hline
  have hapart := apart_of_no_conflict hcon
  have hm := Splice.count_patched line (separated_distinct hlefts hrig hapart).sequential
  have hshared := Splice.count_patched line
    (hlefts.filter fun left => rights.any fun right => lineChangesEqual left right).sequential
  have hsum := (((sortChanges_perm (combineDistinctChanges lefts rights)).trans
    (combineDistinctChanges_perm hlefts.nodup hrig.nodup)).map (Splice.gain baseLines line)).sum_eq
  rw [map_append, map_append, sum_append, sum_append] at hsum
  rw [mergedLines, Splice.applyFrom_eq_patched (separated_distinct hlefts hrig hapart).sequential]
  change ((Splice.patched baseLines (sharedChanges lefts rights)).count line : ℤ) =
    _ + ((sharedChanges lefts rights).map _).sum at hshared
  omega

/-- A clean merge that takes no shortcut has no line more often than the changes of both sides leave
it, where one of these removes the line. -/
theorem clean_merge_revives_no_shared_removal (fastDiff : Differ UInt16)
    {baseText leftText rightText mergedText : JsString} (hsides : leftText ≠ rightText)
    (hleft : baseText ≠ leftText) (hright : baseText ≠ rightText)
    (hmerge : mergeTexts3 fastDiff (some baseText) leftText rightText = .cleanMerge mergedText) :
    let baseLines := splitLineTokens baseText
    let leftChanges := buildLineChanges fastDiff baseLines (splitLineTokens leftText)
    let rightChanges := buildLineChanges fastDiff baseLines (splitLineTokens rightText)
    mergedText = (mergedLines baseLines leftChanges rightChanges).flatten ∧
      ∀ shared ∈ leftChanges, shared ∈ rightChanges → ∀ line,
        shared.content.count line < (slice baseLines shared.baseStart shared.baseEnd).count line →
        (mergedLines baseLines leftChanges rightChanges).count line ≤
          (Splice.patched baseLines (sharedChanges leftChanges rightChanges)).count line := by
  intro baseLines leftChanges rightChanges
  rw [mergeTexts3, if_neg hsides, if_neg hleft, if_neg hright] at hmerge
  dsimp only at hmerge
  split at hmerge
  · next hcon =>
    cases hmerge
    refine ⟨rfl, ?_⟩
    intro shared hsharedLeft hshar line hrem
    exact count_mergedLines_le (buildLineChanges_spec fastDiff _ _).1
      (buildLineChanges_spec fastDiff _ _).1 hcon hsharedLeft hshar hrem
  · cases hmerge

end Merge

section Example

/-- A first element that the variant lacks is taken out by itself. -/
def headScript {α : Type*} [DecidableEq α] : List α → List α → EditScript α
  | x :: rest, variant =>
    if x ∈ variant then EditScript.affixScript (x :: rest) variant
    else (.delete, [x]) :: EditScript.affixScript rest variant
  | [], variant => EditScript.affixScript [] variant

theorem rewrites_headScript {α : Type*} [DecidableEq α] (base variant : List α) :
    (headScript base variant).Rewrites base variant := by
  cases base with
  | nil => exact EditScript.rewrites_affixScript [] variant
  | cons x rest =>
    rw [headScript]
    by_cases hx : x ∈ variant
    · rw [if_pos hx]
      exact EditScript.rewrites_affixScript (x :: rest) variant
    rw [if_neg hx]
    obtain ⟨hnon, hsrc, htgt⟩ := EditScript.rewrites_affixScript rest variant
    refine ⟨forall_mem_cons.mpr ⟨cons_ne_nil _ _, hnon⟩, ?_, ?_⟩
    · rw [EditScript.source, hsrc, singleton_append]
    · rw [EditScript.target, htgt]

def headDiffer {α : Type*} [DecidableEq α] : Differ α := ⟨headScript, rewrites_headScript⟩

/-- Both sides take out the first line; one changes the last line and the other one in between. -/
theorem clean_merge_keeps_removal :
    js "b\ny\nd\ne\nx\n" = (mergedLines (splitLineTokens (js "a\nb\nc\nd\ne\nf\n"))
        [⟨0, 1, []⟩, ⟨5, 6, [js "x\n"]⟩] [⟨0, 1, []⟩, ⟨2, 3, [js "y\n"]⟩]).flatten ∧
      (mergedLines (splitLineTokens (js "a\nb\nc\nd\ne\nf\n"))
        [⟨0, 1, []⟩, ⟨5, 6, [js "x\n"]⟩] [⟨0, 1, []⟩, ⟨2, 3, [js "y\n"]⟩]).count (js "a\n") ≤
      (Splice.patched (splitLineTokens (js "a\nb\nc\nd\ne\nf\n"))
        (sharedChanges [⟨0, 1, []⟩, ⟨5, 6, [js "x\n"]⟩]
          [⟨0, 1, []⟩, ⟨2, 3, [js "y\n"]⟩])).count (js "a\n") := by
  have hmg : mergeTexts3 headDiffer (some (js "a\nb\nc\nd\ne\nf\n")) (js "b\nc\nd\ne\nx\n")
      (js "b\ny\nd\ne\nf\n") = .cleanMerge (js "b\ny\nd\ne\nx\n") := by
    decide
  have hl : buildLineChanges headDiffer (splitLineTokens (js "a\nb\nc\nd\ne\nf\n"))
      (splitLineTokens (js "b\nc\nd\ne\nx\n")) =
      [⟨0, 1, []⟩, ⟨5, 6, [js "x\n"]⟩] := by
    decide
  have hr : buildLineChanges headDiffer (splitLineTokens (js "a\nb\nc\nd\ne\nf\n"))
      (splitLineTokens (js "b\ny\nd\ne\nf\n")) =
      [⟨0, 1, []⟩, ⟨2, 3, [js "y\n"]⟩] := by
    decide
  have hm := clean_merge_revives_no_shared_removal headDiffer (by decide) (by decide)
    (by decide) hmg
  dsimp only at hm
  exact ⟨hm.1, hm.2 ⟨0, 1, []⟩ (by decide) (by decide) (js "a\n") (by decide)⟩

end Example

end Kaos.Utils
