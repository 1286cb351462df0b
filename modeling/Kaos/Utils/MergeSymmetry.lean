import Kaos.Utils.ConflictMerge

/-! Two devices that merge the same texts from opposite sides come to the same result. -/
namespace Kaos.Utils

open Kaos.Lib List

/-- The pairs that two nested loops find are the same when the loops are exchanged. -/
theorem flatMap_filterMap_perm {α β γ : Type*} (as : List α) (bs : List β)
    (f : α → β → Option γ) : (as.flatMap fun a => bs.filterMap (f a)).Perm
      (bs.flatMap fun b => as.filterMap fun a => f a b) := by
  induction as with
  | nil => simp
  | cons a as ih =>
    have hs : (bs.flatMap fun b => (a :: as).filterMap fun a => f a b) =
        bs.flatMap fun b => (f a b).toList ++ as.filterMap fun a => f a b := by
      refine flatMap_congr fun b _ => ?_
      rw [filterMap_cons]
      cases f a b <;> rfl
    rw [flatMap_cons, hs, filterMap_eq_flatMap_toList]
    exact (ih.append_left _).trans (flatMap_append_perm bs _ _)

variable {n : ℕ} {c d : LineChange} {cs ds lefts rights : List LineChange}
  {ranges ranges' : List BaseRange} {baseLines : List JsString}

section Ranges

/-- Ranges are merged in one order, whichever way they were found. -/
theorem mergeBaseRanges_perm (h : ranges.Perm ranges') :
    mergeBaseRanges ranges = mergeBaseRanges ranges' := by
  have ht : IsTrans BaseRange fun left right =>
      left.start < right.start ∨ left.start = right.start ∧ left.stop ≤ right.stop := by
    constructor
    intro a b c hab hbc
    omega
  have htotal : Std.Total fun left right : BaseRange =>
      left.start < right.start ∨ left.start = right.start ∧ left.stop ≤ right.stop := by
    constructor
    intro a b
    omega
  have hs : sortRanges ranges = sortRanges ranges' := by
    refine List.Perm.eq_of_pairwise ?_ (pairwise_insertionSort _ ranges)
      (pairwise_insertionSort _ ranges')
      ((sortRanges_perm ranges).trans (h.trans (sortRanges_perm ranges').symm))
    rintro ⟨start, stop⟩ ⟨start', stop'⟩ - - hle hge
    dsimp only at hle hge
    have hst : start = start' := by omega
    have hstop : stop = stop' := by omega
    rw [hst, hstop]
  rw [mergeBaseRanges, mergeBaseRanges, hs]

theorem hull_comm (c d : LineChange) : hull c d = hull d c := by
  rw [hull, hull, Nat.min_comm, Nat.max_comm]

theorem lineChangesEqual_comm (c d : LineChange) : lineChangesEqual c d = lineChangesEqual d c := by
  rw [Bool.eq_iff_iff, lineChangesEqual_iff, lineChangesEqual_iff]
  exact eq_comm

theorem rangesTouch_comm (c d : LineChange) : rangesTouch c d = rangesTouch d c := by
  rw [rangesTouch, rangesTouch, Bool.and_comm]

theorem collectConflictRanges_comm :
    collectConflictRanges lefts rights = collectConflictRanges rights lefts := by
  refine mergeBaseRanges_perm ((flatMap_filterMap_perm ..).trans (.of_eq ?_))
  refine flatMap_congr fun right _ => filterMap_congr fun left _ => ?_
  rw [lineChangesEqual_comm, rangesTouch_comm, hull_comm]

/-- Of two changes at most one ends before the other begins. -/
theorem baseBridgeRangeBetween_comm (hc : c.baseStart ≤ c.baseEnd) (hd : d.baseStart ≤ d.baseEnd) :
    baseBridgeRangeBetween c d = baseBridgeRangeBetween d c := by
  unfold baseBridgeRangeBetween
  by_cases hlt : c.baseEnd < d.baseStart
  · rw [if_pos hlt, if_neg (by omega), if_pos hlt]
  rw [if_neg hlt]
  split <;> rfl

theorem collectAmbiguousRepeatedLineAlignmentRanges_comm (hlefts : Splice.Separated n lefts)
    (hrights : Splice.Separated n rights) :
    collectAmbiguousRepeatedLineAlignmentRanges baseLines lefts rights =
      collectAmbiguousRepeatedLineAlignmentRanges baseLines rights lefts := by
  refine mergeBaseRanges_perm ((flatMap_filterMap_perm ..).trans (.of_eq ?_))
  refine flatMap_congr fun right hr => filterMap_congr fun left hl => ?_
  rw [baseBridgeRangeBetween_comm (hlefts.le left hl) (hrights.le right hr), hull_comm]
  simp only [Bool.and_comm]

end Ranges

section Changes

/-- Separated changes are listed in one order only. -/
theorem eq_of_separated (hcs : Splice.Separated n cs) (hds : Splice.Separated n ds)
    (hmem : ∀ c, c ∈ cs ↔ c ∈ ds) : cs = ds := by
  have hstarts : ∀ {es : List LineChange}, Splice.Separated n es →
      es.Pairwise fun c d => c.baseStart < d.baseStart := by
    intro es hes
    refine hes.pairwise.imp_of_mem ?_
    intro c d hc _ hlt
    exact Nat.lt_of_le_of_lt (hes.le c hc) hlt
  refine List.Perm.eq_of_pairwise ?_ (hstarts hcs) (hstarts hds)
    ((perm_ext_iff_of_nodup hcs.nodup hds.nodup).mpr hmem)
  intro c d _ _ hlt hgt
  omega

section

variable (hlefts : Splice.Separated n lefts) (hrights : Splice.Separated n rights)
include hlefts hrights

/-- The changes that both sides make are the same list on either side. -/
theorem shared_comm :
    (lefts.filter fun left => rights.any fun right => lineChangesEqual left right) =
      rights.filter fun right => lefts.any fun left => lineChangesEqual right left := by
  refine eq_of_separated (hlefts.filter _) (hrights.filter _) fun c => ?_
  simp only [mem_filter, any_eq_true, lineChangesEqual_iff, exists_eq_right']
  exact and_comm

theorem collectAmbiguousSharedRemovalReintroductionRanges_comm :
    collectAmbiguousSharedRemovalReintroductionRanges baseLines lefts rights =
      collectAmbiguousSharedRemovalReintroductionRanges baseLines rights lefts := by
  unfold collectAmbiguousSharedRemovalReintroductionRanges
  dsimp only
  rw [shared_comm hlefts hrights]
  refine mergeBaseRanges_perm (List.Perm.flatMap_left _ fun shared _ => ?_)
  split
  · exact .refl _
  · exact perm_append_comm

theorem conflictRangesOf_comm :
    conflictRangesOf baseLines lefts rights = conflictRangesOf baseLines rights lefts := by
  rw [conflictRangesOf, conflictRangesOf, collectConflictRanges_comm,
    collectAmbiguousSharedRemovalReintroductionRanges_comm hlefts hrights,
    collectAmbiguousRepeatedLineAlignmentRanges_comm hlefts hrights]

/-- Changes that conflict nowhere are applied in one order. -/
theorem applyNonConflictingChanges_comm
    (hapart : ∀ left ∈ lefts, ∀ right ∈ rights, left.touches right → left = right) :
    applyNonConflictingChanges baseLines lefts rights =
      applyNonConflictingChanges baseLines rights lefts := by
  have hapart' : ∀ right ∈ rights, ∀ left ∈ lefts, right.touches left → right = left :=
    fun right hr left hl htouc =>
      (hapart left hl right hr (Splice.touches_comm.mp htouc)).symm
  have hs : sortChanges (combineDistinctChanges lefts rights) =
      sortChanges (combineDistinctChanges rights lefts) := by
    refine eq_of_separated (separated_distinct hlefts hrights hapart)
      (separated_distinct hrights hlefts hapart') fun c => ?_
    simp only [mem_sortChanges, mem_combineDistinctChanges]
    exact or_comm
  rw [applyNonConflictingChanges, applyNonConflictingChanges, hs]

end

end Changes

section Conflicts

/-- The hunk as the other device sees it. -/
def ThreeWayMergeConflictHunk.swap (hunk : ThreeWayMergeConflictHunk) : ThreeWayMergeConflictHunk :=
  { hunk with leftText := hunk.rightText, rightText := hunk.leftText }

section

variable (h : Conflicts n lefts rights ranges)
include h

theorem Conflicts.swap : Conflicts n rights lefts ranges where
  left := h.right
  right := h.left
  anchored r hr := (h.anchored r hr).mono fun c hc =>
    mem_append.mpr (mem_append.mp hc).symm
  pairwise := h.pairwise
  covers c hc d hd htouc := by
    rcases h.covers d hd c hc (Splice.touches_comm.mp htouc) with rfl | ⟨r, hr, hd', hc'⟩
    · exact .inl rfl
    · exact .inr ⟨r, hr, hc', hd'⟩

/-- Outside the conflicts, too, there is one order. -/
theorem Conflicts.regionChanges_comm (start stop : ℕ) :
    regionChanges lefts rights ranges start stop =
      regionChanges rights lefts ranges start stop := by
  refine eq_of_separated h.separated_regionChanges h.swap.separated_regionChanges fun c => ?_
  rw [h.mem_regionChanges, h.swap.mem_regionChanges, mem_append, mem_append, or_comm]

theorem Conflicts.textSegments_comm (cursor stop : ℕ) :
    textSegments baseLines (excludeConflictChanges lefts ranges)
        (excludeConflictChanges rights ranges) cursor stop =
      textSegments baseLines (excludeConflictChanges rights ranges)
        (excludeConflictChanges lefts ranges) cursor stop := by
  have hreg := h.regionChanges_comm cursor stop
  unfold regionChanges at hreg
  unfold textSegments applyRegion
  rw [hreg]

theorem Conflicts.segmentsFrom_comm (rest : List BaseRange) (cursor index : ℕ) :
    segmentsFrom baseLines (excludeConflictChanges lefts ranges)
        (excludeConflictChanges rights ranges) cursor index rest =
      segmentsFrom baseLines (excludeConflictChanges rights ranges)
        (excludeConflictChanges lefts ranges) cursor index rest := by
  induction rest generalizing cursor index with
  | nil => exact h.textSegments_comm cursor _
  | cons range rest ih => rw [segmentsFrom, segmentsFrom, h.textSegments_comm, ih]

/-- The conflict that the other device reports. -/
theorem Conflicts.buildConflictResult_swap :
    ∃ partialText partialText' hunks segments,
      buildConflictResult baseLines lefts rights ranges = .conflict partialText hunks segments ∧
      buildConflictResult baseLines rights lefts ranges =
        .conflict partialText' (hunks.map ThreeWayMergeConflictHunk.swap) segments := by
  have hhunks : (ranges.mapIdx (conflictHunk baseLines lefts rights)).map
      ThreeWayMergeConflictHunk.swap = ranges.mapIdx (conflictHunk baseLines rights lefts) := by
    refine ext_getElem? fun i => ?_
    rw [getElem?_map, getElem?_mapIdx, getElem?_mapIdx, Option.map_map]
    rfl
  unfold buildConflictResult
  dsimp only
  rw [← h.segmentsFrom_comm, ← hhunks]
  exact ⟨_, _, _, _, rfl, rfl⟩

end

end Conflicts

/-- Merging from the other side gives the same text, or the same conflict with its sides
exchanged. -/
theorem mergeTexts3_symmetric (fastDiff : Differ UInt16) (baseText leftText rightText : JsString) :
    (∃ mergedText, mergeTexts3 fastDiff (some baseText) leftText rightText =
        .cleanMerge mergedText ∧
      mergeTexts3 fastDiff (some baseText) rightText leftText = .cleanMerge mergedText) ∨
    ∃ partialText partialText' hunks segments,
      mergeTexts3 fastDiff (some baseText) leftText rightText =
        .conflict partialText hunks segments ∧
      mergeTexts3 fastDiff (some baseText) rightText leftText =
        .conflict partialText' (hunks.map ThreeWayMergeConflictHunk.swap) segments := by
  by_cases hsides : leftText = rightText
  · subst hsides
    exact .inl ⟨leftText, if_pos rfl, if_pos rfl⟩
  by_cases hl : baseText = leftText
  · subst hl
    refine .inl ⟨rightText, ?_, ?_⟩
    · rw [mergeTexts3, if_neg hsides, if_pos rfl]
    · rw [mergeTexts3, if_neg (Ne.symm hsides), if_neg hsides, if_pos rfl]
  by_cases hr : baseText = rightText
  · subst hr
    refine .inl ⟨leftText, ?_, ?_⟩
    · rw [mergeTexts3, if_neg hsides, if_neg hl, if_pos rfl]
    · rw [mergeTexts3, if_neg (Ne.symm hsides), if_pos rfl]
  have hlefts := (buildLineChanges_spec fastDiff (splitLineTokens baseText)
    (splitLineTokens leftText)).1
  have hrights := (buildLineChanges_spec fastDiff (splitLineTokens baseText)
    (splitLineTokens rightText)).1
  rw [mergeTexts3, mergeTexts3, if_neg hsides, if_neg hl, if_neg hr,
    if_neg (Ne.symm hsides), if_neg hr, if_neg hl]
  dsimp only
  rw [conflictRangesOf_comm hrights hlefts]
  split
  · next hn =>
    exact .inl ⟨_, rfl, congrArg _ (applyNonConflictingChanges_comm hrights hlefts
      (apart_of_no_conflict (conflictRangesOf_comm hrights hlefts ▸ hn)))⟩
  right
  have hcon := @conflicts_conflictRangesOf _ _ _ (splitLineTokens baseText) hlefts hrights
  exact hcon.buildConflictResult_swap

end Kaos.Utils
