import Mathlib.Data.List.Dedup
import Kaos.Utils.ThreeWayMerge

/-! A clean merge of texts applies the changes of both sides, each once. -/
namespace Kaos.Utils

open Kaos.Lib List

theorem eq_of_zip_all {xs ys : List JsString} (hlen : xs.length = ys.length)
    (hall : (xs.zip ys).all (fun (x, y) => decide (x = y)) = true) : xs = ys := by
  induction xs generalizing ys with
  | nil => exact (eq_nil_of_length_eq_zero hlen.symm).symm
  | cons x xs ih =>
    cases ys with
    | nil => cases hlen
    | cons y ys =>
      rw [zip_cons_cons, all_cons, Bool.and_eq_true, decide_eq_true_eq] at hall
      rw [hall.1, ih (Nat.succ.inj hlen) hall.2]

theorem zip_all_self (xs : List JsString) :
    (xs.zip xs).all (fun (x, y) => decide (x = y)) = true := by
  induction xs with
  | nil => rfl
  | cons x xs ih => simpa using ih

section Changes

variable {left right c d : LineChange} {lefts rights cs : List LineChange} {n : ℕ}

/-- The comparison by lines is equality. -/
theorem lineChangesEqual_iff : lineChangesEqual left right = true ↔ left = right := by
  unfold lineChangesEqual
  constructor
  · intro h
    simp only [Bool.and_eq_true, decide_eq_true_eq] at h
    obtain ⟨⟨⟨hst, hend⟩, hlen⟩, hlines⟩ := h
    obtain ⟨start, stop, lines⟩ := left
    cases hst
    cases hend
    cases eq_of_zip_all hlen hlines
    rfl
  · rintro rfl
    simp only [decide_true, Bool.true_and]
    exact zip_all_self _

theorem rangesTouch_iff : rangesTouch left right = true ↔ left.touches right := by
  simp [rangesTouch, Splice.touches]

theorem mem_combineDistinctChanges :
    c ∈ combineDistinctChanges lefts rights ↔ c ∈ lefts ∨ c ∈ rights := by
  unfold combineDistinctChanges
  rw [← mem_append]
  generalize lefts ++ rights = candidates
  rw [mem_map]
  constructor
  · rintro ⟨⟨d, index⟩, hmem, rfl⟩
    have hget := mk_mem_zipIdx_iff_getElem?.mp (mem_filter.mp hmem).1
    exact mem_of_getElem? hget
  intro hc
  have hlt : candidates.findIdx (fun other => lineChangesEqual other c) < candidates.length :=
    findIdx_lt_length_of_exists ⟨c, hc, lineChangesEqual_iff.mpr rfl⟩
  have hf := lineChangesEqual_iff.mp (findIdx_getElem (w := hlt))
  refine ⟨(c, candidates.findIdx fun other => lineChangesEqual other c), ?_, rfl⟩
  apply mem_filter.mpr
  refine ⟨?_, decide_eq_true rfl⟩
  apply mk_mem_zipIdx_iff_getElem?.mpr
  rw [getElem?_eq_getElem hlt, hf]

theorem nodup_combineDistinctChanges : (combineDistinctChanges lefts rights).Nodup := by
  unfold combineDistinctChanges
  generalize lefts ++ rights = candidates
  have hnd : candidates.zipIdx.Nodup := by
    apply List.Nodup.of_map Prod.snd
    rw [zipIdx_map_snd]
    exact nodup_range'
  apply List.Nodup.map_on
  · rintro ⟨x, i⟩ hx ⟨y, j⟩ hy heq
    have hi := of_decide_eq_true (mem_filter.mp hx).2
    have hj := of_decide_eq_true (mem_filter.mp hy).2
    dsimp only at hi hj heq
    rw [← hi, ← hj, heq]
  · exact hnd.filter _

theorem sortChanges_perm (cs : List LineChange) : (sortChanges cs).Perm cs :=
  perm_insertionSort _ _

@[simp] theorem mem_sortChanges : c ∈ sortChanges cs ↔ c ∈ cs := (sortChanges_perm cs).mem_iff

theorem pairwise_sortChanges (cs : List LineChange) :
    (sortChanges cs).Pairwise fun c d => c.baseStart ≤ d.baseStart := by
  have ht : IsTrans LineChange fun a b =>
      a.baseStart < b.baseStart ∨ a.baseStart = b.baseStart ∧ a.baseEnd ≤ b.baseEnd := by
    constructor
    intro a b c hab hbc
    omega
  have htotal : Std.Total fun a b : LineChange =>
      a.baseStart < b.baseStart ∨ a.baseStart = b.baseStart ∧ a.baseEnd ≤ b.baseEnd := by
    constructor
    intro a b
    omega
  apply (pairwise_insertionSort _ cs).imp
  intro a b hab
  omega

/-- Distinct changes that do not meet are separated once they are sorted. -/
theorem separated_sortChanges (hle : ∀ c ∈ cs, c.baseStart ≤ c.baseEnd)
    (hlen : ∀ c ∈ cs, c.baseEnd ≤ n) (hnd : cs.Nodup)
    (hapart : ∀ c ∈ cs, ∀ d ∈ cs, c.touches d → c = d) : Splice.Separated n (sortChanges cs) where
  le c hc := hle c (mem_sortChanges.mp hc)
  le_length c hc := hlen c (mem_sortChanges.mp hc)
  pairwise := by
    have hs := (pairwise_sortChanges cs).and ((sortChanges_perm cs).nodup_iff.mpr hnd)
    apply hs.imp_of_mem
    rintro c d hc hd ⟨hst, hne⟩
    have hd' := mem_sortChanges.mp hd
    have hdle := hle d hd'
    by_contra hend
    apply hne
    apply hapart c (mem_sortChanges.mp hc) d hd'
    constructor <;> omega

end Changes

section Lines

variable (fastDiff : Differ UInt16)

/-- The changes of one side are separated and rewrite the base lines into the variant lines. -/
theorem buildLineChanges_spec (baseLines variantLines : List JsString) :
    Splice.Separated baseLines.length (buildLineChanges fastDiff baseLines variantLines) ∧
      Splice.patched baseLines (buildLineChanges fastDiff baseLines variantLines) =
        variantLines := by
  unfold buildLineChanges
  cases henc : encodeLineTokens baseLines variantLines with
  | none =>
    have hwhole : Splice.Separated baseLines.length
        [(⟨0, baseLines.length, variantLines⟩ : LineChange)] :=
      ⟨by simp, by simp, pairwise_singleton _ _⟩
    refine ⟨hwhole, ?_⟩
    change Splice.patched baseLines [⟨0, baseLines.length, variantLines⟩] = variantLines
    rw [← Splice.applyFrom_eq_patched hwhole.sequential, Splice.applyFrom, Splice.applyFrom,
      slice_of_le (Nat.le_refl _), slice_of_le (Nat.le_refl _), nil_append, append_nil]
  | some encoded =>
    obtain ⟨hb, hvar⟩ := encodeLineTokens_spec henc
    have hrew : EditScript.Rewrites (List.map
        (fun segment => (segment.1, decodeTokenText encoded.lines segment.2))
        (fastDiff.diff encoded.base encoded.variant)) baseLines variantLines := by
      rw [← hb, ← hvar]
      exact (fastDiff.rewrites encoded.base encoded.variant).map _
    exact ⟨hrew.separated, hrew.patched⟩

end Lines

section Ranges

variable {ranges : List BaseRange}

theorem sortRanges_perm (ranges : List BaseRange) : (sortRanges ranges).Perm ranges :=
  perm_insertionSort _ _

theorem mergeRangesFrom_ne_nil (last : BaseRange) (ranges : List BaseRange) :
    mergeRangesFrom last ranges ≠ [] := by
  induction ranges generalizing last with
  | nil => simp [mergeRangesFrom]
  | cons range rest ih =>
    unfold mergeRangesFrom
    split
    · exact ih _
    · simp

/-- Merging leaves no ranges only where there are none. -/
theorem mergeBaseRanges_eq_nil : mergeBaseRanges ranges = [] ↔ ranges = [] := by
  unfold mergeBaseRanges
  constructor
  · intro h
    split at h
    · next hs => exact List.Perm.eq_nil (hs ▸ (sortRanges_perm ranges).symm)
    · exact absurd h (mergeRangesFrom_ne_nil _ _)
  rintro rfl
  rfl

/-- Without conflict ranges, changes of the two sides meet only where they are identical. -/
theorem apart_of_no_conflict {baseLines : List JsString} {leftChanges rightChanges : List LineChange}
    (h : conflictRangesOf baseLines leftChanges rightChanges = []) :
    ∀ left ∈ leftChanges, ∀ right ∈ rightChanges, left.touches right → left = right := by
  intro left hl right hr htouc
  have hcol := (append_eq_nil_iff.mp (append_eq_nil_iff.mp (mergeBaseRanges_eq_nil.mp h)).1).1
  have hn := mergeBaseRanges_eq_nil.mp hcol
  rw [touchingHulls, flatMap_eq_nil_iff] at hn
  have hr' := filterMap_eq_nil_iff.mp (hn left hl) right hr
  by_contra hne
  rw [if_neg (fun heq => hne (lineChangesEqual_iff.mp heq)),
    if_neg (by simp [rangesTouch_iff.mpr htouc])] at hr'
  cases hr'

end Ranges

section Merge

variable (fastDiff : Differ UInt16)

/-- The distinct changes of both sides, sorted, where none of them meet. -/
theorem separated_distinct {n : ℕ} {lefts rights : List LineChange}
    (hl : Splice.Separated n lefts) (hr : Splice.Separated n rights)
    (hapart : ∀ left ∈ lefts, ∀ right ∈ rights, left.touches right → left = right) :
    Splice.Separated n (sortChanges (combineDistinctChanges lefts rights)) := by
  apply separated_sortChanges
  · intro c hc
    rcases mem_combineDistinctChanges.mp hc with hc | hc
    · exact hl.le c hc
    · exact hr.le c hc
  · intro c hc
    rcases mem_combineDistinctChanges.mp hc with hc | hc
    · exact hl.le_length c hc
    · exact hr.le_length c hc
  · exact nodup_combineDistinctChanges
  intro c hc d hd htouc
  rcases mem_combineDistinctChanges.mp hc with hc | hc
  · rcases mem_combineDistinctChanges.mp hd with hd | hd
    · exact hl.eq_of_touches hc hd htouc
    · exact hapart c hc d hd htouc
  rcases mem_combineDistinctChanges.mp hd with hd | hd
  · exact (hapart d hd c hc (Splice.touches_comm.mp htouc)).symm
  · exact hr.eq_of_touches hc hd htouc

/-- What the merged lines of two sides are, when each of their changes is applied once. -/
theorem applyNonConflictingChanges_eq {baseLines : List JsString}
    {leftChanges rightChanges : List LineChange}
    (hl : Splice.Separated baseLines.length leftChanges)
    (hr : Splice.Separated baseLines.length rightChanges)
    (hapart : ∀ left ∈ leftChanges, ∀ right ∈ rightChanges, left.touches right → left = right) :
    applyNonConflictingChanges baseLines leftChanges rightChanges =
      (Splice.patched baseLines (leftChanges ++ rightChanges).dedup).flatten := by
  have hsep := separated_distinct hl hr hapart
  rw [applyNonConflictingChanges, Splice.applyFrom_eq_patched hsep.sequential]
  congr 1
  apply Splice.patched_perm
  · apply (sortChanges_perm _).trans
    apply (perm_ext_iff_of_nodup nodup_combineDistinctChanges (nodup_dedup _)).mpr
    intro c
    rw [mem_combineDistinctChanges, mem_dedup, mem_append]
  · exact hsep.start_ne

/-- A clean merge that takes no shortcut is the base with the changes of both sides, identical ones
once; the changes of one side alone give that side's text. -/
theorem clean_merge_applies_once {baseText leftText rightText mergedText : JsString}
    (hsides : leftText ≠ rightText) (hleft : baseText ≠ leftText) (hright : baseText ≠ rightText)
    (hmerge : mergeTexts3 fastDiff (some baseText) leftText rightText = .cleanMerge mergedText) :
    let baseLines := splitLineTokens baseText
    let leftChanges := buildLineChanges fastDiff baseLines (splitLineTokens leftText)
    let rightChanges := buildLineChanges fastDiff baseLines (splitLineTokens rightText)
    Splice.Separated baseLines.length leftChanges ∧ Splice.Separated baseLines.length rightChanges ∧
      (∀ left ∈ leftChanges, ∀ right ∈ rightChanges, left.touches right → left = right) ∧
      baseLines.flatten = baseText ∧
      mergedText = (Splice.patched baseLines (leftChanges ++ rightChanges).dedup).flatten ∧
      (Splice.patched baseLines leftChanges).flatten = leftText ∧
      (Splice.patched baseLines rightChanges).flatten = rightText := by
  intro baseLines leftChanges rightChanges
  obtain ⟨hlef, hleftPatched⟩ := buildLineChanges_spec fastDiff baseLines (splitLineTokens leftText)
  obtain ⟨hrig, hrightPatched⟩ :=
    buildLineChanges_spec fastDiff baseLines (splitLineTokens rightText)
  rw [mergeTexts3, if_neg hsides, if_neg hleft, if_neg hright] at hmerge
  dsimp only at hmerge
  split at hmerge
  · next hcon =>
    have hapart := apart_of_no_conflict hcon
    refine ⟨hlef, hrig, hapart, flatten_splitLineTokens baseText, ?_, ?_, ?_⟩
    · cases hmerge
      exact applyNonConflictingChanges_eq hlef hrig hapart
    · rw [hleftPatched, flatten_splitLineTokens]
    · rw [hrightPatched, flatten_splitLineTokens]
  · cases hmerge

end Merge

section Example

/-- One line is changed on the left, another on the right. -/
theorem clean_merge_two_lines :
    js "x\nb\ny\n" = (Splice.patched (splitLineTokens (js "a\nb\nc\n"))
      [(⟨0, 1, [js "x\n"]⟩ : LineChange), ⟨2, 3, [js "y\n"]⟩]).flatten := by
  have hm : mergeTexts3 affixDiffer (some (js "a\nb\nc\n")) (js "x\nb\nc\n")
      (js "a\nb\ny\n") = .cleanMerge (js "x\nb\ny\n") := by
    decide
  have hap := clean_merge_applies_once affixDiffer (by decide) (by decide) (by decide) hm
  exact hap.2.2.2.2.1

end Example

end Kaos.Utils
