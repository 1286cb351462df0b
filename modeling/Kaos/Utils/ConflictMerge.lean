import Kaos.Utils.CleanMerge

/-! A conflict divides the base: text segments and hunks carry every change of both sides once. -/
namespace Kaos.Utils

open Kaos.Lib List

variable {n : ℕ} {c d : LineChange} {cs lefts rights : List LineChange} {range last s : BaseRange}
  {ranges : List BaseRange} {baseLines : List JsString}

namespace BaseRange

def contains (range : BaseRange) (c : LineChange) : Prop :=
  range.start ≤ c.baseStart ∧ c.baseEnd ≤ range.stop

def meets (range : BaseRange) (c : LineChange) : Prop :=
  range.start ≤ c.baseEnd ∧ c.baseStart ≤ range.stop

instance : Decidable (range.contains c) :=
  inferInstanceAs (Decidable (range.start ≤ c.baseStart ∧ c.baseEnd ≤ range.stop))

instance : Decidable (range.meets c) :=
  inferInstanceAs (Decidable (range.start ≤ c.baseEnd ∧ c.baseStart ≤ range.stop))

/-- A range begins where one of the changes begins and ends where one of them ends. -/
structure Anchored (cs : List LineChange) (range : BaseRange) : Prop where
  start : ∃ c ∈ cs, c.baseStart = range.start ∧ c.baseEnd ≤ range.stop
  stop : ∃ c ∈ cs, c.baseEnd = range.stop ∧ range.start ≤ c.baseStart

theorem Anchored.mono {ds : List LineChange} (h : Anchored cs range) (hsub : cs ⊆ ds) :
    Anchored ds range where
  start := by
    obtain ⟨c, hc, hst⟩ := h.start
    exact ⟨c, hsub hc, hst⟩
  stop := by
    obtain ⟨c, hc, hstop⟩ := h.stop
    exact ⟨c, hsub hc, hstop⟩

end BaseRange

theorem anchored_hull (hc : c ∈ cs) (hd : d ∈ cs) : (hull c d).Anchored cs where
  start := by
    rcases Nat.le_total c.baseStart d.baseStart with h | h
    · exact ⟨c, hc, (Nat.min_eq_left h).symm, Nat.le_max_left _ _⟩
    · exact ⟨d, hd, (Nat.min_eq_right h).symm, Nat.le_max_right _ _⟩
  stop := by
    rcases Nat.le_total c.baseEnd d.baseEnd with h | h
    · exact ⟨d, hd, (Nat.max_eq_right h).symm, Nat.min_le_right _ _⟩
    · exact ⟨c, hc, (Nat.max_eq_left h).symm, Nat.min_le_left _ _⟩

section Merging

/-- What merging makes of ranges: disjoint ranges in order, that begin and end with changes and
take in every range. -/
structure Merged (cs : List LineChange) (ranges merged : List BaseRange) : Prop where
  anchored : ∀ s ∈ merged, s.Anchored cs
  pairwise : merged.Pairwise fun r s => r.stop < s.start
  covers : ∀ r ∈ ranges, ∃ s ∈ merged, s.start ≤ r.start ∧ r.stop ≤ s.stop

theorem merged_mergeRangesFrom (hanc : ∀ r ∈ last :: ranges, r.Anchored cs)
    (hso : (last :: ranges).Pairwise fun r s => r.start ≤ s.start) :
    Merged cs (last :: ranges) (mergeRangesFrom last ranges) ∧
      ∀ s ∈ mergeRangesFrom last ranges, last.start ≤ s.start := by
  induction ranges generalizing last with
  | nil =>
    refine ⟨⟨hanc, pairwise_singleton _ _, ?_⟩, ?_⟩
    · intro r hr
      exact ⟨r, hr, Nat.le_refl _, Nat.le_refl _⟩
    intro s hs
    rw [mem_singleton.mp hs]
  | cons range rest ih =>
    have hl := hanc last mem_cons_self
    have hra := hanc range (by simp)
    have hle : last.start ≤ range.start := rel_of_pairwise_cons hso (by simp)
    rw [mergeRangesFrom]
    split
    · -- the range continues the last one
      have hjoined : BaseRange.Anchored cs ⟨last.start, max last.stop range.stop⟩ := by
        constructor
        · obtain ⟨c, hc, hst, hend⟩ := hl.start
          exact ⟨c, hc, hst, hend.trans (Nat.le_max_left _ _)⟩
        rcases Nat.le_total last.stop range.stop with h | h
        · obtain ⟨c, hc, hend, hst⟩ := hra.stop
          exact ⟨c, hc, hend.trans (Nat.max_eq_right h).symm, hle.trans hst⟩
        obtain ⟨c, hc, hend, hst⟩ := hl.stop
        exact ⟨c, hc, hend.trans (Nat.max_eq_left h).symm, hst⟩
      have hanc' : ∀ r ∈ ⟨last.start, max last.stop range.stop⟩ :: rest, r.Anchored cs := by
        intro r hr
        rcases mem_cons.mp hr with rfl | hr
        · exact hjoined
        · exact hanc r (by simp [hr])
      have hso' : (⟨last.start, max last.stop range.stop⟩ :: rest).Pairwise
          fun r s => r.start ≤ s.start := by
        apply pairwise_cons.mpr
        refine ⟨?_, hso.of_cons.of_cons⟩
        intro r hr
        exact rel_of_pairwise_cons hso (by simp [hr])
      obtain ⟨hm, hf⟩ := ih hanc' hso'
      refine ⟨⟨hm.anchored, hm.pairwise, ?_⟩, hf⟩
      obtain ⟨s, hs, hst, hstop⟩ := hm.covers _ mem_cons_self
      dsimp only at hst hstop
      intro r hr
      rcases mem_cons.mp hr with rfl | hr
      · refine ⟨s, hs, hst, ?_⟩
        omega
      rcases mem_cons.mp hr with rfl | hr
      · refine ⟨s, hs, ?_, ?_⟩ <;> omega
      · exact hm.covers r (mem_cons_of_mem _ hr)
    · next hgap =>
      obtain ⟨hm, hf⟩ := ih (fun r hr => hanc r (mem_cons_of_mem _ hr)) hso.of_cons
      refine ⟨⟨?_, ?_, ?_⟩, ?_⟩
      · intro s hs
        rcases mem_cons.mp hs with rfl | hs
        · exact hl
        · exact hm.anchored s hs
      · apply pairwise_cons.mpr
        refine ⟨?_, hm.pairwise⟩
        intro s hs
        have hst := hf s hs
        omega
      · intro r hr
        rcases mem_cons.mp hr with rfl | hr
        · exact ⟨r, mem_cons_self, Nat.le_refl _, Nat.le_refl _⟩
        obtain ⟨s, hs, hin⟩ := hm.covers r hr
        exact ⟨s, mem_cons_of_mem _ hs, hin⟩
      intro s hs
      rcases mem_cons.mp hs with rfl | hs
      · exact Nat.le_refl _
      · exact hle.trans (hf s hs)

theorem pairwise_sortRanges (ranges : List BaseRange) :
    (sortRanges ranges).Pairwise fun r s => r.start ≤ s.start := by
  have ht : IsTrans BaseRange fun left right =>
      left.start < right.start ∨ left.start = right.start ∧ left.stop ≤ right.stop := by
    constructor
    intro a b c hab hbc
    omega
  have htotal : Std.Total fun left right : BaseRange =>
      left.start < right.start ∨ left.start = right.start ∧ left.stop ≤ right.stop := by
    constructor
    intro a b
    omega
  apply (pairwise_insertionSort _ ranges).imp
  intro a b hab
  omega

theorem merged_mergeBaseRanges (hanc : ∀ r ∈ ranges, r.Anchored cs) :
    Merged cs ranges (mergeBaseRanges ranges) := by
  have hperm := sortRanges_perm ranges
  have hpair := pairwise_sortRanges ranges
  unfold mergeBaseRanges
  generalize sortRanges ranges = sorted at hperm hpair
  cases sorted with
  | nil =>
    obtain rfl := hperm.nil_eq
    exact ⟨by simp, List.Pairwise.nil, by simp⟩
  | cons last rest =>
    obtain ⟨hm, -⟩ := merged_mergeRangesFrom
      (fun r hr => hanc r (hperm.mem_iff.mp hr)) hpair
    refine ⟨hm.anchored, hm.pairwise, ?_⟩
    intro r hr
    exact hm.covers r (hperm.mem_iff.mpr hr)

end Merging

section Conflicts

/-- The changes of two sides and the ranges in which they conflict. -/
structure Conflicts (n : ℕ) (lefts rights : List LineChange) (ranges : List BaseRange) : Prop where
  left : Splice.Separated n lefts
  right : Splice.Separated n rights
  anchored : ∀ r ∈ ranges, r.Anchored (lefts ++ rights)
  pairwise : ranges.Pairwise fun r s => r.stop < s.start
  covers : ∀ c ∈ lefts, ∀ d ∈ rights, c.touches d → c = d ∨
    ∃ r ∈ ranges, r.contains c ∧ r.contains d

variable {r : BaseRange}

theorem anchored_touchingHulls (h : r ∈ touchingHulls lefts rights) :
    r.Anchored (lefts ++ rights) := by
  obtain ⟨left, hl, h⟩ := mem_flatMap.mp h
  obtain ⟨right, hr, h⟩ := mem_filterMap.mp h
  split at h
  · cases h
  split at h
  · cases h
  cases h
  exact anchored_hull (mem_append_left _ hl) (mem_append_right _ hr)

theorem anchored_reintroductions {shared : LineChange} {removed : List JsString}
    {commonCounts sideCounts : OrderedMap JsString ℤ} {others : List LineChange}
    (hshared : shared ∈ cs) {ds : List LineChange} (hds : ds ⊆ cs)
    (h : r ∈ collectUnilateralReintroductions shared removed commonCounts ds others sideCounts) :
    r.Anchored cs := by
  obtain ⟨candidate, hcand, h⟩ := mem_filterMap.mp h
  split at h
  · cases h
  split at h
  · cases h
  split at h
  · cases h
  cases h
  exact anchored_hull hshared (hds hcand)

/-- Each of the three detectors finds ranges that begin and end with changes. -/
theorem anchored_detected (h : r ∈ collectConflictRanges lefts rights ++
      collectAmbiguousSharedRemovalReintroductionRanges baseLines lefts rights ++
      collectAmbiguousRepeatedLineAlignmentRanges baseLines lefts rights) :
    r.Anchored (lefts ++ rights) := by
  rcases mem_append.mp h with h | h
  · rcases mem_append.mp h with h | h
    · exact (merged_mergeBaseRanges fun r hr => anchored_touchingHulls hr).anchored r h
    apply (merged_mergeBaseRanges ?_).anchored r h
    intro r hr
    obtain ⟨shared, hshared, hr⟩ := mem_flatMap.mp hr
    have hl := (mem_filter.mp (mem_filter.mp hshared).1).1
    have hmem : shared ∈ lefts ++ rights := mem_append_left _ hl
    dsimp only at hr
    split at hr
    · cases hr
    rcases mem_append.mp hr with hr | hr
    · exact anchored_reintroductions hmem (subset_append_left _ _) hr
    · exact anchored_reintroductions hmem (subset_append_right _ _) hr
  apply (merged_mergeBaseRanges ?_).anchored r h
  intro r hr
  obtain ⟨left, hl, hr⟩ := mem_flatMap.mp hr
  obtain ⟨right, hright, hr⟩ := mem_filterMap.mp hr
  obtain ⟨bridge, -, hr⟩ := Option.bind_eq_some_iff.mp hr
  dsimp only at hr
  split at hr
  · cases hr
    exact anchored_hull (mem_append_left _ hl) (mem_append_right _ hright)
  · cases hr

/-- The ranges that `mergeTexts3` computes are those of a conflict. -/
theorem conflicts_conflictRangesOf (hl : Splice.Separated n lefts)
    (hright : Splice.Separated n rights) :
    Conflicts n lefts rights (conflictRangesOf baseLines lefts rights) := by
  have hm : Merged (lefts ++ rights) _ (conflictRangesOf baseLines lefts rights) :=
    merged_mergeBaseRanges fun r hr => anchored_detected hr
  refine ⟨hl, hright, hm.anchored, hm.pairwise, ?_⟩
  intro c hc d hd htouc
  by_cases heq : c = d
  · exact .inl heq
  right
  -- the first detector puts both changes into one range
  have hhull : hull c d ∈ touchingHulls lefts rights := by
    apply mem_flatMap.mpr
    refine ⟨c, hc, mem_filterMap.mpr ⟨d, hd, ?_⟩⟩
    rw [if_neg (fun h => heq (lineChangesEqual_iff.mp h)),
      if_neg (by simp [rangesTouch_iff.mpr htouc])]
  obtain ⟨r, hr, hrst, hrstop⟩ :=
    (merged_mergeBaseRanges fun r hr => anchored_touchingHulls hr).covers _ hhull
  obtain ⟨s, hs, hsst, hsstop⟩ := hm.covers r (mem_append_left _ (mem_append_left _ hr))
  simp only [hull, le_min_iff, max_le_iff] at hrst hrstop
  refine ⟨s, hs, ⟨?_, ?_⟩, ?_, ?_⟩ <;> omega

variable (h : Conflicts n lefts rights ranges)

include h

theorem Conflicts.le (hc : c ∈ lefts ++ rights) : c.baseStart ≤ c.baseEnd ∧ c.baseEnd ≤ n := by
  rcases mem_append.mp hc with hc | hc
  · exact ⟨h.left.le c hc, h.left.le_length c hc⟩
  · exact ⟨h.right.le c hc, h.right.le_length c hc⟩

theorem Conflicts.range_le (hr : range ∈ ranges) : range.start ≤ range.stop ∧ range.stop ≤ n := by
  obtain ⟨c, hc, hst, hend⟩ := (h.anchored range hr).start
  obtain ⟨d, hd, hstop, -⟩ := (h.anchored range hr).stop
  have hcle := (h.le hc).1
  have hdn := (h.le hd).2
  omega

/-- Two changes that meet are one, or one range takes both in. -/
theorem Conflicts.eq_or_contains (hc : c ∈ lefts ++ rights) (hd : d ∈ lefts ++ rights)
    (htouc : c.touches d) : c = d ∨ ∃ r ∈ ranges, r.contains c ∧ r.contains d := by
  rcases mem_append.mp hc with hc | hc
  · rcases mem_append.mp hd with hd | hd
    · exact .inl (h.left.eq_of_touches hc hd htouc)
    · exact h.covers c hc d hd htouc
  rcases mem_append.mp hd with hd | hd
  · rcases h.covers d hd c hc (Splice.touches_comm.mp htouc) with heq | ⟨r, hr, hin, hin'⟩
    · exact .inl heq.symm
    · exact .inr ⟨r, hr, hin', hin⟩
  · exact .inl (h.right.eq_of_touches hc hd htouc)

/-- Two ranges that share a position are one. -/
theorem Conflicts.range_eq {k : ℕ} (hr : r ∈ ranges) (hs : s ∈ ranges)
    (hrk : r.start ≤ k ∧ k ≤ r.stop) (hsk : s.start ≤ k ∧ k ≤ s.stop) : r = s := by
  have hpair := h.pairwise
  clear h
  induction ranges with
  | nil => cases hr
  | cons first rest ih =>
    have hf := (pairwise_cons.mp hpair).1
    rcases mem_cons.mp hr with rfl | hr'
    · rcases mem_cons.mp hs with rfl | hs'
      · rfl
      have hlt := hf s hs'
      omega
    rcases mem_cons.mp hs with rfl | hs'
    · have hlt := hf r hr'
      omega
    · exact ih hr' hs' hpair.of_cons

/-- A change that meets a conflict range lies within it. -/
theorem Conflicts.contains_of_meets (hc : c ∈ lefts ++ rights) (hra : range ∈ ranges)
    (hm : range.meets c) : range.contains c := by
  constructor
  · by_contra hb
    -- `c` meets the change with which the range begins
    obtain ⟨d, hd, hst, hend⟩ := (h.anchored range hra).start
    have hdle := (h.le hd).1
    have htouc : c.touches d := ⟨by omega, by rw [hst]; exact hm.1⟩
    rcases h.eq_or_contains hc hd htouc with rfl | ⟨r, hr, hrc, hrd⟩
    · omega
    have heq : r = range := h.range_eq (k := d.baseStart) hr hra
      ⟨hrd.1, hdle.trans hrd.2⟩ ⟨hst.ge, hdle.trans hend⟩
    subst heq
    exact hb hrc.1
  by_contra ha
  obtain ⟨d, hd, hend, hst⟩ := (h.anchored range hra).stop
  have hdle := (h.le hd).1
  have htouc : c.touches d := ⟨by rw [hend]; exact hm.2, by omega⟩
  rcases h.eq_or_contains hc hd htouc with rfl | ⟨r, hr, hrc, hrd⟩
  · omega
  have heq : r = range := h.range_eq (k := d.baseEnd) hr hra
    ⟨hrd.1.trans hdle, hrd.2⟩ ⟨hst.trans hdle, hend.le⟩
  subst heq
  exact ha hrc.2

/-- The changes that lie within no conflict range meet none. -/
theorem Conflicts.mem_exclude (hcs : cs ⊆ lefts ++ rights) :
    c ∈ excludeConflictChanges cs ranges ↔ c ∈ cs ∧ ∀ r ∈ ranges, ¬ r.meets c := by
  rw [excludeConflictChanges, mem_filter]
  apply and_congr_right
  intro hc
  rw [Bool.not_eq_true', any_eq_false]
  constructor
  · intro hout r hr hm
    have hcon := h.contains_of_meets (hcs hc) hr hm
    apply hout r hr
    rw [within, Bool.and_eq_true, decide_eq_true_eq, decide_eq_true_eq]
    exact hcon
  intro hout r hr hwit
  rw [within, Bool.and_eq_true, decide_eq_true_eq, decide_eq_true_eq] at hwit
  have hcle := (h.le (hcs hc)).1
  exact hout r hr ⟨hwit.1.trans hcle, hcle.trans hwit.2⟩

end Conflicts

section Resolution

/-- What may stand in the place of a conflict. -/
inductive Choice
  | base
  | left
  | right
  deriving DecidableEq

def ThreeWayMergeConflictHunk.text (hunk : ThreeWayMergeConflictHunk) : Choice → JsString
  | .base => hunk.baseText
  | .left => hunk.leftText
  | .right => hunk.rightText

def segmentText (hunks : List ThreeWayMergeConflictHunk) (choice : ℕ → Choice) :
    ThreeWayMergeSegment → JsString
  | .text text => text
  | .conflict hunkIndex => (hunks[hunkIndex]?.map fun hunk => hunk.text (choice hunkIndex)).getD []

/-- The text that a choice for every hunk makes of a conflict. -/
def resolve (hunks : List ThreeWayMergeConflictHunk) (segments : List ThreeWayMergeSegment)
    (choice : ℕ → Choice) : JsString :=
  segments.flatMap (segmentText hunks choice)

/-- The changes of the chosen side that a range takes in. -/
def chosenChanges (lefts rights : List LineChange) (range : BaseRange) : Choice → List LineChange
  | .base => []
  | .left => lefts.filter range.meets
  | .right => rights.filter range.meets

/-- The changes of a region outside the conflicts, sorted. -/
def regionChanges (lefts rights : List LineChange) (ranges : List BaseRange) (start stop : ℕ) :
    List LineChange :=
  sortChanges ((combineDistinctChanges (excludeConflictChanges lefts ranges)
    (excludeConflictChanges rights ranges)).filter fun change => within change start stop)

/-- The changes that a resolution applies from a cursor on, in order; `all` are the ranges of the
whole text. -/
def appliedFrom (n : ℕ) (lefts rights : List LineChange) (all : List BaseRange)
    (choice : ℕ → Choice) : ℕ → ℕ → List BaseRange → List LineChange
  | cursor, _, [] => regionChanges lefts rights all cursor n
  | cursor, index, range :: ranges =>
    regionChanges lefts rights all cursor range.start ++
      (chosenChanges lefts rights range (choice index) ++
        appliedFrom n lefts rights all choice range.stop (index + 1) ranges)

variable {all : List BaseRange} {choice : ℕ → Choice} {cursor index start stop : ℕ}

/-- The remaining ranges, numbered from `index`, lie behind the cursor. -/
structure Remaining (all : List BaseRange) (cursor index : ℕ) (ranges : List BaseRange) : Prop where
  get : ∀ i r, ranges[i]? = some r → all[index + i]? = some r
  ahead : ∀ r ∈ ranges, cursor ≤ r.start
  pairwise : ranges.Pairwise fun r s => r.stop < s.start

theorem Remaining.tail (hrs : Remaining all cursor index (range :: ranges)) :
    Remaining all range.stop (index + 1) ranges where
  get i r hr := by
    have hix : index + 1 + i = index + (i + 1) := by omega
    rw [hix]
    exact hrs.get (i + 1) r hr
  ahead r hr := Nat.le_of_lt (rel_of_pairwise_cons hrs.pairwise hr)
  pairwise := hrs.pairwise.of_cons

theorem Remaining.mem_all (hrs : Remaining all cursor index ranges) {r : BaseRange}
    (hr : r ∈ ranges) : r ∈ all := by
  obtain ⟨i, hi⟩ := mem_iff_getElem?.mp hr
  exact mem_of_getElem? (hrs.get i r hi)

variable {side : Choice}

theorem mem_chosenChanges : c ∈ chosenChanges lefts rights range side ↔
    (c ∈ lefts ∧ side = .left ∨ c ∈ rights ∧ side = .right) ∧ range.meets c := by
  cases side <;> simp [chosenChanges]

variable (h : Conflicts n lefts rights all)

include h

theorem Conflicts.mem_regionChanges : c ∈ regionChanges lefts rights all start stop ↔
    (c ∈ lefts ++ rights ∧ ∀ r ∈ all, ¬ r.meets c) ∧ start ≤ c.baseStart ∧ c.baseEnd ≤ stop := by
  rw [regionChanges, mem_sortChanges, mem_filter, mem_combineDistinctChanges,
    h.mem_exclude (subset_append_left _ _), h.mem_exclude (subset_append_right _ _),
    within, Bool.and_eq_true, decide_eq_true_eq, decide_eq_true_eq, mem_append,
    ← or_and_right]

/-- Changes outside the conflicts meet only where they are identical. -/
theorem Conflicts.separated_regionChanges :
    Splice.Separated n (regionChanges lefts rights all start stop) := by
  apply separated_sortChanges
  · intro c hc
    have hmem := h.mem_regionChanges.mp (mem_sortChanges.mpr hc)
    exact (h.le hmem.1.1).1
  · intro c hc
    have hmem := h.mem_regionChanges.mp (mem_sortChanges.mpr hc)
    exact (h.le hmem.1.1).2
  · exact nodup_combineDistinctChanges.filter _
  intro c hc d hd htouc
  have hcmem := (h.mem_regionChanges.mp (mem_sortChanges.mpr hc)).1
  have hdmem := (h.mem_regionChanges.mp (mem_sortChanges.mpr hd)).1
  rcases h.eq_or_contains hcmem.1 hdmem.1 htouc with heq | ⟨r, hr, hin, -⟩
  · exact heq
  have hle := (h.le hcmem.1).1
  exact absurd ⟨hin.1.trans hle, hle.trans hin.2⟩ (hcmem.2 r hr)

theorem Conflicts.contains_of_chosen (hr : range ∈ all)
    (hc : c ∈ chosenChanges lefts rights range side) : c ∈ lefts ++ rights ∧ range.contains c := by
  obtain ⟨hs, hm⟩ := mem_chosenChanges.mp hc
  have hboth : c ∈ lefts ++ rights := by
    rcases hs with ⟨hl, -⟩ | ⟨hright, -⟩
    · exact mem_append_left _ hl
    · exact mem_append_right _ hright
  exact ⟨hboth, h.contains_of_meets hboth hr hm⟩

theorem Conflicts.separated_chosenChanges (side : Choice) :
    Splice.Separated n (chosenChanges lefts rights range side) := by
  cases side with
  | base => exact ⟨by simp [chosenChanges], by simp [chosenChanges], List.Pairwise.nil⟩
  | left => exact h.left.filter _
  | right => exact h.right.filter _

/-- From a cursor on, the changes outside the conflicts and the chosen changes are applied. -/
theorem Conflicts.mem_appliedFrom (hrs : Remaining all cursor index ranges) :
    c ∈ appliedFrom n lefts rights all choice cursor index ranges ↔
      ((c ∈ lefts ++ rights ∧ ∀ r ∈ all, ¬ r.meets c) ∧ cursor ≤ c.baseStart) ∨
        ∃ i r, ranges[i]? = some r ∧ c ∈ chosenChanges lefts rights r (choice (index + i)) := by
  induction ranges generalizing cursor index with
  | nil =>
    rw [appliedFrom, h.mem_regionChanges]
    constructor
    · rintro ⟨hout, hcur, -⟩
      exact .inl ⟨hout, hcur⟩
    rintro (⟨hout, hcur⟩ | ⟨i, r, hr, -⟩)
    · exact ⟨hout, hcur, (h.le hout.1).2⟩
    · cases hr
  | cons range rest ih =>
    have hra := hrs.mem_all (r := range) mem_cons_self
    have hle := (h.range_le hra).1
    have hahead := hrs.ahead range mem_cons_self
    rw [appliedFrom, mem_append, mem_append, h.mem_regionChanges, ih hrs.tail]
    constructor
    · rintro (⟨hout, hcur, -⟩ | hchosen | ⟨hout, hcur⟩ | ⟨i, r, hr, hc⟩)
      · exact .inl ⟨hout, hcur⟩
      · exact .inr ⟨0, range, rfl, hchosen⟩
      · exact .inl ⟨hout, by omega⟩
      have hix : index + 1 + i = index + (i + 1) := by omega
      exact .inr ⟨i + 1, r, hr, hix ▸ hc⟩
    rintro (⟨hout, hcur⟩ | ⟨i, r, hr, hc⟩)
    · -- a change that does not meet the range lies before or behind it
      have hm := hout.2 range hra
      by_cases hb : c.baseEnd < range.start
      · exact .inl ⟨hout, hcur, by omega⟩
      refine .inr (.inr (.inl ⟨hout, ?_⟩))
      by_contra ha
      exact hm ⟨by omega, by omega⟩
    cases i with
    | zero =>
      cases hr
      exact .inr (.inl hc)
    | succ i =>
      have hix : index + 1 + i = index + (i + 1) := by omega
      exact .inr (.inr (.inr ⟨i, r, hr, hix ▸ hc⟩))

/-- What is applied behind a range keeps a base line after it. -/
theorem Conflicts.lt_of_mem_appliedFrom (hrs : Remaining all cursor index (range :: ranges))
    (hc : c ∈ appliedFrom n lefts rights all choice range.stop (index + 1) ranges) :
    range.stop < c.baseStart := by
  have hra := hrs.mem_all mem_cons_self
  rcases (h.mem_appliedFrom hrs.tail).mp hc with ⟨hout, hcur⟩ | ⟨i, r, hr, hc⟩
  · by_contra hm
    have hcle := (h.le hout.1).1
    have hle := (h.range_le hra).1
    exact hout.2 range hra ⟨by omega, by omega⟩
  have hmem := mem_of_getElem? hr
  have hlt : range.stop < r.start := rel_of_pairwise_cons hrs.pairwise hmem
  have hin := (h.contains_of_chosen (hrs.tail.mem_all hmem) hc).2.1
  omega

/-- The applied changes come in order and keep a base line between any two of them. -/
theorem Conflicts.separated_appliedFrom (hrs : Remaining all cursor index ranges) :
    Splice.Separated n (appliedFrom n lefts rights all choice cursor index ranges) := by
  induction ranges generalizing cursor index with
  | nil => exact h.separated_regionChanges
  | cons range rest ih =>
    have hr := hrs.mem_all mem_cons_self
    have hle := (h.range_le hr).1
    apply h.separated_regionChanges.append
    · apply (h.separated_chosenChanges (choice index)).append (ih hrs.tail)
      intro c hc d hd
      have hin := (h.contains_of_chosen hr hc).2.2
      have hlt := h.lt_of_mem_appliedFrom hrs hd
      omega
    intro c hc d hd
    obtain ⟨hout, -, hend⟩ := h.mem_regionChanges.mp hc
    have hcle := (h.le hout.1).1
    have hb : c.baseEnd < range.start := by
      by_contra hm
      exact hout.2 range hr ⟨by omega, by omega⟩
    rcases mem_append.mp hd with hd | hd
    · have hin := (h.contains_of_chosen hr hd).2.1
      omega
    have hlt := h.lt_of_mem_appliedFrom hrs hd
    omega

omit h

/-- The variant of a region is the region with the changes that meet it. -/
theorem variantRegionFrom_eq (hsep : Splice.Separated n cs)
    (hcur : ∀ c ∈ cs, range.meets c → cursor ≤ c.baseStart) :
    variantRegionFrom baseLines range.start range.stop cursor cs =
      Splice.applyFrom baseLines range.stop cursor (cs.filter range.meets) := by
  induction cs generalizing cursor with
  | nil => rfl
  | cons c cs ih =>
    rw [variantRegionFrom]
    split
    · next hskip =>
      have hm : ¬ range.meets c := by
        rintro ⟨hst, hstop⟩
        omega
      rw [filter_cons_of_neg (by simpa using hm)]
      apply ih hsep.of_cons
      intro d hd
      exact hcur d (mem_cons_of_mem _ hd)
    · next hin =>
      have hm : range.meets c := ⟨by omega, by omega⟩
      have hst := hcur c mem_cons_self hm
      have hle := hsep.le c mem_cons_self
      rw [filter_cons_of_pos (by simpa using hm), Splice.applyFrom,
        Nat.max_eq_right hst, Nat.max_eq_right (hst.trans hle), ih hsep.of_cons]
      intro d hd _
      exact Nat.le_of_lt (rel_of_pairwise_cons hsep.pairwise hd)

include h

/-- A hunk holds its base range with the changes of the side in question. -/
theorem Conflicts.text_conflictHunk (hr : range ∈ all) (side : Choice) :
    (conflictHunk baseLines lefts rights index range).text side =
      (Splice.applyFrom baseLines range.stop range.start
        (chosenChanges lefts rights range side)).flatten := by
  cases side with
  | base => rfl
  | left =>
    change (variantRegionFrom _ _ _ _ _).flatten = _
    rw [variantRegionFrom_eq h.left]
    · rfl
    intro c hc hm
    exact (h.contains_of_meets (mem_append_left _ hc) hr hm).1
  | right =>
    change (variantRegionFrom _ _ _ _ _).flatten = _
    rw [variantRegionFrom_eq h.right]
    · rfl
    intro c hc hm
    exact (h.contains_of_meets (mem_append_right _ hc) hr hm).1

/-- At a position of a conflict there is no change outside the conflicts. -/
theorem Conflicts.regionChanges_eq_nil (hr : range ∈ all)
    (hin : range.start ≤ start ∧ start ≤ range.stop) :
    regionChanges lefts rights all start start = [] := by
  apply eq_nil_iff_forall_not_mem.mpr
  intro c hc
  obtain ⟨hout, hst, hend⟩ := h.mem_regionChanges.mp hc
  have hcle := (h.le hout.1).1
  exact hout.2 range hr ⟨by omega, by omega⟩

/-- The text between two conflicts is the region with the changes outside them. -/
theorem Conflicts.text_textSegments (hle : start ≤ stop) (hr : range ∈ all)
    (hin : range.start ≤ stop ∧ stop ≤ range.stop ∨ range.start ≤ start ∧ start ≤ range.stop)
    (hunks : List ThreeWayMergeConflictHunk) :
    (textSegments baseLines (excludeConflictChanges lefts all) (excludeConflictChanges rights all)
        start stop).flatMap (segmentText hunks choice) =
      (Splice.applyFrom baseLines stop start (regionChanges lefts rights all start stop)).flatten := by
  unfold textSegments
  split
  · rw [flatMap_singleton]
    rfl
  · next hnot =>
    have heq : start = stop := by omega
    subst heq
    have hin' : range.start ≤ start ∧ start ≤ range.stop := hin.elim id id
    rw [h.regionChanges_eq_nil hr hin', Splice.applyFrom, slice_of_le (Nat.le_refl _)]
    rfl

/-- From a cursor on, a resolution is the base with the changes it applies. -/
theorem Conflicts.text_segmentsFrom (hn : n = baseLines.length)
    (hrs : Remaining all cursor index ranges) (hcur : cursor ≤ n)
    (hl : ranges = [] → ∃ r ∈ all, r.start ≤ cursor ∧ cursor ≤ r.stop) :
    (segmentsFrom baseLines (excludeConflictChanges lefts all) (excludeConflictChanges rights all)
        cursor index ranges).flatMap
        (segmentText (all.mapIdx (conflictHunk baseLines lefts rights)) choice) =
      (Splice.applyFrom baseLines n cursor
        (appliedFrom n lefts rights all choice cursor index ranges)).flatten := by
  induction ranges generalizing cursor index with
  | nil =>
    obtain ⟨r, hr, hin⟩ := hl rfl
    rw [segmentsFrom, ← hn, h.text_textSegments hcur hr (.inr hin)]
    rfl
  | cons range rest ih =>
    have hra := hrs.mem_all mem_cons_self
    have hle := h.range_le hra
    have hahead := hrs.ahead range mem_cons_self
    have hget : (all.mapIdx (conflictHunk baseLines lefts rights))[index]? =
        some (conflictHunk baseLines lefts rights index range) := by
      have hran : all[index]? = some range := hrs.get 0 range rfl
      rw [getElem?_mapIdx, hran, Option.map_some]
    have htail := ih hrs.tail hle.2 (fun _ => ⟨range, hra, hle.1, Nat.le_refl _⟩)
    have ha : ∀ d ∈ appliedFrom n lefts rights all choice range.stop (index + 1) rest,
        range.stop ≤ d.baseStart := by
      intro d hd
      exact Nat.le_of_lt (h.lt_of_mem_appliedFrom hrs hd)
    have hchosen : Splice.applyFrom baseLines n range.start
        (chosenChanges lefts rights range (choice index) ++
          appliedFrom n lefts rights all choice range.stop (index + 1) rest) =
        Splice.applyFrom baseLines range.stop range.start
            (chosenChanges lefts rights range (choice index)) ++
          Splice.applyFrom baseLines n range.stop
            (appliedFrom n lefts rights all choice range.stop (index + 1) rest) := by
      apply Splice.applyFrom_append hle.1 hle.2
      · exact fun c hc => (h.contains_of_chosen hra hc).2.2
      · exact (h.separated_chosenChanges _).sequential.pairwise
      · exact fun c hc => (h.contains_of_chosen hra hc).2.1
      · exact ha
    have hreg : Splice.applyFrom baseLines n cursor
        (appliedFrom n lefts rights all choice cursor index (range :: rest)) =
        Splice.applyFrom baseLines range.start cursor
            (regionChanges lefts rights all cursor range.start) ++
          Splice.applyFrom baseLines n range.start
            (chosenChanges lefts rights range (choice index) ++
              appliedFrom n lefts rights all choice range.stop (index + 1) rest) := by
      apply Splice.applyFrom_append hahead (hle.1.trans hle.2)
      · exact fun c hc => (h.mem_regionChanges.mp hc).2.2
      · exact h.separated_regionChanges.sequential.pairwise
      · exact fun c hc => (h.mem_regionChanges.mp hc).2.1
      intro d hd
      rcases mem_append.mp hd with hd | hd
      · exact (h.contains_of_chosen hra hd).2.1
      · exact hle.1.trans (ha d hd)
    rw [segmentsFrom, flatMap_append, flatMap_cons, htail,
      h.text_textSegments hahead hra (.inl ⟨Nat.le_refl _, hle.1⟩), segmentText, hget, hreg,
      hchosen, Option.map_some, Option.getD_some, h.text_conflictHunk hra, flatten_append,
      flatten_append]

end Resolution

section Partition

variable {hunks : List ThreeWayMergeConflictHunk} {choice : ℕ → Choice} {side : Choice}

def ThreeWayMergeConflictHunk.takesIn (hunk : ThreeWayMergeConflictHunk) (c : LineChange) : Prop :=
  hunk.baseStart ≤ c.baseStart ∧ c.baseEnd ≤ hunk.baseEnd

instance {hunk : ThreeWayMergeConflictHunk} : Decidable (hunk.takesIn c) :=
  inferInstanceAs (Decidable (hunk.baseStart ≤ c.baseStart ∧ c.baseEnd ≤ hunk.baseEnd))

/-- The change lies outside every hunk. -/
def Outside (hunks : List ThreeWayMergeConflictHunk) (c : LineChange) : Prop :=
  ∀ hunk ∈ hunks, ¬ hunk.takesIn c

instance : DecidablePred (Outside hunks) := fun c =>
  inferInstanceAs (Decidable (∀ hunk ∈ hunks, ¬ hunk.takesIn c))

/-- A change of a side stands where no hunk takes it in or its side is chosen for the hunk. -/
def Stands (hunks : List ThreeWayMergeConflictHunk) (choice : ℕ → Choice) (side : Choice)
    (c : LineChange) : Prop :=
  Outside hunks c ∨ ∃ hunk ∈ hunks, hunk.takesIn c ∧ choice hunk.index = side

instance : DecidablePred (Stands hunks choice side) := fun c =>
  inferInstanceAs (Decidable (Outside hunks c ∨
    ∃ hunk ∈ hunks, hunk.takesIn c ∧ choice hunk.index = side))

/-- The hunks and segments divide the base among them. The changes outside the hunks are applied
once in the text segments, the changes of each side once in the hunks that its text is chosen for. -/
structure FaithfulPartition (baseLines : List JsString) (lefts rights : List LineChange)
    (hunks : List ThreeWayMergeConflictHunk) (segments : List ThreeWayMergeSegment) : Prop where
  increasing : hunks.Pairwise fun a b => a.baseEnd < b.baseStart
  ordered : ∀ hunk ∈ hunks, hunk.baseStart ≤ hunk.baseEnd ∧ hunk.baseEnd ≤ baseLines.length
  apart : ∀ c ∈ lefts ++ rights, Outside hunks c →
    ∀ hunk ∈ hunks, c.baseEnd < hunk.baseStart ∨ hunk.baseEnd < c.baseStart
  chosen : ∀ choice, resolve hunks segments choice = (Splice.patched baseLines
    (lefts.filter (Stands hunks choice .left) ++ rights.filter (Stands hunks choice .right)).dedup
      ).flatten
  base : resolve hunks segments (fun _ => .base) = (Splice.patched baseLines
    (lefts.filter (Outside hunks) ++ rights.filter (Outside hunks)).dedup).flatten
  left : resolve hunks segments (fun _ => .left) = (Splice.patched baseLines
    (lefts ++ rights.filter (Outside hunks)).dedup).flatten
  right : resolve hunks segments (fun _ => .right) = (Splice.patched baseLines
    (lefts.filter (Outside hunks) ++ rights).dedup).flatten

theorem stands_other (ho : ∀ i, choice i ≠ side) :
    Stands hunks choice side c ↔ Outside hunks c := by
  constructor
  · rintro (hout | ⟨hunk, -, -, hchosen⟩)
    · exact hout
    · exact absurd hchosen (ho _)
  · exact .inl

theorem stands_self (hs : ∀ i, choice i = side) : Stands hunks choice side c := by
  by_cases hout : Outside hunks c
  · exact .inl hout
  unfold Outside at hout
  push Not at hout
  obtain ⟨hunk, hmem, hin⟩ := hout
  exact .inr ⟨hunk, hmem, hin, hs _⟩

theorem filter_stands_other (cs : List LineChange) (ho : ∀ i, choice i ≠ side) :
    cs.filter (Stands hunks choice side) = cs.filter (Outside hunks) := by
  apply filter_congr
  intro c _
  rw [decide_eq_decide]
  exact stands_other ho

theorem filter_stands_self (cs : List LineChange) (hs : ∀ i, choice i = side) :
    cs.filter (Stands hunks choice side) = cs := by
  apply filter_eq_self.mpr
  intro c _
  exact decide_eq_true (stands_self hs)

variable (h : Conflicts baseLines.length lefts rights ranges)

include h

theorem Conflicts.outside_iff (hc : c ∈ lefts ++ rights) :
    Outside (ranges.mapIdx (conflictHunk baseLines lefts rights)) c ↔
      ∀ r ∈ ranges, ¬ r.meets c := by
  have hcle := (h.le hc).1
  constructor
  · intro hout r hr hm
    obtain ⟨i, hi⟩ := mem_iff_getElem?.mp hr
    apply hout (conflictHunk baseLines lefts rights i r)
    · apply mem_iff_getElem?.mpr
      refine ⟨i, ?_⟩
      rw [getElem?_mapIdx, hi, Option.map_some]
    · exact h.contains_of_meets hc hr hm
  · intro hout hunk hhunk hin
    obtain ⟨i, hi, rfl⟩ := mem_mapIdx.mp hhunk
    exact hout _ (getElem_mem hi) ⟨hin.1.trans hcle, hcle.trans hin.2⟩

/-- A change stands exactly where the resolution applies it. -/
theorem Conflicts.stands_iff (hc : c ∈ lefts ++ rights) :
    Stands (ranges.mapIdx (conflictHunk baseLines lefts rights)) choice side c ↔
      (∀ r ∈ ranges, ¬ r.meets c) ∨ ∃ i r, ranges[i]? = some r ∧ r.meets c ∧ choice i = side := by
  have hcle := (h.le hc).1
  rw [Stands, h.outside_iff hc]
  apply or_congr_right
  constructor
  · rintro ⟨hunk, hhunk, hin, hchosen⟩
    obtain ⟨i, hi, rfl⟩ := mem_mapIdx.mp hhunk
    exact ⟨i, ranges[i], getElem?_eq_getElem hi, ⟨hin.1.trans hcle, hcle.trans hin.2⟩, hchosen⟩
  rintro ⟨i, r, hr, hm, hchosen⟩
  refine ⟨conflictHunk baseLines lefts rights i r, ?_, ?_, hchosen⟩
  · apply mem_iff_getElem?.mpr
    refine ⟨i, ?_⟩
    rw [getElem?_mapIdx, hr, Option.map_some]
  · exact h.contains_of_meets hc (mem_of_getElem? hr) hm

theorem Conflicts.mem_applied_iff :
    c ∈ appliedFrom baseLines.length lefts rights ranges choice 0 0 ranges ↔
      c ∈ (lefts.filter (Stands (ranges.mapIdx (conflictHunk baseLines lefts rights)) choice
          .left) ++
        rights.filter (Stands (ranges.mapIdx (conflictHunk baseLines lefts rights)) choice
          .right)).dedup := by
  have hrs : Remaining ranges 0 0 ranges := ⟨fun i r hr => by rwa [Nat.zero_add],
    fun r _ => Nat.zero_le r.start, h.pairwise⟩
  rw [mem_dedup, mem_append, mem_filter, mem_filter, decide_eq_true_eq,
    decide_eq_true_eq, h.mem_appliedFrom hrs]
  constructor
  · rintro (⟨⟨hc, hout⟩, -⟩ | ⟨i, r, hr, hc⟩)
    · rcases mem_append.mp hc with hl | hright
      · exact .inl ⟨hl, (h.stands_iff hc).mpr (.inl hout)⟩
      · exact .inr ⟨hright, (h.stands_iff hc).mpr (.inl hout)⟩
    rw [Nat.zero_add] at hc
    obtain ⟨hs, hm⟩ := mem_chosenChanges.mp hc
    rcases hs with ⟨hl, hchoice⟩ | ⟨hright, hchoice⟩
    · have hboth := mem_append_left rights hl
      exact .inl ⟨hl, (h.stands_iff hboth).mpr (.inr ⟨i, r, hr, hm, hchoice⟩)⟩
    have hboth := mem_append_right lefts hright
    exact .inr ⟨hright, (h.stands_iff hboth).mpr (.inr ⟨i, r, hr, hm, hchoice⟩)⟩
  rintro (⟨hl, hstands⟩ | ⟨hright, hstands⟩)
  · have hboth := mem_append_left rights hl
    rcases (h.stands_iff hboth).mp hstands with hout | ⟨i, r, hr, hm, hchoice⟩
    · exact .inl ⟨⟨hboth, hout⟩, Nat.zero_le _⟩
    refine .inr ⟨i, r, hr, mem_chosenChanges.mpr ⟨.inl ⟨hl, ?_⟩, hm⟩⟩
    rw [Nat.zero_add, hchoice]
  have hboth := mem_append_right lefts hright
  rcases (h.stands_iff hboth).mp hstands with hout | ⟨i, r, hr, hm, hchoice⟩
  · exact .inl ⟨⟨hboth, hout⟩, Nat.zero_le _⟩
  refine .inr ⟨i, r, hr, mem_chosenChanges.mpr ⟨.inr ⟨hright, ?_⟩, hm⟩⟩
  rw [Nat.zero_add, hchoice]

/-- Whatever is chosen for each hunk, the text is the base with the changes that stand. -/
theorem Conflicts.resolve_eq (hne : ranges ≠ []) (choice : ℕ → Choice) :
    resolve (ranges.mapIdx (conflictHunk baseLines lefts rights))
        (segmentsFrom baseLines (excludeConflictChanges lefts ranges)
          (excludeConflictChanges rights ranges) 0 0 ranges) choice =
      (Splice.patched baseLines
        (lefts.filter (Stands (ranges.mapIdx (conflictHunk baseLines lefts rights)) choice .left) ++
          rights.filter (Stands (ranges.mapIdx (conflictHunk baseLines lefts rights)) choice
            .right)).dedup).flatten := by
  have hrs : Remaining ranges 0 0 ranges := ⟨fun i r hr => by rwa [Nat.zero_add],
    fun r _ => Nat.zero_le r.start, h.pairwise⟩
  have hsep : Splice.Separated baseLines.length
      (appliedFrom baseLines.length lefts rights ranges choice 0 0 ranges) :=
    h.separated_appliedFrom hrs
  rw [resolve, h.text_segmentsFrom rfl hrs (Nat.zero_le _) (fun hnil => absurd hnil hne),
    Splice.applyFrom_eq_patched hsep.sequential]
  congr 1
  apply Splice.patched_perm
  · apply (perm_ext_iff_of_nodup hsep.nodup (nodup_dedup _)).mpr
    intro c
    exact h.mem_applied_iff
  · exact hsep.start_ne

theorem Conflicts.faithful (hne : ranges ≠ []) : FaithfulPartition baseLines lefts rights
    (ranges.mapIdx (conflictHunk baseLines lefts rights))
    (segmentsFrom baseLines (excludeConflictChanges lefts ranges)
      (excludeConflictChanges rights ranges) 0 0 ranges) where
  increasing := by
    apply pairwise_iff_getElem.mpr
    intro i j hi hj hij
    rw [length_mapIdx] at hi hj
    rw [getElem_mapIdx, getElem_mapIdx]
    exact pairwise_iff_getElem.mp h.pairwise i j hi hj hij
  ordered hunk hhunk := by
    obtain ⟨i, hi, rfl⟩ := mem_mapIdx.mp hhunk
    exact h.range_le (getElem_mem hi)
  apart c hc hout hunk hhunk := by
    obtain ⟨i, hi, rfl⟩ := mem_mapIdx.mp hhunk
    have hm := (h.outside_iff hc).mp hout ranges[i] (getElem_mem hi)
    change c.baseEnd < ranges[i].start ∨ ranges[i].stop < c.baseStart
    by_contra hnot
    exact hm ⟨by omega, by omega⟩
  chosen := h.resolve_eq hne
  base := by
    rw [h.resolve_eq hne, filter_stands_other lefts (fun _ => Choice.noConfusion),
      filter_stands_other rights (fun _ => Choice.noConfusion)]
  left := by
    rw [h.resolve_eq hne, filter_stands_self lefts (fun _ => rfl),
      filter_stands_other rights (fun _ => Choice.noConfusion)]
  right := by
    rw [h.resolve_eq hne, filter_stands_other lefts (fun _ => Choice.noConfusion),
      filter_stands_self rights (fun _ => rfl)]

end Partition

/-- Every conflict that is reported divides the base faithfully; all changes of one side give that
side's text. -/
theorem conflict_faithful (fastDiff : Differ UInt16)
    {baseText leftText rightText partialMergedText : JsString}
    {hunks : List ThreeWayMergeConflictHunk} {segments : List ThreeWayMergeSegment}
    (hmerge : mergeTexts3 fastDiff (some baseText) leftText rightText =
      .conflict partialMergedText hunks segments) :
    let baseLines := splitLineTokens baseText
    let leftChanges := buildLineChanges fastDiff baseLines (splitLineTokens leftText)
    let rightChanges := buildLineChanges fastDiff baseLines (splitLineTokens rightText)
    FaithfulPartition baseLines leftChanges rightChanges hunks segments ∧
      baseLines.flatten = baseText ∧
      (Splice.patched baseLines leftChanges).flatten = leftText ∧
      (Splice.patched baseLines rightChanges).flatten = rightText := by
  intro baseLines leftChanges rightChanges
  obtain ⟨hlef, hleftPatched⟩ := buildLineChanges_spec fastDiff baseLines (splitLineTokens leftText)
  obtain ⟨hrig, hrightPatched⟩ :=
    buildLineChanges_spec fastDiff baseLines (splitLineTokens rightText)
  rw [mergeTexts3] at hmerge
  split at hmerge
  · cases hmerge
  split at hmerge
  · cases hmerge
  split at hmerge
  · cases hmerge
  dsimp only at hmerge
  split at hmerge
  · cases hmerge
  · next hne =>
    cases hmerge
    refine ⟨?_, flatten_splitLineTokens baseText, ?_, ?_⟩
    · exact (conflicts_conflictRangesOf hlef hrig).faithful hne
    · rw [hleftPatched, flatten_splitLineTokens]
    · rw [hrightPatched, flatten_splitLineTokens]

/-- Both sides change the first of two lines. -/
theorem conflict_faithful_first_line : FaithfulPartition [js "a\n", js "b\n"]
    [⟨0, 1, [js "x\n"]⟩] [⟨0, 1, [js "y\n"]⟩]
    [⟨0, 0, 1, js "a\n", js "x\n", js "y\n"⟩] [.conflict 0, .text (js "b\n")] := by
  have hm : mergeTexts3 affixDiffer (some (js "a\nb\n")) (js "x\nb\n") (js "y\nb\n") =
      .conflict (js "<<<<<<< LEFT\nx\n=======\ny\n>>>>>>> RIGHT\nb\n")
        [⟨0, 0, 1, js "a\n", js "x\n", js "y\n"⟩] [.conflict 0, .text (js "b\n")] := by
    decide
  have hlines : splitLineTokens (js "a\nb\n") = [js "a\n", js "b\n"] := by
    decide
  have hl : buildLineChanges affixDiffer [js "a\n", js "b\n"] (splitLineTokens (js "x\nb\n")) =
      [⟨0, 1, [js "x\n"]⟩] := by
    decide
  have hr : buildLineChanges affixDiffer [js "a\n", js "b\n"] (splitLineTokens (js "y\nb\n")) =
      [⟨0, 1, [js "y\n"]⟩] := by
    decide
  have hfait := (conflict_faithful affixDiffer hm).1
  rwa [hlines, hl, hr] at hfait

end Kaos.Utils
