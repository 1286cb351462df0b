import Kaos.Sync.Diff

/-! Merging concurrent edits keeps every current hunk and every target hunk that leaves them alone. -/
namespace Kaos.Sync

open Kaos.Lib List Splice

variable {a b o t : BaseReplacement} {ours theirs : List BaseReplacement} {n : ℕ}

/-- The target hunks that neither equal nor overlap a current hunk. -/
def keptTheirs (ours theirs : List BaseReplacement) : List BaseReplacement :=
  theirs.filter fun t => ∀ o ∈ ours, o ≠ t ∧ overlaps t o = false

theorem mem_keptTheirs : t ∈ keptTheirs ours theirs ↔
    t ∈ theirs ∧ ∀ o ∈ ours, o ≠ t ∧ overlaps t o = false := by
  rw [keptTheirs, mem_filter, decide_eq_true_eq]

theorem applied_perm (ours theirs : List BaseReplacement) :
    (appliedHunks ours theirs).Perm (ours ++ keptTheirs ours theirs) := by
  have hfil : (theirs.filter fun t => !(suppression t ours).1) = keptTheirs ours theirs := by
    apply filter_congr
    intro t _
    rw [Bool.eq_iff_iff, Bool.not_eq_true', decide_eq_true_eq, ← Bool.not_eq_true, suppression_fst]
    constructor
    · intro hn o ho
      constructor
      · intro heq
        exact hn ⟨o, ho, .inl heq⟩
      rw [← Bool.not_eq_true]
      intro hov
      exact hn ⟨o, ho, .inr hov⟩
    rintro hall ⟨o, ho, heq | hov⟩
    · exact (hall o ho).1 heq
    rw [(hall o ho).2] at hov
    cases hov
  rw [← hfil]
  exact appliedHunks_perm ours theirs

theorem pairwise_not_overlaps (h : Splice.Separated n ours) :
    ours.Pairwise fun a b => overlaps a b = false := by
  apply h.pairwise.imp
  intro a b hlt
  have hnot : ¬ b.baseStart < a.baseEnd := by omega
  simp [overlaps, hnot]

/-- Sorted hunks of which none overlap follow each other. -/
theorem sequential_appliedHunks (hours : Splice.Separated n ours)
    (htheirs : Splice.Separated n theirs) : Splice.Sequential n (appliedHunks ours theirs) := by
  have hmem : ∀ c ∈ appliedHunks ours theirs, c ∈ ours ∨ c ∈ theirs := by
    intro c hc
    rcases mem_append.mp ((applied_perm ours theirs).mem_iff.mp hc) with hc | hc
    · exact .inl hc
    · exact .inr (mem_keptTheirs.mp hc).1
  have hle : ∀ c ∈ appliedHunks ours theirs, c.baseStart ≤ c.baseEnd := by
    intro c hc
    exact (hmem c hc).elim (hours.le c) (htheirs.le c)
  have happ : (appliedHunks ours theirs).Pairwise fun a b => overlaps a b = false := by
    have hsymm : ∀ {a b : BaseReplacement}, overlaps a b = false → overlaps b a = false := by
      intro a b hab
      rw [overlaps_comm, hab]
    rw [(applied_perm ours theirs).pairwise_iff hsymm, pairwise_append]
    refine ⟨pairwise_not_overlaps hours, (pairwise_not_overlaps htheirs).filter _, ?_⟩
    intro o ho t ht
    exact hsymm ((mem_keptTheirs.mp ht).2 o ho).2
  refine ⟨hle, ?_, ?_⟩
  · intro c hc
    exact (hmem c hc).elim (hours.le_length c) (htheirs.le_length c)
  apply ((pairwise_appliedHunks ours theirs).and happ).imp_of_mem
  rintro a b ha hb ⟨hs, hnot⟩
  have hble := hle b hb
  unfold hunkLe at hs
  by_contra hend
  -- then `b` starts inside `a`, and ends behind the start of `a`
  have hov : overlaps a b = true := by
    rw [overlaps, Bool.and_eq_true, decide_eq_true_eq, decide_eq_true_eq]
    omega
  rw [hnot] at hov
  cases hov

/-- The loop meets every hunk with its cursor at or before the hunk's start. -/
def NeverSkips : ℕ → List BaseReplacement → Prop
  | _, [] => True
  | cursor, hunk :: applied =>
    cursor ≤ hunk.baseStart ∧ NeverSkips (max cursor hunk.baseEnd) applied

theorem neverSkips_of_sequential {cursor : ℕ} {hunks : List BaseReplacement}
    (h : Splice.Sequential n hunks) (hcur : ∀ c ∈ hunks, cursor ≤ c.baseStart) :
    NeverSkips cursor hunks := by
  induction hunks generalizing cursor with
  | nil => trivial
  | cons hunk hunks ih =>
    refine ⟨hcur hunk mem_cons_self, ih h.of_cons ?_⟩
    intro c hc
    have hcur' := hcur c (mem_cons_of_mem _ hc)
    have hend : hunk.baseEnd ≤ c.baseStart := rel_of_pairwise_cons h.pairwise hc
    omega

theorem suppression_snd (h : Splice.Separated n ours) : (suppression t ours).2 = true ↔
    ∃ o ∈ ours, o ≠ t ∧ overlaps t o = true := by
  induction ours with
  | nil => simp [suppression]
  | cons o ours ih =>
    have hf := (pairwise_cons.mp (pairwise_not_overlaps h)).1
    rw [suppression]
    split
    · next hiden =>
      -- the hunks after the identical one do not overlap it
      have heq := identical_iff.mp hiden
      subst heq
      constructor
      · rintro ⟨⟩
      rintro ⟨o', ho', hne, hov⟩
      rcases mem_cons.mp ho' with rfl | ho'
      · exact absurd rfl hne
      rw [hf o' ho'] at hov
      cases hov
    · next hiden =>
      have hne : o ≠ t := fun heq => hiden (identical_iff.mpr heq)
      split
      · next hov => simp [hne, hov]
      · next hov =>
        rw [ih h.of_cons, exists_mem_cons_iff]
        simp [hov]

variable (fastDiff : Differ UInt16)

variable (base current target : JsString)

theorem separated_diff (variant : JsString) :
    Splice.Separated base.length (diffBaseReplacements fastDiff base variant) :=
  (fastDiff.rewrites base variant).separated

theorem patched_diff (variant : JsString) :
    Splice.patched base (diffBaseReplacements fastDiff base variant) = variant :=
  (fastDiff.rewrites base variant).patched

variable {variant : JsString}

theorem content_subset_variant {c : BaseReplacement}
    (h : c ∈ diffBaseReplacements fastDiff base variant) : c.content ⊆ variant := by
  have hpat := patched_diff fastDiff base variant
  rw [← applyFrom_eq_patched (separated_diff fastDiff base variant).sequential] at hpat
  intro x hx
  rw [← hpat]
  exact content_subset_applyFrom h hx

variable {x : UInt16}

theorem mem_variant (h : x ∈ variant) :
    x ∈ base ∨ ∃ c ∈ diffBaseReplacements fastDiff base variant, x ∈ c.content := by
  have hpat := patched_diff fastDiff base variant
  rw [← applyFrom_eq_patched (separated_diff fastDiff base variant).sequential] at hpat
  rw [← hpat] at h
  exact mem_applyFrom h

theorem mergedText_eq : (mergeConcurrentEdits fastDiff base current target).mergedText =
    Splice.patched base (appliedHunks (diffBaseReplacements fastDiff base current)
      (diffBaseReplacements fastDiff base target)) := by
  have hseq := sequential_appliedHunks (separated_diff fastDiff base current)
    (separated_diff fastDiff base target)
  rw [← applyFrom_eq_patched hseq]
  exact applyHunksFrom_eq hseq fun c _ => Nat.zero_le c.baseStart

theorem hadConflictingOverlap_iff :
    (mergeConcurrentEdits fastDiff base current target).hadConflictingOverlap = true ↔
      ∃ t ∈ diffBaseReplacements fastDiff base target,
        ∃ o ∈ diffBaseReplacements fastDiff base current, o ≠ t ∧ overlaps t o = true := by
  rw [mergeConcurrentEdits, any_eq_true]
  apply exists_congr
  intro t
  rw [suppression_snd (separated_diff fastDiff base current)]

theorem overlaps_eq_false (ht : t ∈ diffBaseReplacements fastDiff base target)
    (ho : o ∈ diffBaseReplacements fastDiff base current) (hne : o ≠ t)
    (hn : (mergeConcurrentEdits fastDiff base current target).hadConflictingOverlap = false) :
    overlaps t o = false := by
  rw [← Bool.not_eq_true]
  intro hov
  have htrue := (hadConflictingOverlap_iff fastDiff base current target).mpr
    ⟨t, ht, o, ho, hne, hov⟩
  rw [hn] at htrue
  cases htrue

/-- The merge brings in nothing that none of the texts has. -/
theorem mem_mergedText (h : x ∈ (mergeConcurrentEdits fastDiff base current target).mergedText) :
    x ∈ base ∨ x ∈ current ∨ x ∈ target := by
  have hseq := sequential_appliedHunks (separated_diff fastDiff base current)
    (separated_diff fastDiff base target)
  rw [mergedText_eq, ← applyFrom_eq_patched hseq] at h
  rcases mem_applyFrom h with hb | ⟨c, hc, hx⟩
  · exact .inl hb
  rcases mem_append.mp ((applied_perm _ _).mem_iff.mp hc) with hours | htheirs
  · exact .inr (.inl (content_subset_variant fastDiff base hours hx))
  · exact .inr (.inr (content_subset_variant fastDiff base (mem_keptTheirs.mp htheirs).1 hx))

/-- Without a conflict whatever the target brings in is in the merge. -/
theorem mem_target
    (hn : (mergeConcurrentEdits fastDiff base current target).hadConflictingOverlap = false)
    (h : x ∈ target) : x ∈ base ∨ x ∈ current ∨
      x ∈ (mergeConcurrentEdits fastDiff base current target).mergedText := by
  have hseq := sequential_appliedHunks (separated_diff fastDiff base current)
    (separated_diff fastDiff base target)
  rcases mem_variant fastDiff base h with hb | ⟨t, ht, hx⟩
  · exact .inl hb
  by_cases hours : t ∈ diffBaseReplacements fastDiff base current
  · exact .inr (.inl (content_subset_variant fastDiff base hours hx))
  have hk : t ∈ keptTheirs (diffBaseReplacements fastDiff base current)
      (diffBaseReplacements fastDiff base target) := by
    apply mem_keptTheirs.mpr
    refine ⟨ht, fun o ho => ?_⟩
    have hne : o ≠ t := fun heq => hours (heq ▸ ho)
    exact ⟨hne, overlaps_eq_false fastDiff base current target ht ho hne hn⟩
  right; right
  rw [mergedText_eq, ← applyFrom_eq_patched hseq]
  apply content_subset_applyFrom _ hx
  exact (applied_perm _ _).mem_iff.mpr (mem_append_right _ hk)

/-- Where every target hunk is suppressed, the current text is the result. -/
theorem mergedText_current (h : keptTheirs (diffBaseReplacements fastDiff base current)
      (diffBaseReplacements fastDiff base target) = []) :
    (mergeConcurrentEdits fastDiff base current target).mergedText = current := by
  have hperm := applied_perm (diffBaseReplacements fastDiff base current)
    (diffBaseReplacements fastDiff base target)
  rw [h, append_nil] at hperm
  rw [mergedText_eq, ← patched_perm hperm.symm (separated_diff fastDiff base current).start_ne,
    patched_diff]

/-- A text that is not edited leaves the other side's edits. -/
theorem mergedText_target (h : diffBaseReplacements fastDiff base current = []) :
    (mergeConcurrentEdits fastDiff base current target).mergedText = target := by
  have hperm := applied_perm [] (diffBaseReplacements fastDiff base target)
  have hk : keptTheirs [] (diffBaseReplacements fastDiff base target) =
      diffBaseReplacements fastDiff base target := by
    simp [keptTheirs]
  rw [hk, nil_append] at hperm
  rw [mergedText_eq, h, ← patched_perm hperm.symm (separated_diff fastDiff base target).start_ne,
    patched_diff]

/-- Equal edits are made once, without a conflict. -/
theorem merge_same_edits : mergeConcurrentEdits fastDiff base current current = ⟨current, false⟩ := by
  have hk : keptTheirs (diffBaseReplacements fastDiff base current)
      (diffBaseReplacements fastDiff base current) = [] := by
    apply filter_eq_nil_iff.mpr
    intro t ht hall
    exact (of_decide_eq_true hall t ht).1 rfl
  have hcon :
      (mergeConcurrentEdits fastDiff base current current).hadConflictingOverlap = false := by
    rw [← Bool.not_eq_true, hadConflictingOverlap_iff]
    rintro ⟨t, ht, o, ho, hne, hov⟩
    rw [overlaps, Bool.and_eq_true, decide_eq_true_eq, decide_eq_true_eq] at hov
    apply hne
    apply (separated_diff fastDiff base current).eq_of_touches ho ht
    exact ⟨Nat.le_of_lt hov.2, Nat.le_of_lt hov.1⟩
  have htx := mergedText_current fastDiff base current current hk
  generalize mergeConcurrentEdits fastDiff base current current = merge at htx hcon ⊢
  obtain ⟨mergedText, hadConflictingOverlap⟩ := merge
  dsimp only at htx hcon
  rw [htx, hcon]

omit fastDiff base current target

/-- Sorted in the same way, the same hunks are the same list. -/
theorem appliedHunks_congr {ours' theirs' : List BaseReplacement}
    (h : (ours ++ keptTheirs ours theirs).Perm (ours' ++ keptTheirs ours' theirs')) :
    appliedHunks ours theirs = appliedHunks ours' theirs' := by
  have hperm : (appliedHunks ours theirs).Perm (appliedHunks ours' theirs') :=
    ((applied_perm ours theirs).trans h).trans (applied_perm ours' theirs').symm
  exact hperm.eq_of_pairwise (fun _ _ _ _ => hunkLe_antisymm)
    (pairwise_appliedHunks ours theirs) (pairwise_appliedHunks ours' theirs')

/-- Without an overlap both orders apply the hunks of both sides, identical ones once. -/
theorem appliedHunks_comm (hours : Splice.Separated n ours) (htheirs : Splice.Separated n theirs)
    (hn : ∀ t ∈ theirs, ∀ o ∈ ours, o ≠ t → overlaps t o = false) :
    appliedHunks theirs ours = appliedHunks ours theirs := by
  have hnd : ∀ {xs ys : List BaseReplacement}, xs.Nodup → ys.Nodup →
      (xs ++ keptTheirs xs ys).Nodup := by
    intro xs ys hxs hys
    apply nodup_append.mpr
    refine ⟨hxs, hys.filter _, ?_⟩
    intro x hx y hy
    exact ((mem_keptTheirs.mp hy).2 x hx).1
  apply appliedHunks_congr
  apply (perm_ext_iff_of_nodup (hnd htheirs.nodup hours.nodup) (hnd hours.nodup htheirs.nodup)).mpr
  intro c
  rw [mem_append, mem_append, mem_keptTheirs, mem_keptTheirs]
  constructor
  · rintro (hc | ⟨hc, -⟩)
    · by_cases hmem : c ∈ ours
      · exact .inl hmem
      refine .inr ⟨hc, fun o ho => ?_⟩
      have hne : o ≠ c := fun heq => hmem (heq ▸ ho)
      exact ⟨hne, hn c hc o ho hne⟩
    · exact .inl hc
  rintro (hc | ⟨hc, -⟩)
  · by_cases hmem : c ∈ theirs
    · exact .inl hmem
    refine .inr ⟨hc, fun t ht => ?_⟩
    have hne : t ≠ c := fun heq => hmem (heq ▸ ht)
    refine ⟨hne, ?_⟩
    rw [overlaps_comm]
    exact hn t ht c hc hne.symm
  · exact .inl hc

/-- Swapping the sides changes nothing where no overlap is reported. -/
theorem merge_comm (fastDiff : Differ UInt16) (base current target : JsString)
    (h : (mergeConcurrentEdits fastDiff base current target).hadConflictingOverlap = false) :
    mergeConcurrentEdits fastDiff base target current =
      mergeConcurrentEdits fastDiff base current target := by
  have hn : ∀ t ∈ diffBaseReplacements fastDiff base target,
      ∀ o ∈ diffBaseReplacements fastDiff base current, o ≠ t → overlaps t o = false := by
    intro t ht o ho hne
    exact overlaps_eq_false fastDiff base current target ht ho hne h
  have htx : (mergeConcurrentEdits fastDiff base target current).mergedText =
      (mergeConcurrentEdits fastDiff base current target).mergedText := by
    rw [mergedText_eq, mergedText_eq, appliedHunks_comm (separated_diff fastDiff base current)
      (separated_diff fastDiff base target) hn]
  have hcon : (mergeConcurrentEdits fastDiff base target current).hadConflictingOverlap =
      (mergeConcurrentEdits fastDiff base current target).hadConflictingOverlap := by
    rw [h, ← Bool.not_eq_true, hadConflictingOverlap_iff]
    rintro ⟨o, ho, t, ht, hne, hov⟩
    rw [overlaps_comm, hn t ht o ho hne.symm] at hov
    cases hov
  generalize mergeConcurrentEdits fastDiff base target current = swapped at htx hcon ⊢
  obtain ⟨swappedText, swappedConflict⟩ := swapped
  dsimp only at htx hcon
  rw [htx, hcon]

/-- Every current hunk is applied once, and of the target hunks exactly those that neither equal
nor overlap a current one. Only for the unedited sides it matters that `fast-diff` finds no change
between a text and itself. -/
theorem merge_concurrent_edits (fastDiff : Differ UInt16) (base current target : JsString) :
    let ours := diffBaseReplacements fastDiff base current
    let theirs := diffBaseReplacements fastDiff base target
    let merge := mergeConcurrentEdits fastDiff base current target
    (appliedHunks ours theirs).Perm (ours ++ keptTheirs ours theirs) ∧
      NeverSkips 0 (appliedHunks ours theirs) ∧
      merge.mergedText = Splice.patched base (appliedHunks ours theirs) ∧
      (merge.hadConflictingOverlap = true ↔ ∃ t ∈ theirs, ∃ o ∈ ours, o ≠ t ∧ overlaps t o = true) ∧
      ((∀ segment ∈ fastDiff.diff base base, segment.1 = .equal) →
        (mergeConcurrentEdits fastDiff base base target).mergedText = target ∧
          (mergeConcurrentEdits fastDiff base current base).mergedText = current) ∧
      mergeConcurrentEdits fastDiff base current current = ⟨current, false⟩ ∧
      (merge.hadConflictingOverlap = false →
        mergeConcurrentEdits fastDiff base target current = merge) := by
  intro ours theirs merge
  have hs : (∀ segment ∈ fastDiff.diff base base, segment.1 = .equal) →
      diffBaseReplacements fastDiff base base = [] := EditScript.splices_of_equal
  refine ⟨applied_perm ours theirs, ?_, ?_, ?_, ?_, ?_, ?_⟩
  · have hseq := sequential_appliedHunks (separated_diff fastDiff base current)
      (separated_diff fastDiff base target)
    exact neverSkips_of_sequential hseq fun c _ => Nat.zero_le c.baseStart
  · exact mergedText_eq fastDiff base current target
  · exact hadConflictingOverlap_iff fastDiff base current target
  · intro hequal
    refine ⟨mergedText_target fastDiff base base target (hs hequal), ?_⟩
    apply mergedText_current
    rw [hs hequal]
    rfl
  · exact merge_same_edits fastDiff base current
  · exact merge_comm fastDiff base current target

/-- A deletion on one side, an insertion at its edge on the other. -/
theorem merge_concurrent_edits_at_edge :
    (mergeConcurrentEdits affixDiffer (js "ab") (js "b") (js "axb")).mergedText = js "xb" ∧
      (mergeConcurrentEdits affixDiffer (js "ab") (js "b") (js "ab")).mergedText = js "b" := by
  have hm := merge_concurrent_edits affixDiffer (js "ab") (js "b") (js "axb")
  have huned := hm.2.2.2.2.1 (by decide)
  refine ⟨?_, huned.2⟩
  decide

end Kaos.Sync
