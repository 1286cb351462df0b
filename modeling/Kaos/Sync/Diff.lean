import Mathlib.Data.List.Sort
import Kaos.Lib.Delta
import Kaos.Lib.JsString

/-! Character diffs and the merge of two concurrent edits of one text. -/
namespace Kaos.Sync

open Kaos.Lib List Delta

/-- The `text` of a replacement is its content. -/
abbrev BaseReplacement := Splice UInt16

structure ConcurrentEditsMergeResult where
  mergedText : JsString
  hadConflictingOverlap : Bool
  deriving DecidableEq

-- `fast-diff`, of which any script that rewrites one string into the other is expected
variable (fastDiff : Differ UInt16)

def diffBaseReplacements (baseText variantText : JsString) : List BaseReplacement :=
  (fastDiff.diff baseText variantText).splices

/-- The three fields agree. -/
def identical (o t : BaseReplacement) : Bool :=
  o.baseStart = t.baseStart && o.baseEnd = t.baseEnd && o.content = t.content

def overlaps (t o : BaseReplacement) : Bool :=
  t.baseStart < o.baseEnd && o.baseStart < t.baseEnd

/-- Whether a target hunk is suppressed, and whether it is reported as a conflict: the loop over
the current hunks ends at the first that decides. -/
def suppression (t : BaseReplacement) : List BaseReplacement → Bool × Bool
  | [] => (false, false)
  | o :: ours =>
    if identical o t then (true, false)
    else if overlaps t o then (true, true)
    else suppression t ours

/-- By start, then by end, then by text. -/
def hunkLe (a b : BaseReplacement) : Prop :=
  a.baseStart < b.baseStart ∨ a.baseStart = b.baseStart ∧
    (a.baseEnd < b.baseEnd ∨ a.baseEnd = b.baseEnd ∧ JsString.le a.content b.content = true)

instance : DecidableRel hunkLe := fun a b =>
  inferInstanceAs (Decidable (a.baseStart < b.baseStart ∨ a.baseStart = b.baseStart ∧
    (a.baseEnd < b.baseEnd ∨ a.baseEnd = b.baseEnd ∧ JsString.le a.content b.content = true)))

/-- The hunks that are applied, sorted. -/
def appliedHunks (ours theirs : List BaseReplacement) : List BaseReplacement :=
  (ours ++ theirs.filter fun t => !(suppression t ours).1).insertionSort hunkLe

/-- The loop over the applied hunks from a cursor on. -/
def applyHunksFrom (baseText : JsString) : ℕ → List BaseReplacement → JsString
  | cursor, [] => baseText.drop cursor
  | cursor, hunk :: applied =>
    if hunk.baseStart < cursor then applyHunksFrom baseText cursor applied
    else slice baseText cursor hunk.baseStart ++ hunk.content ++
      applyHunksFrom baseText (max cursor hunk.baseEnd) applied

def mergeConcurrentEdits (baseText currentText targetText : JsString) :
    ConcurrentEditsMergeResult :=
  let ours := diffBaseReplacements fastDiff baseText currentText
  let theirs := diffBaseReplacements fastDiff baseText targetText
  { mergedText := applyHunksFrom baseText 0 (appliedHunks ours theirs)
    hadConflictingOverlap := theirs.any fun t => (suppression t ours).2 }

/-- Empty segments are left out, operations of one kind joined. -/
def diffToCharOps (segments : EditScript UInt16) : Delta UInt16 :=
  List.foldl (fun ops segment =>
    if segment.2 = [] then ops else Delta.push ops (Delta.ofSegment segment)) [] segments

/-- A `Y.Text` is its string here, deleted from and inserted into by index. -/
def applyDiffToYText (ytext oldText newText : JsString) : JsString :=
  if oldText = newText then ytext
  else
    let charOps := diffToCharOps (fastDiff.diff oldText newText)
    if charOps = [] then ytext else (charOps.foldl Delta.editStep (0, ytext)).2

variable {o t a b : BaseReplacement} {ours theirs hunks : List BaseReplacement} {base : JsString}
  {n cursor : ℕ}

theorem identical_iff : identical o t = true ↔ o = t := by
  obtain ⟨ostart, oend, otext⟩ := o
  obtain ⟨tstart, tend, ttext⟩ := t
  simp [identical, and_assoc]

theorem overlaps_comm : overlaps a b = overlaps b a := Bool.and_comm _ _

theorem hunkLe_total (a b : BaseReplacement) : hunkLe a b ∨ hunkLe b a := by
  have ht := JsString.le_total a.content b.content
  unfold hunkLe
  rcases Nat.lt_trichotomy a.baseStart b.baseStart with h | h | h
  · exact .inl (.inl h)
  · rcases Nat.lt_trichotomy a.baseEnd b.baseEnd with h' | h' | h'
    · exact .inl (.inr ⟨h, .inl h'⟩)
    · rcases ht with ht | ht
      · exact .inl (.inr ⟨h, .inr ⟨h', ht⟩⟩)
      · exact .inr (.inr ⟨h.symm, .inr ⟨h'.symm, ht⟩⟩)
    · exact .inr (.inr ⟨h.symm, .inl h'⟩)
  · exact .inr (.inl h)

theorem hunkLe_trans {c : BaseReplacement} (hab : hunkLe a b) (hbc : hunkLe b c) : hunkLe a c := by
  unfold hunkLe at hab hbc ⊢
  rcases hab with hab | ⟨hab, hab' | ⟨hab', ht⟩⟩
  · left
    omega
  · rcases hbc with hbc | ⟨hbc, hbc' | ⟨hbc', -⟩⟩
    · left
      omega
    · exact .inr ⟨hab.trans hbc, .inl (by omega)⟩
    · exact .inr ⟨hab.trans hbc, .inl (by omega)⟩
  rcases hbc with hbc | ⟨hbc, hbc' | ⟨hbc', ht'⟩⟩
  · left
    omega
  · exact .inr ⟨hab.trans hbc, .inl (by omega)⟩
  · exact .inr ⟨hab.trans hbc, .inr ⟨hab'.trans hbc', JsString.le_trans ht ht'⟩⟩

theorem hunkLe_antisymm (hab : hunkLe a b) (hba : hunkLe b a) : a = b := by
  obtain ⟨astart, aend, atext⟩ := a
  obtain ⟨bstart, bend, btext⟩ := b
  unfold hunkLe at hab hba
  dsimp only at hab hba
  have hst : astart = bstart := by omega
  have hend : aend = bend := by omega
  subst hst
  subst hend
  have ht : JsString.le atext btext = true := by simpa using hab
  have ht' : JsString.le btext atext = true := by simpa using hba
  rw [JsString.le_antisymm ht ht']

theorem appliedHunks_perm (ours theirs : List BaseReplacement) : (appliedHunks ours theirs).Perm
    (ours ++ theirs.filter fun t => !(suppression t ours).1) :=
  perm_insertionSort _ _

theorem pairwise_appliedHunks (ours theirs : List BaseReplacement) :
    (appliedHunks ours theirs).Pairwise hunkLe := by
  have htotal : Std.Total hunkLe := ⟨hunkLe_total⟩
  have ht : IsTrans BaseReplacement hunkLe := ⟨fun _ _ _ => hunkLe_trans⟩
  exact pairwise_insertionSort _ _

/-- A target hunk is suppressed where a current hunk equals or overlaps it. -/
theorem suppression_fst : (suppression t ours).1 = true ↔
    ∃ o ∈ ours, o = t ∨ overlaps t o = true := by
  induction ours with
  | nil => simp [suppression]
  | cons o ours ih =>
    rw [suppression, exists_mem_cons_iff]
    by_cases hiden : identical o t = true
    · rw [if_pos hiden]
      have heq := identical_iff.mp hiden
      simp [heq]
    rw [if_neg hiden]
    have hne : o ≠ t := fun heq => hiden (identical_iff.mpr heq)
    by_cases hov : overlaps t o = true
    · simp [hov]
    rw [if_neg hov, ih]
    simp [hne, hov]

/-- Where the loop keeps up with the hunks it skips none of them. -/
theorem applyHunksFrom_eq (h : Splice.Sequential base.length hunks)
    (hcur : ∀ c ∈ hunks, cursor ≤ c.baseStart) :
    applyHunksFrom base cursor hunks = Splice.applyFrom base base.length cursor hunks := by
  induction hunks generalizing cursor with
  | nil => exact (slice_length base cursor).symm
  | cons hunk hunks ih =>
    have hst := hcur hunk mem_cons_self
    have hle := h.le hunk mem_cons_self
    rw [applyHunksFrom, if_neg (Nat.not_lt.mpr hst), Nat.max_eq_right (hst.trans hle),
      Splice.applyFrom, ih h.of_cons]
    intro c hc
    exact rel_of_pairwise_cons h.pairwise hc

theorem foldl_push (segments : EditScript UInt16) (ops : Delta UInt16) :
    Delta.span (List.foldl (fun ops segment =>
        if segment.2 = [] then ops else Delta.push ops (Delta.ofSegment segment)) ops segments) =
      Delta.span (ops ++ List.map Delta.ofSegment segments) ∧
    ∀ xs, Delta.apply (List.foldl (fun ops segment =>
        if segment.2 = [] then ops else Delta.push ops (Delta.ofSegment segment)) ops segments) xs =
      Delta.apply (ops ++ List.map Delta.ofSegment segments) xs := by
  induction segments generalizing ops with
  | nil => simp
  | cons segment rest ih =>
    obtain ⟨op, ys⟩ := segment
    rw [foldl_cons, map_cons]
    split
    · -- an empty segment neither reads nor writes
      next he =>
      obtain rfl : ys = [] := he
      have hneut : ∀ xs, Delta.apply (Delta.ofSegment (op, []) ::
          List.map Delta.ofSegment rest) xs = Delta.apply (List.map Delta.ofSegment rest) xs := by
        intro xs
        cases op <;> simp [Delta.ofSegment, Delta.apply]
      constructor
      · rw [(ih ops).1, span_append, span_append]
        cases op <;> simp [Delta.ofSegment, Delta.span]
      intro xs
      rw [(ih ops).2, apply_append_congr hneut]
    constructor
    · rw [(ih _).1, span_append, span_push, span_append, span_append, Nat.add_assoc, ← span_append]
      rfl
    intro xs
    rw [(ih _).2, apply_push]

/-- A diff that is replayed on its old text gives its new text. -/
theorem applyDiffToYText_self (oldText newText : JsString) :
    applyDiffToYText fastDiff oldText oldText newText = newText := by
  have hdiff := fastDiff.rewrites oldText newText
  obtain ⟨hspan, hap⟩ := ofScript_spec (fastDiff.diff oldText newText)
  obtain ⟨hspan', hap'⟩ := foldl_push (fastDiff.diff oldText newText) []
  have hlen : Delta.span (diffToCharOps (fastDiff.diff oldText newText)) ≤ oldText.length := by
    rw [diffToCharOps, hspan', nil_append, hspan, hdiff.source]
  have hnew : Delta.apply (diffToCharOps (fastDiff.diff oldText newText)) oldText = newText := by
    have hap := hap []
    rw [hdiff.source, hdiff.target, append_nil, append_nil] at hap
    rw [diffToCharOps, hap', nil_append, hap]
  unfold applyDiffToYText
  split
  · next heq => exact heq
  dsimp only
  split
  · next hn =>
    rw [hn] at hnew
    exact hnew
  have hedit := foldl_editStep hlen []
  rw [length_nil, nil_append, nil_append] at hedit
  rw [hedit, hnew]

end Kaos.Sync
