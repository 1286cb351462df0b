import Kaos.Lib.Run
import Kaos.Sync.CompositionAwareYSync

/-! Editor and `Y.Text` mirror each other wherever no hold is active. -/
namespace Kaos.Sync

open Kaos.Lib CompositionAwareYSync List

variable {fastDiff : Differ UInt16} {codeMirror : EditorText} {p : CompositionAwareYSync}
  {event : MirrorEvent} {changes : List (Splice UInt16)} {delta : Delta UInt16}
  {base mergedText : JsString}

section Read

theorem clean_read : ∀ c ∈ codeMirror.read changes, carriageReturn ∉ c.content := by
  intro c hc
  obtain ⟨d, -, rfl⟩ := mem_map.mp hc
  exact codeMirror.clean d.content

theorem read_eq (h : ∀ c ∈ changes, carriageReturn ∉ c.content) :
    codeMirror.read changes = changes := by
  have hk : ∀ c ∈ changes, { c with content := codeMirror.toText c.content } = c := by
    intro c hc
    rw [codeMirror.keeps c.content (h c hc)]
  rw [EditorText.read, map_congr_left hk, map_id']

/-- Changes that lead to a text without carriage returns are read as they are. -/
theorem applyFrom_read {stop k : ℕ} {target : JsString}
    (h : Splice.applyFrom base stop k changes = target) (htgt : carriageReturn ∉ target) :
    Splice.applyFrom base stop k (codeMirror.read changes) = target := by
  rw [read_eq, h]
  intro c hc hret
  apply htgt
  rw [← h]
  exact Splice.content_subset_applyFrom hc hret

/-- Whatever the changes bring, the document stays free of carriage returns. -/
theorem clean_applyFrom {stop k : ℕ} (h : carriageReturn ∉ base) :
    carriageReturn ∉ Splice.applyFrom base stop k (codeMirror.read changes) := by
  intro hret
  rcases Splice.mem_applyFrom hret with hb | ⟨c, hc, hco⟩
  · exact h hb
  · exact clean_read c hc hco

end Read

/-- Pushing the changes of an update does to the `Y.Text` what they did to the editor. -/
theorem pushChanges_append {k : ℕ} {adj : ℤ} (h : Splice.Sequential base.length changes)
    (hk : k ≤ base.length) (hchan : ∀ c ∈ changes, k ≤ c.baseStart) (done : JsString)
    (hdn : (done.length : ℤ) = k + adj) :
    pushChanges adj (done ++ base.drop k) changes =
      done ++ Splice.applyFrom base base.length k changes := by
  induction changes generalizing k adj done with
  | nil => rw [pushChanges, Splice.applyFrom, slice_length]
  | cons c cs ih =>
    have hst := hchan c mem_cons_self
    have hle := h.le c mem_cons_self
    have hlen := h.le_length c mem_cons_self
    have hcop : (slice base k c.baseStart).length = c.baseStart - k := by
      rw [slice, length_drop, length_take]
      omega
    have hix : (c.baseStart + adj).toNat = (done ++ slice base k c.baseStart).length := by
      rw [length_append, hcop]
      omega
    have hs : done ++ base.drop k =
        (done ++ slice base k c.baseStart) ++ base.drop c.baseStart := by
      have hdrop : slice base k c.baseStart ++ slice base c.baseStart base.length =
          slice base k base.length := slice_append_slice hst (hle.trans hlen)
      rw [slice_length, slice_length] at hdrop
      rw [append_assoc, hdrop]
    have hdel : (if c.baseStart ≠ c.baseEnd then
        ((done ++ slice base k c.baseStart) ++ base.drop c.baseStart).take
            (done ++ slice base k c.baseStart).length ++
          ((done ++ slice base k c.baseStart) ++ base.drop c.baseStart).drop
            ((done ++ slice base k c.baseStart).length + (c.baseEnd - c.baseStart))
        else (done ++ slice base k c.baseStart) ++ base.drop c.baseStart) =
        (done ++ slice base k c.baseStart) ++ base.drop c.baseEnd := by
      split
      · have hsum : c.baseStart + (c.baseEnd - c.baseStart) = c.baseEnd := by omega
        rw [take_left' rfl, drop_length_add_append, drop_drop, hsum]
      · next heq => rw [not_ne_iff.mp heq]
    have hins : (if c.content ≠ [] then
        ((done ++ slice base k c.baseStart) ++ base.drop c.baseEnd).take
            (done ++ slice base k c.baseStart).length ++ c.content ++
          ((done ++ slice base k c.baseStart) ++ base.drop c.baseEnd).drop
            (done ++ slice base k c.baseStart).length
        else (done ++ slice base k c.baseStart) ++ base.drop c.baseEnd) =
        (done ++ slice base k c.baseStart ++ c.content) ++ base.drop c.baseEnd := by
      split
      · rw [take_left' rfl, drop_left' rfl]
      · next he => rw [not_ne_iff.mp he, append_nil]
    rw [pushChanges, hix, hs, hdel, hins, ih h.of_cons hlen
      (fun d hd => rel_of_pairwise_cons h.pairwise hd), Splice.applyFrom]
    · simp
    rw [length_append, length_append, hcop]
    omega

theorem pushChanges_eq (h : Splice.Sequential base.length changes) :
    pushChanges 0 base changes = Splice.applyFrom base base.length 0 changes := by
  have hpush : pushChanges 0 ([] ++ base.drop 0) changes =
      [] ++ Splice.applyFrom base base.length 0 changes :=
    pushChanges_append h (Nat.zero_le _) (fun c _ => Nat.zero_le c.baseStart) [] rfl
  rwa [nil_append, nil_append, drop_zero] at hpush

/-- The changes of a diff lead from its source to its target. -/
theorem contentDiff_spec (fastDiff : Differ UInt16) (source target : JsString) :
    Splice.Sequential source.length (computeContentDiffChanges fastDiff source target) ∧
      Splice.applyFrom source source.length 0 (computeContentDiffChanges fastDiff source target) =
        target := by
  have hdiff := fastDiff.rewrites source target
  obtain ⟨hspan, hap⟩ := Delta.ofScript_spec (fastDiff.diff source target)
  rw [hdiff.source, hdiff.target] at hap
  have hwit : 0 + Delta.span (List.map Delta.ofSegment (fastDiff.diff source target)) ≤
      source.length := by
    rw [hspan, hdiff.source, Nat.zero_add]
  refine ⟨(Delta.splicesFrom_spec hwit).1, ?_⟩
  have htgt := hap []
  rw [append_nil, append_nil] at htgt
  rw [computeContentDiffChanges, Delta.applyFrom_splicesFrom hwit (Nat.le_refl 0), drop_zero,
    slice_of_le (Nat.le_refl 0), nil_append, htgt]

/-- Without a hold both sides hold the agreed content; a hold keeps that content as its base. -/
structure Agreed (p : CompositionAwareYSync) : Prop where
  clean : carriageReturn ∉ p.editor
  agreedClean : ∀ text, p.lastAgreedContent = some text → carriageReturn ∉ text
  mirror : p.state.holding = false → p.editor = p.ytext ∧ p.lastAgreedContent = some p.editor
  held : p.state.holding = true → p.lastAgreedContent = p.state.baseText ∧ p.state.baseText ≠ none

/-- The editor is to take a carriage return over, from a remote change or out of a hold. -/
def takesReturn (fastDiff : Differ UInt16) (p : CompositionAwareYSync) : MirrorEvent → Bool
  | .remote delta => delta.span ≤ p.ytext.length && !p.state.holding && !p.composing &&
      carriageReturn ∈ delta.apply p.ytext
  | event => flushesHold p event && carriageReturn ∈ p.ytext &&
      !(planCompositionFlush fastDiff (p.state.baseText.getD p.editor) p.editor p.ytext).conflicts

/-- Both sides made the same change during a hold only where they made none, and the editor takes
no carriage return over. -/
def MovesOn (fastDiff : Differ UInt16) (p : CompositionAwareYSync) (event : MirrorEvent) : Prop :=
  (flushesHold p event = true → p.editor = p.ytext → p.state.baseText = some p.editor) ∧
    takesReturn fastDiff p event = false

instance : Decidable (MovesOn fastDiff p event) :=
  inferInstanceAs (Decidable ((flushesHold p event = true → p.editor = p.ytext →
    p.state.baseText = some p.editor) ∧ takesReturn fastDiff p event = false))

theorem dispatchContentDiff_spec (target : JsString) :
    (p.dispatchContentDiff fastDiff codeMirror p.editor target).ytext = p.ytext ∧
      (p.dispatchContentDiff fastDiff codeMirror p.editor target).state = p.state ∧
      (carriageReturn ∉ target →
        (p.dispatchContentDiff fastDiff codeMirror p.editor target).editor = target) ∧
      (carriageReturn ∉ p.editor → carriageReturn ∉
        (p.dispatchContentDiff fastDiff codeMirror p.editor target).editor) := by
  obtain ⟨hfits, hap⟩ := contentDiff_spec fastDiff p.editor target
  unfold dispatchContentDiff
  dsimp only
  split
  · next hn =>
    rw [hn, Splice.applyFrom, slice_length, drop_zero] at hap
    exact ⟨rfl, rfl, fun _ => hap, id⟩
  rw [dispatchChanges, if_pos hfits]
  exact ⟨rfl, rfl, applyFrom_read hap, clean_applyFrom⟩

/-- A projection of what is free of carriage returns brings the editor to the content of the
`Y.Text`. -/
theorem dispatchProjection_spec (codeMirror : EditorText) (hspan : delta.span ≤ p.editor.length) :
    (p.dispatchProjection codeMirror delta).ytext = p.ytext ∧
      (p.dispatchProjection codeMirror delta).state = p.state ∧
      (carriageReturn ∉ delta.apply p.editor →
        (p.dispatchProjection codeMirror delta).editor = delta.apply p.editor) ∧
      (p.lastAgreedContent = some p.editor →
        (p.dispatchProjection codeMirror delta).lastAgreedContent =
          some (p.dispatchProjection codeMirror delta).editor) := by
  have hwit : 0 + delta.span ≤ p.editor.length := by omega
  have hfits := (Delta.splicesFrom_spec hwit).1
  have hap := Delta.applyFrom_splicesFrom hwit (Nat.le_refl 0)
  unfold dispatchProjection
  dsimp only
  split
  · next hn =>
    rw [hn, Splice.applyFrom, slice_length, drop_zero] at hap
    exact ⟨rfl, rfl, fun _ => hap, id⟩
  rw [dispatchChanges, if_pos hfits]
  exact ⟨rfl, rfl, applyFrom_read hap, fun _ => rfl⟩

theorem clean_dispatchProjection (h : carriageReturn ∉ p.editor) :
    carriageReturn ∉ (p.dispatchProjection codeMirror delta).editor := by
  unfold dispatchProjection dispatchChanges
  dsimp only
  split
  · exact h
  split
  · exact clean_applyFrom h
  · exact h

theorem converge_spec (fastDiff : Differ UInt16) (codeMirror : EditorText) (mergedText : JsString) :
    (p.converge fastDiff codeMirror p.editor p.ytext mergedText).ytext = mergedText ∧
      (p.converge fastDiff codeMirror p.editor p.ytext mergedText).state = p.state ∧
      (carriageReturn ∉ mergedText →
        (p.converge fastDiff codeMirror p.editor p.ytext mergedText).editor = mergedText) ∧
      (carriageReturn ∉ p.editor → carriageReturn ∉
        (p.converge fastDiff codeMirror p.editor p.ytext mergedText).editor) := by
  have hytext : (if mergedText ≠ p.ytext then
      { p with ytext := applyDiffToYText fastDiff p.ytext p.ytext mergedText } else p) =
      { p with ytext := mergedText } := by
    split
    · rw [applyDiffToYText_self]
    · next heq => rw [not_ne_iff.mp heq]
  unfold converge
  rw [hytext]
  split
  · exact dispatchContentDiff_spec (p := { p with ytext := mergedText }) mergedText
  · next heq => exact ⟨rfl, rfl, fun _ => (not_ne_iff.mp heq).symm, id⟩

section Flush

/-- A flush that meets a conflict leaves the texts, the base and the hold as they are. -/
theorem flush_conflict (hh : p.state.holding = true) (hb : p.state.baseText = some base)
    (hp : (planCompositionFlush fastDiff base p.editor p.ytext).conflicts = true) :
    p.flush fastDiff codeMirror =
      { p with capTimer := false, state := { p.state with conflictHold := true } } := by
  unfold flush
  rw [if_pos hh, hb]
  dsimp only [Option.getD_some]
  rw [if_pos hp]

variable (hself : ∀ text, ∀ segment ∈ fastDiff.diff text text, segment.1 = .equal)

include hself

/-- Whatever the planner decides, the text it plans is the merge of both sides. -/
theorem planned_text (base editor ytext : JsString) :
    (editor = ytext ∧ planCompositionFlush fastDiff base editor ytext = .noOp ∨
      editor ≠ ytext ∧ (planCompositionFlush fastDiff base editor ytext).mergedText? =
        some (mergeConcurrentEdits fastDiff base editor ytext).mergedText) := by
  unfold planCompositionFlush
  have huned : diffBaseReplacements fastDiff base base = [] :=
    EditScript.splices_of_equal (hself base)
  by_cases heq : editor = ytext
  · exact .inl ⟨heq, if_pos heq⟩
  right
  refine ⟨heq, ?_⟩
  rw [if_neg heq]
  by_cases hytext : ytext = base
  · have hm : (mergeConcurrentEdits fastDiff base editor base).mergedText = editor := by
      apply mergedText_current
      rw [huned]
      rfl
    rw [if_pos hytext, hytext, hm]
    rfl
  rw [if_neg hytext]
  by_cases he : editor = base
  · rw [if_pos he, he, mergedText_target fastDiff base base ytext huned]
    rfl
  rw [if_neg he]
  rfl

/-- Where no conflict is found, a carriage return of the `Y.Text` is one of the merge. -/
theorem clean_of_merged {editor ytext : JsString} (hb : carriageReturn ∉ base)
    (he : carriageReturn ∉ editor)
    (hp : (planCompositionFlush fastDiff base editor ytext).conflicts = false)
    (hm : carriageReturn ∉ (mergeConcurrentEdits fastDiff base editor ytext).mergedText) :
    carriageReturn ∉ ytext := by
  intro hret
  unfold planCompositionFlush at hp
  by_cases heq : editor = ytext
  · exact he (heq ▸ hret)
  rw [if_neg heq] at hp
  by_cases hytext : ytext = base
  · exact hb (hytext ▸ hret)
  rw [if_neg hytext] at hp
  by_cases hs : editor = base
  · rw [hs, mergedText_target fastDiff base base ytext
      (EditScript.splices_of_equal (hself base))] at hm
    exact hm hret
  rw [if_neg hs] at hp
  rcases mem_target fastDiff base editor ytext hp hret with h | h | h
  · exact hb h
  · exact he h
  · exact hm h

/-- A flush that meets no conflict releases the hold and writes the merge. -/
theorem flush_released (codeMirror : EditorText) (hh : p.state.holding = true)
    (hb : p.state.baseText = some base)
    (hp : (planCompositionFlush fastDiff base p.editor p.ytext).conflicts = false) :
    (p.flush fastDiff codeMirror).state = {} ∧
      (p.flush fastDiff codeMirror).ytext =
        (mergeConcurrentEdits fastDiff base p.editor p.ytext).mergedText ∧
      (p.flush fastDiff codeMirror).lastAgreedContent =
        (if p.editor = p.ytext then p.lastAgreedContent
        else some (mergeConcurrentEdits fastDiff base p.editor p.ytext).mergedText) ∧
      (carriageReturn ∉ (mergeConcurrentEdits fastDiff base p.editor p.ytext).mergedText →
        (p.flush fastDiff codeMirror).editor =
          (mergeConcurrentEdits fastDiff base p.editor p.ytext).mergedText) := by
  unfold flush
  rw [if_pos hh, hb]
  dsimp only [Option.getD_some]
  rw [hp, if_neg Bool.false_ne_true]
  rcases planned_text hself base p.editor p.ytext with ⟨heq, hnoOp⟩ | ⟨hne, ht⟩
  · have hs := congrArg ConcurrentEditsMergeResult.mergedText
      (merge_same_edits fastDiff base p.editor)
    rw [hnoOp, if_pos heq, ← heq, hs]
    exact ⟨rfl, rfl, rfl, fun _ => rfl⟩
  rw [ht, if_neg hne]
  obtain ⟨hytext, hst, he, -⟩ := converge_spec fastDiff codeMirror
    (p := { p with state := {}, capTimer := false })
    (mergeConcurrentEdits fastDiff base p.editor p.ytext).mergedText
  exact ⟨hst, hytext, rfl, he⟩

/-- A flush restores the mirror or keeps the hold and its base. -/
theorem flush_agreed (h : Agreed p) (hh : p.state.holding = true)
    (hapart : p.editor = p.ytext → p.state.baseText = some p.editor)
    (hc : ∀ base, p.state.baseText = some base →
      (planCompositionFlush fastDiff base p.editor p.ytext).conflicts = false →
      carriageReturn ∉ p.ytext) : Agreed (p.flush fastDiff codeMirror) := by
  obtain ⟨hagr, hs⟩ := h.held hh
  obtain ⟨base, hb⟩ := Option.ne_none_iff_exists'.mp hs
  cases hp : (planCompositionFlush fastDiff base p.editor p.ytext).conflicts with
  | true =>
    rw [flush_conflict hh hb hp]
    exact ⟨h.clean, h.agreedClean, h.mirror, h.held⟩
  | false =>
    obtain ⟨hst, hytext, hl, he⟩ := flush_released hself codeMirror hh hb hp
    have hm : carriageReturn ∉
        (mergeConcurrentEdits fastDiff base p.editor p.ytext).mergedText := by
      intro hret
      rcases mem_mergedText fastDiff base p.editor p.ytext hret with hmem | hmem | hmem
      · exact h.agreedClean base (hagr.trans hb) hmem
      · exact h.clean hmem
      · exact hc base hb hp hmem
    have he := he hm
    have hl' : (p.flush fastDiff codeMirror).lastAgreedContent =
        some (p.flush fastDiff codeMirror).editor := by
      rw [hl, he]
      split
      · next heq =>
        have hsa := congrArg ConcurrentEditsMergeResult.mergedText
          (merge_same_edits fastDiff base p.editor)
        rw [← heq, hsa, hagr, hapart heq]
      · rfl
    refine ⟨he ▸ hm, ?_, fun _ => ⟨he.trans hytext.symm, hl'⟩, ?_⟩
    · intro text ht
      rw [hl', Option.some.injEq] at ht
      rw [← ht, he]
      exact hm
    intro hhd
    rw [hst] at hhd
    cases hhd

end Flush

/-- A flush that holds on keeps the base, and no flush brings a carriage return to the editor. -/
theorem flush_keeps : ((p.flush fastDiff codeMirror).state.holding = true →
      (p.flush fastDiff codeMirror).state.baseText = p.state.baseText) ∧
    (carriageReturn ∉ p.editor → carriageReturn ∉ (p.flush fastDiff codeMirror).editor) := by
  unfold flush
  split
  · dsimp only
    split
    · exact ⟨fun _ => rfl, id⟩
    cases (planCompositionFlush fastDiff (p.state.baseText.getD p.editor) p.editor
        p.ytext).mergedText? with
    | none => exact ⟨fun hh => (Bool.false_ne_true hh).elim, id⟩
    | some mergedText =>
      obtain ⟨-, hst, -, hc⟩ := converge_spec fastDiff codeMirror
        (p := { p with state := {}, capTimer := false }) mergedText
      refine ⟨fun hh => ?_, hc⟩
      rw [hst] at hh
      cases hh
  · exact ⟨fun _ => rfl, id⟩

/-- Where the texts agree there is no residue. -/
theorem flushResidual_of_mirror (h : p.editor = p.ytext) :
    p.flushResidualComposition fastDiff = p := by
  unfold flushResidualComposition
  rw [if_pos h, ite_self]

theorem flushResidual_editor : (p.flushResidualComposition fastDiff).editor = p.editor := by
  unfold flushResidualComposition
  split
  · rfl
  split
  · rfl
  split
  · rfl
  · rfl
  · split <;> rfl

theorem observer_holding (h : p.state.holding = true) :
    p.observer fastDiff codeMirror delta = p.countHeld := by
  simp [observer, h]

theorem observer_composing (h : p.state.holding = false) (hcomp : p.composing = true) :
    p.observer fastDiff codeMirror delta =
      (p.armHold (p.lastAgreedContent.getD p.editor)).countHeld := by
  simp [observer, h, hcomp]

theorem observer_synced (h : p.state.holding = false) (hcomp : p.composing = false)
    (hl : p.lastAgreedContent = some p.editor) :
    p.observer fastDiff codeMirror delta = p.dispatchProjection codeMirror delta := by
  simp [observer, hasUnsyncedEdits, h, hcomp, hl]

theorem clean_observer (h : carriageReturn ∉ p.editor) :
    carriageReturn ∉ (p.observer fastDiff codeMirror delta).editor := by
  unfold observer
  split
  · dsimp only
    split <;> exact h
  split
  · dsimp only
    split
    · exact h
    · split <;> exact h
  · exact clean_dispatchProjection h

variable {q : CompositionAwareYSync}

theorem Agreed.of_eq (h : Agreed p) (he : q.editor = p.editor)
    (hytext : q.ytext = p.ytext) (hst : q.state = p.state)
    (hl : q.lastAgreedContent = p.lastAgreedContent) : Agreed q := by
  refine ⟨he ▸ h.clean, hl ▸ h.agreedClean, ?_, ?_⟩
  · rw [hst, he, hytext, hl]
    exact h.mirror
  rw [hst, hl]
  exact h.held

/-- The base of the hold that an event leaves: the earlier one, or the content agreed on before. -/
def HoldsBase (p q : CompositionAwareYSync) : Prop :=
  q.state.holding = true →
    q.state.baseText = if p.state.holding then p.state.baseText else some p.editor

theorem HoldsBase.of_state_eq (h : q.state = p.state) : HoldsBase p q := by
  intro hh
  rw [h] at hh ⊢
  rw [if_pos hh]

theorem HoldsBase.of_not_holding (h : q.state.holding = false) : HoldsBase p q := by
  intro hh
  rw [h] at hh
  cases hh

/-- What the observer makes of a change of the `Y.Text` alone. -/
theorem remote_agreed (h : Agreed p) (hspan : delta.span ≤ p.ytext.length)
    (hc : p.state.holding = false → p.composing = false → carriageReturn ∉ delta.apply p.ytext) :
    Agreed ({ p with ytext := delta.apply p.ytext }.observer fastDiff codeMirror delta) ∧
      HoldsBase p ({ p with ytext := delta.apply p.ytext }.observer fastDiff codeMirror delta) := by
  cases hh : p.state.holding with
  | true =>
    rw [observer_holding (p := { p with ytext := delta.apply p.ytext }) hh]
    refine ⟨⟨h.clean, h.agreedClean, ?_, fun _ => h.held hh⟩, fun _ => ?_⟩
    · intro hf
      exact absurd (hf.symm.trans hh) Bool.false_ne_true
    rw [if_pos hh]
    rfl
  | false =>
    obtain ⟨hm, hl⟩ := h.mirror hh
    rcases Bool.eq_false_or_eq_true p.composing with hcomp | hcomp
    · -- the hold is armed with the content that was agreed on
      rw [observer_composing (p := { p with ytext := delta.apply p.ytext }) hh hcomp]
      have hb : p.lastAgreedContent.getD p.editor = p.editor := by rw [hl, Option.getD_some]
      refine ⟨⟨h.clean, h.agreedClean, fun hf => ?_, fun _ => ⟨?_, Option.some_ne_none _⟩⟩,
        fun _ => ?_⟩
      · cases hf
      · change p.lastAgreedContent = some (p.lastAgreedContent.getD p.editor)
        rw [hb, hl]
      change some (p.lastAgreedContent.getD p.editor) = _
      rw [hb, hh, if_neg Bool.false_ne_true]
    rw [observer_synced (p := { p with ytext := delta.apply p.ytext }) hh hcomp hl]
    obtain ⟨hytext, hst, he, hagr⟩ := dispatchProjection_spec
      codeMirror (p := { p with ytext := delta.apply p.ytext }) (hm ▸ hspan)
    have ht := hc hh hcomp
    have he := he (hm ▸ ht)
    have hfr : CompositionHoldState.holding (dispatchProjection codeMirror
        { p with ytext := delta.apply p.ytext } delta).state = false := by
      rw [hst]
      exact hh
    have hl' := hagr hl
    refine ⟨⟨?_, ?_, fun _ => ⟨?_, hl'⟩, fun hhd => ?_⟩, .of_not_holding hfr⟩
    · rw [he]
      exact hm ▸ ht
    · intro text heq
      rw [hl', Option.some.injEq, he] at heq
      rw [← heq]
      exact hm ▸ ht
    · rw [he, hytext, hm]
    rw [hfr] at hhd
    cases hhd

/-- An update of the user reaches the `Y.Text`, unless a hold pauses the push. -/
theorem update_agreed (h : Agreed p) :
    Agreed (p.update codeMirror changes) ∧ HoldsBase p (p.update codeMirror changes) := by
  unfold update
  dsimp only
  split
  · next hfits =>
    have hc : carriageReturn ∉
        Splice.applyFrom p.editor p.editor.length 0 (codeMirror.read changes) :=
      clean_applyFrom h.clean
    cases hh : p.state.holding with
    | true =>
      refine ⟨⟨hc, h.agreedClean, ?_, fun _ => h.held hh⟩, .of_state_eq rfl⟩
      intro hf
      exact absurd (hf.symm.trans hh) Bool.false_ne_true
    | false =>
      obtain ⟨hm, -⟩ := h.mirror hh
      rw [if_neg Bool.false_ne_true]
      refine ⟨⟨hc, ?_, fun _ => ⟨?_, rfl⟩, fun hhd => ?_⟩, .of_state_eq rfl⟩
      · intro text heq
        rw [← Option.some.inj heq]
        exact hc
      · change _ = pushChanges 0 p.ytext (codeMirror.read changes)
        rw [← hm, pushChanges_eq hfits.1]
      · exact absurd (hh.symm.trans hhd) Bool.false_ne_true
  · exact ⟨h, .of_state_eq rfl⟩

theorem residual_agreed (h : Agreed p) : p.flushResidualComposition fastDiff = p := by
  cases hh : p.state.holding with
  | true =>
    unfold flushResidualComposition
    rw [if_pos hh]
  | false => exact flushResidual_of_mirror (h.mirror hh).1

theorem holding_of_flushes (hf : flushesHold p event = true) : p.state.holding = true := by
  cases event <;> simp_all [flushesHold]

theorem takesReturn_of_flushes (hf : flushesHold p event = true)
    (hb : p.state.baseText = some base)
    (hp : (planCompositionFlush fastDiff base p.editor p.ytext).conflicts = false)
    (hmem : carriageReturn ∈ p.ytext) : takesReturn fastDiff p event = true := by
  cases event <;> simp_all [takesReturn, flushesHold]

theorem of_takesReturn_flushes (hf : flushesHold p event = true)
    (hb : p.state.baseText = some base) (hret : takesReturn fastDiff p event = true) :
    carriageReturn ∈ p.ytext ∧
      (planCompositionFlush fastDiff base p.editor p.ytext).conflicts = false := by
  cases event <;> simp_all [takesReturn, flushesHold]

/-- An event that flushes the hold does nothing else to the texts and the hold. -/
theorem mirrorNext_flushes (fastDiff : Differ UInt16) (codeMirror : EditorText)
    (hf : flushesHold p event = true) :
    ∃ q : CompositionAwareYSync, mirrorNext fastDiff codeMirror p event =
        q.flush fastDiff codeMirror ∧ q.editor = p.editor ∧ q.ytext = p.ytext ∧
      q.state = p.state ∧ q.lastAgreedContent = p.lastAgreedContent := by
  cases event with
  | sessionEnded =>
    have hh : p.state.holding = true := hf
    refine ⟨p, ?_, rfl, rfl, rfl, rfl⟩
    rw [mirrorNext, onCompositionSessionEnded, if_pos hh]
  | microtask =>
    simp only [flushesHold, Bool.and_eq_true, Bool.not_eq_true', decide_eq_true_eq] at hf
    obtain ⟨⟨hq, hcomp⟩, hh⟩ := hf
    refine ⟨{ p with queued := p.queued - 1 }, ?_, rfl, rfl, rfl, rfl⟩
    rw [mirrorNext, runMicrotask, if_neg hq]
    rw [if_neg (Bool.not_eq_true _ ▸ hcomp), if_pos hh]
  | capTimeout =>
    simp only [flushesHold, Bool.and_eq_true] at hf
    obtain ⟨htimer, hh⟩ := hf
    refine ⟨{ p with capTimer := false }, ?_, rfl, rfl, rfl, rfl⟩
    rw [mirrorNext, capTimeout, if_pos htimer]
    rw [if_pos hh]
  | localUpdate changes | remote delta | composing active | flushResidue => cases hf

/-- What an event does that flushes no hold. -/
theorem mirrorNext_keeps (fastDiff : Differ UInt16) (codeMirror : EditorText)
    (hf : flushesHold p event = false) :
    (∃ changes, event = .localUpdate changes) ∨ (∃ delta, event = .remote delta) ∨
      ∃ q : CompositionAwareYSync, (mirrorNext fastDiff codeMirror p event = q ∨
          mirrorNext fastDiff codeMirror p event = q.flushResidualComposition fastDiff) ∧
        q.editor = p.editor ∧ q.ytext = p.ytext ∧ q.state = p.state ∧
        q.lastAgreedContent = p.lastAgreedContent := by
  cases event with
  | localUpdate changes => exact .inl ⟨changes, rfl⟩
  | remote delta => exact .inr (.inl ⟨delta, rfl⟩)
  | composing active => exact .inr (.inr ⟨_, .inl rfl, rfl, rfl, rfl, rfl⟩)
  | flushResidue => exact .inr (.inr ⟨p, .inr rfl, rfl, rfl, rfl, rfl⟩)
  | sessionEnded =>
    right; right
    have hh : ¬ p.state.holding = true := Bool.not_eq_true _ ▸ hf
    rw [mirrorNext, onCompositionSessionEnded, if_neg hh]
    split
    · exact ⟨p, .inr rfl, rfl, rfl, rfl, rfl⟩
    · exact ⟨_, .inl rfl, rfl, rfl, rfl, rfl⟩
  | microtask =>
    right; right
    rw [mirrorNext, runMicrotask]
    split
    · exact ⟨p, .inl rfl, rfl, rfl, rfl, rfl⟩
    · next hq =>
      dsimp only
      split
      · exact ⟨_, .inl rfl, rfl, rfl, rfl, rfl⟩
      · next hcomp =>
        have hh : ¬ p.state.holding = true := by
          intro hh
          simp [flushesHold, hq, hcomp, hh] at hf
        rw [if_neg hh]
        exact ⟨{ p with queued := p.queued - 1 }, .inr rfl, rfl, rfl, rfl, rfl⟩
  | capTimeout =>
    right; right
    rw [mirrorNext, capTimeout]
    split
    · next htimer =>
      have hh : ¬ p.state.holding = true := by
        intro hh
        simp [flushesHold, htimer, hh] at hf
      rw [if_neg hh]
      exact ⟨_, .inl rfl, rfl, rfl, rfl, rfl⟩
    · exact ⟨p, .inl rfl, rfl, rfl, rfl, rfl⟩

/-- Nothing brings a carriage return to the editor. -/
theorem clean_next (fastDiff : Differ UInt16) (codeMirror : EditorText) (event : MirrorEvent)
    (h : carriageReturn ∉ p.editor) :
    carriageReturn ∉ (mirrorNext fastDiff codeMirror p event).editor := by
  cases hf : flushesHold p event with
  | true =>
    obtain ⟨q, hn, he, -⟩ := mirrorNext_flushes fastDiff codeMirror hf
    rw [hn]
    exact flush_keeps.2 (he ▸ h)
  | false =>
    rcases mirrorNext_keeps fastDiff codeMirror hf with
      ⟨changes, rfl⟩ | ⟨delta, rfl⟩ | ⟨q, hn, he, -⟩
    · rw [mirrorNext, update]
      dsimp only
      split
      · split <;> exact clean_applyFrom h
      · exact h
    · rw [mirrorNext]
      split
      · exact clean_observer h
      · exact h
    rcases hn with hn | hn
    · rw [hn, he]
      exact h
    rw [hn, flushResidual_editor, he]
    exact h

section Run

variable (hself : ∀ text, ∀ segment ∈ fastDiff.diff text text, segment.1 = .equal)

include hself

/-- Every event keeps the mirror and the base of a hold, unless it flushes a hold during which both
sides made the same change, or takes a carriage return over. -/
theorem agreed_next (h : Agreed p) (hmoves : MovesOn fastDiff p event) :
    Agreed (mirrorNext fastDiff codeMirror p event) ∧
      HoldsBase p (mirrorNext fastDiff codeMirror p event) := by
  obtain ⟨hapart, hret⟩ := hmoves
  cases hf : flushesHold p event with
  | true =>
    obtain ⟨q, hn, he, hytext, hst, hl⟩ := mirrorNext_flushes
      fastDiff codeMirror hf
    have hh : p.state.holding = true := holding_of_flushes hf
    have hq : Agreed q := h.of_eq he hytext hst hl
    rw [hn]
    refine ⟨flush_agreed hself hq (hst ▸ hh) ?_ ?_, fun hhd => ?_⟩
    · rw [he, hytext, hst]
      exact hapart hf
    · intro base hb hp hmem
      rw [hst] at hb
      rw [he, hytext] at hp
      rw [hytext] at hmem
      rw [takesReturn_of_flushes hf hb hp hmem] at hret
      cases hret
    · rw [flush_keeps.1 hhd, hst, if_pos hh]
  | false =>
    rcases mirrorNext_keeps fastDiff codeMirror hf with
      ⟨changes, rfl⟩ | ⟨delta, rfl⟩ | ⟨q, hn, he, hytext, hst, hl⟩
    · exact update_agreed h
    · rw [mirrorNext]
      split
      · next hspan =>
        apply remote_agreed h hspan
        intro hh hcomp hmem
        simp [takesReturn, hspan, hh, hcomp, hmem] at hret
      · exact ⟨h, .of_state_eq rfl⟩
    have hq : Agreed q := by
      refine ⟨he ▸ h.clean, hl ▸ h.agreedClean, ?_, ?_⟩
      · rw [hst, he, hytext, hl]
        exact h.mirror
      rw [hst, hl]
      exact h.held
    rw [residual_agreed hq, or_self] at hn
    rw [hn]
    exact ⟨hq, .of_state_eq hst⟩

/-- A flush of a hold without a conflict leaves the merge in the `Y.Text`. -/
theorem flushed_next (codeMirror : EditorText) (hf : flushesHold p event = true)
    (hb : p.state.baseText = some base)
    (hp : (planCompositionFlush fastDiff base p.editor p.ytext).conflicts = false) :
    (mirrorNext fastDiff codeMirror p event).state = {} ∧
      (mirrorNext fastDiff codeMirror p event).ytext =
        (mergeConcurrentEdits fastDiff base p.editor p.ytext).mergedText ∧
      (mirrorNext fastDiff codeMirror p event).lastAgreedContent =
        if p.editor = p.ytext then p.lastAgreedContent
        else some (mergeConcurrentEdits fastDiff base p.editor p.ytext).mergedText := by
  obtain ⟨q, hn, he, hytext, hst, hl⟩ := mirrorNext_flushes fastDiff codeMirror hf
  have hh := holding_of_flushes hf
  rw [← he, ← hytext] at hp ⊢
  rw [← hst] at hh hb
  obtain ⟨hst', hytext', hl', -⟩ := flush_released hself codeMirror hh hb hp
  rw [hn, ← hl]
  exact ⟨hst', hytext', hl'⟩

/-- A flush that finds the same change on both sides leaves a content behind that neither holds,
and a carriage return does not come to the editor. -/
theorem movesOn_of_mirror (codeMirror : EditorText) (h : Agreed p)
    (hn : (mirrorNext fastDiff codeMirror p event).state.holding = false →
      (mirrorNext fastDiff codeMirror p event).editor =
          (mirrorNext fastDiff codeMirror p event).ytext ∧
        (mirrorNext fastDiff codeMirror p event).lastAgreedContent =
          some (mirrorNext fastDiff codeMirror p event).editor) : MovesOn fastDiff p event := by
  have hc := clean_next fastDiff codeMirror event h.clean
  constructor
  · intro hf heq
    obtain ⟨hagr, hs⟩ := h.held (holding_of_flushes hf)
    obtain ⟨base, hb⟩ := Option.ne_none_iff_exists'.mp hs
    have hp : (planCompositionFlush fastDiff base p.editor p.ytext).conflicts = false := by
      rw [planCompositionFlush, if_pos heq]
      rfl
    obtain ⟨hst, hytext, hl⟩ := flushed_next hself codeMirror hf hb hp
    obtain ⟨hm, hagree⟩ := hn (by rw [hst])
    have hsa := congrArg ConcurrentEditsMergeResult.mergedText
      (merge_same_edits fastDiff base p.editor)
    rw [if_pos heq] at hl
    rw [← heq, hsa] at hytext
    rw [← hagr, ← hl, hagree, hm, hytext]
  rw [← Bool.not_eq_true]
  intro hret
  cases hf : flushesHold p event with
  | true =>
    obtain ⟨hagr, hs⟩ := h.held (holding_of_flushes hf)
    obtain ⟨base, hb⟩ := Option.ne_none_iff_exists'.mp hs
    obtain ⟨hmem, hp⟩ := of_takesReturn_flushes hf hb hret
    obtain ⟨hst, hytext, -⟩ := flushed_next hself codeMirror hf hb hp
    obtain ⟨hm, -⟩ := hn (by rw [hst])
    rw [hm, hytext] at hc
    exact clean_of_merged hself (h.agreedClean base (hagr.trans hb)) h.clean hp hc hmem
  | false =>
    cases event with
    | remote delta =>
      simp only [takesReturn, Bool.and_eq_true, Bool.not_eq_true', decide_eq_true_eq] at hret
      obtain ⟨⟨⟨hspan, hh⟩, hcomp⟩, hmem⟩ := hret
      obtain ⟨hm, hl⟩ := h.mirror hh
      rw [mirrorNext, if_pos hspan, observer_synced (p := { p with ytext := delta.apply p.ytext })
        hh hcomp hl] at hn hc
      obtain ⟨hytext, hst, -⟩ := dispatchProjection_spec codeMirror
        (p := { p with ytext := delta.apply p.ytext }) (hm ▸ hspan)
      obtain ⟨hsa, -⟩ := hn (by rw [hst]; exact hh)
      rw [hsa, hytext] at hc
      exact hc hmem
    | localUpdate changes | composing active | flushResidue => cases hret
    | sessionEnded | microtask | capTimeout => simp [takesReturn, hf] at hret

end Run

/-- The view after the first `n` events of a run. -/
def mirrorAt (fastDiff : Differ UInt16) (codeMirror : EditorText) (text : JsString)
    (composing : Bool) (events : List MirrorEvent) (n : ℕ) : CompositionAwareYSync :=
  stateAt (mirrorNext fastDiff codeMirror) (attachedView codeMirror text composing) events n

/-- What the binding promises of the views of a run. -/
structure Mirrors (fastDiff : Differ UInt16) (view : ℕ → CompositionAwareYSync)
    (events : List MirrorEvent) : Prop where
  /-- Without a hold the texts and the agreed content are one. -/
  agree : ∀ n, (view n).state.holding = false →
    (view n).editor = (view n).ytext ∧ (view n).lastAgreedContent = some (view n).editor
  /-- The base of a hold is the content of the last moment without one. -/
  base : ∀ n, (view n).state.holding = true →
    ∃ m < n, (view m).state.holding = false ∧
      (∀ k, m < k → k ≤ n → (view k).state.holding = true) ∧
      (view m).editor = (view m).ytext ∧ (view n).state.baseText = some (view m).editor
  /-- A flush without a conflict leaves the merge with that base on both sides. -/
  merge : ∀ n event base, events[n]? = some event → flushesHold (view n) event = true →
    (view n).state.baseText = some base →
    (planCompositionFlush fastDiff base (view n).editor (view n).ytext).conflicts = false →
    (view (n + 1)).state.holding = false ∧
      (view (n + 1)).editor =
        (mergeConcurrentEdits fastDiff base (view n).editor (view n).ytext).mergedText ∧
      (view (n + 1)).ytext =
        (mergeConcurrentEdits fastDiff base (view n).editor (view n).ytext).mergedText

section Invariant

variable {text : JsString} {composing : Bool} {events : List MirrorEvent} {n : ℕ}
  (hself : ∀ text, ∀ segment ∈ fastDiff.diff text text, segment.1 = .equal)

theorem attachedView_agreed : Agreed (attachedView codeMirror text composing) where
  clean := codeMirror.clean text
  agreedClean := fun _ hagr => Option.some.inj hagr ▸ codeMirror.clean text
  mirror := fun _ => ⟨rfl, rfl⟩
  held := nofun

include hself

theorem agreed_at (hmoves : ∀ m < n, ∀ event, events[m]? = some event →
    MovesOn fastDiff (mirrorAt fastDiff codeMirror text composing events m) event) :
    Agreed (mirrorAt fastDiff codeMirror text composing events n) := by
  induction n with
  | zero => exact attachedView_agreed
  | succ n ih =>
    have hn := ih (fun m hm => hmoves m (Nat.lt_succ_of_lt hm))
    rcases stateAt_step (mirrorNext fastDiff codeMirror) (attachedView codeMirror text composing)
      events n with ⟨-, hs⟩ | ⟨event, hev, hnx⟩
    · rw [mirrorAt, hs]
      exact hn
    rw [mirrorAt, hnx]
    exact (agreed_next hself hn (hmoves n n.lt_succ_self event hev)).1

theorem holdsBase_at (hmoves : ∀ m < n + 1, ∀ event, events[m]? = some event →
    MovesOn fastDiff (mirrorAt fastDiff codeMirror text composing events m) event) :
    HoldsBase (mirrorAt fastDiff codeMirror text composing events n)
      (mirrorAt fastDiff codeMirror text composing events (n + 1)) := by
  have hn := agreed_at hself fun m hm => hmoves m (Nat.lt_succ_of_lt hm)
  rcases stateAt_step (mirrorNext fastDiff codeMirror) (attachedView codeMirror text composing)
    events n with ⟨-, hs⟩ | ⟨event, hev, hnx⟩
  · apply HoldsBase.of_state_eq
    rw [mirrorAt, hs]
    rfl
  rw [mirrorAt, mirrorAt, hnx]
  exact (agreed_next hself hn (hmoves n n.lt_succ_self event hev)).2

/-- The base of a hold goes back to the state before the hold. -/
theorem base_at (hmoves : ∀ m < n, ∀ event, events[m]? = some event →
    MovesOn fastDiff (mirrorAt fastDiff codeMirror text composing events m) event)
    (hhd : (mirrorAt fastDiff codeMirror text composing events n).state.holding = true) :
    ∃ m < n, (mirrorAt fastDiff codeMirror text composing events m).state.holding = false ∧
      (∀ k, m < k → k ≤ n →
        (mirrorAt fastDiff codeMirror text composing events k).state.holding = true) ∧
      (mirrorAt fastDiff codeMirror text composing events m).editor =
        (mirrorAt fastDiff codeMirror text composing events m).ytext ∧
      (mirrorAt fastDiff codeMirror text composing events n).state.baseText =
        some (mirrorAt fastDiff codeMirror text composing events m).editor := by
  induction n with
  | zero => cases hhd
  | succ n ih =>
    have hbas := holdsBase_at hself hmoves hhd
    have hmoves := fun m (hm : m < n) => hmoves m (Nat.lt_succ_of_lt hm)
    cases hh : (mirrorAt fastDiff codeMirror text composing events n).state.holding with
    | true =>
      obtain ⟨m, hm, hf, hsince, hmi, hkp⟩ := ih hmoves hh
      refine ⟨m, Nat.lt_succ_of_lt hm, hf, ?_, hmi, ?_⟩
      · intro k hmk hk
        rcases Nat.lt_or_eq_of_le hk with hlt | rfl
        · exact hsince k hmk (Nat.le_of_lt_succ hlt)
        · exact hhd
      · rw [hbas, hh, if_pos rfl, hkp]
    | false =>
      refine ⟨n, n.lt_succ_self, hh, ?_, ((agreed_at hself hmoves).mirror hh).1, ?_⟩
      · intro k hnk hk
        have hkn : k = n + 1 := by omega
        rw [hkn]
        exact hhd
      · rw [hbas, hh, if_neg Bool.false_ne_true]

/-- The binding keeps its mirror in exactly the runs in which no flush of a hold finds that both
sides have meanwhile made the same change, and the editor takes no carriage return over. -/
theorem mirrors_iff :
    Mirrors fastDiff (mirrorAt fastDiff codeMirror text composing events) events ↔
      ∀ n event, events[n]? = some event →
        MovesOn fastDiff (mirrorAt fastDiff codeMirror text composing events n) event := by
  constructor
  · intro h n
    induction n using Nat.strong_induction_on with
    | _ n ih =>
      intro event hev
      apply movesOn_of_mirror hself codeMirror (agreed_at hself ih)
      have hagree := h.agree (n + 1)
      rwa [mirrorAt, stateAt_succ hev] at hagree
  intro hmoves
  have hagr := fun n => agreed_at (n := n) hself fun m _ => hmoves m
  refine ⟨fun n => (hagr n).mirror, fun n => base_at hself fun m _ => hmoves m, ?_⟩
  intro n event base hev hf hb hp
  obtain ⟨hst, hytext, -⟩ := flushed_next hself codeMirror hf hb hp
  have hm := (hagr (n + 1)).mirror
  rw [mirrorAt, stateAt_succ hev] at hm ⊢
  have hfr : (mirrorNext fastDiff codeMirror
      (mirrorAt fastDiff codeMirror text composing events n) event).state.holding = false := by
    rw [hst]
  exact ⟨hfr, (hm hfr).1.trans hytext, hytext⟩

end Invariant

/-- The breaks of a string, each as one line feed; `afterReturn` says that a `\r` came last. -/
def lineFeeds : Bool → JsString → JsString
  | _, [] => []
  | afterReturn, c :: cs =>
    if c = carriageReturn then 10 :: lineFeeds true cs
    else if c = 10 ∧ afterReturn = true then lineFeeds false cs
    else c :: lineFeeds false cs

theorem lineFeeds_of_clean (text : JsString) (h : carriageReturn ∉ text) :
    lineFeeds false text = text := by
  induction text with
  | nil => rfl
  | cons c cs ih =>
    rw [mem_cons, not_or] at h
    rw [lineFeeds, if_neg (Ne.symm h.1), if_neg (fun hbreak => Bool.false_ne_true hbreak.2), ih h.2]

theorem clean_lineFeeds (afterReturn : Bool) (text : JsString) :
    carriageReturn ∉ lineFeeds afterReturn text := by
  induction text generalizing afterReturn with
  | nil => exact not_mem_nil
  | cons c cs ih =>
    rw [lineFeeds]
    split
    · rw [mem_cons, not_or]
      exact ⟨by decide, ih true⟩
    · next hret =>
      split
      · exact ih false
      rw [mem_cons, not_or]
      exact ⟨Ne.symm hret, ih false⟩

/-- The line separators a `CodeMirror` state splits at by default. -/
def defaultSplit : EditorText :=
  ⟨lineFeeds false, lineFeeds_of_clean, clean_lineFeeds false⟩

/-- The other side inserts during a composition, the flush brings both insertions together. -/
theorem mirrors_composed :
    Mirrors affixDiffer (mirrorAt affixDiffer defaultSplit (js "ab") true
      [.remote [.retain 2, .insert (js "1")], .localUpdate [⟨0, 0, js "x"⟩], .composing false,
        .sessionEnded, .remote [.delete 1]])
      [.remote [.retain 2, .insert (js "1")], .localUpdate [⟨0, 0, js "x"⟩], .composing false,
        .sessionEnded, .remote [.delete 1]] := by
  have hmoves : ∀ n < 5, ∀ event ∈ ([.remote [.retain 2, .insert (js "1")],
      .localUpdate [⟨0, 0, js "x"⟩], .composing false, .sessionEnded,
      .remote [.delete 1]] : List MirrorEvent)[n]?,
      MovesOn affixDiffer (mirrorAt affixDiffer defaultSplit (js "ab") true
        [.remote [.retain 2, .insert (js "1")], .localUpdate [⟨0, 0, js "x"⟩], .composing false,
          .sessionEnded, .remote [.delete 1]] n) event := by
    decide
  apply (mirrors_iff EditScript.affixScript_self).mpr
  intro n event hev
  obtain ⟨hn, -⟩ := List.getElem?_eq_some_iff.mp hev
  exact hmoves n hn event hev

/-- Both sides insert the same text during a composition: the flush has nothing to do, and forgets
to agree on what it finds. -/
theorem same_change_leaves_stale_content :
    ¬ Mirrors affixDiffer (mirrorAt affixDiffer defaultSplit (js "ab") true
      [.remote [.retain 2, .insert (js "1")], .localUpdate [⟨2, 2, js "1"⟩], .composing false,
        .sessionEnded])
      [.remote [.retain 2, .insert (js "1")], .localUpdate [⟨2, 2, js "1"⟩], .composing false,
        .sessionEnded] := by
  intro h
  have hagr := (h.agree 4 (by decide)).2
  revert hagr
  decide

end Kaos.Sync
