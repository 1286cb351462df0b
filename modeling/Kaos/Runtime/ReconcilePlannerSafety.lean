import Kaos.Runtime.OpenBoundFilePlanner

/-! What the two planners overwrite, what they keep of it, and when they let the disk win. -/
namespace Kaos.Runtime

section Decision

variable {η : Type*} [DecidableEq η]

/-- The five ways in which `decideClosedFileConflict` settles two different texts. -/
inductive Decided (input : ClosedFileConflictInput η) : ClosedFileConflictDecision → Prop
  | selfMirror (hself : input.diskChangeIsSelfMirror = true) : Decided input .applyRemoteToDisk
  | missingBaseline (newer : Bool) (hself : input.diskChangeIsSelfMirror = false)
      (hbaseline : input.baselineHash = none) : Decided input (missingBaselineDecision newer)
  | diskAtBaseline (hself : input.diskChangeIsSelfMirror = false)
      (hbaseline : input.baselineHash = some input.diskHash) : Decided input .applyRemoteToDisk
  | crdtAtBaseline (hself : input.diskChangeIsSelfMirror = false)
      (hbaseline : input.baselineHash = some input.crdtHash) : Decided input .importDiskToCrdt
  | bothChanged (b : η) (hself : input.diskChangeIsSelfMirror = false)
      (hbaseline : input.baselineHash = some b) (hdisk : input.diskHash ≠ b)
      (hcrdt : input.crdtHash ≠ b) : Decided input (.preserveConflict .bothChanged .disk .crdt)

theorem decided (input : ClosedFileConflictInput η) (hne : input.diskHash ≠ input.crdtHash) :
    Decided input (decideClosedFileConflict input) := by
  rw [decideClosedFileConflict, if_neg hne]
  cases hs : input.diskChangeIsSelfMirror with
  | true => exact .selfMirror hs
  | false =>
    rw [if_neg (by simp)]
    cases hb : input.baselineHash with
    | none =>
      dsimp only
      split <;> exact .missingBaseline _ hs hb
    | some b =>
      by_cases hd : input.diskHash = b
      · have hcrdt : input.crdtHash ≠ b := fun h => hne (hd.trans h.symm)
        simpa [hd, hcrdt] using Decided.diskAtBaseline hs (hd ▸ hb)
      by_cases hcrdt : input.crdtHash = b
      · simpa [hd, hcrdt] using Decided.crdtAtBaseline hs (hcrdt ▸ hb)
      · simpa [hd, hcrdt] using Decided.bothChanged b hs hb hd hcrdt

end Decision

section Sides

variable {η : Type*}

def ClosedFileConflictInput.hashOf (input : ClosedFileConflictInput η) : ConflictSide → η
  | .disk => input.diskHash
  | .crdt => input.crdtHash

def ConflictSide.other : ConflictSide → ConflictSide
  | .disk => .crdt
  | .crdt => .disk

/-- The text of this side is on no other side and is no known baseline. -/
def Unsettled (input : ClosedFileConflictInput η) (side : ConflictSide) : Prop :=
  input.hashOf side ≠ input.hashOf side.other ∧ input.baselineHash ≠ some (input.hashOf side)

namespace ClosedFileReconcileAction

def Overwrites : ClosedFileReconcileAction → ConflictSide → Prop
  | .applyRemoteToDisk, side => side = .disk
  | .importDiskToCrdt, side => side = .crdt
  | .createConflictArtifact _ winner _, side => side ≠ winner
  | _, _ => False

def Preserves : ClosedFileReconcileAction → ConflictSide → Prop
  | .createConflictArtifact _ _ preserveSide, side => side = preserveSide
  | _, _ => False

/-- The disk text is imported or is named the winner. -/
def FavoursDisk : ClosedFileReconcileAction → Prop
  | .importDiskToCrdt => True
  | .createConflictArtifact _ winner _ => winner = .disk
  | _ => False

end ClosedFileReconcileAction

namespace OpenBoundFileReconcileAction

/-- Where the editor wins, a side it does not hold is overwritten with what it holds. -/
def Overwrites (authority : OpenBoundEditorAuthority) :
    OpenBoundFileReconcileAction → ConflictSide → Prop
  | .importDiskToCrdt .., side => side = .crdt
  | .applyCrdtToDisk .., side => side = .disk
  | .editorWinsPreserve .., .disk => authority ≠ .single .disk
  | .editorWinsPreserve .., .crdt => authority ≠ .single .crdt ∧ authority ≠ .single .both
  | _, _ => False

def Preserves : OpenBoundFileReconcileAction → ConflictSide → Prop
  | .importDiskToCrdt _ preserveCrdt _, side => side = .crdt ∧ preserveCrdt = true
  | .applyCrdtToDisk _ preserveDisk _, side => side = .disk ∧ preserveDisk = true
  | .editorWinsPreserve _ _ preserveDisk _, .disk => preserveDisk = true
  | .editorWinsPreserve _ preserveCrdt _ _, .crdt => preserveCrdt = true
  | _, _ => False

/-- The disk text is imported, or it wins as the text of the editor. -/
def FavoursDisk (authority : OpenBoundEditorAuthority) : OpenBoundFileReconcileAction → Prop
  | .importDiskToCrdt .. => True
  | .editorWinsPreserve .. => authority = .single .disk
  | _ => False

end OpenBoundFileReconcileAction

end Sides

section Planners

variable {η : Type*} [DecidableEq η]

variable {side : ConflictSide}

omit [DecidableEq η] in
/-- What a decision overwrites it preserves, unless it is settled or the mirror wrote it. -/
theorem decision_keeps {input : ClosedFileConflictInput η} {decision : ClosedFileConflictDecision}
    (h : Decided input decision) (hs : (mapConflictDecisionToAction decision).Overwrites side) :
    (mapConflictDecisionToAction decision).Preserves side ∨
      input.baselineHash = some (input.hashOf side) ∨
      (side = .disk ∧ input.diskChangeIsSelfMirror = true) := by
  cases h with
  | selfMirror hsf => exact .inr (.inr ⟨hs, hsf⟩)
  | missingBaseline newer hsf hb =>
    left
    cases newer <;> cases side <;> first | rfl | exact (hs rfl).elim
  | diskAtBaseline hsf hb | crdtAtBaseline hsf hb =>
    exact .inr (.inl (hs ▸ hb))
  | bothChanged b hsf hb hd hcrdt =>
    left
    cases side with
    | disk => exact (hs rfl).elim
    | crdt => rfl

/-- The actions of `planClosedFileReconcile` on two different texts. -/
theorem closed_plan_cases (input : ClosedFileReconcileInput η)
    (hne : input.diskHash ≠ input.crdtHash) :
    planClosedFileReconcile input = .noOp ∧ input.authoritative = false ∨
    planClosedFileReconcile input = .deferToCrdtFlush ∧ input.isOpenOrBound = true ∨
    (input.authoritative = true ∧ input.isOpenOrBound = false) ∧
      ((∃ reason, planClosedFileReconcile input = .createConflictArtifact reason .disk .crdt ∧
          (input.pathBindingStatus ≠ .ok ∧ input.pathBindingStatus ≠ .unknown ∨
            input.baselineHash = none ∧ input.hasPendingLocalCreate = true)) ∨
        ¬ (input.pathBindingStatus ≠ .ok ∧ input.pathBindingStatus ≠ .unknown ∨
            input.baselineHash = none ∧ input.hasPendingLocalCreate = true) ∧
          planClosedFileReconcile input = mapConflictDecisionToAction
            (decideClosedFileConflict input.toClosedFileConflictInput)) := by
  rw [planClosedFileReconcile, if_neg hne]
  cases haut : input.authoritative with
  | false => exact .inl ⟨rfl, rfl⟩
  | true =>
    cases ho : input.isOpenOrBound with
    | true => exact .inr (.inl ⟨rfl, rfl⟩)
    | false =>
      refine .inr (.inr ⟨⟨rfl, rfl⟩, ?_⟩)
      by_cases hbin : input.pathBindingStatus ≠ .ok ∧ input.pathBindingStatus ≠ .unknown
      · rw [if_pos hbin]
        exact .inl ⟨_, rfl, .inl hbin⟩
      rw [if_neg hbin]
      by_cases hcreate : input.baselineHash = none ∧ input.hasPendingLocalCreate
      · rw [if_pos hcreate]
        exact .inl ⟨_, rfl, .inr hcreate⟩
      rw [if_neg hcreate]
      exact .inr ⟨not_or.mpr ⟨hbin, hcreate⟩, rfl⟩

/-- What the closed planner overwrites it preserves, or it is settled or the mirror's. -/
theorem closed_plan_keeps (input : ClosedFileReconcileInput η) (side : ConflictSide)
    (hs : (planClosedFileReconcile input).Overwrites side) :
    (planClosedFileReconcile input).Preserves side ∨
      input.baselineHash = some (input.hashOf side) ∨
      (side = .disk ∧ input.diskChangeIsSelfMirror = true) := by
  by_cases hne : input.diskHash = input.crdtHash
  · rw [planClosedFileReconcile, if_pos hne] at hs
    exact hs.elim
  rcases closed_plan_cases input hne with ⟨hp, -⟩ | ⟨hp, -⟩ | ⟨-, hp⟩
  · rw [hp] at hs
    exact hs.elim
  · rw [hp] at hs
    exact hs.elim
  rcases hp with ⟨reason, hp, -⟩ | ⟨-, hp⟩ <;> rw [hp] at hs ⊢
  · cases side with
    | disk => exact (hs rfl).elim
    | crdt => exact .inl rfl
  · exact decision_keeps (decided _ hne) hs

variable (input : OpenBoundFileReconcileInput η)

/-- The plan of the open planner follows the editor, or there is none to follow. -/
theorem open_plan_cases (hne : input.diskHash ≠ input.crdtHash) :
    (planOpenBoundFileReconcile input = .deferRecentEditor ∧ input.hasRecentEditorActivity = true) ∨
      (∃ reason, planOpenBoundFileReconcile input = .ambiguousConflict reason ∧
        ∀ relation, input.editorAuthority ≠ .single relation) ∨
      ∃ relation, input.hasRecentEditorActivity = false ∧
        input.editorAuthority = .single relation ∧
        planOpenBoundFileReconcile input = planSingleEditor input relation := by
  rw [planOpenBoundFileReconcile, if_neg hne]
  cases hrec : input.hasRecentEditorActivity with
  | true => exact .inl ⟨rfl, rfl⟩
  | false =>
    right
    cases hauth : input.editorAuthority with
    | single relation => exact .inr ⟨relation, rfl, rfl, rfl⟩
    | multiple | readFailed | none => exact .inl ⟨_, rfl, by simp⟩

/-- A stale editor leaves the texts to the decision for closed files. -/
theorem planStaleEditor_keeps {input : ClosedFileConflictInput η}
    (hne : input.diskHash ≠ input.crdtHash) (authority : OpenBoundEditorAuthority)
    (hs : (planStaleEditor input).Overwrites authority side) :
    (planStaleEditor input).Preserves side ∨ input.baselineHash = some (input.hashOf side) ∨
      (side = .disk ∧ input.diskChangeIsSelfMirror = true) := by
  have hdec := decided input hne
  rw [planStaleEditor] at hs ⊢
  generalize decideClosedFileConflict input = decision at hdec hs ⊢
  cases hdec with
  | selfMirror hsf => exact .inr (.inr ⟨hs, hsf⟩)
  | missingBaseline newer hsf hb =>
    left
    cases newer <;> exact ⟨hs, rfl⟩
  | diskAtBaseline hsf hb | crdtAtBaseline hsf hb =>
    exact .inr (.inl (hs ▸ hb))
  | bothChanged b hsf hb hd hcrdt => exact .inl ⟨hs, rfl⟩

/-- Where one text is the baseline, only the mirror's own output is lost with the other. -/
theorem planOneChangedSide_keeps {input : ClosedFileConflictInput η}
    (hne : input.diskHash ≠ input.crdtHash) (relation : EditorRelation) {b : η}
    (hb : input.baselineHash = some b) (hone : ¬ (input.diskHash ≠ b ∧ input.crdtHash ≠ b))
    (hs : (planOneChangedSide input relation).Overwrites (.single relation) side) :
    input.baselineHash = some (input.hashOf side) ∨
      (side = .disk ∧ input.diskChangeIsSelfMirror = true) := by
  have hdec := decided input hne
  rw [planOneChangedSide] at hs
  generalize decideClosedFileConflict input = decision at hdec hs
  cases hdec with
  | selfMirror hsf => exact .inr ⟨hs, hsf⟩
  | missingBaseline newer hsf hn => simp [hn] at hb
  | diskAtBaseline hsf hd => exact .inl (hs ▸ hd)
  | crdtAtBaseline hsf hcrdt => exact .inl (hs ▸ hcrdt)
  | bothChanged b' hsf hboth hd hcrdt =>
    obtain rfl : b' = b := Option.some.inj (hboth.symm.trans hb)
    exact (hone ⟨hd, hcrdt⟩).elim

/-- A text that the visible editor does not hold is preserved without a baseline. -/
theorem planMissingBaseline_preserves (input : ClosedFileConflictInput η)
    {relation : EditorRelation} (hrel : relation ≠ .distinct)
    (hs : (planMissingBaseline input relation).Overwrites (.single relation) side) :
    (planMissingBaseline input relation).Preserves side := by
  cases relation with
  | distinct => exact (hrel rfl).elim
  | disk => exact ⟨hs, rfl⟩
  | crdt =>
    cases side with
    | disk => rfl
    | crdt => exact (hs.1 rfl).elim
  | both =>
    cases side with
    | disk => rfl
    | crdt => exact (hs.2 rfl).elim

omit [DecidableEq η] in
theorem planBothChanged_preserves {relation : EditorRelation} (hrel : relation ≠ .distinct)
    (hs : (planBothChanged relation).Overwrites (.single relation) side) :
    (planBothChanged relation).Preserves side := by
  cases relation with
  | distinct => exact (hrel rfl).elim
  | disk => exact ⟨hs, rfl⟩
  | crdt =>
    cases side with
    | disk => rfl
    | crdt => exact (hs.1 rfl).elim
  | both =>
    cases side with
    | disk => rfl
    | crdt => exact (hs.2 rfl).elim

/-- An editor that holds neither text leaves both preserved where there is no baseline. -/
theorem planSingleEditor_of_none {input : OpenBoundFileReconcileInput η}
    (hb : input.baselineHash = none) (relation : EditorRelation) :
    planSingleEditor input relation =
      if relation = .distinct then .editorWinsPreserve (.conflict .missingBaseline) true true none
      else planMissingBaseline input.toClosedFileConflictInput relation := by
  cases relation <;> simp [planSingleEditor, hb]

theorem planSingleEditor_of_some {input : OpenBoundFileReconcileInput η} {b : η}
    (hb : input.baselineHash = some b) (relation : EditorRelation) :
    planSingleEditor input relation =
      if relation = .distinct then
        if input.editorMatchesBaseline then planStaleEditor input.toClosedFileConflictInput
        else .editorWinsPreserve (.conflict .bothChanged) true true none
      else if input.diskHash ≠ b ∧ input.crdtHash ≠ b then planBothChanged relation
      else planOneChangedSide input.toClosedFileConflictInput relation := by
  cases relation <;> simp [planSingleEditor, hb]

/-- Without a baseline the open planner preserves all that it overwrites. -/
theorem open_plan_preserves_of_none (hb : input.baselineHash = none) (side : ConflictSide)
    (hs : (planOpenBoundFileReconcile input).Overwrites input.editorAuthority side) :
    (planOpenBoundFileReconcile input).Preserves side := by
  by_cases hne : input.diskHash = input.crdtHash
  · rw [planOpenBoundFileReconcile, if_pos hne] at hs
    exact hs.elim
  rcases open_plan_cases input hne with ⟨hp, -⟩ | ⟨_, hp, -⟩ | ⟨relation, -, hsg, hp⟩
  · rw [hp] at hs
    exact hs.elim
  · rw [hp] at hs
    exact hs.elim
  rw [hp, planSingleEditor_of_none hb, hsg] at hs
  rw [hp, planSingleEditor_of_none hb]
  by_cases hrel : relation = .distinct
  · rw [if_pos hrel]
    cases side <;> rfl
  rw [if_neg hrel] at hs ⊢
  exact planMissingBaseline_preserves _ hrel hs

/-- What the open planner overwrites it preserves, or it is settled or the mirror's. -/
theorem open_plan_keeps (side : ConflictSide)
    (hs : (planOpenBoundFileReconcile input).Overwrites input.editorAuthority side) :
    (planOpenBoundFileReconcile input).Preserves side ∨
      input.baselineHash = some (input.hashOf side) ∨
      (side = .disk ∧ input.diskChangeIsSelfMirror = true) := by
  cases hb : input.baselineHash with
  | none => exact .inl (open_plan_preserves_of_none input hb side hs)
  | some b =>
    by_cases hne : input.diskHash = input.crdtHash
    · rw [planOpenBoundFileReconcile, if_pos hne] at hs
      exact hs.elim
    rcases open_plan_cases input hne with
      ⟨hp, -⟩ | ⟨_, hp, -⟩ | ⟨relation, -, hsg, hp⟩
    · rw [hp] at hs
      exact hs.elim
    · rw [hp] at hs
      exact hs.elim
    rw [hp, planSingleEditor_of_some hb, hsg] at hs
    rw [hp, planSingleEditor_of_some hb, ← hb]
    by_cases hrel : relation = .distinct
    · rw [if_pos hrel] at hs ⊢
      by_cases hst : input.editorMatchesBaseline
      · rw [if_pos hst] at hs ⊢
        exact planStaleEditor_keeps hne _ hs
      rw [if_neg hst]
      left
      cases side <;> rfl
    rw [if_neg hrel] at hs ⊢
    by_cases hboth : input.diskHash ≠ b ∧ input.crdtHash ≠ b
    · rw [if_pos hboth] at hs ⊢
      exact .inl (planBothChanged_preserves hrel hs)
    rw [if_neg hboth] at hs ⊢
    exact .inr (planOneChangedSide_keeps hne relation hb hboth hs)

/-- Both planners keep, on every input, each text that they overwrite and that is not settled,
the mirror's own output apart; without a baseline they keep every other one. -/
theorem planners_keep_unsettled :
    (∀ (input : ClosedFileReconcileInput η) (side : ConflictSide),
      (planClosedFileReconcile input).Overwrites side →
        (Unsettled input.toClosedFileConflictInput side ∨ input.baselineHash = none) →
        (planClosedFileReconcile input).Preserves side ∨
          (side = .disk ∧ input.diskChangeIsSelfMirror = true)) ∧
    (∀ (input : OpenBoundFileReconcileInput η) (side : ConflictSide),
      (planOpenBoundFileReconcile input).Overwrites input.editorAuthority side →
        (Unsettled input.toClosedFileConflictInput side →
          (planOpenBoundFileReconcile input).Preserves side ∨
            (side = .disk ∧ input.diskChangeIsSelfMirror = true)) ∧
        (input.baselineHash = none → (planOpenBoundFileReconcile input).Preserves side)) ∧
    (∀ input : ClosedFileReconcileInput η, input.diskHash = input.crdtHash →
      planClosedFileReconcile input = .noOp) ∧
    (∀ input : OpenBoundFileReconcileInput η, input.diskHash = input.crdtHash →
      planOpenBoundFileReconcile input = .noOp) := by
  refine ⟨?_, ?_, fun input heq => if_pos heq, fun input heq => if_pos heq⟩
  · intro input side hsi huns
    rcases closed_plan_keeps input side hsi with hk | hs | hm
    · exact .inl hk
    · rcases huns with ⟨-, hne⟩ | hn
      · exact (hne hs).elim
      · simp [hn] at hs
    · exact .inr hm
  intro input side hsi
  refine ⟨?_, fun hn => open_plan_preserves_of_none input hn side hsi⟩
  rintro ⟨-, hne⟩
  rcases open_plan_keeps input side hsi with hk | hs | hm
  · exact .inl hk
  · exact (hne hs).elim
  · exact .inr hm

/-- A closed file without a baseline whose disk text the mirror wrote. -/
def mirroredClosedFile : ClosedFileReconcileInput ℕ where
  baselineHash := none
  diskHash := 1
  crdtHash := 2
  diskChangeIsSelfMirror := true
  diskMtime := none
  lastDiskIndexPersistedAt := none
  lastFileSettledAtMs := none
  authoritative := true
  isOpenOrBound := false
  hasPendingLocalCreate := false
  pathBindingStatus := .ok

/-- Not every losing side is preserved where there is no baseline. -/
theorem mirrored_text_not_preserved :
    ¬ ∀ (input : ClosedFileReconcileInput ℕ) (side : ConflictSide), input.baselineHash = none →
      (planClosedFileReconcile input).Overwrites side →
        (planClosedFileReconcile input).Preserves side := by
  intro h
  have hp : planClosedFileReconcile mirroredClosedFile = .applyRemoteToDisk := by decide
  have hk := h mirroredClosedFile .disk rfl (by rw [hp]; rfl)
  rwa [hp] at hk

/-- The open planner lets the disk win over the CRDT only for an editor that shows the disk. -/
theorem open_plan_favoursDisk {input : OpenBoundFileReconcileInput η}
    (hsf : input.diskChangeIsSelfMirror = true) (hne : input.diskHash ≠ input.crdtHash) :
    (planOpenBoundFileReconcile input).FavoursDisk input.editorAuthority ↔
      input.hasRecentEditorActivity = false ∧ input.editorAuthority = .single .disk ∧
        (input.baselineHash ≠ some input.diskHash ∧ input.baselineHash ≠ some input.crdtHash) := by
  have hdec : decideClosedFileConflict input.toClosedFileConflictInput = .applyRemoteToDisk := by
    rw [decideClosedFileConflict, if_neg hne, if_pos hsf]
  rcases open_plan_cases input hne with
    ⟨hp, hrec⟩ | ⟨_, hp, hn⟩ | ⟨relation, hrec, hs, hp⟩
  · simp [hp, hrec, OpenBoundFileReconcileAction.FavoursDisk]
  · simp [hp, hn, OpenBoundFileReconcileAction.FavoursDisk]
  rw [hp, hs]
  cases hb : input.baselineHash with
  | none =>
    rw [planSingleEditor_of_none hb]
    cases relation <;> simp [planMissingBaseline, OpenBoundFileReconcileAction.FavoursDisk, hrec]
  | some b =>
    rw [planSingleEditor_of_some hb]
    by_cases hboth : input.diskHash ≠ b ∧ input.crdtHash ≠ b
    · cases relation <;> cases input.editorMatchesBaseline <;>
        simp [planStaleEditor, hdec, planBothChanged, hboth, hrec, Ne.symm hboth.1,
          Ne.symm hboth.2, OpenBoundFileReconcileAction.FavoursDisk]
    have hone : ¬ (b ≠ input.diskHash ∧ b ≠ input.crdtHash) := by
      rintro ⟨hd, hcrdt⟩
      exact hboth ⟨hd.symm, hcrdt.symm⟩
    cases relation <;> cases input.editorMatchesBaseline <;>
      simp [planStaleEditor, hdec, planOneChangedSide, hboth,
        OpenBoundFileReconcileAction.FavoursDisk] <;> grind

omit [DecidableEq η] in
theorem overwrites_crdt_of_favoursDisk {action : OpenBoundFileReconcileAction}
    (h : action.FavoursDisk (.single .disk)) : action.Overwrites (.single .disk) .crdt := by
  cases action with
  | importDiskToCrdt reason preserveCrdt policy => rfl
  | editorWinsPreserve reason preserveCrdt preserveDisk policy => exact ⟨by simp, by simp⟩
  | _ => exact h.elim

/-- The mirror's own output wins only through the two guards before the closed decision, and
where the one visible editor shows it; the CRDT text is then preserved. -/
theorem self_mirror_wins_iff :
    (∀ input : ClosedFileReconcileInput η, input.diskChangeIsSelfMirror = true →
      input.diskHash ≠ input.crdtHash →
        ((planClosedFileReconcile input).FavoursDisk ↔
          input.authoritative = true ∧ input.isOpenOrBound = false ∧
            (input.pathBindingStatus ≠ .ok ∧ input.pathBindingStatus ≠ .unknown ∨
              input.baselineHash = none ∧ input.hasPendingLocalCreate = true)) ∧
        ((planClosedFileReconcile input).FavoursDisk →
          (planClosedFileReconcile input).Preserves .crdt)) ∧
    (∀ input : OpenBoundFileReconcileInput η, input.diskChangeIsSelfMirror = true →
      input.diskHash ≠ input.crdtHash →
        ((planOpenBoundFileReconcile input).FavoursDisk input.editorAuthority ↔
          input.hasRecentEditorActivity = false ∧ input.editorAuthority = .single .disk ∧
            (input.baselineHash ≠ some input.diskHash ∧ input.baselineHash ≠ some input.crdtHash)) ∧
        ((planOpenBoundFileReconcile input).FavoursDisk input.editorAuthority →
          (planOpenBoundFileReconcile input).Preserves .crdt)) := by
  refine ⟨?_, ?_⟩ <;> intro input hsf hne
  · have hdec : decideClosedFileConflict input.toClosedFileConflictInput = .applyRemoteToDisk := by
      rw [decideClosedFileConflict, if_neg hne, if_pos hsf]
    rcases closed_plan_cases input hne with
      ⟨hp, hmode⟩ | ⟨hp, ho⟩ | ⟨⟨hmode, ho⟩, hp⟩
    · simp [hp, hmode, ClosedFileReconcileAction.FavoursDisk]
    · simp [hp, ho, ClosedFileReconcileAction.FavoursDisk]
    rcases hp with ⟨reason, hp, hg⟩ | ⟨hg, hp⟩
    · simp only [hp, ClosedFileReconcileAction.FavoursDisk,
        ClosedFileReconcileAction.Preserves, hmode, ho, hg, and_self, implies_true]
    simp only [hp, hdec, mapConflictDecisionToAction, hg,
      ClosedFileReconcileAction.FavoursDisk, and_false, false_implies, and_self]
  refine ⟨open_plan_favoursDisk hsf hne, ?_⟩
  intro hfav
  obtain ⟨-, hsg, -, hcrdt⟩ := (open_plan_favoursDisk hsf hne).mp hfav
  have hsi : (planOpenBoundFileReconcile input).Overwrites input.editorAuthority .crdt := by
    rw [hsg] at hfav ⊢
    exact overwrites_crdt_of_favoursDisk hfav
  rcases open_plan_keeps input .crdt hsi with hk | hs | ⟨hd, -⟩
  · exact hk
  · exact (hcrdt hs).elim
  · cases hd

/-- A note whose editor shows the text that the mirror wrote, with no baseline. -/
def mirroredOpenNote : OpenBoundFileReconcileInput ℕ where
  baselineHash := none
  diskHash := 1
  crdtHash := 2
  diskChangeIsSelfMirror := true
  diskMtime := none
  lastDiskIndexPersistedAt := none
  lastFileSettledAtMs := none
  editorAuthority := .single .disk
  hasRecentEditorActivity := false
  editorMatchesBaseline := false

/-- The mirror's own output is imported over the CRDT where the editor shows it. -/
theorem mirrored_text_imported :
    ¬ ∀ input : OpenBoundFileReconcileInput ℕ, input.diskChangeIsSelfMirror = true →
      input.diskHash ≠ input.crdtHash →
        ¬ (planOpenBoundFileReconcile input).FavoursDisk input.editorAuthority := by
  intro h
  have hp : planOpenBoundFileReconcile mirroredOpenNote = .importDiskToCrdt
      (.conflict .missingBaseline) true (some .openBoundVisibleAuthority) := by decide
  exact h mirroredOpenNote rfl (by decide) (by rw [hp]; trivial)

end Planners

end Kaos.Runtime
