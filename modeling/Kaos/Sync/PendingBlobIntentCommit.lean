import Kaos.Lib.Run
import Kaos.Sync.BlobIntentFence

/-! The write-ahead commit of an intent, with every answer of its hooks and a stop at any point. -/
namespace Kaos.Sync

open Kaos.Lib PendingBlobIntentJournal

inductive AmbiguousStage
  | precondition
  | apply
  | postcondition
  | clearAttempt
  | markCommitted
  deriving DecidableEq

/-- What the commit returns; `threw` where a hook outside any `try` throws. -/
inductive CommitOutcome (Result : Type*)
  | notStarted
  | attemptPersistFailed
  | staleAfterAttempt
  | ambiguous (stage : AmbiguousStage) (result : Option Result)
  | knownNoMutation (result : Result)
  | clearPersistFailed (result : Result)
  | committed (result : Result) (receiptFailed : Bool)
  | commitPersistFailed (result : Result) (receiptFailed : Bool)
  | threw
  deriving DecidableEq

/-- Where the commit is. A write in progress has the snapshot it took, and whether it has taken
effect; the two writes of the end settle in any order. -/
inductive CommitPoint (Result : Type*)
  | start
  | persistingAttempt (snapshot : List PendingBlobIntent) (landed : Bool)
  | checkingAttempt
  | applying
  | checkingApply (result : Result)
  | classifying (result : Result)
  | clearing (result : Result)
  | persistingClear (result : Result) (snapshot : List PendingBlobIntent) (landed : Bool)
  | marking (result : Result)
  | persistingCommit (result : Result) (snapshot : List PendingBlobIntent) (landed : Bool)
      (final receipt : Option Bool)
  | done (outcome : CommitOutcome Result)
  deriving DecidableEq

/-- A hook does its work, returns false at once, or throws. -/
inductive HookAnswer
  | acts
  | refuses
  | throws

inductive CommitEvent (Result : Type*)
  | markAttempted (answer : HookAnswer)
  /-- The write in progress takes effect. -/
  | landed
  | attemptPersisted (ok : Bool)
  | isAttemptCurrent (answer : Option Bool)
  | apply (result : Option Result)
  | isApplyCurrent (answer : Option Bool)
  | isKnownNoMutation (throws : Bool)
  | clearAttempt (answer : HookAnswer)
  | clearPersisted (ok : Bool)
  | markCommitted (answer : HookAnswer)
  | finalSettled (ok : Bool)
  | receiptSettled (ok : Bool)
  /-- Other code has changed the journal. -/
  | otherChange (journal : PendingBlobIntentJournal)
  /-- Other code has stored the journal. -/
  | otherWrite

/-- The arguments of the hooks: the intent, the attempt and what a commit records. -/
structure CommitArgs (Result : Type*) where
  id : JsString
  commitAttemptId : JsString
  attemptedAt : ℤ
  attemptSessionId : JsString
  committedAt : ℤ
  commitSessionId : JsString
  receiptCandidateId : Option JsString
  commitDeleteFingerprint : Option JsString
  isKnownNoMutation : Result → Bool

/-- The journal in memory, what is stored of it, where the commit is and what each run of `apply`
gave: a result, or `none` where it threw. -/
structure CommitWorld (Result : Type*) where
  journal : PendingBlobIntentJournal
  durable : List PendingBlobIntent
  point : CommitPoint Result
  applies : List (Option Result)

/-- The record of an intent among some entries. -/
def recordOf (id : JsString) (entries : List PendingBlobIntent) : Option PendingBlobIntent :=
  entries.find? fun entry => entry.id = id

section Steps

variable {Result : Type*} (args : CommitArgs Result) (w : CommitWorld Result)

/-- A hook that works on the journal: the world it leaves, and its answer, `none` if it throws. -/
def callHook (act : PendingBlobIntentJournal → PendingBlobIntentJournal × Bool) :
    HookAnswer → CommitWorld Result × Option Bool
  | .acts => ({ w with journal := (act w.journal).1 }, some (act w.journal).2)
  | .refuses => (w, some false)
  | .throws => (w, none)

/-- The end of the commit once both writes have settled. -/
def settleCommit (result : Result) (snapshot : List PendingBlobIntent) (landed : Bool) :
    Option Bool → Option Bool → CommitPoint Result
  | some true, some receipt => .done (.committed result (!receipt))
  | some false, some receipt => .done (.commitPersistFailed result (!receipt))
  | final, receipt => .persistingCommit result snapshot landed final receipt

/-- One step; an event that cannot happen at this point changes nothing. -/
def commitNext : CommitEvent Result → CommitWorld Result
  | .markAttempted answer =>
    match w.point with
    | .start =>
      let called := callHook w (fun journal => journal.markCommitAttempted args.id
        args.commitAttemptId args.attemptedAt args.attemptSessionId) answer
      match called.2 with
      | some true => { called.1 with point := .persistingAttempt called.1.journal.getEntries false }
      | some false => { called.1 with point := .done .notStarted }
      | none => { called.1 with point := .done .threw }
    | _ => w
  | .landed =>
    match w.point with
    | .persistingAttempt snapshot false =>
      { w with durable := snapshot, point := .persistingAttempt snapshot true }
    | .persistingClear result snapshot false =>
      { w with durable := snapshot, point := .persistingClear result snapshot true }
    | .persistingCommit result snapshot false none receipt =>
      { w with durable := snapshot, point := .persistingCommit result snapshot true none receipt }
    | _ => w
  | .attemptPersisted ok =>
    match w.point with
    | .persistingAttempt _ landed =>
      if ok then if landed then { w with point := .checkingAttempt } else w
      else { w with point := .done .attemptPersistFailed }
    | _ => w
  | .isAttemptCurrent answer =>
    match w.point with
    | .checkingAttempt =>
      match answer with
      | some true => { w with point := .applying }
      | some false => { w with point := .done .staleAfterAttempt }
      | none => { w with point := .done (.ambiguous .precondition none) }
    | _ => w
  | .apply result =>
    match w.point with
    | .applying =>
      match result with
      | some result =>
        { w with applies := w.applies ++ [some result], point := .checkingApply result }
      | none =>
        { w with applies := w.applies ++ [none], point := .done (.ambiguous .apply none) }
    | _ => w
  | .isApplyCurrent answer =>
    match w.point with
    | .checkingApply result =>
      if answer = some true then { w with point := .classifying result }
      else { w with point := .done (.ambiguous .postcondition (some result)) }
    | _ => w
  | .isKnownNoMutation throws =>
    match w.point with
    | .classifying result =>
      if throws then { w with point := .done .threw }
      else if args.isKnownNoMutation result then { w with point := .clearing result }
      else { w with point := .marking result }
    | _ => w
  | .clearAttempt answer =>
    match w.point with
    | .clearing result =>
      let called := callHook w (fun journal => journal.clearCommitAttempt args.id
        args.commitAttemptId) answer
      match called.2 with
      | some true =>
        { called.1 with point := .persistingClear result called.1.journal.getEntries false }
      | some false => { called.1 with point := .done (.ambiguous .clearAttempt (some result)) }
      | none => { called.1 with point := .done .threw }
    | _ => w
  | .clearPersisted ok =>
    match w.point with
    | .persistingClear result _ landed =>
      if ok then if landed then { w with point := .done (.knownNoMutation result) } else w
      else { w with point := .done (.clearPersistFailed result) }
    | _ => w
  | .markCommitted answer =>
    match w.point with
    | .marking result =>
      let called := callHook w (fun journal => journal.markCommittedFromAttempt args.id
        args.commitAttemptId args.committedAt args.commitSessionId args.receiptCandidateId
        args.commitDeleteFingerprint) answer
      match called.2 with
      | some true => { called.1 with
          point := .persistingCommit result called.1.journal.getEntries false none none }
      | some false => { called.1 with point := .done (.ambiguous .markCommitted (some result)) }
      | none => { called.1 with point := .done .threw }
    | _ => w
  | .finalSettled ok =>
    match w.point with
    | .persistingCommit result snapshot landed none receipt =>
      if ok && !landed then w
      else { w with point := settleCommit result snapshot landed (some ok) receipt }
    | _ => w
  | .receiptSettled ok =>
    match w.point with
    | .persistingCommit result snapshot landed final none =>
      { w with point := settleCommit result snapshot landed final (some ok) }
    | _ => w
  | .otherChange journal =>
    if recordOf args.id journal.entries = recordOf args.id w.journal.entries then
      { w with journal }
    else w
  | .otherWrite => { w with durable := w.journal.getEntries }

/-- The world after some events, from any journal and any store. -/
def commitAt (journal : PendingBlobIntentJournal) (durable : List PendingBlobIntent)
    (events : List (CommitEvent Result)) (n : ℕ) : CommitWorld Result :=
  stateAt (commitNext args) { journal, durable, point := .start, applies := [] } events n

end Steps

section Records

variable {Result : Type*} {args : CommitArgs Result} {w : CommitWorld Result}
  {journal : PendingBlobIntentJournal} {record : Option PendingBlobIntent}
  {entry : PendingBlobIntent} {id : JsString}

/-- The record is of this very attempt. -/
def Attempts (args : CommitArgs Result) (record : Option PendingBlobIntent) : Prop :=
  ∃ entry, record = some entry ∧ entry.IsAttempted ∧
    entry.commitAttemptId = some args.commitAttemptId

def Commits (record : Option PendingBlobIntent) : Prop :=
  ∃ entry, record = some entry ∧ entry.IsCommitted

def IsReady (record : Option PendingBlobIntent) : Prop :=
  ∃ entry, record = some entry ∧ entry.isReadyToCommit = true

/-- A restart finds the intent attempted or committed. -/
def Fenced (record : Option PendingBlobIntent) : Prop :=
  ∃ entry, record = some entry ∧ (entry.IsAttempted ∨ entry.IsCommitted)

theorem Attempts.fenced (h : Attempts args record) : Fenced record := by
  obtain ⟨entry, hr, hatt, -⟩ := h
  exact ⟨entry, hr, .inl hatt⟩

theorem Commits.fenced (h : Commits record) : Fenced record := by
  obtain ⟨entry, hr, hc⟩ := h
  exact ⟨entry, hr, .inr hc⟩

theorem Fenced.not_isReady (h : Fenced record) : ¬ IsReady record := by
  rintro ⟨entry, hrec, hr⟩
  obtain ⟨other, ho, hph⟩ := h
  rw [hrec, Option.some.injEq] at ho
  subst ho
  simp only [PendingBlobIntent.isReadyToCommit, decide_eq_true_eq] at hr
  rcases hph with hatt | hc
  · exact hatt.1 hr.1
  · exact hc.1 hr.2.2.2.1

/-- What `getEntries` takes of an intent is a copy of its record. -/
theorem recordOf_getEntries : recordOf id journal.getEntries =
    (recordOf id journal.entries).map PendingBlobIntent.clone := by
  rw [recordOf, getEntries, List.find?_map]
  rfl

theorem Attempts.getEntries (h : Attempts args (recordOf args.id journal.entries)) :
    Attempts args (recordOf args.id journal.getEntries) := by
  obtain ⟨entry, hr, hatt, hid⟩ := h
  rw [recordOf_getEntries, hr]
  exact ⟨entry.clone, rfl, hatt, hid⟩

theorem Commits.getEntries (h : Commits (recordOf id journal.entries)) :
    Commits (recordOf id journal.getEntries) := by
  obtain ⟨entry, hr, hc⟩ := h
  rw [recordOf_getEntries, hr]
  exact ⟨entry.clone, rfl, hc⟩

theorem IsReady.getEntries (h : IsReady (recordOf id journal.entries)) :
    IsReady (recordOf id journal.getEntries) := by
  obtain ⟨entry, hr, hry⟩ := h
  rw [recordOf_getEntries, hr]
  exact ⟨entry.clone, rfl, hry⟩

/-- A mark that succeeds changes the record of its intent, one that fails nothing. -/
theorem recordOf_mark {test : PendingBlobIntent → Bool}
    {change : PendingBlobIntent → PendingBlobIntent} {P : Option PendingBlobIntent → Prop}
    (hid : ∀ entry, (change entry).id = entry.id)
    (hch : ∀ entry, test entry = true → P (some (change entry))) :
    journal.mark id test change = (journal, false) ∨
    ((journal.mark id test change).2 = true ∧
      P (recordOf id (journal.mark id test change).1.entries)) := by
  rcases mark_cases journal id test change with heq | ⟨entry, hf, htest, heq⟩
  · exact .inl heq
  refine .inr ?_
  have he := List.find?_some hf
  rw [decide_eq_true_eq] at he
  have hr : recordOf id (updateFirst (fun entry => entry.id = id) change journal.entries) =
      some (change entry) := by
    apply find?_updateFirst hf
    rw [decide_eq_true_eq]
    exact (hid entry).trans he
  rw [heq]
  refine ⟨rfl, ?_⟩
  simp only [hr]
  exact hch entry htest

variable (args) (journal)

section

variable {called : PendingBlobIntentJournal × Bool}

theorem attempts_of_markAttempted
    (h : journal.markCommitAttempted args.id args.commitAttemptId args.attemptedAt
      args.attemptSessionId = called) :
    called = (journal, false) ∨
      (called.2 = true ∧ Attempts args (recordOf args.id called.1.entries)) := by
  rw [← h, markCommitAttempted]
  split
  · exact .inl rfl
  refine recordOf_mark (fun _ => rfl) ?_
  intro entry hr
  simp only [PendingBlobIntent.isReadyToCommit, decide_eq_true_eq] at hr
  refine ⟨_, rfl, ?_, rfl⟩
  simp [PendingBlobIntent.IsAttempted, hr]

theorem isReady_of_clearAttempt
    (h : journal.clearCommitAttempt args.id args.commitAttemptId = called) :
    called = (journal, false) ∨
      (called.2 = true ∧ IsReady (recordOf args.id called.1.entries)) := by
  rw [← h, clearCommitAttempt]
  split
  · exact .inl rfl
  refine recordOf_mark (fun _ => rfl) ?_
  intro entry hatt
  exact ⟨_, rfl, ready_withoutAttempt hatt⟩

theorem commits_of_markCommitted
    (h : journal.markCommittedFromAttempt args.id args.commitAttemptId args.committedAt
      args.commitSessionId args.receiptCandidateId args.commitDeleteFingerprint = called) :
    called = (journal, false) ∨
      (called.2 = true ∧ Commits (recordOf args.id called.1.entries)) := by
  rw [← h, markCommittedFromAttempt]
  split
  · exact .inl rfl
  refine recordOf_mark (fun _ => rfl) ?_
  intro entry _
  refine ⟨_, rfl, ?_⟩
  simp [PendingBlobIntent.IsCommitted, withCommit, withoutAttempt]

end

end Records

section Invariant

variable {Result : Type*} {args : CommitArgs Result} {w : CommitWorld Result}

/-- The intent is fenced in memory and in the store by this attempt. -/
def BothAttempt (args : CommitArgs Result) (w : CommitWorld Result) : Prop :=
  Attempts args (recordOf args.id w.journal.entries) ∧ Attempts args (recordOf args.id w.durable)

/-- What an outcome says of the records. -/
def OutcomeInvariant (args : CommitArgs Result) (w : CommitWorld Result) :
    CommitOutcome Result → Prop
  | .notStarted | .attemptPersistFailed | .staleAfterAttempt | .ambiguous .precondition _ =>
    w.applies = []
  | .ambiguous _ _ => w.applies.length = 1 ∧ BothAttempt args w
  | .threw => w.applies = [] ∨ (w.applies.length = 1 ∧ BothAttempt args w)
  | .knownNoMutation result =>
    w.applies = [some result] ∧ args.isKnownNoMutation result = true ∧
      IsReady (recordOf args.id w.journal.entries) ∧ IsReady (recordOf args.id w.durable)
  | .clearPersistFailed result => w.applies = [some result] ∧ args.isKnownNoMutation result = true
  | .committed _ _ =>
    w.applies.length = 1 ∧ Commits (recordOf args.id w.journal.entries) ∧
      Commits (recordOf args.id w.durable)
  | .commitPersistFailed _ _ =>
    w.applies.length = 1 ∧ Commits (recordOf args.id w.journal.entries) ∧
      Fenced (recordOf args.id w.durable)

/-- What the records are at each point of the commit. -/
def CommitInvariant (args : CommitArgs Result) (w : CommitWorld Result) : Prop :=
  match w.point with
  | .start => w.applies = []
  | .persistingAttempt snapshot landed =>
    w.applies = [] ∧ Attempts args (recordOf args.id w.journal.entries) ∧
      Attempts args (recordOf args.id snapshot) ∧
      (landed = true → Attempts args (recordOf args.id w.durable))
  | .checkingAttempt | .applying => w.applies = [] ∧ BothAttempt args w
  | .checkingApply result | .classifying result => w.applies = [some result] ∧ BothAttempt args w
  | .clearing result =>
    w.applies = [some result] ∧ args.isKnownNoMutation result = true ∧ BothAttempt args w
  | .persistingClear result snapshot landed =>
    w.applies = [some result] ∧ args.isKnownNoMutation result = true ∧
      IsReady (recordOf args.id w.journal.entries) ∧ IsReady (recordOf args.id snapshot) ∧
      (landed = true → IsReady (recordOf args.id w.durable))
  | .marking result => w.applies = [some result] ∧ BothAttempt args w
  | .persistingCommit result snapshot landed final _ =>
    w.applies = [some result] ∧ Commits (recordOf args.id w.journal.entries) ∧
      Commits (recordOf args.id snapshot) ∧ Fenced (recordOf args.id w.durable) ∧
      (landed = true → Commits (recordOf args.id w.durable)) ∧
      (final = some true → landed = true)
  | .done outcome => OutcomeInvariant args w outcome

section

variable (h : CommitInvariant args w)
include h

theorem invariant_markAttempted (answer : HookAnswer) :
    CommitInvariant args (commitNext args w (.markAttempted answer)) := by
  unfold commitNext
  dsimp only
  split
  · next hp =>
    simp only [CommitInvariant, hp] at h
    cases answer with
    | acts =>
      rcases attempts_of_markAttempted args w.journal rfl with heq | ⟨htrue, hatts⟩
      · simp [callHook, heq, CommitInvariant, OutcomeInvariant, h]
      simp only [callHook, htrue, CommitInvariant]
      exact ⟨h, hatts, hatts.getEntries, Bool.noConfusion⟩
    | refuses => exact h
    | throws => exact .inl h
  · exact h

theorem invariant_clearAttempt (answer : HookAnswer) :
    CommitInvariant args (commitNext args w (.clearAttempt answer)) := by
  unfold commitNext
  dsimp only
  split
  · next result hp =>
    simp only [CommitInvariant, hp] at h
    obtain ⟨ha, hk, hboth⟩ := h
    have hone : w.applies.length = 1 := by rw [ha]; rfl
    cases answer with
    | acts =>
      rcases isReady_of_clearAttempt args w.journal rfl with heq | ⟨htrue, hr⟩
      · simp only [callHook, heq, CommitInvariant]
        exact ⟨hone, hboth⟩
      simp only [callHook, htrue, CommitInvariant]
      exact ⟨ha, hk, hr, hr.getEntries, Bool.noConfusion⟩
    | refuses => exact ⟨hone, hboth⟩
    | throws => exact .inr ⟨hone, hboth⟩
  · exact h

theorem invariant_markCommitted (answer : HookAnswer) :
    CommitInvariant args (commitNext args w (.markCommitted answer)) := by
  unfold commitNext
  dsimp only
  split
  · next result hp =>
    simp only [CommitInvariant, hp] at h
    obtain ⟨ha, hboth⟩ := h
    have hone : w.applies.length = 1 := by rw [ha]; rfl
    cases answer with
    | acts =>
      rcases commits_of_markCommitted args w.journal rfl with heq | ⟨htrue, hcom⟩
      · simp only [callHook, heq, CommitInvariant]
        exact ⟨hone, hboth⟩
      simp only [callHook, htrue, CommitInvariant]
      exact ⟨ha, hcom, hcom.getEntries, hboth.2.fenced, Bool.noConfusion,
        fun hf => absurd hf (by simp)⟩
    | refuses => exact ⟨hone, hboth⟩
    | throws => exact .inr ⟨hone, hboth⟩
  · exact h

theorem invariant_landed : CommitInvariant args (commitNext args w .landed) := by
  unfold commitNext
  dsimp only
  split
  · next snapshot hp =>
    simp only [CommitInvariant, hp] at h
    obtain ⟨ha, hm, hsnap, -⟩ := h
    exact ⟨ha, hm, hsnap, fun _ => hsnap⟩
  · next result snapshot hp =>
    simp only [CommitInvariant, hp] at h
    obtain ⟨ha, hk, hm, hsnap, -⟩ := h
    exact ⟨ha, hk, hm, hsnap, fun _ => hsnap⟩
  · next result snapshot receipt hp =>
    simp only [CommitInvariant, hp] at h
    obtain ⟨ha, hm, hsnap, -, -, -⟩ := h
    exact ⟨ha, hm, hsnap, hsnap.fenced, fun _ => hsnap, fun _ => rfl⟩
  · exact h

theorem invariant_attemptPersisted (ok : Bool) :
    CommitInvariant args (commitNext args w (.attemptPersisted ok)) := by
  unfold commitNext
  dsimp only
  split
  · next snapshot landed hp =>
    have hw := h
    simp only [CommitInvariant, hp] at h
    obtain ⟨ha, hm, -, hdur⟩ := h
    cases ok with
    | false => exact ha
    | true =>
      cases landed with
      | false => exact hw
      | true => exact ⟨ha, hm, hdur rfl⟩
  · exact h

theorem invariant_clearPersisted (ok : Bool) :
    CommitInvariant args (commitNext args w (.clearPersisted ok)) := by
  unfold commitNext
  dsimp only
  split
  · next result snapshot landed hp =>
    have hw := h
    simp only [CommitInvariant, hp] at h
    obtain ⟨ha, hk, hm, -, hdur⟩ := h
    cases ok with
    | false => exact ⟨ha, hk⟩
    | true =>
      cases landed with
      | false => exact hw
      | true => exact ⟨ha, hk, hm, hdur rfl⟩
  · exact h

theorem invariant_isAttemptCurrent (answer : Option Bool) :
    CommitInvariant args (commitNext args w (.isAttemptCurrent answer)) := by
  unfold commitNext
  dsimp only
  split
  · next hp =>
    simp only [CommitInvariant, hp] at h
    cases answer with
    | none => exact h.1
    | some current =>
      cases current with
      | true => exact h
      | false => exact h.1
  · exact h

theorem invariant_apply (result : Option Result) :
    CommitInvariant args (commitNext args w (.apply result)) := by
  unfold commitNext
  dsimp only
  split
  · next hp =>
    simp only [CommitInvariant, hp] at h
    obtain ⟨ha, hboth⟩ := h
    cases result with
    | none | some result => exact ⟨by simp [ha], hboth⟩
  · exact h

theorem invariant_isApplyCurrent (answer : Option Bool) :
    CommitInvariant args (commitNext args w (.isApplyCurrent answer)) := by
  unfold commitNext
  dsimp only
  split
  · next result hp =>
    simp only [CommitInvariant, hp] at h
    split
    · exact h
    · exact ⟨by rw [h.1]; rfl, h.2⟩
  · exact h

theorem invariant_isKnownNoMutation (throws : Bool) :
    CommitInvariant args (commitNext args w (.isKnownNoMutation throws)) := by
  unfold commitNext
  dsimp only
  split
  · next result hp =>
    simp only [CommitInvariant, hp] at h
    split
    · exact .inr ⟨by rw [h.1]; rfl, h.2⟩
    split
    · next hk => exact ⟨h.1, hk, h.2⟩
    · exact h
  · exact h

end

/-- The end of a commit whose writes have settled, or the wait for the other. -/
theorem invariant_settleCommit {result : Result} {snapshot : List PendingBlobIntent}
    {landed : Bool} {final receipt : Option Bool} (ha : w.applies = [some result])
    (hm : Commits (recordOf args.id w.journal.entries))
    (hsnap : Commits (recordOf args.id snapshot))
    (hdur : Fenced (recordOf args.id w.durable))
    (hlan : landed = true → Commits (recordOf args.id w.durable))
    (hf : final = some true → landed = true) :
    CommitInvariant args { w with point := settleCommit result snapshot landed final receipt } := by
  have hone : w.applies.length = 1 := by rw [ha]; rfl
  unfold settleCommit
  split
  · exact ⟨hone, hm, hlan (hf rfl)⟩
  · exact ⟨hone, hm, hdur⟩
  · exact ⟨ha, hm, hsnap, hdur, hlan, hf⟩

theorem invariant_finalSettled (h : CommitInvariant args w) (ok : Bool) :
    CommitInvariant args (commitNext args w (.finalSettled ok)) := by
  unfold commitNext
  dsimp only
  split
  · next result snapshot landed receipt hp =>
    have hw := h
    simp only [CommitInvariant, hp] at h
    obtain ⟨ha, hm, hsnap, hdur, hlan, -⟩ := h
    split
    · exact hw
    · next hok =>
      apply invariant_settleCommit ha hm hsnap hdur hlan
      intro hf
      rw [Option.some.injEq] at hf
      simpa [hf] using hok
  · exact h

theorem invariant_receiptSettled (h : CommitInvariant args w) (ok : Bool) :
    CommitInvariant args (commitNext args w (.receiptSettled ok)) := by
  unfold commitNext
  dsimp only
  split
  · next result snapshot landed final hp =>
    simp only [CommitInvariant, hp] at h
    obtain ⟨ha, hm, hsnap, hdur, hlan, hf⟩ := h
    exact invariant_settleCommit ha hm hsnap hdur hlan hf
  · exact h

theorem invariant_otherChange (h : CommitInvariant args w) (journal : PendingBlobIntentJournal) :
    CommitInvariant args (commitNext args w (.otherChange journal)) := by
  unfold commitNext
  dsimp only
  split
  · next hr =>
    unfold CommitInvariant OutcomeInvariant BothAttempt at h ⊢
    simpa only [hr] using h
  · exact h

theorem BothAttempt.otherWrite (h : BothAttempt args w) :
    BothAttempt args { w with durable := w.journal.getEntries } := ⟨h.1, h.1.getEntries⟩

theorem outcomeInvariant_otherWrite {outcome : CommitOutcome Result}
    (h : OutcomeInvariant args w outcome) :
    OutcomeInvariant args { w with durable := w.journal.getEntries } outcome := by
  cases outcome with
  | notStarted | attemptPersistFailed | staleAfterAttempt | clearPersistFailed result => exact h
  | ambiguous stage result =>
    cases stage with
    | precondition => exact h
    | apply | postcondition | clearAttempt | markCommitted => exact ⟨h.1, h.2.otherWrite⟩
  | knownNoMutation result =>
    obtain ⟨ha, hk, hm, -⟩ := h
    exact ⟨ha, hk, hm, hm.getEntries⟩
  | committed result receiptFailed =>
    obtain ⟨hone, hm, -⟩ := h
    exact ⟨hone, hm, hm.getEntries⟩
  | commitPersistFailed result receiptFailed =>
    obtain ⟨hone, hm, -⟩ := h
    exact ⟨hone, hm, hm.getEntries.fenced⟩
  | threw => exact h.imp id fun hboth => ⟨hboth.1, hboth.2.otherWrite⟩

theorem invariant_otherWrite (h : CommitInvariant args w) :
    CommitInvariant args (commitNext args w .otherWrite) := by
  unfold commitNext
  unfold CommitInvariant at h ⊢
  simp only
  cases hp : w.point with simp only [hp] at h ⊢
  | start => exact h
  | persistingAttempt snapshot landed =>
    obtain ⟨ha, hm, hsnap, -⟩ := h
    exact ⟨ha, hm, hsnap, fun _ => hm.getEntries⟩
  | checkingAttempt | applying | checkingApply result | classifying result | marking result =>
    exact ⟨h.1, h.2.otherWrite⟩
  | clearing result => exact ⟨h.1, h.2.1, h.2.2.otherWrite⟩
  | persistingClear result snapshot landed =>
    obtain ⟨ha, hk, hm, hsnap, -⟩ := h
    exact ⟨ha, hk, hm, hsnap, fun _ => hm.getEntries⟩
  | persistingCommit result snapshot landed final receipt =>
    obtain ⟨ha, hm, hsnap, -, -, hf⟩ := h
    exact ⟨ha, hm, hsnap, hm.getEntries.fenced, fun _ => hm.getEntries, hf⟩
  | done outcome => exact outcomeInvariant_otherWrite h

theorem invariant_next (h : CommitInvariant args w) (event : CommitEvent Result) :
    CommitInvariant args (commitNext args w event) := by
  cases event with
  | markAttempted answer => exact invariant_markAttempted h answer
  | landed => exact invariant_landed h
  | attemptPersisted ok => exact invariant_attemptPersisted h ok
  | isAttemptCurrent answer => exact invariant_isAttemptCurrent h answer
  | apply result => exact invariant_apply h result
  | isApplyCurrent answer => exact invariant_isApplyCurrent h answer
  | isKnownNoMutation throws => exact invariant_isKnownNoMutation h throws
  | clearAttempt answer => exact invariant_clearAttempt h answer
  | clearPersisted ok => exact invariant_clearPersisted h ok
  | markCommitted answer => exact invariant_markCommitted h answer
  | finalSettled ok => exact invariant_finalSettled h ok
  | receiptSettled ok => exact invariant_receiptSettled h ok
  | otherChange journal => exact invariant_otherChange h journal
  | otherWrite => exact invariant_otherWrite h

end Invariant

/-- `apply` runs, or it ran and it is not known that it has not mutated anything. -/
def MayHaveMutated {Result : Type*} (args : CommitArgs Result) (w : CommitWorld Result) : Prop :=
  w.point = .applying ∨
    ∃ answer ∈ w.applies, ∀ result, answer = some result → args.isKnownNoMutation result = false

/-- What a crash finds in the store, and what the commit has in memory, at any moment. -/
structure WriteAhead {Result : Type*} (args : CommitArgs Result) (w : CommitWorld Result) :
    Prop where
  once : w.applies.length ≤ 1
  fenced : MayHaveMutated args w →
    Fenced (recordOf args.id w.durable) ∧ Fenced (recordOf args.id w.journal.entries)
  ready : IsReady (recordOf args.id w.durable) ∨ IsReady (recordOf args.id w.journal.entries) →
    (w.applies = [] ∧ w.point ≠ .applying) ∨
      ∃ result, w.applies = [some result] ∧ args.isKnownNoMutation result = true
  committed : ∀ result receiptFailed, w.point = .done (.committed result receiptFailed) →
    Commits (recordOf args.id w.durable)
  cleared : ∀ result, w.point = .done (.knownNoMutation result) →
    IsReady (recordOf args.id w.durable)

section Runs

variable {Result : Type*} {args : CommitArgs Result} {w : CommitWorld Result}

theorem BothAttempt.fenced (h : BothAttempt args w) :
    Fenced (recordOf args.id w.durable) ∧ Fenced (recordOf args.id w.journal.entries) :=
  ⟨h.2.fenced, h.1.fenced⟩

/-- Before `apply`, after a result without a mutation, or fenced on both sides. -/
theorem CommitInvariant.cases (h : CommitInvariant args w) :
    (w.applies = [] ∧ w.point ≠ .applying) ∨
    (w.point ≠ .applying ∧
      ∃ result, w.applies = [some result] ∧ args.isKnownNoMutation result = true) ∨
    (w.applies.length ≤ 1 ∧ Fenced (recordOf args.id w.durable) ∧
      Fenced (recordOf args.id w.journal.entries)) := by
  unfold CommitInvariant at h
  cases hp : w.point with simp only [hp] at h
  | start => exact .inl ⟨h, by simp⟩
  | persistingAttempt snapshot landed | checkingAttempt => exact .inl ⟨h.1, by simp⟩
  | applying | checkingApply result | classifying result | marking result =>
    exact .inr (.inr ⟨by simp [h.1], h.2.fenced⟩)
  | clearing result | persistingClear result snapshot landed =>
    exact .inr (.inl ⟨by simp, result, h.1, h.2.1⟩)
  | persistingCommit result snapshot landed final receipt =>
    obtain ⟨ha, hm, -, hdur, -, -⟩ := h
    exact .inr (.inr ⟨by simp [ha], hdur, hm.fenced⟩)
  | done outcome =>
    have hp' : CommitPoint.done outcome ≠ .applying := by simp
    cases outcome with
    | notStarted | attemptPersistFailed | staleAfterAttempt => exact .inl ⟨h, hp'⟩
    | ambiguous stage result =>
      cases stage with
      | precondition => exact .inl ⟨h, hp'⟩
      | apply | postcondition | clearAttempt | markCommitted =>
        exact .inr (.inr ⟨h.1.le, h.2.fenced⟩)
    | knownNoMutation result => exact .inr (.inl ⟨hp', result, h.1, h.2.1⟩)
    | clearPersistFailed result => exact .inr (.inl ⟨hp', result, h.1, h.2⟩)
    | committed result receiptFailed => exact .inr (.inr ⟨h.1.le, h.2.2.fenced, h.2.1.fenced⟩)
    | commitPersistFailed result receiptFailed => exact .inr (.inr ⟨h.1.le, h.2.2, h.2.1.fenced⟩)
    | threw =>
      rcases h with h | h
      · exact .inl ⟨h, hp'⟩
      · exact .inr (.inr ⟨h.1.le, h.2.fenced⟩)

theorem CommitInvariant.writeAhead (h : CommitInvariant args w) : WriteAhead args w := by
  constructor
  · rcases h.cases with ⟨hn, -⟩ | ⟨-, result, hone, -⟩ | ⟨hone, -⟩
    · simp [hn]
    · simp [hone]
    · exact hone
  · intro hmay
    rcases h.cases with ⟨hn, hp⟩ | ⟨hp, result, hone, hk⟩ | ⟨-, hf⟩
    · rcases hmay with happ | ⟨answer, hmem, -⟩
      · exact absurd happ hp
      rw [hn] at hmem
      exact absurd hmem List.not_mem_nil
    · rcases hmay with happ | ⟨answer, hmem, hunk⟩
      · exact absurd happ hp
      rw [hone, List.mem_singleton] at hmem
      rw [hunk result hmem] at hk
      cases hk
    · exact hf
  · intro hr
    rcases h.cases with hn | ⟨-, hone⟩ | ⟨-, hdur, hm⟩
    · exact .inl hn
    · exact .inr hone
    rcases hr with hr | hr
    · exact absurd hr hdur.not_isReady
    · exact absurd hr hm.not_isReady
  · intro result receiptFailed hp
    simp only [CommitInvariant, hp, OutcomeInvariant] at h
    exact h.2.2
  intro result hp
  simp only [CommitInvariant, hp, OutcomeInvariant] at h
  exact h.2.2.2

theorem applies_callHook (act : PendingBlobIntentJournal → PendingBlobIntentJournal × Bool)
    (answer : HookAnswer) : (callHook w act answer).1.applies = w.applies := by
  cases answer <;> rfl

/-- Only where `apply` is to run, it runs. -/
theorem applies_eq (event : CommitEvent Result) (hp : w.point ≠ .applying) :
    (commitNext args w event).applies = w.applies := by
  cases event with
  | markAttempted answer | clearAttempt answer | markCommitted answer =>
    grind [commitNext, applies_callHook]
  | landed | attemptPersisted ok | isApplyCurrent answer | isKnownNoMutation throws =>
    grind [commitNext]
  | isAttemptCurrent answer => rcases answer with _ | _ | _ <;> grind [commitNext]
  | apply result => cases result <;> grind [commitNext]
  | clearPersisted ok => grind [commitNext]
  | finalSettled ok => grind [commitNext]
  | receiptSettled ok => grind [commitNext]
  | otherChange journal => grind [commitNext]
  | otherWrite => rfl

theorem applies_next (h : CommitInvariant args w) (event : CommitEvent Result)
    (hne : (commitNext args w event).applies ≠ w.applies) :
    Attempts args (recordOf args.id w.durable) := by
  by_cases hp : w.point = .applying
  · simp only [CommitInvariant, hp] at h
    exact h.2.2
  · exact absurd (applies_eq event hp) hne

/-- At every moment of every run of the commit, whatever its hooks answer and whatever other code
does to other intents, a crash finds what it needs; and `apply` runs on a durable attempt only. -/
theorem write_ahead (args : CommitArgs Result) (journal : PendingBlobIntentJournal)
    (durable : List PendingBlobIntent) (events : List (CommitEvent Result)) (n : ℕ) :
    WriteAhead args (commitAt args journal durable events n) ∧
      ((commitAt args journal durable events (n + 1)).applies ≠
          (commitAt args journal durable events n).applies →
        Attempts args (recordOf args.id (commitAt args journal durable events n).durable)) := by
  have hinv : CommitInvariant args (commitAt args journal durable events n) := by
    refine stateAt_invariant ?_ ?_ n
    · rfl
    intro w event h
    exact invariant_next h event
  refine ⟨hinv.writeAhead, ?_⟩
  intro hne
  rcases stateAt_step (commitNext args) { journal, durable, point := .start, applies := [] } events
    n with ⟨-, heq⟩ | ⟨event, -, heq⟩
  · exact absurd (congrArg CommitWorld.applies heq) hne
  rw [commitAt, heq] at hne
  exact applies_next hinv event hne

end Runs

/-- A commit goes through though its receipt cannot be stored. -/
example : (commitAt ⟨js "5-1-x", js "attempt", 6, js "session", 7, js "session", none, none, id⟩
    (push {} [] (.delete (js "a.png")) ⟨js "h", js "v", js "d"⟩ { known := false } 5 (js "x")) []
    [.markAttempted .acts, .landed, .attemptPersisted true, .isAttemptCurrent (some true),
      .apply (some false), .isApplyCurrent (some true), .isKnownNoMutation false,
      .markCommitted .acts, .receiptSettled false, .landed, .finalSettled true] 11).point =
    .done (.committed false true) := by
  decide

end Kaos.Sync
