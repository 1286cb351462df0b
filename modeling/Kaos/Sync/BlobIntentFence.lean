import Mathlib.Data.List.Perm.Subperm
import Kaos.Lib.Run
import Kaos.Sync.BlobIntentRoundTrip

/-! The journal of attachment mutations over whole runs: phases, fences and restarts. -/
namespace Kaos.Sync

open Kaos.Lib PendingBlobIntentJournal List Option

namespace PendingBlobIntent

/-- A record of an attempt is whole, and without anything of a commit. -/
def IsAttempted (intent : PendingBlobIntent) : Prop :=
  intent.commitAttemptId ≠ none ∧ intent.attemptedAt ≠ none ∧ intent.attemptSessionId ≠ none ∧
    intent.committedAt = none ∧ intent.receiptCandidateId = none ∧
    intent.commitSessionId = none ∧ intent.commitDeleteFingerprint = none

/-- A record of a commit has its time and its session, and nothing of an attempt. -/
def IsCommitted (intent : PendingBlobIntent) : Prop :=
  intent.committedAt ≠ none ∧ intent.commitSessionId ≠ none ∧ intent.commitAttemptId = none ∧
    intent.attemptedAt = none ∧ intent.attemptSessionId = none

/-- Exactly one of the three phases. -/
def HasOnePhase (intent : PendingBlobIntent) : Prop :=
  (intent.isReadyToCommit = true ∧ ¬ intent.IsAttempted ∧ ¬ intent.IsCommitted) ∨
    (intent.isReadyToCommit = false ∧ intent.IsAttempted ∧ ¬ intent.IsCommitted) ∨
    (intent.isReadyToCommit = false ∧ ¬ intent.IsAttempted ∧ intent.IsCommitted)

end PendingBlobIntent

/-- What a caller knows of the source: a known live reference carries a source version, an unknown
or an absent one does not, and a reference is not among its own predecessors. -/
structure PendingBlobMutationBase.WellFormed (base : PendingBlobMutationBase) : Prop where
  ref : ∀ ref, base.ref = some ref → isSha256Hex ref.hash = true ∧
    (isSafeInteger ref.size = true ∧ ref.size ≥ 0) ∧ ref.hash ∉ ref.priorHashes
  live : base.known = true → base.ref ≠ none → base.sourceVersionKnown = true ∧
    ∃ version, base.expectedSourceVersion = some version ∧ isBlobSourceVersion version = true
  absent : base.known = false ∨ base.ref = none → base.expectedSourceVersion = none

/-- An operation of the journal, or the start of a new one from what is stored of the old. -/
inductive JournalCall
  | recordDelete (path : JsString) (scope : PendingBlobIntentScope)
      (base : PendingBlobMutationBase) (recordedAt : ℤ) (random : JsString)
  | recordRename (oldPath newPath : JsString) (scope : PendingBlobIntentScope)
      (base : PendingBlobMutationBase) (recordedAt : ℤ) (random : JsString)
  | markCommitAttempted (id commitAttemptId : JsString) (attemptedAt : ℤ)
      (attemptSessionId : JsString)
  | clearCommitAttempt (id commitAttemptId : JsString)
  | markCommitted (id : JsString) (committedAt : ℤ) (commitSessionId : JsString)
      (receiptCandidateId commitDeleteFingerprint : Option JsString)
  | markCommittedFromAttempt (id commitAttemptId : JsString) (committedAt : ℤ)
      (commitSessionId : JsString) (receiptCandidateId commitDeleteFingerprint : Option JsString)
  | remove (id : JsString)
  | restore (intent : PendingBlobIntent)
  | restart

section Run

variable (norm : JsString → JsString)

/-- `getEntries()` through `JSON.stringify` and `JSON.parse`. -/
def PendingBlobIntentJournal.stored (journal : PendingBlobIntentJournal) : JsonValue :=
  .arr (journal.getEntries.map PendingBlobIntent.toJson)

/-- The same with the intents of documents and safety copies migrated first. -/
def PendingBlobIntentJournal.storedMigrated (journal : PendingBlobIntentJournal) : JsonValue :=
  .arr ((journal.getEntries.filterMap migratePendingBlobIntentDocumentOwnership).map
    PendingBlobIntent.toJson)

def journalNext (journal : PendingBlobIntentJournal) : JournalCall → PendingBlobIntentJournal
  | .recordDelete path scope base recordedAt random =>
    journal.recordDelete norm path scope base recordedAt random
  | .recordRename oldPath newPath scope base recordedAt random =>
    journal.recordRename norm oldPath newPath scope base recordedAt random
  | .markCommitAttempted id commitAttemptId attemptedAt attemptSessionId =>
    (journal.markCommitAttempted id commitAttemptId attemptedAt attemptSessionId).1
  | .clearCommitAttempt id commitAttemptId => (journal.clearCommitAttempt id commitAttemptId).1
  | .markCommitted id committedAt commitSessionId receiptCandidateId commitDeleteFingerprint =>
    (journal.markCommitted id committedAt commitSessionId receiptCandidateId
      commitDeleteFingerprint).1
  | .markCommittedFromAttempt id commitAttemptId committedAt commitSessionId receiptCandidateId
      commitDeleteFingerprint =>
    (journal.markCommittedFromAttempt id commitAttemptId committedAt commitSessionId
      receiptCandidateId commitDeleteFingerprint).1
  | .remove id => (journal.remove id).1
  | .restore intent => journal.restore intent
  | .restart => { entries := hydrate norm journal.stored }

/-- The journal after some calls, from an empty one. -/
def journalAt (calls : List JournalCall) (n : ℕ) : PendingBlobIntentJournal :=
  stateAt (journalNext norm) {} calls n

/-- What is recorded is of a path, a scope and a time, on a well-formed base; what is restored is
an intent that a journal could hold. -/
def JournalCall.WellFormed : JournalCall → Prop
  | .recordDelete path scope base recordedAt _ =>
    norm path ≠ [] ∧ scope.Readable ∧ base.WellFormed ∧ isValidTimestamp recordedAt = true
  | .recordRename _ _ scope base recordedAt _ =>
    scope.Readable ∧ base.WellFormed ∧ isValidTimestamp recordedAt = true
  | .restore intent => intent.Readable norm
  | _ => True

/-- No intent of the journal has the id a call would give. -/
def JournalCall.Fresh (journal : PendingBlobIntentJournal) : JournalCall → Prop
  | .recordDelete _ _ _ recordedAt random | .recordRename _ _ _ _ recordedAt random =>
    ∀ entry ∈ journal.entries,
      entry.id ≠ createIntentId (nextSequence journal.intentSequence) recordedAt random
  | _ => True

/-- The call names the intent, and where it settles an attempt the exact one. -/
def JournalCall.Names (entry : PendingBlobIntent) : JournalCall → Prop
  | .remove id => id = entry.id
  | .clearCommitAttempt id commitAttemptId | .markCommittedFromAttempt id commitAttemptId _ _ _ _ =>
    id = entry.id ∧ entry.commitAttemptId = some commitAttemptId
  | _ => False

end Run

/-- A base that makes a readable intent. -/
structure PendingBlobMutationBase.Acceptable (base : PendingBlobMutationBase) : Prop where
  ref : base.known = true → ∀ ref, cloneBlobRef base.ref = some ref → ref.Readable
  version : base.sourceVersionKnown = true → ∀ version,
    base.expectedSourceVersion = some version →
      isBlobSourceVersion version = true ∧ base.known = true ∧ base.ref ≠ none
  versioned : base.sourceVersionKnown = true → base.known = true → base.ref ≠ none →
    base.expectedSourceVersion ≠ none

section Bases

variable {norm : JsString → JsString} {base : PendingBlobMutationBase} {ref : BlobRef}
  {intent : PendingBlobIntent}

variable {α : Type*}

theorem nodup_eraseDups [BEq α] [LawfulBEq α] (l : List α) : l.eraseDups.Nodup := by
  induction hn : l.length using Nat.strong_induction_on generalizing l with
  | _ n ih =>
    cases l with
    | nil => exact nodup_nil
    | cons a l =>
      have hlen : (l.filter fun b => !b == a).length < n := by
        rw [← hn, length_cons]
        exact Nat.lt_succ_of_le (length_filter_le _ _)
      rw [eraseDups_cons, nodup_cons]
      refine ⟨?_, ih _ hlen _ rfl⟩
      simp

theorem length_eraseDups_le [BEq α] [LawfulBEq α] (l : List α) : l.eraseDups.length ≤ l.length :=
  ((nodup_eraseDups l).subperm fun _ ha => mem_eraseDups.mp ha).length_le

theorem eraseDups_of_nodup [BEq α] [LawfulBEq α] {l : List α} (h : l.Nodup) : l.eraseDups = l := by
  induction l with
  | nil => rfl
  | cons a l ih =>
    rw [nodup_cons] at h
    have hfil : (l.filter fun b => !b == a) = l := by
      rw [filter_eq_self]
      intro b hb
      rw [Bool.not_eq_true', beq_eq_false_iff_ne]
      exact fun heq => h.1 (heq ▸ hb)
    rw [eraseDups_cons, hfil, ih h.2]

theorem cloneBlobRef_readable (h : ref.Readable) : cloneBlobRef (some ref) = some ref := by
  have hg : ¬ (ref.priorHashes.length > maxBlobRefPriorHashes ∨
      (ref.priorHashes.any fun hash => !isSha256Hex hash) = true) := by
    rintro (hlong | hbad)
    · exact Nat.not_lt.mpr h.bounded hlong
    obtain ⟨prior, hmem, hprior⟩ := any_eq_true.mp hbad
    rw [(h.priorHashes prior hmem).1] at hprior
    cases hprior
  rw [cloneBlobRef, map_some, getBlobRefPriorHashes, if_neg hg, eraseDups_of_nodup h.distinct]

theorem readable_cloneBlobRef (hh : isSha256Hex ref.hash = true)
    (hs : isSafeInteger ref.size = true ∧ ref.size ≥ 0) (hown : ref.hash ∉ ref.priorHashes)
    {copy : BlobRef} (hcopy : cloneBlobRef (some ref) = some copy) : copy.Readable := by
  rw [cloneBlobRef, map_some, Option.some.injEq] at hcopy
  subst hcopy
  unfold getBlobRefPriorHashes
  split
  · exact ⟨hh, hs, fun prior hmem => absurd hmem not_mem_nil, nodup_nil, Nat.zero_le _⟩
  · next hg =>
    rw [not_or, List.any_eq_true, not_exists] at hg
    refine ⟨hh, hs, ?_, nodup_eraseDups _, ?_⟩
    · intro prior hmem
      rw [mem_eraseDups] at hmem
      have hprior := hg.2 prior
      rw [not_and, Bool.not_eq_true, Bool.not_eq_false'] at hprior
      exact ⟨hprior hmem, fun heq => hown (heq ▸ hmem)⟩
    · exact (length_eraseDups_le _).trans (Nat.not_lt.mp hg.1)

theorem clone_eq (h : intent.Readable norm) : intent.clone = intent := by
  unfold PendingBlobIntent.clone
  cases href : intent.expectedSourceRef with
  | none => rw [cloneBlobRef, map_none, ← href]
  | some ref => rw [cloneBlobRef_readable (h.ref ref href).1, ← href]

theorem acceptable_base (h : intent.Readable norm) : intent.base.Acceptable := by
  have hclone : cloneBlobRef intent.expectedSourceRef = intent.expectedSourceRef :=
    congrArg PendingBlobIntent.expectedSourceRef (clone_eq h)
  unfold PendingBlobIntent.base
  rw [hclone]
  constructor
  · intro _ ref href
    rw [hclone] at href
    exact (h.ref ref href).1
  · intro _ version hver
    obtain ⟨hv, -, hs⟩ := h.version version hver
    obtain ⟨ref, href⟩ := ne_none_iff_exists'.mp hs
    exact ⟨hv, (h.ref ref href).2, hs⟩
  intro hk _ hs
  exact h.versioned hk hs

theorem PendingBlobMutationBase.WellFormed.acceptable (h : base.WellFormed) : base.Acceptable := by
  constructor
  · intro _ copy hcopy
    cases href : base.ref with rw [href] at hcopy
    | none => cases hcopy
    | some ref =>
      obtain ⟨hh, hs, hown⟩ := h.ref ref href
      exact readable_cloneBlobRef hh hs hown hcopy
  · intro _ version hver
    by_cases hl : base.known = true ∧ base.ref ≠ none
    · obtain ⟨-, version', hver', hv⟩ := h.live hl.1 hl.2
      rw [hver, Option.some.injEq] at hver'
      exact ⟨hver' ▸ hv, hl⟩
    have hn := h.absent (by grind)
    rw [hn] at hver
    cases hver
  intro _ hk hso
  obtain ⟨-, version, hver, -⟩ := h.live hk hso
  rw [hver]
  exact some_ne_none version

theorem readable_newIntent {id : JsString} {kind : PendingBlobIntentKind} {recordedAt : ℤ}
    {scope : PendingBlobIntentScope} (hid : isNonEmptyString id = true) (hki : kind.Readable norm)
    (hrec : isValidTimestamp recordedAt = true) (hscope : scope.Readable)
    (hb : base.Acceptable) : (newIntent id kind recordedAt scope base).Readable norm := by
  have href : ∀ copy, (if base.known then cloneBlobRef base.ref else none) = some copy →
      base.known = true ∧ cloneBlobRef base.ref = some copy := by
    intro copy hcopy
    cases hk : base.known with
    | false => simp [hk] at hcopy
    | true => exact ⟨rfl, by simpa [hk] using hcopy⟩
  refine ⟨hid, hki, hrec, hscope, ?_, ?_, ?_, rfl, rfl, rfl, rfl, rfl, rfl, rfl, rfl⟩
  · intro copy hcopy
    obtain ⟨hk, hclone⟩ := href copy hcopy
    exact ⟨hb.ref hk copy hclone, hk⟩
  · intro version hver
    simp only [newIntent] at hver ⊢
    split at hver
    · next hk =>
      obtain ⟨hv, hl, hs⟩ := hb.version hk version hver
      refine ⟨hv, hk, ?_⟩
      rw [if_pos hl, cloneBlobRef]
      simpa using hs
    · cases hver
  intro hk hs
  simp only [newIntent] at hk hs ⊢
  rw [if_pos hk]
  obtain ⟨copy, hcopy⟩ := ne_none_iff_exists'.mp hs
  obtain ⟨hl, hclone⟩ := href copy hcopy
  apply hb.versioned hk hl
  intro hn
  rw [hn] at hclone
  cases hclone

theorem hasOnePhase (h : intent.phaseIsReadable = true) : intent.HasOnePhase := by
  unfold PendingBlobIntent.phaseIsReadable at h
  unfold PendingBlobIntent.HasOnePhase PendingBlobIntent.IsAttempted PendingBlobIntent.IsCommitted
    PendingBlobIntent.isReadyToCommit
  split at h
  · rw [decide_eq_true_eq] at h
    refine .inr (.inl ?_)
    grind
  split at h
  · rw [decide_eq_true_eq] at h
    refine .inr (.inr ?_)
    grind
  refine .inl ?_
  grind

end Bases

/-- Every intent is one that its reader accepts, and its id is its own. -/
structure PendingBlobIntentJournal.Valid (norm : JsString → JsString)
    (journal : PendingBlobIntentJournal) : Prop where
  readable : ∀ entry ∈ journal.entries, entry.Readable norm
  ids : (journal.entries.map PendingBlobIntent.id).Nodup

section Steps

variable {norm : JsString → JsString} {journal : PendingBlobIntentJournal}
  {entry existing : PendingBlobIntent} {entries : List PendingBlobIntent}
  {scope : PendingBlobIntentScope} {base : PendingBlobMutationBase} {recordedAt : ℤ}
  {path oldPath newPath random id : JsString}

variable {sequence : ℕ}

theorem isNonEmptyString_createIntentId :
    isNonEmptyString (createIntentId sequence recordedAt random) = true := by
  have hdash : js "-" = [45] := rfl
  simp [isNonEmptyString, createIntentId, hdash]

/-- Only the intent with the id goes. -/
theorem mem_removeIntent_of_ne (hids : (entries.map PendingBlobIntent.id).Nodup)
    (he : existing ∈ entries) (h : entry ∈ entries) (hne : entry ≠ existing) :
    entry ∈ removeIntent existing.id entries :=
  (mem_eraseP_key hids he).mpr ⟨h, hne⟩

theorem readable_source (h : entry.Readable norm) : IsNormalized norm entry.source := by
  have hk := h.kind
  unfold PendingBlobIntent.source
  cases hcase : entry.kind with rw [hcase] at hk
  | delete path => exact hk
  | rename oldPath newPath => exact hk.1

theorem isReady_of_isReadyRenameTo (h : entry.isReadyRenameTo scope path = true) :
    entry.isReadyToCommit = true := by
  unfold PendingBlobIntent.isReadyRenameTo at h
  rw [Bool.and_eq_true] at h
  exact h.2

theorem isReady_of_isReadyRenameFrom (h : entry.isReadyRenameFrom scope path = true) :
    entry.isReadyToCommit = true := by
  unfold PendingBlobIntent.isReadyRenameFrom at h
  rw [Bool.and_eq_true] at h
  exact h.2

/-- The loop keeps what is fenced, and ends with a path and a base for a readable intent. -/
theorem collapseRenames_valid (scope : PendingBlobIntentScope) (h : journal.Valid norm)
    (rounds : ℕ) (hp : IsNormalized norm path) (hb : base.Acceptable) :
    (collapseRenames scope rounds journal.entries path base).1.Sublist journal.entries ∧
      (∀ entry ∈ journal.entries, entry.isReadyToCommit = false →
        entry ∈ (collapseRenames scope rounds journal.entries path base).1) ∧
      IsNormalized norm (collapseRenames scope rounds journal.entries path base).2.1 ∧
      (collapseRenames scope rounds journal.entries path base).2.2.Acceptable := by
  apply collapseRenames_invariant (P := fun left path' base' => left.Sublist journal.entries ∧
    (∀ entry ∈ journal.entries, entry.isReadyToCommit = false → entry ∈ left) ∧
      IsNormalized norm path' ∧ base'.Acceptable)
  · rintro left path' base' found ⟨hsub, hk, -, -⟩ hfind
    have hfd := mem_of_find?_eq_some hfind
    have hr := h.readable found (hsub.subset hfd)
    refine ⟨eraseP_sublist.trans hsub, ?_, readable_source hr, acceptable_base hr⟩
    intro entry he hf
    apply mem_removeIntent_of_ne (h.ids.sublist (hsub.map _)) hfd (hk entry he hf)
    rintro rfl
    rw [isReady_of_isReadyRenameTo (find?_some hfind)] at hf
    cases hf
  · exact ⟨List.Sublist.refl _, fun _ he _ => he, hp, hb⟩

theorem valid_of_sublist (h : journal.Valid norm) (hsub : entries.Sublist journal.entries) :
    (PendingBlobIntentJournal.mk entries sequence).Valid norm :=
  ⟨fun entry he => h.readable entry (hsub.subset he), h.ids.sublist (hsub.map _)⟩

theorem valid_append (h : journal.Valid norm) (hsub : entries.Sublist journal.entries)
    (he : entry.Readable norm) (hfr : ∀ other ∈ journal.entries, other.id ≠ entry.id) :
    (PendingBlobIntentJournal.mk (entries ++ [entry]) sequence).Valid norm := by
  constructor
  · intro other hmem
    rcases mem_append.mp hmem with hmem | hmem
    · exact h.readable other (hsub.subset hmem)
    rw [mem_singleton.mp hmem]
    exact he
  · apply nodup_map_push (h.ids.sublist (hsub.map _))
    intro other hmem
    exact hfr other (hsub.subset hmem)

variable {change : PendingBlobIntent → PendingBlobIntent} {test : PendingBlobIntent → Bool}

theorem valid_updateFirst (h : journal.Valid norm) (hid : ∀ entry, (change entry).id = entry.id)
    (hch : ∀ existing, journal.entries.find? test = some existing → (change existing).Readable norm) :
    (PendingBlobIntentJournal.mk (updateFirst test change journal.entries) sequence).Valid
      norm := by
  constructor
  · intro entry he
    rcases mem_updateFirst he with he | ⟨existing, hf, rfl⟩
    · exact h.readable entry he
    · exact hch existing hf
  have hids : (updateFirst test change journal.entries).map PendingBlobIntent.id =
      journal.entries.map PendingBlobIntent.id := map_updateFirst fun entry _ _ => hid entry
  rw [hids]
  exact h.ids

theorem valid_recordDelete (h : journal.Valid norm)
    (hidem : ∀ path, norm (norm path) = norm path)
    (hp : norm path ≠ []) (hscope : scope.Readable) (hb : base.WellFormed)
    (hrec : isValidTimestamp recordedAt = true)
    (hfr : ∀ entry ∈ journal.entries, entry.id ≠
      createIntentId (nextSequence journal.intentSequence) recordedAt random) :
    (journal.recordDelete norm path scope base recordedAt random).Valid norm := by
  obtain ⟨hsub, -, hnorm, hacc⟩ := collapseRenames_valid scope h
    journal.entries.length ⟨hidem path, hp⟩ hb.acceptable
  rw [recordDelete]
  split
  · exact valid_of_sublist h hsub
  apply valid_append h (filter_sublist.trans hsub) ?_ hfr
  exact readable_newIntent isNonEmptyString_createIntentId hnorm hrec hscope
    hacc

/-- `recordDelete` keeps what is attempted or committed. -/
theorem fenced_recordDelete (h : journal.Valid norm) (hidem : ∀ path, norm (norm path) = norm path)
    (hp : norm path ≠ []) (hb : base.WellFormed) (he : entry ∈ journal.entries)
    (hf : entry.isReadyToCommit = false) :
    entry ∈ (journal.recordDelete norm path scope base recordedAt random).entries := by
  obtain ⟨-, hk, -, -⟩ := collapseRenames_valid scope h
    journal.entries.length ⟨hidem path, hp⟩ hb.acceptable
  have hmem := hk entry he hf
  rw [recordDelete]
  split
  · exact hmem
  apply mem_append_left
  apply mem_filter_of_mem hmem
  rw [Bool.not_eq_true']
  by_contra hfrom
  rw [Bool.not_eq_false] at hfrom
  rw [isReady_of_isReadyRenameFrom hfrom] at hf
  cases hf

/-- What a rename can do: nothing, drop the rename it undoes, lead it on, or add one. -/
theorem recordRename_cases (journal : PendingBlobIntentJournal) (oldPath newPath : JsString)
    (scope : PendingBlobIntentScope) (base : PendingBlobMutationBase) (recordedAt : ℤ)
    (random : JsString) :
    journal.recordRename norm oldPath newPath scope base recordedAt random = journal ∨
    (∃ existing ∈ journal.entries, existing.isReadyToCommit = true ∧
      journal.recordRename norm oldPath newPath scope base recordedAt random =
        { journal with entries := removeIntent existing.id journal.entries }) ∨
    (∃ test existing, journal.entries.find? test = some existing ∧
      existing.isReadyToCommit = true ∧ norm newPath ≠ [] ∧
      existing.source ≠ norm newPath ∧
      journal.recordRename norm oldPath newPath scope base recordedAt random =
        { journal with
          entries := updateFirst test
            (fun entry => { entry with
              kind := .rename entry.source (norm newPath), recordedAt := recordedAt })
            journal.entries }) ∨
    (norm oldPath ≠ [] ∧ norm newPath ≠ [] ∧
      norm oldPath ≠ norm newPath ∧
      journal.recordRename norm oldPath newPath scope base recordedAt random =
        journal.push journal.entries (.rename (norm oldPath) (norm newPath))
          scope base recordedAt random) := by
  unfold recordRename
  simp only
  split
  · exact .inl rfl
  · next hg =>
    rw [not_or, not_or] at hg
    obtain ⟨hold, hnew, hne⟩ := hg
    split
    · exact .inl rfl
    split
    · next existing hf =>
      have hr : existing.isReadyToCommit = true := by
        have htest := find?_some hf
        unfold renameToContinue at htest
        split at htest
        · exact isReady_of_isReadyRenameTo htest
        · exact isReady_of_isReadyRenameFrom htest
      split
      · exact .inr (.inl ⟨existing, mem_of_find?_eq_some hf, hr, rfl⟩)
      · next hsrc => exact .inr (.inr (.inl ⟨_, existing, hf, hr, hnew, hsrc, rfl⟩))
    · exact .inr (.inr (.inr ⟨hold, hnew, hne, rfl⟩))

theorem valid_recordRename (h : journal.Valid norm)
    (hidem : ∀ path, norm (norm path) = norm path)
    (hscope : scope.Readable) (hb : base.WellFormed)
    (hrec : isValidTimestamp recordedAt = true)
    (hfr : ∀ entry ∈ journal.entries, entry.id ≠
      createIntentId (nextSequence journal.intentSequence) recordedAt random) :
    (journal.recordRename norm oldPath newPath scope base recordedAt random).Valid
      norm := by
  rcases recordRename_cases journal oldPath newPath scope base recordedAt random with
    heq | ⟨existing, -, -, heq⟩ | ⟨test, existing, hf, -, hnew, hsrc, heq⟩ |
      ⟨hold, hnew, hne, heq⟩
  · rw [heq]
    exact h
  · rw [heq]
    exact valid_of_sublist h eraseP_sublist
  · rw [heq]
    have hr := h.readable existing (mem_of_find?_eq_some hf)
    refine valid_updateFirst h ?_ ?_
    · intro entry
      rfl
    intro old hold
    rw [hf, Option.some.injEq] at hold
    subst hold
    exact { hr with
      kind := ⟨readable_source hr, ⟨hidem newPath, hnew⟩, hsrc⟩
      recordedAt := hrec }
  rw [heq]
  apply valid_append h (List.Sublist.refl _) ?_ hfr
  exact readable_newIntent isNonEmptyString_createIntentId
    ⟨⟨hidem oldPath, hold⟩, ⟨hidem newPath, hnew⟩, hne⟩ hrec hscope hb.acceptable

/-- `recordRename` keeps what is attempted or committed. -/
theorem fenced_recordRename (h : journal.Valid norm) (he : entry ∈ journal.entries)
    (hf : entry.isReadyToCommit = false) :
    entry ∈ (journal.recordRename norm oldPath newPath scope base recordedAt random).entries := by
  have hne : ∀ existing : PendingBlobIntent, existing.isReadyToCommit = true →
      entry ≠ existing := by
    rintro existing hr rfl
    rw [hr] at hf
    cases hf
  rcases recordRename_cases journal oldPath newPath scope base recordedAt random with
    heq | ⟨existing, hex, hr, heq⟩ | ⟨test, existing, hfind, hr, -, -, heq⟩ |
      ⟨-, -, -, heq⟩
  · rw [heq]
    exact he
  · rw [heq]
    exact mem_removeIntent_of_ne h.ids hex he (hne existing hr)
  · rw [heq]
    apply mem_updateFirst_of_ne he
    rw [hfind]
    intro hs
    exact hne existing hr (some.inj hs).symm
  · rw [heq]
    exact mem_append_left _ he

/-- A mark changes the intent with the id if that passes the test, and no other. -/
theorem mark_cases (journal : PendingBlobIntentJournal) (id : JsString)
    (test : PendingBlobIntent → Bool) (change : PendingBlobIntent → PendingBlobIntent) :
    journal.mark id test change = (journal, false) ∨
    ∃ existing, journal.entries.find? (fun entry => entry.id = id) = some existing ∧
      test existing = true ∧ journal.mark id test change = ({ journal with
        entries := updateFirst (fun entry => entry.id = id) change journal.entries }, true) := by
  unfold mark
  split
  · next htest =>
    rw [Option.any_eq_true] at htest
    obtain ⟨existing, hf, htest⟩ := htest
    exact .inr ⟨existing, hf, htest, rfl⟩
  · exact .inl rfl

theorem valid_mark (h : journal.Valid norm) (hid : ∀ entry, (change entry).id = entry.id)
    (hch : ∀ entry, entry.Readable norm → test entry = true → (change entry).Readable norm) :
    (journal.mark id test change).1.Valid norm := by
  rcases mark_cases journal id test change with heq | ⟨existing, hf, htest, heq⟩ <;> rw [heq]
  · exact h
  apply valid_updateFirst h hid
  intro old hold
  rw [hf, Option.some.injEq] at hold
  subst hold
  exact hch existing (h.readable existing (mem_of_find?_eq_some hf)) htest

/-- An intent that a mark changes has the id and passes the test. -/
theorem fenced_mark (he : entry ∈ journal.entries) :
    entry ∈ (journal.mark id test change).1.entries ∨ (id = entry.id ∧ test entry = true) := by
  rcases mark_cases journal id test change with heq | ⟨existing, hf, htest, heq⟩ <;> rw [heq]
  · exact .inl he
  by_cases hsa : existing = entry
  · subst hsa
    have hid := find?_some hf
    rw [decide_eq_true_eq] at hid
    exact .inr ⟨hid.symm, htest⟩
  apply Or.inl
  apply mem_updateFirst_of_ne he
  rw [hf]
  intro hs
  exact hsa (some.inj hs)

theorem hydrate_map_toJson (h : ∀ entry ∈ entries, entry.Readable norm) :
    hydrate norm (.arr (entries.map PendingBlobIntent.toJson)) = entries := by
  rw [hydrate]
  induction entries with
  | nil => rfl
  | cons entry entries ih =>
    rw [map_cons, filterMap_cons_some (readIntent_toJson (h entry mem_cons_self)),
      ih fun other hmem => h other (mem_cons_of_mem _ hmem)]

theorem getEntries_eq (h : journal.Valid norm) : journal.getEntries = journal.entries := by
  rw [getEntries, List.map_congr_left (g := id), List.map_id]
  intro entry he
  exact clone_eq (h.readable entry he)

/-- A journal made from what is stored has the same entries. -/
theorem hydrate_stored (h : journal.Valid norm) :
    hydrate norm journal.stored = journal.entries := by
  rw [stored, getEntries_eq h, hydrate_map_toJson h.readable]

theorem phaseIsReadable_of_ready (h : entry.isReadyToCommit = true) :
    entry.phaseIsReadable = true := by
  simp only [PendingBlobIntent.isReadyToCommit, decide_eq_true_eq] at h
  simp [PendingBlobIntent.phaseIsReadable, h]

theorem readable_withCommit (h : entry.Readable norm)
    (hr : entry.isReadyToCommit = true) {committedAt : ℤ} {commitSessionId : JsString}
    {receiptCandidateId commitDeleteFingerprint : Option JsString}
    (hcom : isValidTimestamp committedAt = true)
    (hsess : isNonEmptyString commitSessionId = true)
    (hrec : receiptCandidateId.all isNonEmptyString = true)
    (hprint : commitDeleteFingerprint.all isNonEmptyString = true) :
    (withCommit committedAt commitSessionId receiptCandidateId
      commitDeleteFingerprint entry).Readable norm := by
  simp only [PendingBlobIntent.isReadyToCommit, decide_eq_true_eq] at hr
  exact { h with
    committedAt := hcom
    receiptCandidateId := hrec
    commitSessionId := hsess
    commitDeleteFingerprint := hprint
    phase := by simp [PendingBlobIntent.phaseIsReadable, withCommit, hr] }

variable {commitAttemptId : JsString}

theorem ready_withoutAttempt (h : entry.hasExactCommitAttempt commitAttemptId = true) :
    (withoutAttempt entry).isReadyToCommit = true := by
  simp only [PendingBlobIntent.hasExactCommitAttempt, decide_eq_true_eq] at h
  simp [PendingBlobIntent.isReadyToCommit, withoutAttempt, h]

theorem readable_withoutAttempt (h : entry.Readable norm)
    (hatt : entry.hasExactCommitAttempt commitAttemptId = true) :
    (withoutAttempt entry).Readable norm :=
  { h with
    commitAttemptId := rfl
    attemptedAt := rfl
    attemptSessionId := rfl
    phase := phaseIsReadable_of_ready (ready_withoutAttempt hatt) }

variable {call : JournalCall}

/-- Every call keeps the journal valid. -/
theorem valid_next (hidem : ∀ path, norm (norm path) = norm path) (h : journal.Valid norm)
    (hwell : call.WellFormed norm) (hfr : call.Fresh journal) :
    (journalNext norm journal call).Valid norm := by
  cases call with
  | recordDelete path scope base recordedAt random =>
    obtain ⟨hp, hscope, hb, hrec⟩ := hwell
    exact valid_recordDelete h hidem hp hscope hb hrec hfr
  | recordRename oldPath newPath scope base recordedAt random =>
    obtain ⟨hscope, hb, hrec⟩ := hwell
    exact valid_recordRename h hidem hscope hb hrec hfr
  | markCommitAttempted id commitAttemptId attemptedAt attemptSessionId =>
    simp only [journalNext, markCommitAttempted]
    split
    · exact h
    · next hargs =>
      simp only [not_or, not_not] at hargs
      refine valid_mark h (fun _ => rfl) ?_
      intro entry hr hry
      simp only [PendingBlobIntent.isReadyToCommit, decide_eq_true_eq] at hry
      exact { hr with
        commitAttemptId := hargs.1
        attemptedAt := hargs.2.1
        attemptSessionId := hargs.2.2
        phase := by simp [PendingBlobIntent.phaseIsReadable, hry] }
  | clearCommitAttempt id commitAttemptId =>
    simp only [journalNext, clearCommitAttempt]
    split
    · exact h
    refine valid_mark h (fun _ => rfl) ?_
    intro entry hr hatt
    exact readable_withoutAttempt hr hatt
  | markCommitted id committedAt commitSessionId receiptCandidateId commitDeleteFingerprint =>
    simp only [journalNext, markCommitted]
    split
    · exact h
    · next hargs =>
      simp only [not_or, not_not] at hargs
      refine valid_mark h (fun _ => rfl) ?_
      intro entry hr hry
      exact readable_withCommit hr hry hargs.1 hargs.2.1 hargs.2.2.1 hargs.2.2.2
  | markCommittedFromAttempt id commitAttemptId committedAt commitSessionId receiptCandidateId
      commitDeleteFingerprint =>
    simp only [journalNext, markCommittedFromAttempt]
    split
    · exact h
    · next hargs =>
      simp only [not_or, not_not] at hargs
      refine valid_mark h (fun _ => rfl) ?_
      intro entry hr hatt
      exact readable_withCommit (readable_withoutAttempt hr hatt)
        (ready_withoutAttempt hatt) hargs.2.1 hargs.2.2.1 hargs.2.2.2.1 hargs.2.2.2.2
  | remove id => exact valid_of_sublist h eraseP_sublist
  | restore intent =>
    simp only [journalNext, restore]
    split
    · exact h
    · next hnew =>
      rw [clone_eq hwell]
      apply valid_append h (List.Sublist.refl _) hwell
      intro other hmem heq
      exact hnew (any_eq_true.mpr ⟨other, hmem, decide_eq_true heq⟩)
  | restart =>
    have hs : (journalNext norm journal .restart).entries = journal.entries := hydrate_stored h
    exact ⟨fun entry he => h.readable entry (hs ▸ he), hs ▸ h.ids⟩

/-- A call that does not name a fenced intent keeps it. -/
theorem fenced_next (hidem : ∀ path, norm (norm path) = norm path) (h : journal.Valid norm)
    (hwell : call.WellFormed norm) (he : entry ∈ journal.entries)
    (hf : entry.isReadyToCommit = false) :
    entry ∈ (journalNext norm journal call).entries ∨ call.Names entry := by
  have hr : ∀ {P : Prop}, entry.isReadyToCommit = true → P := by
    intro P hr
    rw [hr] at hf
    cases hf
  cases call with
  | recordDelete path scope base recordedAt random =>
    exact .inl (fenced_recordDelete h hidem hwell.1 hwell.2.2.1 he hf)
  | recordRename oldPath newPath scope base recordedAt random =>
    exact .inl (fenced_recordRename h he hf)
  | markCommitAttempted id commitAttemptId attemptedAt attemptSessionId =>
    simp only [journalNext, markCommitAttempted]
    split
    · exact .inl he
    rcases fenced_mark he with hmem | ⟨-, htest⟩
    · exact .inl hmem
    · exact hr htest
  | clearCommitAttempt id commitAttemptId =>
    simp only [journalNext, clearCommitAttempt]
    split
    · exact .inl he
    rcases fenced_mark he with hmem | ⟨hid, htest⟩
    · exact .inl hmem
    simp only [PendingBlobIntent.hasExactCommitAttempt, decide_eq_true_eq] at htest
    exact .inr ⟨hid, htest.1⟩
  | markCommitted id committedAt commitSessionId receiptCandidateId commitDeleteFingerprint =>
    simp only [journalNext, markCommitted]
    split
    · exact .inl he
    rcases fenced_mark he with hmem | ⟨-, htest⟩
    · exact .inl hmem
    · exact hr htest
  | markCommittedFromAttempt id commitAttemptId committedAt commitSessionId receiptCandidateId
      commitDeleteFingerprint =>
    simp only [journalNext, markCommittedFromAttempt]
    split
    · exact .inl he
    rcases fenced_mark he with hmem | ⟨hid, htest⟩
    · exact .inl hmem
    simp only [PendingBlobIntent.hasExactCommitAttempt, decide_eq_true_eq] at htest
    exact .inr ⟨hid, htest.1⟩
  | remove id =>
    by_cases hid : id = entry.id
    · exact .inr hid
    refine .inl ?_
    apply (mem_eraseP_of_neg ?_).mpr he
    rw [decide_eq_true_eq]
    exact Ne.symm hid
  | restore intent =>
    simp only [journalNext, restore]
    split
    · exact .inl he
    · exact .inl (mem_append_left _ he)
  | restart =>
    have hs : (journalNext norm journal .restart).entries = journal.entries := hydrate_stored h
    exact .inl (hs ▸ he)

variable {migrated : PendingBlobIntent}

/-- What the migration leaves of an intent differs from it at most in the path of a document. -/
theorem migrate_cases (h : migratePendingBlobIntentDocumentOwnership entry = some migrated) :
    migrated = entry ∨ ∃ oldPath newPath, entry.kind = .rename oldPath newPath ∧
      isCrdtDocumentPath newPath = true ∧ migrated = { entry with kind := .delete oldPath } := by
  unfold migratePendingBlobIntentDocumentOwnership at h
  cases hk : entry.kind with simp only [hk] at h
  | delete path =>
    split at h
    · cases h
    · exact .inl (some.inj h).symm
  | rename oldPath newPath =>
    split at h
    · cases h
    split at h
    · cases h
    split at h
    · exact .inl (some.inj h).symm
    · next hdoc =>
      rw [not_not] at hdoc
      exact .inr ⟨oldPath, newPath, rfl, hdoc, (some.inj h).symm⟩

theorem readable_migrate (h : entry.Readable norm)
    (hmig : migratePendingBlobIntentDocumentOwnership entry = some migrated) :
    migrated.Readable norm := by
  rcases migrate_cases hmig with rfl | ⟨oldPath, newPath, hk, -, rfl⟩
  · exact h
  have hr := h.kind
  rw [hk] at hr
  exact { h with kind := hr.1 }

theorem hydrate_storedMigrated (h : journal.Valid norm) :
    hydrate norm journal.storedMigrated =
      journal.entries.filterMap migratePendingBlobIntentDocumentOwnership := by
  rw [storedMigrated, getEntries_eq h]
  apply hydrate_map_toJson
  intro migrated hmem
  obtain ⟨entry, he, hmig⟩ := mem_filterMap.mp hmem
  exact readable_migrate (h.readable entry he) hmig

end Steps

/-- None of the paths is one of a document or of a local safety copy. -/
def PendingBlobIntentKind.OfAttachments : PendingBlobIntentKind → Prop
  | .delete path => isCrdtDocumentPath path = false ∧ isLocalSafetyArtifactPath path = false
  | .rename oldPath newPath =>
    isCrdtDocumentPath oldPath = false ∧ isLocalSafetyArtifactPath oldPath = false ∧
      isCrdtDocumentPath newPath = false ∧ isLocalSafetyArtifactPath newPath = false

/-- What a rename of an attachment to a document leaves. -/
def PendingBlobIntent.retired (intent : PendingBlobIntent) : PendingBlobIntent :=
  { intent with kind := .delete intent.source }

/-- The journal's promise about a run: phases, fences and restarts, the latter with and without
the migration. -/
structure KeepsIntents (norm : JsString → JsString) (calls : List JournalCall) : Prop where
  phase : ∀ n, ∀ entry ∈ (journalAt norm calls n).entries, entry.HasOnePhase
  fence : ∀ n call, calls[n]? = some call → ∀ entry ∈ (journalAt norm calls n).entries,
    entry.isReadyToCommit = false →
      entry ∈ (journalAt norm calls (n + 1)).entries ∨ call.Names entry
  restart : ∀ n, hydrate norm
    (journalAt norm calls n).stored = (journalAt norm calls n).entries
  migration : ∀ n, hydrate norm (journalAt norm calls n).storedMigrated =
    (journalAt norm calls n).entries.filterMap migratePendingBlobIntentDocumentOwnership
  kept : ∀ n, ∀ entry ∈ (journalAt norm calls n).entries, entry.kind.OfAttachments →
    entry ∈ hydrate norm (journalAt norm calls n).storedMigrated
  migrated : ∀ n, ∀ entry ∈ hydrate norm (journalAt norm calls n).storedMigrated,
    entry ∈ (journalAt norm calls n).entries ∨
      ∃ intent ∈ (journalAt norm calls n).entries, ∃ oldPath newPath,
        intent.kind = .rename oldPath newPath ∧ isCrdtDocumentPath newPath = true ∧
        entry = intent.retired

section Runs

variable {norm norm : JsString → JsString} {calls : List JournalCall}
  {journal : PendingBlobIntentJournal} {entry : PendingBlobIntent}

theorem migrate_of_attachments (h : entry.kind.OfAttachments) :
    migratePendingBlobIntentDocumentOwnership entry = some entry := by
  unfold migratePendingBlobIntentDocumentOwnership
  cases hk : entry.kind with rw [hk] at h
  | delete path => simp [h.1, h.2]
  | rename oldPath newPath => simp [h.1, h.2.1, h.2.2.1, h.2.2.2]

theorem valid_at (hidem : ∀ path, norm (norm path) = norm path)
    (hwell : ∀ call ∈ calls, call.WellFormed norm)
    (hfr : ∀ (n : ℕ) (call : JournalCall), calls[n]? = some call →
      call.Fresh (journalAt norm calls n))
    (n : ℕ) : (journalAt norm calls n).Valid norm := by
  induction n with
  | zero => exact ⟨fun entry he => absurd he not_mem_nil, nodup_nil⟩
  | succ n ih =>
    cases hc : calls[n]? with
    | none =>
      rw [journalAt, stateAt_succ_none hc]
      exact ih
    | some call =>
      rw [journalAt, stateAt_succ hc]
      exact valid_next hidem ih (hwell call (mem_of_getElem? hc)) (hfr n call hc)

/-- Every run of well-formed calls keeps its intents. -/
theorem keepsIntents (hidem : ∀ path, norm (norm path) = norm path)
    (hwell : ∀ call ∈ calls, call.WellFormed norm)
    (hfresh : ∀ (n : ℕ) (call : JournalCall), calls[n]? = some call →
      call.Fresh (journalAt norm calls n)) :
    KeepsIntents norm calls := by
  have hv := valid_at hidem hwell hfresh
  constructor
  · intro n entry he
    exact hasOnePhase ((hv n).readable entry he).phase
  · intro n call hc entry he hf
    have hn : journalAt norm calls (n + 1) =
        journalNext norm (journalAt norm calls n) call := stateAt_succ hc
    rw [hn]
    exact fenced_next hidem (hv n) (hwell call (mem_of_getElem? hc)) he hf
  · intro n
    exact hydrate_stored (hv n)
  · intro n
    exact hydrate_storedMigrated (hv n)
  · intro n entry he hatt
    rw [hydrate_storedMigrated (hv n)]
    exact mem_filterMap.mpr ⟨entry, he, migrate_of_attachments hatt⟩
  intro n entry he
  rw [hydrate_storedMigrated (hv n)] at he
  obtain ⟨intent, hi, hmig⟩ := mem_filterMap.mp he
  rcases migrate_cases hmig with rfl | ⟨oldPath, newPath, hk, hdoc, rfl⟩
  · exact .inl hi
  refine .inr ⟨intent, hi, oldPath, newPath, hk, hdoc, ?_⟩
  rw [PendingBlobIntent.retired, PendingBlobIntent.source, hk]

end Runs

def sampleScope : PendingBlobIntentScope := ⟨js "host", js "vault", js "device"⟩

def sampleBase : PendingBlobMutationBase where
  known := true
  ref := some ⟨List.replicate 64 97, 3, []⟩
  sourceVersionKnown := true
  expectedSourceVersion := some (js "7:12")

theorem readable_sampleScope : sampleScope.Readable := ⟨rfl, rfl, rfl⟩

theorem wellFormed_sampleBase : sampleBase.WellFormed := by
  refine ⟨?_, ?_, ?_⟩
  · intro ref href
    cases href
    decide
  · intro _ _
    exact ⟨rfl, _, rfl, by decide⟩
  · rintro (h | h) <;> cases h

/-- A deletion is attempted, another file is renamed to the path, the journal starts anew, and the
attempt succeeds. -/
def committedCalls : List JournalCall :=
  [.recordDelete (js "a.png") sampleScope sampleBase 5 (js "x"),
    .markCommitAttempted (js "5-1-x") (js "attempt") 6 (js "session"),
    .recordRename (js "b.png") (js "a.png") sampleScope sampleBase 7 (js "x"),
    .restart,
    .markCommittedFromAttempt (js "5-1-x") (js "attempt") 9 (js "session") none none]

instance JournalCall.decidableFresh (journal : PendingBlobIntentJournal) (call : JournalCall) :
    Decidable (call.Fresh journal) :=
  match call with
  | .recordDelete .. | .recordRename .. =>
    inferInstanceAs (Decidable (∀ entry ∈ journal.entries, _))
  | .markCommitAttempted .. | .clearCommitAttempt .. | .markCommitted ..
  | .markCommittedFromAttempt .. | .remove .. | .restore .. | .restart => isTrue trivial

theorem keepsIntents_committed : KeepsIntents id committedCalls := by
  apply keepsIntents (fun _ => rfl)
  · simp only [committedCalls, forall_mem_cons]
    refine ⟨?_, trivial, ?_, trivial, trivial, ?_⟩
    · exact ⟨by decide, readable_sampleScope, wellFormed_sampleBase, by decide⟩
    · exact ⟨readable_sampleScope, wellFormed_sampleBase, by decide⟩
    · exact fun call hc => absurd hc not_mem_nil
  intro n call hc
  have hn : n < 5 := (List.getElem?_eq_some_iff.mp hc).1
  have hfr : ∀ n < 5, ∀ call ∈ committedCalls[n]?, call.Fresh (journalAt id committedCalls n) := by
    decide
  exact hfr n hn call hc

/-- An attachment becomes a document. -/
def adoptedCalls : List JournalCall :=
  [.recordRename (js "a.png") (js "a.base") sampleScope sampleBase 5 (js "x")]

/-- The call is well-formed, but after the migration its intent is another. -/
theorem migration_changes_intent :
    (∀ call ∈ adoptedCalls, call.WellFormed id ∧ call.Fresh {}) ∧
    (journalAt id adoptedCalls 1).entries.map PendingBlobIntent.kind =
      [.rename (js "a.png") (js "a.base")] ∧
    (hydrate id (journalAt id adoptedCalls 1).storedMigrated).map
      PendingBlobIntent.kind = [.delete (js "a.png")] := by
  refine ⟨?_, ?_, ?_⟩
  · intro call hc
    rw [adoptedCalls, mem_singleton] at hc
    subst hc
    refine ⟨⟨readable_sampleScope, wellFormed_sampleBase, by decide⟩, ?_⟩
    exact fun entry he => absurd he not_mem_nil
  · decide
  · decide

end Kaos.Sync
