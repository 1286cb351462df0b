import Kaos.Server.FileHistoryIndexSafety

/-! Runs of the file history of a room. -/
namespace Kaos.Server

open Kaos.Lib Option

variable {φ π μ τ ε : Type*} [DecidableEq φ] {s s' : FileHistory φ π μ τ ε}
  {recoveryEntry : Option μ → Option τ → List π → Option ε} {x : φ} {w : ℕ}

namespace FileHistory

section Steps

theorem sound_flushRecoveryDirtyMarks (h : Sound recoveryEntry s) :
    Sound recoveryEntry s.flushRecoveryDirtyMarks := by
  unfold flushRecoveryDirtyMarks
  split
  · exact h
  · exact h.advance (.of_eq rfl rfl rfl) rfl (fun _ => .rfl) rfl rfl

omit [DecidableEq φ] in
theorem flushRecoveryDirtyMarks_awaiting (phase : SnapshotAttempt φ π μ τ ε) :
    (s.awaiting phase).flushRecoveryDirtyMarks = s.flushRecoveryDirtyMarks.awaiting phase := by
  unfold flushRecoveryDirtyMarks awaiting
  dsimp only
  split <;> rfl

theorem sound_flushed {success : Bool} (h : Sound recoveryEntry s) :
    Sound recoveryEntry (s.flushed success) := by
  unfold flushed
  split
  · exact h.advance (.of_eq rfl rfl rfl) rfl (fun _ => .rfl) rfl rfl
  · exact h

/-- The marks in storage. -/
def storedMarks (s : FileHistory φ π μ τ ε) : OrderedMap φ ℕ :=
  (s.storedDirty.map (·.entries)).getD .empty

/-- The file has a mark, of that number or a later one. -/
def MarkedFrom (marks : OrderedMap φ ℕ) (w : ℕ) (x : φ) : Prop := ∃ n, marks.get? x = some n ∧ w ≤ n

/-- A file whose mark is in memory only is saved as the state has it, so that its change is lost with
its mark; a file that has no mark is saved as it is in memory. -/
def LosesNoMark (s : FileHistory φ π μ τ ε)
    (recoveryEntry : Option μ → Option τ → List π → Option ε) (state : φ → Option ε) (w : ℕ) : Prop :=
  ∀ x, ¬ MarkedFrom s.storedMarks w x →
    (MarkedFrom s.recoveryDirtyMarks w x → s.savedDoc.entry recoveryEntry x = state x) ∧
    (¬ MarkedFrom s.recoveryDirtyMarks w x →
      s.savedDoc.entry recoveryEntry x = s.doc.entry recoveryEntry x)

/-- A restart loses no mark that the index or a pending upload needs, and the numbers in storage are
not behind the upload's. -/
structure Restartable (s : FileHistory φ π μ τ ε)
    (recoveryEntry : Option μ → Option τ → List π → Option ε) : Prop where
  index : ∀ entries, s.recoveryIndex = some entries → s.LosesNoMark recoveryEntry entries 0
  pending : ∀ p, s.storedPending = some p ∨ s.bucketPending = some p →
    s.LosesNoMark recoveryEntry p.persistedState (p.dirtyWatermark + 1) ∧
      p.dirtyWatermark ≤ (s.storedDirty.map (·.nextSeq)).getD 0

variable {p : PreparedUpload φ ε}

omit [DecidableEq φ] in
theorem isPending_restart (h : s.restart.IsPending p) :
    s.IsPending p ∧ (s.storedPending = some p ∨ s.bucketPending = some p) := by
  rcases h with hm | hst | hbuc
  · cases hm
  · exact ⟨.inr (.inl hst), .inl hst⟩
  · exact ⟨.inr (.inr hbuc), .inr hbuc⟩

/-- What a state says of the files in memory it says of those that a restart finds. -/
theorem LosesNoMark.restart {state : φ → Option ε} (h : s.LosesNoMark recoveryEntry state w)
    (hstate : state x = s.doc.entry recoveryEntry x ∨ MarkedFrom s.recoveryDirtyMarks w x) :
    state x = s.restart.doc.entry recoveryEntry x ∨
      MarkedFrom s.restart.recoveryDirtyMarks w x := by
  by_cases hst : MarkedFrom s.storedMarks w x
  · exact .inr hst
  left
  by_cases hm : MarkedFrom s.recoveryDirtyMarks w x
  · exact ((h x hst).1 hm).symm
  · exact (hstate.resolve_right hm).trans ((h x hst).2 hm).symm

theorem sound_restart (h : Sound recoveryEntry s) (hres : s.Restartable recoveryEntry) :
    Sound recoveryEntry s.restart := by
  have hmark : ∀ {marks : OrderedMap φ ℕ} {x}, MarkedFrom marks 0 x ↔ (marks.get? x).isSome :=
    fun {marks x} => by simp [MarkedFrom, isSome_iff_exists]
  refine ⟨fun entries he x => ?_, fun p q hp hq => ?_, fun p hp => ?_, trivial, h.noops⟩
  · rw [← hmark]
    exact (hres.index entries he).restart ((h.index entries he x).imp_right hmark.mpr)
  · exact h.single p q (isPending_restart hp).1 (isPending_restart hq).1
  obtain ⟨hpe, hk⟩ := isPending_restart hp
  obtain ⟨hmarks, hseq⟩ := hres.pending p hk
  exact ⟨hseq, fun x => hmarks.restart ((h.pending p hpe).files x)⟩

/-- The read of the bucket does not fail where it would find the only pending upload. -/
def FindsPending (s : FileHistory φ π μ τ ε) (bucketReads : Bool) : Prop :=
  s.loadPending bucketReads = none → s.bucketPending = none

omit [DecidableEq φ] in
variable {bucketReads : Bool}

omit [DecidableEq φ] in
theorem isPending_of_loadPending (h : s.loadPending bucketReads = some p) : s.IsPending p := by
  rcases or_eq_some_iff.mp h with hm | ⟨-, h⟩
  · exact .inl hm
  rcases or_eq_some_iff.mp h with hst | ⟨-, h⟩
  · exact .inr (.inl hst)
  split at h
  · exact .inr (.inr h)
  · cases h

omit [DecidableEq φ] in
theorem not_isPending_of_loadPending (hfinds : s.FindsPending bucketReads)
    (h : s.loadPending bucketReads = none) (p : PreparedUpload φ ε) : ¬ s.IsPending p := by
  have hbuc := hfinds h
  unfold loadPending at h
  rw [or_eq_none_iff, or_eq_none_iff] at h
  rintro (hp | hp | hp)
  · rw [h.1] at hp
    cases hp
  · rw [h.2.1] at hp
    cases hp
  rw [hbuc] at hp
  cases hp

variable {forceFull : Bool}

theorem sound_load (h : Sound recoveryEntry s)
    (hfinds : s.FindsPending bucketReads) : Sound recoveryEntry { s with
        attempt := .auditing forceFull (s.loadPending bucketReads)
        pendingRecoveryUpload := s.loadPending bucketReads } := by
  cases hload : s.loadPending bucketReads with
  | none =>
    have hn := not_isPending_of_loadPending hfinds hload
    have hk : ∀ p : PreparedUpload φ ε, ¬ FileHistory.IsPending
        { s with attempt := .auditing forceFull none, pendingRecoveryUpload := none } p := by
      rintro p (hp | hp | hp)
      · cases hp
      · exact hn p (.inr (.inl hp))
      · exact hn p (.inr (.inr hp))
    exact ⟨h.index, fun p _ hp => absurd hp (hk p), fun p hp => absurd hp (hk p), hk, h.noops⟩
  | some p =>
    have hp := isPending_of_loadPending hload
    refine Sound.pendings h (h.pending p hp) (fun q hq => h.single q p hq hp) rfl rfl rfl rfl
      (fun q hq => ?_) (.inl rfl) rfl
    rcases hq with hq | hq | hq
    · cases hq
      exact .inr rfl
    · exact .inl (.inr (.inl hq))
    · exact .inl (.inr (.inr hq))

/-- A file without a mark has its entry in the index. -/
theorem Sound.clean {entries : φ → Option ε} (h : Sound recoveryEntry s)
    (hix : s.recoveryIndex = some entries) (hx : x ∉ s.recoveryDirtyMarks.keys) :
    entries x = s.doc.entry recoveryEntry x := by
  rcases h.index entries hix x with he | hm
  · exact he
  rw [OrderedMap.get?_eq_none.mpr hx] at hm
  cases hm

variable {answer : SnapshotAnswer}

theorem sound_capture (h : Sound recoveryEntry s)
    (hn : ∀ p, ¬ s.IsPending p) : Sound recoveryEntry (s.capture forceFull answer) := by
  have hfull : s.Meaning recoveryEntry (.scanning none s.recoveryDirtyMarks.keys
      s.recoveryDirtySeq none fun _ => none) := by
    refine ⟨hn, Nat.le_refl _, fun entries he => ?_, fun _ _ => rfl, fun d hd => ?_⟩
    · cases he
    · cases hd
  unfold capture
  split
  · next index hix =>
    split
    · split
      · next hk =>
        have hc : ∀ x, index x = s.doc.entry recoveryEntry x :=
          fun x => h.clean hix (by rw [hk]; exact List.not_mem_nil)
        refine ⟨h.index, h.single, fun p hp => absurd hp (hn p), hn, fun noop hmem => ?_⟩
        rcases List.mem_cons.mp hmem with rfl | hold
        · exact hc
        · exact h.noops noop hold
      refine h.awaiting ⟨hn, Nat.le_refl _, fun entries he x hx => ?_, fun _ _ => rfl,
        fun d hd => ?_⟩
      · cases he
        exact .inl (h.clean hix hx)
      cases hd
      exact fun x => .inl ⟨rfl, rfl, nofun⟩
    · split
      · exact h.awaiting trivial
      · exact h.awaiting hfull
  · split
    · exact h.awaiting trivial
    · exact h.awaiting hfull

/-- What a scan persists is captured at its watermark. -/
theorem captured_scan {index : Option (φ → Option ε)} {dirtyFileIds : List φ}
    {selected : RoomFiles φ π μ τ} {texts : φ → Option (Option τ)} (hw : w ≤ s.recoveryDirtySeq)
    (he : ∀ entries, index = some entries → ∀ x, x ∉ dirtyFileIds →
      entries x = s.doc.entry recoveryEntry x ∨ s.MarkedAfter w x)
    (hsel : s.Selects w selected texts) :
    s.Captured recoveryEntry (s.persistedEntry recoveryEntry index dirtyFileIds selected texts)
      w := by
  have hr (x : φ) : recoveryEntry (selected.fileMeta x) ((texts x).getD (s.doc.text x))
      (selected.paths x) = s.doc.entry recoveryEntry x ∨ s.MarkedAfter w x := by
    rcases hsel x with ⟨hmeta, hp, htexts⟩ | hm
    · left
      have ht : (texts x).getD (s.doc.text x) = s.doc.text x := by
        cases htexts' : texts x with
        | none => rfl
        | some text => exact (htexts text htexts').symm
      unfold RoomFiles.entry
      rw [hmeta, hp, ht]
    · exact .inr hm
  refine ⟨hw, fun x => ?_⟩
  unfold persistedEntry
  split
  · next entries =>
    split
    · exact hr x
    · next hx => exact he entries rfl x hx
  · exact hr x

theorem sound_keepPending (h : Sound recoveryEntry s) (hs : ∀ q, s.IsPending q → q = p)
    (hcap : s.Captured recoveryEntry p.persistedState p.dirtyWatermark) :
    Sound recoveryEntry (s.keepPending p answer) := by
  unfold keepPending
  split
  · refine Sound.pendings h hcap hs rfl rfl rfl rfl (fun q hq => ?_) trivial rfl
    rcases hq with hq | hq | hq
    · exact .inr (some.inj hq).symm
    · exact .inr (some.inj hq).symm
    · exact .inl (.inr (.inr hq))
  split
  · refine Sound.pendings h hcap hs rfl rfl rfl rfl (fun q hq => ?_) trivial rfl
    rcases hq with hq | hq | hq
    · exact .inr (some.inj hq).symm
    · split at hq
      · cases hq
      · exact .inl (.inr (.inl hq))
    · exact .inr (some.inj hq).symm
  refine Sound.pendings h hcap hs rfl rfl rfl rfl (fun q hq => ?_) trivial rfl
  rcases hq with hq | hq | hq
  · exact .inr (some.inj hq).symm
  · exact .inl (.inr (.inl hq))
  · exact .inl (.inr (.inr hq))

omit [DecidableEq φ] in
variable {done : Option (PreparedUpload φ ε)}

omit [DecidableEq φ] in
theorem isPending_dropPending {q : PreparedUpload φ ε}
    (h : (s.dropPending done answer).IsPending q) : s.IsPending q := by
  unfold dropPending at h
  rcases h with hq | hq | hq
  · cases hq
  · split at hq
    · cases hq
    · exact .inr (.inl hq)
  dsimp only at hq
  split at hq
  · cases hq
  · exact .inr (.inr hq)

theorem sound_dropPending (h : Sound recoveryEntry s)
    (hph : s.Meaning recoveryEntry (.finishing done)) :
    Sound recoveryEntry (s.dropPending done answer) := by
  refine ⟨h.index, fun p q hp hq => h.single p q (isPending_dropPending hp)
    (isPending_dropPending hq), fun p hp => ?_, ?_, h.noops⟩
  · exact (h.pending p (isPending_dropPending hp)).advance (.of_eq rfl rfl rfl)
  cases done with
  | none => trivial
  | some p =>
    exact ⟨fun q hq => hph.1 q (isPending_dropPending hq), hph.2.advance (.of_eq rfl rfl rfl)⟩

/-- Clearing keeps the marks past the watermark. -/
theorem markedAfter_clear {fileIds : List φ} (h : s.MarkedAfter w x) :
    (s.clearProcessedRecoveryDirtyFileIds fileIds w).MarkedAfter w x := by
  obtain ⟨n, hn, hlt⟩ := h
  refine ⟨n, ?_, hlt⟩
  unfold clearProcessedRecoveryDirtyFileIds
  generalize s.recoveryDirtyMarks = marks at hn
  induction fileIds generalizing marks with
  | nil => exact hn
  | cons fileId fileIds ih =>
    rw [List.foldl_cons]
    refine ih _ ?_
    split
    · next seq hseq =>
      split
      · next hle =>
        have hne : x ≠ fileId := by
          rintro rfl
          rw [hn] at hseq
          cases hseq
          omega
        rw [OrderedMap.get?_delete_of_ne hne, hn]
      · exact hn
    · exact hn

theorem sound_clear (h : Sound recoveryEntry s) (hph : s.Meaning recoveryEntry (.clearing p)) :
    Sound recoveryEntry
      ((s.clearProcessedRecoveryDirtyFileIds p.processedDirtyFileIds
        p.dirtyWatermark).awaiting .idle) := by
  obtain ⟨hs, hcap, hix⟩ := hph
  have hc : FileHistory.Captured (s.clearProcessedRecoveryDirtyFileIds
      p.processedDirtyFileIds p.dirtyWatermark) recoveryEntry p.persistedState
      p.dirtyWatermark :=
    ⟨hcap.watermark, fun x => (hcap.files x).imp_right markedAfter_clear⟩
  refine ⟨fun entries hen x => ?_, h.single, fun q hq => ?_, trivial, h.noops⟩
  · have heq : some entries = some p.persistedState := hen.symm.trans hix
    cases heq
    rcases hc.files x with he | ⟨n, hn, -⟩
    · exact .inl he
    right
    have hget : (FileHistory.clearProcessedRecoveryDirtyFileIds s p.processedDirtyFileIds
      p.dirtyWatermark).recoveryDirtyMarks.get? x = some n := hn
    exact isSome_iff_exists.mpr ⟨n, hget⟩
  · rw [hs q hq]
    exact hc.advance (.of_eq rfl rfl rfl)

theorem sound_resume (h : Sound recoveryEntry s)
    (hfinds : ∀ forceFull, s.attempt = .loading forceFull → s.FindsPending answer.bucketReads) :
    Sound recoveryEntry (s.resume recoveryEntry answer) := by
  have hph := h.phase
  unfold resume
  split
  · exact h.awaiting trivial
  split
  · exact h
  · next forceFull heq => exact sound_load h (hfinds forceFull heq)
  · next heq =>
    rw [heq] at hph
    exact sound_capture h hph
  · next p heq =>
    rw [heq] at hph
    exact h.awaiting ⟨fun q hq => h.single q p hq hph, h.pending p hph⟩
  · exact h
  · next selected texts heq =>
    rw [heq] at hph
    obtain ⟨hno, hw, he, -, hsel⟩ := hph
    exact h.awaiting ⟨fun q hq => absurd hq (hno q), captured_scan hw he (hsel selected rfl)⟩
  · next heq =>
    rw [heq] at hph
    split
    · exact h.awaiting hph
    · exact sound_keepPending h hph.1 hph.2
  · next heq =>
    rw [heq] at hph
    exact sound_dropPending h hph
  · next p heq =>
    rw [heq] at hph
    refine ⟨fun entries he x => ?_, h.single,
      fun q hq => (h.pending q hq).advance (.of_eq rfl rfl rfl),
      ⟨hph.1, hph.2.advance (.of_eq rfl rfl rfl), rfl⟩, h.noops⟩
    cases he
    rcases hph.2.files x with hen | ⟨n, hn, -⟩
    · exact .inl hen
    · exact .inr (isSome_iff_exists.mpr ⟨n, hn⟩)
  · next heq =>
    rw [heq] at hph
    rw [← flushRecoveryDirtyMarks_awaiting]
    exact sound_flushRecoveryDirtyMarks (sound_clear h hph)

end Steps

section Runs

/-- Restarts lose no mark that is needed, and no pending upload is overlooked. -/
def Undisturbed (s : FileHistory φ π μ τ ε)
    (recoveryEntry : Option μ → Option τ → List π → Option ε) :
    FileHistoryEvent φ π μ τ → Prop
  | .restart => s.Restartable recoveryEntry
  | .resume answer =>
    ∀ forceFull, s.attempt = .loading forceFull → s.FindsPending answer.bucketReads
  | _ => True

/-- Marks leave the index, the pending uploads and the attempt alone. -/
theorem keeps_markRecoveryDirtyFileIds (s : FileHistory φ π μ τ ε) (fileIds : List φ) :
    (s.markRecoveryDirtyFileIds fileIds).recoveryIndex = s.recoveryIndex ∧
    (∀ p, (s.markRecoveryDirtyFileIds fileIds).IsPending p ↔ s.IsPending p) ∧
    (s.markRecoveryDirtyFileIds fileIds).attempt = s.attempt ∧
    (s.markRecoveryDirtyFileIds fileIds).cleanNoops = s.cleanNoops := by
  induction fileIds generalizing s with
  | nil => exact ⟨rfl, fun _ => .rfl, rfl, rfl⟩
  | cons fileId fileIds ih => exact ih (s.markRecoveryDirty fileId)

theorem sound_next {event : FileHistoryEvent φ π μ τ} (h : Sound recoveryEntry s)
    (hev : s.Undisturbed recoveryEntry event) : Sound recoveryEntry (s.next recoveryEntry event) := by
  cases event with
  | edit edit =>
    obtain ⟨hix, hp, hatt, hnoops⟩ :=
      keeps_markRecoveryDirtyFileIds { s with doc := s.doc.apply edit } (s.doc.affected edit)
    exact h.advance (advances_edit edit) hix hp hatt hnoops
  | beginSave | endSave success => exact h.advance (.of_eq rfl rfl rfl) rfl (fun _ => .rfl) rfl rfl
  | flushRecoveryDirtyMarks => exact sound_flushRecoveryDirtyMarks h
  | flushed success => exact sound_flushed h
  | restart => exact sound_restart h hev
  | createRecoverySnapshotMaybe forceFull =>
    unfold next
    dsimp only
    split
    · exact h.awaiting trivial
    · exact h
  | select =>
    unfold next
    dsimp only
    split
    · next heq =>
      have hph := h.phase
      rw [heq] at hph
      obtain ⟨hn, hw, he, htexts, -⟩ := hph
      refine h.awaiting ⟨hn, hw, he, nofun, fun d hd => ?_⟩
      cases hd
      refine fun x => .inl ⟨rfl, rfl, fun text ht => ?_⟩
      rw [htexts rfl x] at ht
      cases ht
    · exact h
  | readText fileId =>
    unfold next
    dsimp only
    split
    · next heq =>
      have hph := h.phase
      rw [heq] at hph
      obtain ⟨hn, hw, he, -, hsel⟩ := hph
      refine h.awaiting ⟨hn, hw, he, nofun, fun d hd x => ?_⟩
      cases hd
      rcases hsel _ rfl x with ⟨hmeta, hps, htexts⟩ | hm
      · refine .inl ⟨hmeta, hps, fun text ht => ?_⟩
        by_cases hx : x = fileId
        · subst hx
          rw [Function.update_self] at ht
          exact some.inj ht
        rw [Function.update_of_ne hx] at ht
        exact htexts text ht
      · exact .inr hm
    · exact h
  | resume answer => exact sound_resume h hev

variable (recoveryEntry)

def run (s : FileHistory φ π μ τ ε) (events : List (FileHistoryEvent φ π μ τ)) :
    FileHistory φ π μ τ ε :=
  events.foldl (next recoveryEntry) s

def UndisturbedRun : FileHistory φ π μ τ ε → List (FileHistoryEvent φ π μ τ) → Prop
  | _, [] => True
  | s, event :: events => s.Undisturbed recoveryEntry event ∧ UndisturbedRun (s.next recoveryEntry event) events

/-- A room whose document is loaded for the first time. -/
def init (doc : RoomFiles φ π μ τ) : FileHistory φ π μ τ ε where
  doc := doc
  savedDoc := doc

theorem sound_init (doc : RoomFiles φ π μ τ) : Sound recoveryEntry (init doc) := by
  have hn : ∀ p : PreparedUpload φ ε, ¬ (init doc).IsPending p := by
    rintro p (hp | hp | hp) <;> cases hp
  refine ⟨fun entries he => ?_, fun p _ hp => absurd hp (hn p),
    fun p hp => absurd hp (hn p), trivial, fun noop hmem => ?_⟩
  · cases he
  · cases hmem

variable {recoveryEntry} in
theorem sound_run {events : List (FileHistoryEvent φ π μ τ)} (h : Sound recoveryEntry s)
    (hevents : UndisturbedRun recoveryEntry s events) :
    Sound recoveryEntry (s.run recoveryEntry events) := by
  induction events generalizing s with
  | nil => exact h
  | cons event events ih => exact ih (sound_next h hevents.1) hevents.2

end Runs

section Rooms

/-- Entries that are the metadata with the text. -/
def plainEntry (fileMeta : Option ℕ) (text : Option ℕ) (_ : List ℕ) : Option (ℕ × Option ℕ) :=
  fileMeta.map fun value => (value, text)

def emptyRoom : RoomFiles ℕ ℕ ℕ ℕ where
  fileMeta _ := none
  text _ := none
  pathToId := []

/-- A file is created and saved, and an attempt takes it to the index. -/
def firstSnapshot : List (FileHistoryEvent ℕ ℕ ℕ ℕ) :=
  [.edit (.fileMeta 0 (some 1)), .beginSave, .endSave true, .createRecoverySnapshotMaybe false,
    .resume {}, .resume {}, .select, .resume {}, .resume {}, .resume {}, .resume {}, .resume {},
    .flushed true]

/-- The next attempt finds nothing to do. -/
def secondAttempt : List (FileHistoryEvent ℕ ℕ ℕ ℕ) :=
  [.createRecoverySnapshotMaybe false, .resume {}, .resume {}]

/-- A restart drops an edit of the file that is neither saved nor flushed. -/
def droppedEdit : List (FileHistoryEvent ℕ ℕ ℕ ℕ) :=
  firstSnapshot ++ [.edit (.text 0 (some 5)), .restart] ++ secondAttempt

theorem restartable_droppedEdit : Restartable
    ((init emptyRoom).run plainEntry (firstSnapshot ++ [.edit (.text 0 (some 5))])) plainEntry := by
  refine ⟨fun entries he x _ => ?_, nofun⟩
  cases he
  refine ⟨fun _ => ?_, fun hm => ?_⟩
  · cases x with
    | zero => rfl
    | succ x => rfl
  cases x with
  | zero => exact absurd ⟨2, rfl, Nat.zero_le _⟩ hm
  | succ x => rfl

/-- The text of the file is edited and saved, but its mark is not flushed before a restart. -/
def lostMark : List (FileHistoryEvent ℕ ℕ ℕ ℕ) :=
  firstSnapshot ++ [.edit (.text 0 (some 5)), .beginSave, .endSave true, .restart] ++ secondAttempt

end Rooms

end FileHistory

end Kaos.Server
