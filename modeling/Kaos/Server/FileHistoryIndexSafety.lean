import Mathlib.Order.Nat
import Kaos.Server.FileHistoryIndex

/-! A clean file-history index is that of the document, in runs whose restarts lose no mark that is
needed. -/
namespace Kaos.Server

open Kaos.Lib List

variable {φ π μ τ ε : Type*} [DecidableEq φ]

/-- The entry of a file in the document. -/
def RoomFiles.entry (recoveryEntry : Option μ → Option τ → List π → Option ε)
    (d : RoomFiles φ π μ τ) (fileId : φ) : Option ε :=
  recoveryEntry (d.fileMeta fileId) (d.text fileId) (d.paths fileId)

/-- What file history reads of a file is the same in both documents. -/
structure SameFile (d d' : RoomFiles φ π μ τ) (fileId : φ) : Prop where
  fileMeta : d'.fileMeta fileId = d.fileMeta fileId
  text : d'.text fileId = d.text fileId
  paths : d'.paths fileId = d.paths fileId

theorem SameFile.refl (d : RoomFiles φ π μ τ) (fileId : φ) : SameFile d d fileId := ⟨rfl, rfl, rfl⟩

section Edits

variable {d : RoomFiles φ π μ τ} {x : φ}

theorem paths_modify {entries : List (π × Option φ)} {i : ℕ} {fileId : Option φ}
    (hnew : fileId ≠ some x) (hold : ∀ entry, entries[i]? = some entry → entry.2 ≠ some x) :
    (entries.modify i fun entry => (entry.1, fileId)).filterMap
      (fun entry => if entry.2 = some x then some entry.1 else none) =
    entries.filterMap (fun entry => if entry.2 = some x then some entry.1 else none) := by
  induction entries generalizing i with
  | nil => rw [modify_nil]
  | cons first entries ih =>
    cases i with
    | zero =>
      have hf : first.2 ≠ some x := hold first rfl
      rw [modify_zero_cons, filterMap_cons, filterMap_cons, if_neg hnew, if_neg hf]
    | succ i =>
      have hr := ih fun entry he => hold entry he
      rw [modify_succ_cons, filterMap_cons, filterMap_cons, hr]

/-- The observers miss no file that an edit changes. -/
theorem same_of_not_affected {edit : RoomEdit φ π μ τ} (h : x ∉ d.affected edit) :
    SameFile d (d.apply edit) x := by
  cases edit with
  | fileMeta fileId value =>
    have hne : x ≠ fileId := by simpa [RoomFiles.affected] using h
    exact ⟨Function.update_of_ne hne _ _, rfl, rfl⟩
  | text fileId value =>
    have hne : x ≠ fileId := by simpa [RoomFiles.affected] using h
    exact ⟨rfl, Function.update_of_ne hne _ _, rfl⟩
  | path i fileId =>
    simp only [RoomFiles.affected, mem_append, Option.mem_toList, not_or] at h
    refine ⟨rfl, rfl, paths_modify h.1 fun entry he hid => h.2 ?_⟩
    rw [he, Option.bind_some, hid]
  | newPath path fileId =>
    have hne : x ≠ fileId := by simpa [RoomFiles.affected] using h
    refine ⟨rfl, rfl, ?_⟩
    have hid : ¬ (some fileId = some x) := fun heq => hne (Option.some.inj heq).symm
    simp [RoomFiles.apply, RoomFiles.paths, hid]

end Edits

namespace FileHistory

variable {s s' : FileHistory φ π μ τ ε} {x : φ} {w : ℕ}

/-- The file is marked with a number past the watermark. -/
def MarkedAfter (s : FileHistory φ π μ τ ε) (w : ℕ) (x : φ) : Prop :=
  ∃ n, s.recoveryDirtyMarks.get? x = some n ∧ w < n

/-- What has happened to the files between two states that no clearing lies between. -/
structure Advances (s s' : FileHistory φ π μ τ ε) : Prop where
  seq : s.recoveryDirtySeq ≤ s'.recoveryDirtySeq
  files : ∀ x, (SameFile s.doc s'.doc x ∧
      s'.recoveryDirtyMarks.get? x = s.recoveryDirtyMarks.get? x) ∨
    s'.MarkedAfter s.recoveryDirtySeq x

theorem Advances.markedAfter (h : Advances s s') (hw : w ≤ s.recoveryDirtySeq)
    (hm : s.MarkedAfter w x) : s'.MarkedAfter w x := by
  rcases h.files x with ⟨-, hs⟩ | ⟨n, hn, hlt⟩
  · obtain ⟨n, hn, hlt⟩ := hm
    exact ⟨n, hs.trans hn, hlt⟩
  · exact ⟨n, hn, by omega⟩

theorem marks_markRecoveryDirtyFileIds (fileIds : List φ) :
    (s.markRecoveryDirtyFileIds fileIds).doc = s.doc ∧
    s.recoveryDirtySeq ≤ (s.markRecoveryDirtyFileIds fileIds).recoveryDirtySeq ∧
    ∀ x, (x ∉ fileIds ∧ (s.markRecoveryDirtyFileIds fileIds).recoveryDirtyMarks.get? x =
        s.recoveryDirtyMarks.get? x) ∨
      (s.markRecoveryDirtyFileIds fileIds).MarkedAfter s.recoveryDirtySeq x := by
  unfold markRecoveryDirtyFileIds
  induction fileIds generalizing s with
  | nil => exact ⟨rfl, Nat.le_refl _, fun x => .inl ⟨not_mem_nil, rfl⟩⟩
  | cons fileId fileIds ih =>
    obtain ⟨hdoc, hseq, hf⟩ := ih (s := s.markRecoveryDirty fileId)
    have hnx : (s.markRecoveryDirty fileId).recoveryDirtySeq = s.recoveryDirtySeq + 1 := rfl
    refine ⟨hdoc, by rw [foldl_cons]; omega, fun x => ?_⟩
    rcases hf x with ⟨hmem, hget⟩ | ⟨n, hn, hlt⟩
    · by_cases hx : x = fileId
      · subst hx
        refine .inr ⟨s.recoveryDirtySeq + 1, ?_, by omega⟩
        exact hget.trans OrderedMap.get?_set_self
      refine .inl ⟨by simp [hx, hmem], ?_⟩
      exact hget.trans (OrderedMap.get?_set_of_ne hx)
    · exact .inr ⟨n, hn, by omega⟩

theorem advances_edit (edit : RoomEdit φ π μ τ) : Advances s
    (FileHistory.markRecoveryDirtyFileIds { s with doc := s.doc.apply edit }
      (s.doc.affected edit)) := by
  obtain ⟨hdoc, hseq, hf⟩ := marks_markRecoveryDirtyFileIds
    (s := { s with doc := s.doc.apply edit }) (s.doc.affected edit)
  refine ⟨hseq, fun x => ?_⟩
  rcases hf x with ⟨hmem, hget⟩ | hm
  · refine .inl ⟨?_, hget⟩
    rw [hdoc]
    exact same_of_not_affected hmem
  · exact .inr hm

/-- A state that was captured at the watermark is that of the document, but for the files that are
marked since. -/
structure Captured (s : FileHistory φ π μ τ ε) (recoveryEntry : Option μ → Option τ → List π →
    Option ε) (state : φ → Option ε) (w : ℕ) : Prop where
  watermark : w ≤ s.recoveryDirtySeq
  files : ∀ x, state x = s.doc.entry recoveryEntry x ∨ s.MarkedAfter w x

/-- An upload is kept in memory, in storage or in the bucket. -/
def IsPending (s : FileHistory φ π μ τ ε) (p : PreparedUpload φ ε) : Prop :=
  s.pendingRecoveryUpload = some p ∨ s.storedPending = some p ∨ s.bucketPending = some p

/-- The document whose metadata and paths were selected and the texts read since are those of the
document now, but for the files that are marked since. -/
def Selects (s : FileHistory φ π μ τ ε) (w : ℕ) (selected : RoomFiles φ π μ τ)
    (texts : φ → Option (Option τ)) : Prop :=
  ∀ x, (s.doc.fileMeta x = selected.fileMeta x ∧ s.doc.paths x = selected.paths x ∧
    ∀ text, texts x = some text → s.doc.text x = text) ∨ s.MarkedAfter w x

/-- What is known where the attempt waits. -/
def Meaning (s : FileHistory φ π μ τ ε) (recoveryEntry : Option μ → Option τ → List π → Option ε) :
    SnapshotAttempt φ π μ τ ε → Prop
  | .idle => True
  | .loading _ => True
  | .auditing _ none => ∀ p, ¬ s.IsPending p
  | .auditing _ (some p) => s.IsPending p
  | .scanning index dirtyFileIds w selected texts => (∀ p, ¬ s.IsPending p) ∧
      w ≤ s.recoveryDirtySeq ∧
      (∀ entries, index = some entries → ∀ x, x ∉ dirtyFileIds →
        entries x = s.doc.entry recoveryEntry x ∨ s.MarkedAfter w x) ∧
      (selected = none → ∀ x, texts x = none) ∧
      ∀ d, selected = some d → s.Selects w d texts
  | .uploading p => (∀ q, s.IsPending q → q = p) ∧ s.Captured recoveryEntry p.persistedState
      p.dirtyWatermark
  | .finishing none => ∀ p, ¬ s.IsPending p
  | .finishing (some p) => (∀ q, s.IsPending q → q = p) ∧ s.Captured recoveryEntry p.persistedState
      p.dirtyWatermark
  | .indexing p => (∀ q, s.IsPending q → q = p) ∧ s.Captured recoveryEntry p.persistedState
      p.dirtyWatermark
  | .clearing p => (∀ q, s.IsPending q → q = p) ∧ s.Captured recoveryEntry p.persistedState
      p.dirtyWatermark ∧ s.recoveryIndex = some p.persistedState

/-- The index is that of the document but for the marked files, there is one pending upload at
most, and it is that of the document but for the files that are marked since. -/
structure Sound (recoveryEntry : Option μ → Option τ → List π → Option ε)
    (s : FileHistory φ π μ τ ε) : Prop where
  index : ∀ entries, s.recoveryIndex = some entries → ∀ x,
    entries x = s.doc.entry recoveryEntry x ∨ (s.recoveryDirtyMarks.get? x).isSome = true
  single : ∀ p q, s.IsPending p → s.IsPending q → p = q
  pending : ∀ p, s.IsPending p → s.Captured recoveryEntry p.persistedState p.dirtyWatermark
  phase : s.Meaning recoveryEntry s.attempt
  noops : ∀ noop ∈ s.cleanNoops, ∀ x, noop.1 x = noop.2.entry recoveryEntry x

section Advance

variable {recoveryEntry : Option μ → Option τ → List π → Option ε} {state : φ → Option ε}

theorem Advances.of_eq (hdoc : s'.doc = s.doc) (hmarks : s'.recoveryDirtyMarks =
    s.recoveryDirtyMarks) (hseq : s'.recoveryDirtySeq = s.recoveryDirtySeq) : Advances s s' where
  seq := hseq.ge
  files x := .inl ⟨hdoc ▸ .refl _ x, by rw [hmarks]⟩

theorem entry_of_same {d d' : RoomFiles φ π μ τ} (h : SameFile d d' x) :
    d'.entry recoveryEntry x = d.entry recoveryEntry x := by
  unfold RoomFiles.entry
  rw [h.fileMeta, h.text, h.paths]

theorem Captured.advance (h : s.Captured recoveryEntry state w) (hadv : Advances s s') :
    s'.Captured recoveryEntry state w where
  watermark := h.watermark.trans hadv.seq
  files x := by
    rcases h.files x with hst | hm
    · rcases hadv.files x with ⟨hs, -⟩ | ⟨n, hn, hlt⟩
      · exact .inl (hst.trans (entry_of_same hs).symm)
      · exact .inr ⟨n, hn, h.watermark.trans_lt hlt⟩
    · exact .inr (hadv.markedAfter h.watermark hm)

theorem Selects.advance {selected : RoomFiles φ π μ τ} {texts : φ → Option (Option τ)}
    (h : s.Selects w selected texts) (hw : w ≤ s.recoveryDirtySeq) (hadv : Advances s s') :
    s'.Selects w selected texts := by
  intro x
  rcases h x with ⟨hmeta, hp, htexts⟩ | hm
  · rcases hadv.files x with ⟨hs, -⟩ | ⟨n, hn, hlt⟩
    · exact .inl ⟨hs.fileMeta.trans hmeta, hs.paths.trans hp,
        fun text ht => hs.text.trans (htexts text ht)⟩
    · exact .inr ⟨n, hn, hw.trans_lt hlt⟩
  · exact .inr (hadv.markedAfter hw hm)

variable {phase : SnapshotAttempt φ π μ τ ε}

theorem Meaning.advance (h : s.Meaning recoveryEntry phase)
    (hadv : Advances s s') (hix : s'.recoveryIndex = s.recoveryIndex)
    (hpe : ∀ p, s'.IsPending p ↔ s.IsPending p) : s'.Meaning recoveryEntry phase := by
  have hs {p : PreparedUpload φ ε} (hp : ∀ q, s.IsPending q → q = p) :
      ∀ q, s'.IsPending q → q = p := fun q hq => hp q ((hpe q).mp hq)
  have hno (hp : ∀ p, ¬ s.IsPending p) : ∀ p, ¬ s'.IsPending p :=
    fun p hq => hp p ((hpe p).mp hq)
  cases phase with
  | idle | loading forceFull => trivial
  | auditing forceFull pendingUpload =>
    cases pendingUpload with
    | none => exact hno h
    | some p => exact (hpe p).mpr h
  | scanning index dirtyFileIds w selected texts =>
    obtain ⟨hp, hw, hen, htexts, hsel⟩ := h
    refine ⟨hno hp, hw.trans hadv.seq, fun entries hi x hx => ?_, htexts,
      fun d hd => (hsel d hd).advance hw hadv⟩
    rcases hen entries hi x hx with he | hm
    · rcases hadv.files x with ⟨hsa, -⟩ | ⟨n, hn, hlt⟩
      · exact .inl (he.trans (entry_of_same hsa).symm)
      · exact .inr ⟨n, hn, hw.trans_lt hlt⟩
    · exact .inr (hadv.markedAfter hw hm)
  | uploading p | indexing p => exact ⟨hs h.1, h.2.advance hadv⟩
  | finishing done =>
    cases done with
    | none => exact hno h
    | some p => exact ⟨hs h.1, h.2.advance hadv⟩
  | clearing p => exact ⟨hs h.1, h.2.1.advance hadv, hix.trans h.2.2⟩

/-- The index, the pending uploads and the attempt stay while the files go on. -/
theorem Sound.advance (h : Sound recoveryEntry s) (hadv : Advances s s')
    (hix : s'.recoveryIndex = s.recoveryIndex)
    (hpe : ∀ p, s'.IsPending p ↔ s.IsPending p) (hatt : s'.attempt = s.attempt)
    (hnoops : s'.cleanNoops = s.cleanNoops) : Sound recoveryEntry s' where
  index entries he x := by
    rw [hix] at he
    rcases hadv.files x with ⟨hs, hget⟩ | ⟨n, hn, -⟩
    · rcases h.index entries he x with hen | hm
      · exact .inl (hen.trans (entry_of_same hs).symm)
      · exact .inr (by rw [hget, hm])
    · exact .inr (by rw [hn]; rfl)
  single p q hp hq := h.single p q ((hpe p).mp hp) ((hpe q).mp hq)
  pending p hp := (h.pending p ((hpe p).mp hp)).advance hadv
  phase := by
    rw [hatt]
    exact Meaning.advance h.phase hadv hix hpe
  noops := hnoops ▸ h.noops

/-- The attempt goes on to wait elsewhere. -/
theorem Sound.awaiting (h : Sound recoveryEntry s)
    (hph : s.Meaning recoveryEntry phase) : Sound recoveryEntry (s.awaiting phase) where
  index := h.index
  single := h.single
  pending p hp := (h.pending p hp).advance (.of_eq rfl rfl rfl)
  phase := by
    have hadv : Advances s (s.awaiting phase) := .of_eq rfl rfl rfl
    exact Meaning.advance hph hadv rfl fun _ => .rfl
  noops := h.noops

/-- Pending uploads that were there before, or are the one that is known. -/
theorem Sound.pendings {p : PreparedUpload φ ε} (h : Sound recoveryEntry s)
    (hcap : s.Captured recoveryEntry p.persistedState p.dirtyWatermark)
    (hold : ∀ q, s.IsPending q → q = p) (hdoc : s'.doc = s.doc)
    (hmarks : s'.recoveryDirtyMarks = s.recoveryDirtyMarks)
    (hseq : s'.recoveryDirtySeq = s.recoveryDirtySeq) (hix : s'.recoveryIndex = s.recoveryIndex)
    (hp : ∀ q, s'.IsPending q → s.IsPending q ∨ q = p)
    (hph : s'.Meaning recoveryEntry s'.attempt) (hnoops : s'.cleanNoops = s.cleanNoops) :
    Sound recoveryEntry s' := by
  have hs : ∀ q, s'.IsPending q → q = p := fun q hq => (hp q hq).elim (hold q) id
  have hadv : Advances s s' := .of_eq hdoc hmarks hseq
  refine ⟨fun entries he x => ?_, fun q q' hq hq' => ?_, fun q hq => ?_, hph, hnoops ▸ h.noops⟩
  · rw [hix] at he
    rw [hdoc, hmarks]
    exact h.index entries he x
  · rw [hs q hq, hs q' hq']
  rw [hs q hq]
  exact hcap.advance hadv

end Advance

end FileHistory

end Kaos.Server
