import Kaos.Sync.MarkdownRemoteDelete

/-! A remote delete trashes a clean replica of its own tombstone, or quarantines the path. -/
namespace Kaos.Sync

open Kaos.Lib RemoteDelete List

variable {η : Type*}

/-- The delete that was captured at the start is the one of the world. -/
def RemoteDelete.CurrentIn (d : RemoteDelete η) (w : NoteWorld η) : Prop :=
  w.isAdmissionCurrent = true ∧ w.remoteDeleteGeneration = d.generation ∧
    w.deleteFingerprint = some d.fingerprint

/-- The file that was inspected is at the path and the delete is current. -/
structure TrashCall.Sound (d : RemoteDelete η) (call : TrashCall η) : Prop where
  inspected : ∃ content, d.inspected = some (call.file, content)
  entry : call.world.entry = some (.file call.file)
  atPath : call.world.isAtPath call.file = true
  current : d.CurrentIn call.world

/-- The file and every editor had the text of the durable baseline. -/
structure TrashCall.Clean (sha : JsString → η) (d : RemoteDelete η)
    (call : TrashCall η) : Prop where
  file : ∃ w text, d.baseline = some (w, text) ∧
    w.baselineHash = some (sha text) ∧ d.inspected = some (call.file, text) ∧
    ∀ view ∈ call.world.openViews, view = some text
  noOpaqueView : call.world.hasOpaqueOpenFileView = false

namespace RemoteDelete

variable (d : RemoteDelete η)

/-- A delete may end: it is not current, there is no note, or the path has been flagged. -/
def EndsWell (w : NoteWorld η) : Prop :=
  ¬ d.CurrentIn w ∨ (∀ file, w.entry ≠ some (.file file)) ∨
    ∃ flagged ∈ d.quarantined, flagged.preservedUnresolved.isSome = true

/-- The entry that was there before the first primitive was called is resolved after it. -/
def Resolves (w : NoteWorld η) : Prop :=
  d.CurrentIn w ∧ w.entry = none ∧ ∃ first, d.calls.getLast? = some first ∧
    w.preservedUnresolved.isSome = true ∧ w.preservedUnresolved = first.world.preservedUnresolved

/-- The text of the baseline has the hash that was recorded. -/
def HasBaseline (sha : JsString → η) (text : JsString) : Prop :=
  ∃ w, d.baseline = some (w, text) ∧ w.baselineHash = some (sha text)

/-- What the delete remembers of the entry is what its first call has met. -/
def Remembers (marker : Option NoteEpisode) : Prop :=
  ∃ first, d.calls.getLast? = some first ∧ first.world.preservedUnresolved = marker

end RemoteDelete

/-- What is known where the delete waits. -/
def RemoteDeletePhase.Meaning (sha : JsString → η) (d : RemoteDelete η) :
    RemoteDeletePhase η → Prop
  | .queued => d.calls = []
  | .baselineText _ => d.calls = []
  | .baselineHash _ _ => d.calls = []
  | .baselineResolved baseline =>
    d.calls = [] ∧ ∀ text ∈ baseline, d.HasBaseline sha text
  | .firstRead _ text _ => d.calls = [] ∧ d.HasBaseline sha text
  | .finalRead _ text _ => d.calls = [] ∧ d.HasBaseline sha text
  | .trashing file _ marker => d.Remembers marker ∧ ∃ content, d.inspected = some (file, content)
  | .trashed mode marker => mode = .trash → d.Remembers marker
  | .backup => ∃ flagged ∈ d.quarantined, flagged.preservedUnresolved.isSome = true
  | .ended => True

/-- What every delete has done so far. -/
structure RemoteDelete.Safe (sha : JsString → η) (d : RemoteDelete η) : Prop where
  calls : ∀ call ∈ d.calls, call.Sound d
  first : ∀ call, d.calls.getLast? = some call → call.Clean sha d
  resolved : ∀ w ∈ d.resolved, d.Resolves w
  ended : ∀ w ∈ d.endedIn, d.EndsWell w

/-- The invariant: a delete under way has neither resolved an entry nor ended. -/
structure RemoteDeleteSound (sha : JsString → η) (d : RemoteDelete η) : Prop where
  safe : d.Safe sha
  ongoing : d.phase ≠ .ended → d.resolved = none ∧ d.endedIn = none
  meaning : d.phase.Meaning sha d

/-- What is known while the delete is under way. -/
structure RemoteDelete.Ongoing (sha : JsString → η) (d : RemoteDelete η) : Prop where
  calls : ∀ call ∈ d.calls, call.Sound d
  first : ∀ call, d.calls.getLast? = some call → call.Clean sha d
  resolved : d.resolved = none
  ended : d.endedIn = none

namespace RemoteDeleteSound

variable {sha : JsString → η} {d : RemoteDelete η} {file : ℕ} {text : JsString}
  {marker : Option NoteEpisode}

theorem isCurrent_iff : d.isCurrent = true ↔ d.CurrentIn d.world := by
  simp [isCurrent, RemoteDelete.CurrentIn, and_assoc]

theorem finish (h : d.Ongoing sha) (hend : d.EndsWell d.world) :
    RemoteDeleteSound sha d.finish where
  safe :=
    { calls := fun call hmem => ⟨(h.calls call hmem).1, (h.calls call hmem).2,
        (h.calls call hmem).3, (h.calls call hmem).4⟩
      first := fun call hl => ⟨(h.first call hl).1, (h.first call hl).2⟩
      resolved := by
        intro w hw
        cases h.resolved.symm.trans hw
      ended := by
        rintro w ⟨⟩
        exact hend }
  ongoing := fun hph => absurd rfl hph
  meaning := trivial

theorem stale (h : d.Ongoing sha) (hcur : d.isCurrent = false) :
    RemoteDeleteSound sha d.finish := by
  apply finish h
  left
  rw [← isCurrent_iff, hcur]
  exact Bool.false_ne_true

theorem awaiting {phase : RemoteDeletePhase η} (h : d.Ongoing sha)
    (hm : phase.Meaning sha (d.awaiting phase)) :
    RemoteDeleteSound sha (d.awaiting phase) where
  safe :=
    { calls := fun call hmem => ⟨(h.calls call hmem).1, (h.calls call hmem).2,
        (h.calls call hmem).3, (h.calls call hmem).4⟩
      first := fun call hl => ⟨(h.first call hl).1, (h.first call hl).2⟩
      resolved := by
        intro w hw
        cases h.resolved.symm.trans hw
      ended := by
        intro w hw
        cases h.ended.symm.trans hw }
  ongoing := fun _ => ⟨h.resolved, h.ended⟩
  meaning := hm

theorem ongoing_quarantine (h : d.Ongoing sha) (w : NoteWorld η) :
    (d.quarantine w).Ongoing sha where
  calls := fun call hmem => ⟨(h.calls call hmem).1, (h.calls call hmem).2,
    (h.calls call hmem).3, (h.calls call hmem).4⟩
  first := fun call hl => ⟨(h.first call hl).1, (h.first call hl).2⟩
  resolved := h.resolved
  ended := h.ended

variable {w : NoteWorld η}

theorem flags_quarantine (h : w.preservedUnresolved.isSome = true) :
    ∃ flagged ∈ (d.quarantine w).quarantined, flagged.preservedUnresolved.isSome = true := by
  refine ⟨w, ?_, h⟩
  simp [quarantine, h]

theorem recordRemoteDelete_isSome (h : d.CurrentIn w) :
    w.recordRemoteDelete.preservedUnresolved.isSome = true := by
  simp [NoteWorld.recordRemoteDelete, h.2.2]

theorem ensureRemoteDelete_isSome (h : d.CurrentIn w) :
    w.ensureRemoteDelete.preservedUnresolved.isSome = true := by
  unfold NoteWorld.ensureRemoteDelete
  split
  · assumption
  · exact recordRemoteDelete_isSome h

theorem ensurePathCollision_isSome {id : ℕ} :
    (w.ensurePathCollision id).preservedUnresolved.isSome = true := by
  unfold NoteWorld.ensurePathCollision
  split
  · assumption
  · rfl

/-- To flag the path in a world where the delete is current, or to end without it. -/
theorem currentIn_ensure : d.CurrentIn w.ensureRemoteDelete ↔ d.CurrentIn w := by
  unfold NoteWorld.ensureRemoteDelete NoteWorld.recordRemoteDelete
  split
  · rfl
  · split <;> rfl

variable {primitive : TrashPrimitive}

/-- A primitive gets the file that is at the path, and the delete is current. -/
theorem callPrimitive (h : d.Ongoing sha)
    (hins : ∃ content, d.inspected = some (file, content))
    (hb : d.isExactBefore file = true)
    (hf : d.calls = [] → d.world.preservedUnresolved = marker ∧
      (⟨file, primitive, d.world⟩ : TrashCall η).Clean sha d)
    (hl : d.calls ≠ [] → d.Remembers marker) :
    RemoteDeleteSound sha (d.callPrimitive file primitive marker) := by
  simp only [isExactBefore, NoteWorld.isExactDiskFileCurrent, Bool.and_eq_true,
    decide_eq_true_eq] at hb
  obtain ⟨hcur, hat, he⟩ := hb
  have hnew : (⟨file, primitive, d.world⟩ : TrashCall η).Sound d :=
    ⟨hins, he, hat, isCurrent_iff.mp hcur⟩
  refine { safe := ?_, ongoing := fun _ => ⟨h.resolved, h.ended⟩, meaning := ?_ }
  · refine { calls := ?_, first := ?_, resolved := ?_, ended := ?_ }
    · intro call hmem
      rcases mem_cons.mp hmem with rfl | hmem
      · exact ⟨hnew.1, hnew.2, hnew.3, hnew.4⟩
      exact ⟨(h.calls call hmem).1, (h.calls call hmem).2, (h.calls call hmem).3,
        (h.calls call hmem).4⟩
    · intro call hla
      by_cases hc : d.calls = []
      · have hla' : (⟨file, primitive, d.world⟩ : TrashCall η) = call := by
          simpa [RemoteDelete.callPrimitive, hc] using hla
        subst hla'
        exact ⟨(hf hc).2.1, (hf hc).2.2⟩
      have hla' : d.calls.getLast? = some call := by
        rw [← hla]
        exact (getLast?_cons_of_ne_nil hc).symm
      exact ⟨(h.first call hla').1, (h.first call hla').2⟩
    · intro w hw
      cases h.resolved.symm.trans hw
    intro w hw
    cases h.ended.symm.trans hw
  refine ⟨?_, hins⟩
  by_cases hc : d.calls = []
  · refine ⟨⟨file, primitive, d.world⟩, ?_, (hf hc).1⟩
    simp [RemoteDelete.callPrimitive, hc]
  obtain ⟨first, hla, hmar⟩ := hl hc
  refine ⟨first, ?_, hmar⟩
  rw [← hla]
  exact getLast?_cons_of_ne_nil hc

theorem tryVaultTrash (h : d.Ongoing sha)
    (hins : ∃ content, d.inspected = some (file, content))
    (hf : d.calls = [] → d.world.preservedUnresolved = marker ∧
      (⟨file, .vaultTrash, d.world⟩ : TrashCall η).Clean sha d)
    (hl : d.calls ≠ [] → d.Remembers marker) :
    RemoteDeleteSound sha (d.tryVaultTrash file marker) := by
  unfold RemoteDelete.tryVaultTrash
  split
  · refine awaiting h ?_
    rintro ⟨⟩
  split
  · refine awaiting h ?_
    rintro ⟨⟩
  · next hb =>
    split
    · refine awaiting h ?_
      rintro ⟨⟩
    refine callPrimitive h hins ?_ hf hl
    simpa using hb

theorem deleteLocalReplica (h : d.Ongoing sha)
    (hinspected : ∃ content, d.inspected = some (file, content)) (hcalls : d.calls = [])
    (hclean : ∀ primitive, (⟨file, primitive, d.world⟩ : TrashCall η).Clean sha d) :
    RemoteDeleteSound sha
      (d.deleteLocalReplica file d.world.preservedUnresolved) := by
  unfold RemoteDelete.deleteLocalReplica
  split
  · exact tryVaultTrash h hinspected (fun _ => ⟨rfl, hclean _⟩) (fun hne => absurd hcalls hne)
  split
  · refine awaiting h ?_
    rintro ⟨⟩
  · next hb =>
    split
    · refine awaiting h ?_
      rintro ⟨⟩
    refine callPrimitive h hinspected ?_ (fun _ => ⟨rfl, hclean _⟩) (fun hne => absurd hcalls hne)
    simpa using hb

variable {decision : RemoteDeleteDecision}

/-- Only a decision to delete needs a clean file. -/
theorem commitDecision (h : d.Ongoing sha) (hc : d.calls = [])
    (hap : decision = .applyDelete → (∃ content, d.inspected = some (file, content)) ∧
      ∀ primitive, (⟨file, primitive, d.world⟩ : TrashCall η).Clean sha d) :
    RemoteDeleteSound sha (d.commitDecision file decision) := by
  unfold RemoteDelete.commitDecision
  split
  · next hs => exact stale h (by simpa using hs)
  · next hif =>
    have hcur : d.CurrentIn d.world := isCurrent_iff.mp (by simpa using hif)
    have hunres : RemoteDeleteSound sha
        (d.quarantine d.world.recordRemoteDelete).finish :=
      finish (ongoing_quarantine h _)
        (.inr (.inr (flags_quarantine (recordRemoteDelete_isSome hcur))))
    dsimp only
    split
    · next decision' hdec =>
      have hd : decision = .applyDelete := by
        split at hdec
        · cases hdec
        · exact hdec
      exact deleteLocalReplica h (hap hd).1 hc (hap hd).2
    · exact awaiting (ongoing_quarantine h _)
        (flags_quarantine (ensureRemoteDelete_isSome hcur))
    split
    · exact awaiting (ongoing_quarantine h _)
        (flags_quarantine (recordRemoteDelete_isSome hcur))
    · exact hunres

theorem preserve (h : d.Ongoing sha) (hc : d.calls = []) (hdec : decision ≠ .applyDelete) :
    RemoteDeleteSound sha (d.commitDecision file decision) :=
  commitDecision h hc fun hap => absurd hap hdec

theorem inspect {baseline : Option JsString} (h : d.Ongoing sha) (hc : d.calls = [])
    (hb : ∀ text ∈ baseline, d.HasBaseline sha text) :
    RemoteDeleteSound sha (d.inspect file baseline) := by
  unfold RemoteDelete.inspect
  split
  · exact preserve h hc (by simp)
  · next text =>
    split
    · exact preserve h hc (by simp)
    · exact preserve h hc (by simp)
    · exact awaiting h ⟨hc, hb text rfl⟩
    split
    · exact awaiting h ⟨hc, hb text rfl⟩
    · exact preserve h hc (by simp)

variable {read : Option JsString}

theorem afterFirstRead (h : d.Ongoing sha)
    (hc : d.calls = []) (hb : d.HasBaseline sha text) :
    RemoteDeleteSound sha (d.afterFirstRead file text read) := by
  unfold RemoteDelete.afterFirstRead
  split
  · exact preserve h hc (by simp)
  split
  · exact preserve h hc (by simp)
  split
  · next hs => exact stale h (by simpa using hs)
  split
  · split
    · exact awaiting h ⟨hc, hb⟩
    · exact preserve h hc (by simp)
  · next he =>
    apply finish h
    right
    left
    intro file' hf
    exact he file' hf

/-- A single text in the editors is that of every editor. -/
theorem views_of_authority
    (hauth : w.getOpenEditorAuthority = .none ∨ w.getOpenEditorAuthority = .single text) :
    w.hasOpaqueOpenFileView = false ∧ ∀ view ∈ w.openViews, view = some text := by
  unfold NoteWorld.getOpenEditorAuthority at hauth
  split at hauth
  · rcases hauth with h | h <;> cases h
  · next hread =>
    simp only [Bool.or_eq_true, not_or, Bool.not_eq_true, any_eq_false] at hread
    refine ⟨hread.1, ?_⟩
    intro view hview
    cases hc : view with
    | none =>
      have hr := hread.2 view hview
      rw [hc] at hr
      cases hr
    | some content =>
      have hmem : content ∈ (w.openViews.filterMap id).dedup := by
        rw [mem_dedup, mem_filterMap]
        exact ⟨view, hview, hc⟩
      split at hauth
      · next hnil =>
        rw [hnil] at hmem
        cases hmem
      · next single hs =>
        rw [hs, mem_singleton] at hmem
        rcases hauth with h | h
        · cases h
        cases h
        rw [hmem]
      · rcases hauth with h | h <;> cases h

theorem afterFinalRead (h : d.Ongoing sha)
    (hc : d.calls = []) (hb : d.HasBaseline sha text) :
    RemoteDeleteSound sha (d.afterFinalRead file text read) := by
  have hn : ∀ call, call ∉ d.calls := by
    rw [hc]
    exact fun _ => not_mem_nil
  refine commitDecision ⟨fun call hmem => absurd hmem (hn call), ?_, h.resolved, h.ended⟩
    hc ?_
  · intro call hl
    exact absurd (mem_of_getLast? hl) (hn call)
  intro hap
  unfold finalDecision at hap
  split at hap
  · cases hap
  · next content =>
    split at hap
    · cases hap
    have hm : content = text ∧ (d.world.getOpenEditorAuthority = .none ∨
        d.world.getOpenEditorAuthority = .single text) := by
      split at hap
      · cases hap
      · cases hap
      · next hauth =>
        split at hap
        · next hs => exact ⟨hs, .inl hauth⟩
        · cases hap
      · next editor hauth =>
        split at hap
        · cases hap
        · next he =>
          split at hap
          · next hs =>
            rw [not_not] at he
            exact ⟨hs, .inr (he ▸ hauth)⟩
          · cases hap
    obtain ⟨rfl, hauth⟩ := hm
    obtain ⟨hunb, hviews⟩ := views_of_authority hauth
    obtain ⟨w, hres, hh⟩ := hb
    exact ⟨⟨content, rfl⟩, fun primitive =>
      ⟨⟨w, content, hres, hh, rfl, hviews⟩, hunb⟩⟩

theorem primitiveSettled {resolved : Bool} (h : d.Ongoing sha) (hrem : d.Remembers marker)
    (hins : ∃ content, d.inspected = some (file, content)) :
    RemoteDeleteSound sha (d.primitiveSettled file primitive marker resolved) := by
  have hc : d.calls ≠ [] := by
    rintro hnil
    obtain ⟨first, hl, -⟩ := hrem
    rw [hnil] at hl
    cases hl
  unfold RemoteDelete.primitiveSettled
  split
  · exact awaiting h fun _ => hrem
  split
  · refine awaiting h ?_
    rintro ⟨⟩
  split
  · refine awaiting h ?_
    rintro ⟨⟩
  split
  · exact tryVaultTrash h hins (fun hnil => absurd hnil hc) fun _ => hrem
  refine awaiting h ?_
  rintro ⟨⟩

/-- The path is flagged if the delete is still current. -/
theorem finish_ensure (h : d.Ongoing sha) :
    RemoteDeleteSound sha (d.quarantine d.world.ensureRemoteDelete).finish := by
  apply finish (ongoing_quarantine h _)
  by_cases hcur : d.CurrentIn d.world
  · exact .inr (.inr (flags_quarantine (ensureRemoteDelete_isSome hcur)))
  · exact .inl fun ht => hcur (currentIn_ensure.mp ht)

/-- After the trash the entry goes only at an absent path of a current delete. -/
theorem afterTrash {mode : DeleteMode} {newEpisode : ℕ} (h : d.Ongoing sha)
    (hrem : mode = .trash → d.Remembers marker) :
    RemoteDeleteSound sha (d.afterTrash mode marker newEpisode) := by
  unfold RemoteDelete.afterTrash
  split
  · exact finish_ensure h
  · next hfailed =>
    split
    · split
      · exact finish (ongoing_quarantine h _)
          (.inr (.inr (flags_quarantine ensurePathCollision_isSome)))
      · split
        · exact finish_ensure h
        · next hs => exact stale h (by simpa using hs)
      · next he =>
        apply finish h
        right
        left
        intro file' hf
        cases he.symm.trans hf
    · next hif =>
      rw [not_or, not_or, Bool.not_eq_false, not_not] at hif
      obtain ⟨hmode, hcur, he⟩ := hif
      have htrash : mode = .trash := by
        cases mode with
        | trash => rfl
        | stale => exact absurd rfl hmode
        | failed => exact absurd rfl hfailed
      have ha : ∀ file', d.world.entry ≠ some (.file file') := by
        intro file' hf
        cases he.symm.trans hf
      split
      · next hres =>
        obtain ⟨first, hl, hmar⟩ := hrem htrash
        refine { safe := ?_, ongoing := fun hph => absurd rfl hph, meaning := trivial }
        refine { calls := ?_, first := ?_, resolved := ?_, ended := ?_ }
        · intro call hmem
          exact ⟨(h.calls call hmem).1, (h.calls call hmem).2, (h.calls call hmem).3,
            (h.calls call hmem).4⟩
        · intro call hc
          exact ⟨(h.first call hc).1, (h.first call hc).2⟩
        · rintro w ⟨⟩
          refine ⟨isCurrent_iff.mp hcur, he, first, hl, ?_, ?_⟩
          · rw [hres.2]
            exact hres.1
          rw [hmar]
          exact hres.2
        · rintro w ⟨⟩
          exact .inr (.inl ha)
      · exact finish h (.inr (.inl ha))

theorem world (h : RemoteDeleteSound sha d) : RemoteDeleteSound sha { d with world := w } where
  safe :=
    { calls := fun call hmem => ⟨(h.safe.calls call hmem).1, (h.safe.calls call hmem).2,
        (h.safe.calls call hmem).3, (h.safe.calls call hmem).4⟩
      first := fun call hl => ⟨(h.safe.first call hl).1, (h.safe.first call hl).2⟩
      resolved := h.safe.resolved
      ended := h.safe.ended }
  ongoing := h.ongoing
  meaning := by
    have hm := h.meaning
    generalize hph : d.phase = phase at hm
    cases phase with
    | _ => exact hm

section Resume

variable [DecidableEq η]

/-- An await ends. -/
theorem resume {answer : RemoteDeleteAnswer} (h : RemoteDeleteSound sha d) :
    RemoteDeleteSound sha (d.resume sha answer) := by
  have hm := h.meaning
  have hgoing : d.phase ≠ .ended → d.Ongoing sha := fun hph =>
    ⟨h.safe.calls, h.safe.first, (h.ongoing hph).1, (h.ongoing hph).2⟩
  unfold RemoteDelete.resume
  generalize d.phase = phase at hm hgoing
  cases phase with
  | ended => exact h
  | queued =>
    have hg := hgoing (by simp)
    dsimp only
    split
    · next hs => exact stale hg (by simpa using hs)
    split
    · split
      · exact awaiting hg hm
      refine awaiting hg ⟨hm, ?_⟩
      rintro _ ⟨⟩
    refine awaiting hg ⟨hm, ?_⟩
    rintro _ ⟨⟩
  | baselineText expectedHash =>
    have hg := hgoing (by simp)
    dsimp only
    split
    · exact awaiting hg hm
    refine awaiting hg ⟨hm, ?_⟩
    rintro _ ⟨⟩
  | baselineHash expectedHash text =>
    have hg := hgoing (by simp)
    have hn : ∀ call, call ∉ d.calls := by
      have hc : d.calls = [] := hm
      rw [hc]
      exact fun _ => not_mem_nil
    dsimp only
    split
    · next hif =>
      obtain ⟨hr, rfl⟩ := hif
      refine awaiting ⟨fun call hmem => absurd hmem (hn call), ?_, hg.resolved, hg.ended⟩ ⟨hm, ?_⟩
      · intro call hl
        exact absurd (mem_of_getLast? hl) (hn call)
      rintro _ ⟨⟩
      exact ⟨d.world, rfl, hr⟩
    · refine awaiting hg ⟨hm, ?_⟩
      rintro _ ⟨⟩
  | baselineResolved baseline =>
    have hg := hgoing (by simp)
    dsimp only
    split
    · next hs => exact stale hg (by simpa using hs)
    split
    · exact inspect hg hm.1 hm.2
    · next he =>
      apply finish hg
      right
      left
      intro file' hf
      exact he file' hf
  | firstRead file text read =>
    cases read with
    | none => exact h
    | some read => exact afterFirstRead (hgoing (by simp)) hm.1 hm.2
  | finalRead file text read =>
    cases read with
    | none => exact h
    | some read => exact afterFinalRead (hgoing (by simp)) hm.1 hm.2
  | trashing file primitive marker =>
    exact primitiveSettled (hgoing (by simp)) hm.1 hm.2
  | trashed mode marker => exact afterTrash (hgoing (by simp)) hm
  | backup => exact finish (hgoing (by simp)) (.inr (.inr hm))

/-- Whatever happens, a delete stays sound. -/
theorem next {e : RemoteDeleteEvent η} (h : RemoteDeleteSound sha d) :
    RemoteDeleteSound sha (d.next sha e) := by
  cases e with
  | world w => exact world h
  | resume answer => exact resume h
  | read =>
    have hm := h.meaning
    have hg : d.phase ≠ .ended → d.Ongoing sha := fun hph =>
      ⟨h.safe.calls, h.safe.first, (h.ongoing hph).1, (h.ongoing hph).2⟩
    simp only [RemoteDelete.next]
    split
    · next hph =>
      rw [hph] at hm hg
      exact awaiting (hg (by simp)) hm
    · next hph =>
      rw [hph] at hm hg
      exact awaiting (hg (by simp)) hm
    · exact h

end Resume

end RemoteDeleteSound

end Kaos.Sync
