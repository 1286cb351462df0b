import Kaos.Server.FileRepair

/-! A repair commits on the state it has inspected, unless the document changes while the inspection
hands its result over. -/
namespace Kaos.Server

open Kaos.Lib Kaos.Yjs RepairServer List

variable {P : RepairPlatform} {doc doc' trial trial' original : Doc} {path : JsString}
  {state : ServerFileState} {inspection : Inspection} {version : ServerFileVersion}
  {localUpdate : LocalUpdate} {token : Option JsString} {s : RepairServer} {event : RepairEvent}
  {call : RepairCall} {i j : ℕ} {phase : RepairPhase} {snapshot : Update}

/-- A repair from one document to another: the first is the snapshot of the token, the file is in
the second what it was, and the client's update is part of it. -/
structure CommittedOn (platform : RepairPlatform) (before after : Doc) (token : Option JsString)
    (localUpdate : LocalUpdate) (path : JsString) (snapshot : Update) : Prop where
  current : encodeStateAsUpdate before none = snapshot
  token : token = some (platform.sha256Hex snapshot)
  resolves : ∃ state, fileState (platform.view before) path = .ok state ∧
    fileState (platform.view after) path = .ok state
  contains : ∃ update, localUpdate.decoded = some update ∧ update ≤ after

/-- A call that goes on commits on its snapshot, or fails and leaves the document; no other step of
a call changes it. -/
def RepairsSafely (platform : RepairPlatform) (s : RepairServer) : RepairEvent → Prop
  | .update _ => True
  | .call rawPath token localUpdate =>
    (s.next platform (.call rawPath token localUpdate)).doc = s.doc
  | .hashed i => (s.next platform (.hashed i)).doc = s.doc
  | .resume i => ∀ call version snapshot, s.calls[i]? = some call →
      call.phase = .inspected version snapshot →
    ((s.next platform (.resume i)).doc = s.doc ∧
      ∃ error, ((s.next platform (.resume i)).calls[i]?.map RepairCall.phase) =
        some (.failed error)) ∨
    CommittedOn platform s.doc (s.next platform (.resume i)).doc call.token call.localUpdate
      version.path snapshot

def SafeRun (platform : RepairPlatform) : RepairServer → List RepairEvent → Prop
  | _, [] => True
  | s, event :: events =>
    RepairsSafely platform s event ∧ SafeRun platform (s.next platform event) events

/-- The inspection of a call has returned, and the call has not gone on yet. -/
def RepairCall.IsHandedOver (call : RepairCall) : Prop :=
  ∃ version snapshot, call.phase = .inspected version snapshot

/-- The step leaves the document alone while an inspection hands its result over. -/
def Quiet (s : RepairServer) : RepairEvent → Prop
  | .update _ => ∀ call ∈ s.calls, ¬ call.IsHandedOver
  | .call _ _ _ | .hashed _ => True
  | .resume i => ∀ j, j ≠ i → ∀ call, s.calls[j]? = some call → ¬ call.IsHandedOver

def QuietRun (platform : RepairPlatform) : RepairServer → List RepairEvent → Prop
  | _, [] => True
  | s, event :: events => Quiet s event ∧ QuietRun platform (s.next platform event) events

/-- What a waiting call knows of its snapshot, and of the document. -/
def RepairPhase.Sound (platform : RepairPlatform) (doc : Doc) : RepairPhase → Prop
  | .hashing inspection =>
    fileState (platform.view inspection.snapshot) inspection.path = .ok inspection.state
  | .inspected version snapshot =>
    fileState (platform.view snapshot) version.path = .ok version.state ∧
      (version.oversized = false → version.token = platform.sha256Hex snapshot ∧ doc = snapshot)
  | .failed _ | .done _ => True

def RepairServer.Sound (platform : RepairPlatform) (s : RepairServer) : Prop :=
  ∀ call ∈ s.calls, call.phase.Sound platform s.doc

section Trial

/-- What a later document adds beyond the vector of an earlier one completes it. -/
theorem applyUpdate_missing (h : doc ≤ trial) :
    applyUpdate doc (encodeStateAsUpdate trial (some (encodeStateVector doc))) = trial := by
  apply le_antisymm
  · exact sup_le h (encodeStateAsUpdate_le trial _)
  constructor
  · intro item hi
    by_cases hlt : item.clock < encodeStateVector doc item.client
    · exact Finset.mem_union_left _ ((lt_nextClock.mp hlt).2 item.clock le_rfl)
    · exact Finset.mem_union_right _ (Finset.mem_filter.mpr ⟨hi, Nat.le_of_not_lt hlt⟩)
  · exact Finset.subset_union_right

theorem le_trialText {fileId current : JsString}
    (h : trialText P trial fileId = some (trial', current)) : trial ≤ trial' := by
  unfold trialText at h
  split at h
  · cases h
    exact P.le_write _ _
  · cases h
    exact P.le_write _ _
  · cases h
    exact le_rfl
  · cases h

theorem le_restoreMeta (fileId : JsString) : trial ≤ restoreMeta P doc trial fileId := by
  unfold restoreMeta
  dsimp only
  split
  · split <;> exact P.le_write _ _
  · exact le_rfl

theorem le_restoreLegacy (path : JsString) : trial ≤ restoreLegacy P doc trial path := by
  unfold restoreLegacy
  split
  · split
    · exact P.le_write _ _
    · exact le_rfl
  · exact le_rfl

/-- The transaction only adds to the trial. -/
theorem le_correctFile (h : correctFile P doc trial version = some trial') : trial ≤ trial' := by
  unfold correctFile at h
  cases hst : version.state with rw [hst] at h
  | text fileId content =>
    obtain ⟨⟨withText, current⟩, ht, hrep⟩ := Option.map_eq_some_iff.mp h
    have hreplace : withText ≤ trial' := by
      dsimp only at hrep
      split at hrep
      · rw [← hrep]
        exact P.le_write _ _
      · exact hrep.le
    calc trial ≤ restoreMeta P doc trial fileId := le_restoreMeta fileId
      _ ≤ restoreLegacy P doc (restoreMeta P doc trial fileId) version.path :=
        le_restoreLegacy version.path
      _ ≤ withText := le_trialText ht
      _ ≤ trial' := hreplace
  | blob ref =>
    cases h
    exact P.le_write _ _
  | missing | deleted =>
    cases h
    exact le_rfl

/-- The trial holds the original and the client's update. -/
theorem buildTrial_spec (h : buildTrial P doc original localUpdate version = .ok trial) :
    ∃ update merged, localUpdate.decoded = some update ∧ original ≤ merged ∧ update ≤ merged ∧
      merged ≤ trial ∧ correctFile P doc merged version = some trial := by
  unfold buildTrial at h
  cases hdec : localUpdate.decoded with rw [hdec] at h
  | none => cases h
  | some update =>
    dsimp only at h
    split at h
    · cases h
    split at h
    · cases h
    cases hcor : correctFile P doc (applyUpdate (applyUpdate ⊥ original) update) version with
    | none =>
      rw [hcor] at h
      cases h
    | some corrected =>
      rw [hcor] at h
      cases h
      refine ⟨update, _, rfl, ?_, le_sup_right, le_correctFile hcor, hcor⟩
      exact le_sup_right.trans le_sup_left

/-- A text path shows no attachment. -/
theorem fileState_blob {view : RepairView} {ref : ServerBlobRef}
    (h : fileState view path = .ok (.blob ref)) :
    isTextPath path = false ∧ view.pathToBlob.get? path = some ref ∧
      ∀ view' : RepairView, view'.pathToBlob.get? path = some ref →
        fileState view' path = .ok (.blob ref) := by
  unfold fileState at h ⊢
  cases ht : isTextPath path with
  | true =>
    rw [ht, if_pos rfl] at h
    dsimp only at h
    split at h
    · cases h
    split at h <;> split at h <;> cases h
  | false =>
    rw [ht, if_neg Bool.false_ne_true] at h
    refine ⟨rfl, ?_⟩
    cases href : view.pathToBlob.get? path with rw [href] at h
    | none =>
      dsimp only at h
      split at h <;> cases h
    | some found =>
      dsimp only at h
      split at h
      · next hv =>
        cases h
        refine ⟨rfl, ?_⟩
        intro view' href'
        rw [if_neg Bool.false_ne_true, href']
        exact if_pos hv
      · cases h

variable {resolved : ServerFileState}

/-- The check on the trial lets nothing differ but a ref. -/
theorem eq_or_blob_of_same
    (h : isSameFile state resolved = true) : resolved = state ∨ ∃ ref, state = .blob ref := by
  cases state <;> cases resolved <;> simp_all [isSameFile]

/-- What passes the check on the trial is the file of the version. -/
theorem resolves_of_same (hle : doc ≤ trial)
    (hst : fileState (P.view doc) version.path = .ok version.state)
    (hcor : correctFile P doc trial version = some trial')
    (hres : fileState (P.view trial') version.path = .ok resolved)
    (hs : isSameFile version.state resolved = true) :
    fileState (P.view trial') version.path = .ok version.state := by
  rcases eq_or_blob_of_same hs with heq | ⟨ref, hblob⟩
  · rw [hres, heq]
  · -- a ref is not compared, but it has just been written
    rw [hblob] at hst
    obtain ⟨-, hget, hany⟩ := fileState_blob hst
    have htrial : trial' = P.write trial (.setBlob version.path ref) := by
      rw [correctFile, hblob] at hcor
      cases hcor
      rfl
    rw [hblob, htrial]
    exact hany _ (P.view_setBlob hle hget)

/-- What a commit has checked. -/
theorem commit_ok (h : commitServerFileRepair P doc token localUpdate version = .ok doc') :
    version.oversized = false ∧ token = some version.token ∧ ∃ trial resolved,
      buildTrial P doc doc localUpdate version = .ok trial ∧
      fileState (P.view trial) version.path = .ok resolved ∧
      isSameFile version.state resolved = true ∧
      doc' = applyUpdate doc (encodeStateAsUpdate trial (some (encodeStateVector doc))) := by
  unfold commitServerFileRepair at h
  split at h
  · cases h
  rename_i hs
  split at h
  · cases h
  rename_i ht
  split at h
  · cases h
  split at h
  · cases h
  dsimp only at h
  split at h
  · cases h
  rename_i trial htrial
  split at h
  · cases h
  rename_i resolved hres
  split at h
  · cases h
  rename_i hsa
  split at h
  · cases h
  split at h
  · cases h
  cases h
  refine ⟨Bool.eq_false_iff.mpr hs, (not_not.mp ht).symm, trial, resolved, htrial, hres, ?_, rfl⟩
  simpa using hsa

/-- A commit whose version is one of the current document. -/
theorem commit_spec (hc : commitServerFileRepair P doc token localUpdate version = .ok doc')
    (hst : fileState (P.view snapshot) version.path = .ok version.state)
    (hver : version.oversized = false → version.token = P.sha256Hex snapshot ∧ doc = snapshot) :
    CommittedOn P doc doc' token localUpdate version.path snapshot := by
  obtain ⟨hs, rfl, trial, resolved, htrial, hres, hsa, rfl⟩ := commit_ok hc
  obtain ⟨ht, rfl⟩ := hver hs
  obtain ⟨update, merged, hdec, horig, hu, hm, hcor⟩ := buildTrial_spec htrial
  have hf := resolves_of_same horig hst hcor hres hsa
  rw [applyUpdate_missing (horig.trans hm)]
  exact ⟨rfl, by rw [ht], ⟨version.state, hst, hf⟩,
    ⟨update, hdec, hu.trans hm⟩⟩

end Trial

section Steps

variable {rawPath : Json}

theorem beginInspection_state (h : beginInspection P doc rawPath = .ok inspection) :
    fileState (P.view inspection.snapshot) inspection.path = .ok inspection.state := by
  unfold beginInspection at h
  split at h
  · cases h
  split at h
  · cases h
  · next hst =>
    split at h
    · split at h
      · cases h
        exact hst
      · cases h
    · cases h

theorem startRepair_state (h : startRepair P doc rawPath localUpdate = .ok inspection) :
    fileState (P.view inspection.snapshot) inspection.path = .ok inspection.state := by
  unfold startRepair at h
  split at h
  · cases h
  · exact beginInspection_state h

/-- The version of an inspection is of its snapshot, and the document is that snapshot still. -/
theorem finishInspection_sound (h : finishInspection P doc inspection = .ok version)
    (hins : (RepairPhase.hashing inspection).Sound P doc) :
    (RepairPhase.inspected version inspection.snapshot).Sound P doc := by
  unfold finishInspection at h
  dsimp only at h
  split at h
  · cases h
    exact ⟨hins, nofun⟩
  split at h
  · cases h
  · next hcur =>
    cases h
    exact ⟨hins, fun _ => ⟨rfl, (not_not.mp hcur).symm⟩⟩

theorem RepairPhase.Sound.of_not_handedOver (h : call.phase.Sound P doc)
    (hc : ¬ call.IsHandedOver) : call.phase.Sound P doc' := by
  cases hph : call.phase with
  | hashing inspection =>
    rw [hph] at h
    exact h
  | inspected version snapshot => exact (hc ⟨version, snapshot, hph⟩).elim
  | failed error | done result => trivial

theorem next_hashed_eq (hc : s.calls[i]? = some call) :
    s.next P (.hashed i) = s.finishHash P i call.phase := by
  simp only [RepairServer.next, hc]

theorem next_resume_eq (hc : s.calls[i]? = some call) :
    s.next P (.resume i) = s.finishRepair P i call := by
  simp only [RepairServer.next, hc]

/-- A call that has a new phase, beside the others. -/
theorem phase_of_mem_setPhase (h : call ∈ (s.setPhase i phase).calls) :
    call.phase = phase ∨ ∃ j, j ≠ i ∧ s.calls[j]? = some call := by
  obtain ⟨j, hj⟩ := mem_iff_getElem?.mp h
  rw [setPhase, getElem?_modify] at hj
  obtain ⟨before, hb, rfl⟩ := Option.map_eq_some_iff.mp hj
  by_cases hij : i = j
  · rw [if_pos hij]
    exact .inl rfl
  rw [if_neg hij]
  exact .inr ⟨j, Ne.symm hij, hb⟩

section

variable (h : s.Sound P)
include h

theorem RepairServer.Sound.setPhase
    (hphase : phase.Sound P s.doc) : (s.setPhase i phase).Sound P := by
  intro call hc
  rcases phase_of_mem_setPhase hc with hnew | ⟨j, -, hj⟩
  · rw [hnew]
    exact hphase
  · exact h call (mem_of_getElem? hj)

theorem RepairServer.Sound.next_update {update : Update}
    (hq : Quiet s (.update update)) : (s.next P (.update update)).Sound P := by
  intro call hc
  exact (h call hc).of_not_handedOver (hq call hc)

theorem RepairServer.Sound.next_call (rawPath : Json) (token : Option JsString)
    (localUpdate : LocalUpdate) : (s.next P (.call rawPath token localUpdate)).Sound P := by
  intro call hc
  rcases mem_append.mp hc with hc | hc
  · exact h call hc
  cases mem_singleton.mp hc
  cases hst : startRepair P s.doc rawPath localUpdate with
  | error error => trivial
  | ok inspection => exact startRepair_state hst

theorem RepairServer.Sound.finishHash (i : ℕ) (hph : phase.Sound P s.doc) :
    (s.finishHash P i phase).Sound P ∧ (s.finishHash P i phase).doc = s.doc := by
  cases phase with
  | hashing inspection =>
    unfold finishHash
    dsimp only
    cases hfin : finishInspection P s.doc inspection with
    | error error => exact ⟨h.setPhase trivial, rfl⟩
    | ok version => exact ⟨h.setPhase (finishInspection_sound hfin hph), rfl⟩
  | inspected version snapshot | failed error | done result => exact ⟨h, rfl⟩

theorem RepairServer.Sound.next_hashed (i : ℕ) :
    (s.next P (.hashed i)).Sound P ∧ (s.next P (.hashed i)).doc = s.doc := by
  cases hc : s.calls[i]? with
  | none =>
    simp only [RepairServer.next, hc]
    exact ⟨h, trivial⟩
  | some call =>
    rw [next_hashed_eq hc]
    exact h.finishHash i (h call (mem_of_getElem? hc))

/-- A call that goes on fails, or commits on its snapshot. -/
theorem RepairServer.Sound.resume_safe (i : ℕ) : RepairsSafely P s (.resume i) := by
  intro call version snapshot hc hph
  have hs := h call (mem_of_getElem? hc)
  rw [hph] at hs
  rw [next_resume_eq hc]
  simp only [RepairServer.finishRepair, hph]
  cases hco : commitServerFileRepair P s.doc call.token call.localUpdate version with
  | error error =>
    left
    refine ⟨rfl, error, ?_⟩
    simp [RepairServer.setPhase, hc]
  | ok doc =>
    right
    exact commit_spec hco hs.1 hs.2

theorem RepairServer.Sound.finishRepair
    (hq : Quiet s (.resume i)) : (s.finishRepair P i call).Sound P := by
  unfold RepairServer.finishRepair
  cases call.phase with
  | inspected version snapshot =>
    dsimp only
    cases commitServerFileRepair P s.doc call.token call.localUpdate version with
    | error error => exact h.setPhase trivial
    | ok doc =>
      intro other ho
      rcases phase_of_mem_setPhase ho with hnew | ⟨j, hne, hj⟩
      · rw [hnew]
        trivial
      · exact (h other (mem_of_getElem? hj)).of_not_handedOver (hq j hne other hj)
  | hashing inspection | failed error | done result => exact h

theorem RepairServer.Sound.next_resume (hq : Quiet s (.resume i)) :
    (s.next P (.resume i)).Sound P := by
  cases hc : s.calls[i]? with
  | none =>
    simp only [RepairServer.next, hc]
    exact h
  | some call =>
    rw [next_resume_eq hc]
    exact h.finishRepair hq

theorem RepairServer.Sound.next (hquiet : Quiet s event) : (s.next P event).Sound P := by
  cases event with
  | update update => exact h.next_update hquiet
  | call rawPath token localUpdate => exact h.next_call rawPath token localUpdate
  | hashed i => exact (h.next_hashed i).1
  | resume i => exact h.next_resume hquiet

theorem RepairServer.Sound.safe : RepairsSafely P s event := by
  cases event with
  | update update => trivial
  | call rawPath token localUpdate => rfl
  | hashed i => exact (h.next_hashed i).2
  | resume i => exact h.resume_safe i

end

theorem RepairServer.Sound.safeRun {events : List RepairEvent} (h : s.Sound P)
    (hq : QuietRun P s events) : SafeRun P s events := by
  induction events generalizing s with
  | nil => trivial
  | cons event events ih => exact ⟨h.safe, ih (h.next hq.1) hq.2⟩

end Steps

/-- In every run in which the document stays as it is while an inspection hands its result over,
every repair commits on the state it has inspected or fails without effect. -/
theorem file_repairs_safe (platform : RepairPlatform) (doc : Doc) (events : List RepairEvent)
    (hquiet : QuietRun platform ⟨doc, []⟩ events) : SafeRun platform ⟨doc, []⟩ events :=
  RepairServer.Sound.safeRun (fun _ hc => (List.not_mem_nil hc).elim) hquiet

/-- A room with the note `n.md` and a note `g` to which two other clients write. -/
def notesView (doc : Doc) : RepairView where
  fileMeta := YMap.empty.set (js "f")
    ⟨.nested ⟨some (js "n.md"), false, none, none, none⟩, js "{path}"⟩
  pathToId := .empty
  idToText := (YMap.empty.set (js "f") (.text (js "x"))).set (js "g") (.text
    ((if ⟨2, 0⟩ ∈ doc.items then js "a" else []) ++ if ⟨3, 0⟩ ∈ doc.items then js "b" else []))
  pathToBlob := .empty
  blobTombstones := .empty
  schemaVersion := .num (some 3)
  sysJson := js "{3}"

def notesPlatform : RepairPlatform where
  view := notesView
  write doc _ := doc ⊔ ⟨{⟨0, nextClock doc.items 0⟩}, ∅⟩
  le_write _ _ := le_sup_left
  view_setBlob _ h := by cases h
  hasPending _ := false
  encoding := ⟨fun update => update.items.card + update.deletes.card, fun h => Update.ext
    (Finset.card_eq_zero.mp (Nat.eq_zero_of_add_eq_zero_right h))
    (Finset.card_eq_zero.mp (Nat.eq_zero_of_add_eq_zero_left h))⟩
  sha256Hex update := List.replicate 64 (97 + update.items.card.toUInt16)
  sha256HexState _ _ _ := []

def notesDoc : Doc := ⟨{⟨1, 0⟩}, ∅⟩

/-- A repair of `n.md` on the room's snapshot, with an item of another client. -/
def repairNote (client : ℕ) : RepairEvent :=
  .call (.str (js "n.md")) (some (notesPlatform.sha256Hex notesDoc)) ⟨1, some ⟨{⟨client, 0⟩}, ∅⟩⟩

/-- One repair alone. -/
theorem file_repairs_safe_alone :
    SafeRun notesPlatform ⟨notesDoc, []⟩ [repairNote 2, .hashed 0, .resume 0] := by
  refine file_repairs_safe notesPlatform notesDoc _ ⟨trivial, trivial, ?_, trivial⟩
  intro j hj call hc
  cases j with
  | zero => exact (hj rfl).elim
  | succ j => cases hc

/-- Two repairs whose inspections return before either goes on: the second commits on a document
that is no longer its snapshot. -/
theorem stale_repair_commits : ¬ SafeRun notesPlatform ⟨notesDoc, []⟩
    [repairNote 2, repairNote 3, .hashed 0, .hashed 1, .resume 0, .resume 1] := by
  rintro ⟨-, -, -, -, -, hres, -⟩
  have hsafe := hres _ _ _ rfl rfl
  rcases hsafe with ⟨hunc, -⟩ | hcom
  · revert hunc
    decide
  have hc := hcom.current
  revert hc
  decide

end Kaos.Server
