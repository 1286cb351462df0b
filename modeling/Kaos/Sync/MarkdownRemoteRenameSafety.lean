import Kaos.Sync.MarkdownRemoteRename

/-! What a turn of a remote rename leaves alone, and what an ended call has brought about. -/
namespace Kaos.Sync

open Kaos.Lib RenameWorld Function Option

/-- What the disk mirror's own bookkeeping leaves alone. -/
structure SameVault (w w' : RenameWorld) : Prop where
  entry : w'.entry = w.entry
  disk : w'.disk = w.disk
  metaPath : w'.metaPath = w.metaPath
  idToText : w'.idToText = w.idToText
  isAdmissionCurrent : w'.isAdmissionCurrent = w.isAdmissionCurrent
  entersCriticalSection : w'.entersCriticalSection = w.entersCriticalSection
  capturesAdmission : w'.capturesAdmission = w.capturesAdmission
  isMarkdownPathSyncable : w'.isMarkdownPathSyncable = w.isMarkdownPathSyncable
  tokens : ∀ path token, w'.pendingRemoteRenames path = some token →
    w.pendingRemoteRenames path = some token

namespace SameVault

variable {w w' w'' : RenameWorld} {path oldPath newPath : JsString} {reason : UnresolvedReason}

theorem refl (w : RenameWorld) : SameVault w w :=
  ⟨rfl, rfl, rfl, rfl, rfl, rfl, rfl, rfl, fun _ _ h => h⟩

theorem trans (h : SameVault w w') (h' : SameVault w' w'') : SameVault w w'' where
  entry := h'.entry.trans h.entry
  disk := h'.disk.trans h.disk
  metaPath := h'.metaPath.trans h.metaPath
  idToText := h'.idToText.trans h.idToText
  isAdmissionCurrent := h'.isAdmissionCurrent.trans h.isAdmissionCurrent
  entersCriticalSection := h'.entersCriticalSection.trans h.entersCriticalSection
  capturesAdmission := h'.capturesAdmission.trans h.capturesAdmission
  isMarkdownPathSyncable := h'.isMarkdownPathSyncable.trans h.isMarkdownPathSyncable
  tokens path token ht := h.tokens path token (h'.tokens path token ht)

theorem intent (h : SameVault w w') (call : RemoteRename) :
    w'.isIntentCurrent call = w.isIntentCurrent call := by
  unfold isIntentCurrent
  rw [h.isAdmissionCurrent, h.metaPath]

theorem recordPreservedUnresolved : SameVault w (w.recordPreservedUnresolved path reason) := by
  have he : SameVault w (w.recordEntry path reason) := by
    unfold recordEntry
    split
    · split
      · exact refl w
      · exact ⟨rfl, rfl, rfl, rfl, rfl, rfl, rfl, rfl, fun _ _ h => h⟩
    · exact ⟨rfl, rfl, rfl, rfl, rfl, rfl, rfl, rfl, fun _ _ h => h⟩
  exact he.trans ⟨rfl, rfl, rfl, rfl, rfl, rfl, rfl, rfl, fun _ _ h => h⟩

theorem recordCollision : SameVault w (w.recordCollision oldPath newPath) :=
  recordPreservedUnresolved.trans recordPreservedUnresolved

theorem redirectPreservedUnresolved :
    SameVault w (w.redirectPreservedUnresolved oldPath newPath).2 := by
  unfold RenameWorld.redirectPreservedUnresolved
  split
  · exact refl w
  · exact refl w
  split
  · exact refl w
  split
  · split
    · exact recordCollision
    · exact ⟨rfl, rfl, rfl, rfl, rfl, rfl, rfl, rfl, fun _ _ h => h⟩
  · exact ⟨rfl, rfl, rfl, rfl, rfl, rfl, rfl, rfl, fun _ _ h => h⟩

theorem settleRemoteRenamePathState {wasOpen : Bool} :
    SameVault w (w.settleRemoteRenamePathState oldPath newPath wasOpen) :=
  ⟨rfl, rfl, rfl, rfl, rfl, rfl, rfl, rfl, fun _ _ h => h⟩

theorem scheduleRemoteWrite : SameVault w (w.scheduleRemoteWrite path) := by
  unfold RenameWorld.scheduleRemoteWrite
  split
  · exact refl w
  unfold scheduleWrite
  split
  · exact refl w
  split
  · exact refl w
  · exact ⟨rfl, rfl, rfl, rfl, rfl, rfl, rfl, rfl, fun _ _ h => h⟩

theorem retirePendingRemoteRename {file : ℕ} :
    SameVault w (w.retirePendingRemoteRename oldPath newPath file) := by
  unfold RenameWorld.retirePendingRemoteRename
  split
  · split
    · refine ⟨rfl, rfl, rfl, rfl, rfl, rfl, rfl, rfl, fun path token ht => ?_⟩
      by_cases hp : path = newPath
      · subst hp
        simp at ht
      · simpa only [update_of_ne hp] using ht
    · exact refl w
  · exact refl w

end SameVault

/-- The turn leaves the vault alone and sets no token. -/
structure QuietTurn (t t' : RenameTurn) : Prop where
  world : SameVault t.world t'.world
  oldPath : t'.call.oldPath = t.call.oldPath
  newPath : t'.call.newPath = t.call.newPath

namespace QuietTurn

variable {t t' t'' : RenameTurn} {file : ℕ} {planned : JsString}

theorem trans (h : QuietTurn t t') (h' : QuietTurn t' t'') : QuietTurn t t'' :=
  ⟨h.world.trans h'.world, h'.oldPath.trans h.oldPath, h'.newPath.trans h.newPath⟩

theorem finish (t : RenameTurn) : QuietTurn t t.finish := ⟨.refl _, rfl, rfl⟩

theorem awaiting {phase : RenamePhase} : QuietTurn t (t.awaiting phase) := ⟨.refl _, rfl, rfl⟩

theorem capture : QuietTurn t t.capture := ⟨.refl _, rfl, rfl⟩

theorem retire : QuietTurn t (t.retire file) := ⟨.retirePendingRemoteRename, rfl, rfl⟩

theorem preserveCollision : QuietTurn t t.preserveCollision := ⟨.recordCollision, rfl, rfl⟩

theorem failed : QuietTurn t (t.failed file) := retire.trans preserveCollision

theorem redirectPreservedMarker : SameVault t.world t.redirectPreservedMarker.2 := by
  have hred : SameVault t.world
      (t.world.redirectPreservedUnresolved t.call.oldPath t.call.newPath).2 :=
    .redirectPreservedUnresolved
  unfold RenameTurn.redirectPreservedMarker
  split
  · next heq => rwa [heq] at hred
  · next heq =>
    rw [heq] at hred
    split
    · exact hred
    · exact hred.trans .recordCollision
  · next heq => rwa [heq] at hred

theorem settlePaths : QuietTurn t (t.settlePaths t.redirectPreservedMarker.2) :=
  ⟨redirectPreservedMarker.trans .settleRemoteRenamePathState, rfl, rfl⟩

theorem scheduleTarget {authorize : Bool} : QuietTurn t (t.scheduleTarget authorize) := by
  refine ⟨.trans ?_ .scheduleRemoteWrite, rfl, rfl⟩
  split
  · exact ⟨rfl, rfl, rfl, rfl, rfl, rfl, rfl, rfl, fun _ _ h => h⟩
  · exact .refl _

theorem conclude {schedule authorize : Bool} : QuietTurn t (t.conclude schedule authorize) := by
  unfold RenameTurn.conclude
  split
  · exact finish t
  dsimp only
  split
  · exact settlePaths.trans (finish _)
  split
  · exact settlePaths.trans (scheduleTarget.trans (finish _))
  · exact settlePaths.trans (finish _)

theorem concludeStale : QuietTurn t t.concludeStale := by
  unfold RenameTurn.concludeStale
  dsimp only
  split
  · exact settlePaths.trans ⟨.recordPreservedUnresolved, rfl, rfl⟩
  · exact settlePaths.trans (finish _)

theorem start : QuietTurn t t.start := by
  unfold RenameTurn.start
  split
  · exact capture.trans (finish _)
  split
  · exact capture.trans preserveCollision
  refine capture.trans ?_
  unfold RenameTurn.inspect
  split
  · exact awaiting
  · exact preserveCollision
  · exact preserveCollision
  · split
    · exact preserveCollision
    · exact awaiting
  · exact conclude

variable {read : Option JsString}

theorem afterTargetRead {expected : ℕ × JsString} :
    QuietTurn t (t.afterTargetRead file expected read) := by
  unfold RenameTurn.afterTargetRead
  split
  · exact preserveCollision
  split
  · exact finish t
  split
  · exact preserveCollision
  · exact conclude

theorem afterFolder : QuietTurn t (t.afterFolder file planned) := by
  unfold RenameTurn.afterFolder
  split
  · exact finish t
  split
  · exact awaiting
  · exact preserveCollision

theorem afterSourceRead : QuietTurn t (t.afterSourceRead file read) := by
  unfold RenameTurn.afterSourceRead
  split
  · exact failed
  split
  · exact finish t
  split
  · split
    · exact finish t
    · exact awaiting
  · exact afterFolder

/-- A rename that comes through or fails starts from where its token is retired. -/
theorem afterRename {resolved : Bool} :
    QuietTurn (t.retire file) (t.afterRename file resolved) := by
  unfold RenameTurn.afterRename
  split
  · exact preserveCollision
  dsimp only
  split
  · exact failed
  split
  · exact retire.trans concludeStale
  · exact conclude

end QuietTurn

section Records

/-- The file at the target is the one that was handed to `renameFile`, or what was read of it is
the shared text. -/
def RemoteRename.HasArrived (call : RemoteRename) (w : RenameWorld) : Prop :=
  ∃ file, w.entry call.newPath = some (.file file) ∧
    ((∃ w', call.issued = some (file, w')) ∨
      ∃ text content, w.idToText call.fileId = some (text, content) ∧ (file, content) ∈ call.reads)

/-- Both paths carry the marker of a path collision. -/
def RemoteRename.IsQuarantined (call : RemoteRename) (w : RenameWorld) : Prop :=
  (w.preservedUnresolved call.oldPath).map (·.reason) = some .pathCollision ∧
    (w.preservedUnresolved call.newPath).map (·.reason) = some .pathCollision

/-- The creation of the target is authorized. It is scheduled too, unless the target carries the
unresolved entry that the old path had, or its write is not admitted. -/
def RemoteRename.IsTargetScheduled (call : RemoteRename) (w : RenameWorld) : Prop :=
  w.remoteCreateAuthorizations call.newPath = true ∧
    (w.pendingWrites call.newPath = true ∨
      (∃ entry, w.preservedUnresolved call.newPath = some entry ∧
        call.initialSourceEpisode = some entry.episode) ∨
      w.capturesAdmission call.newPath = false ∨ w.isMarkdownPathSyncable call.newPath = false)

/-- What an ended call has brought about, while its intent is current. -/
def RemoteRename.HasConcluded (call : RemoteRename) (w : RenameWorld) : Prop :=
  call.HasArrived w ∨ call.IsQuarantined w ∨ call.IsTargetScheduled w ∨
    w.entersCriticalSection call.admission = false

/-- The file was read twice with one content, it was at the old path and the target was free, while
the metadata named the target. -/
structure RemoteRename.IssuedSafely (call : RemoteRename) (file : ℕ) (w : RenameWorld) : Prop where
  inspected : ∃ content, call.reads = [(file, content), (file, content)]
  source : w.entry call.oldPath = some (.file file)
  target : w.entry call.newPath = none
  intent : w.isIntentCurrent call = true

theorem RemoteRename.IssuedSafely.of_same {call call' : RemoteRename} {file : ℕ} {w : RenameWorld}
    (h : call.IssuedSafely file w) (hr : call'.reads = call.reads)
    (hfil : call'.fileId = call.fileId) (hold : call'.oldPath = call.oldPath)
    (hnew : call'.newPath = call.newPath) (hadm : call'.admission = call.admission) :
    call'.IssuedSafely file w where
  inspected := hr ▸ h.inspected
  source := hold ▸ h.source
  target := hnew ▸ h.target
  intent := by
    have hi := h.intent
    unfold isIntentCurrent at hi ⊢
    rwa [hfil, hnew, hadm]

def RemoteRename.IssuesSafely (call : RemoteRename) : Prop :=
  ∀ file w, call.issued = some (file, w) → call.IssuedSafely file w

/-- A call that has issued nothing and has read this. -/
structure RemoteRename.Reads (call : RemoteRename) (reads : List (ℕ × JsString)) : Prop where
  reads : call.reads = reads
  issued : call.issued = none
  endedIn : call.endedIn = none

/-- What is known of a call where it waits. -/
def RenamePhase.Meaning (call : RemoteRename) : RenamePhase → Prop
  | .queued => call.Reads []
  | .targetRead _ _ none => call.Reads []
  | .targetRead target _ (some read) =>
    call.Reads (read.map fun content => (target, content)).toList
  | .sourceRead _ none => call.Reads []
  | .sourceRead file (some read) => call.Reads (read.map fun content => (file, content)).toList
  | .creatingFolder file planned => call.Reads [(file, planned)]
  | .finalRead file planned none => call.Reads [(file, planned)]
  | .finalRead file planned (some read) =>
    call.Reads ((read.map fun content => (file, content)).toList ++ [(file, planned)])
  | .renaming file => (∃ w, call.issued = some (file, w)) ∧ call.endedIn = none
  | .ended => True

structure RemoteRename.Sound (call : RemoteRename) : Prop where
  issues : call.IssuesSafely
  ended : ∀ w, call.endedIn = some w → w.isIntentCurrent call = true → call.HasConcluded w
  phase : call.phase.Meaning call

end Records

section World

variable {w : RenameWorld} {path oldPath newPath : JsString} {reason : UnresolvedReason}

theorem reason_recordPreservedUnresolved :
    ((w.recordPreservedUnresolved path reason).preservedUnresolved path).map (·.reason) =
      some reason := by
  have he : ((w.recordEntry path reason).preservedUnresolved path).map (·.reason) =
      some reason := by
    unfold recordEntry
    split
    · next previous hp =>
      split
      · next hreason => rw [hp, map_some, hreason]
      · simp
    · simp
  exact he

theorem recordPreservedUnresolved_other {q : JsString} (h : q ≠ path) :
    (w.recordPreservedUnresolved path reason).preservedUnresolved q = w.preservedUnresolved q := by
  have he : (w.recordEntry path reason).preservedUnresolved q = w.preservedUnresolved q := by
    unfold recordEntry
    split
    · split
      · rfl
      · simp [update_of_ne h]
    · simp [update_of_ne h]
  exact he

theorem quarantined_recordCollision (call : RemoteRename) :
    call.IsQuarantined (w.recordCollision call.oldPath call.newPath) := by
  refine ⟨?_, reason_recordPreservedUnresolved⟩
  by_cases hp : call.oldPath = call.newPath
  · rw [hp]
    exact reason_recordPreservedUnresolved
  unfold RenameWorld.recordCollision
  rw [recordPreservedUnresolved_other hp]
  exact reason_recordPreservedUnresolved

variable {w' : RenameWorld}

/-- What is at the target after a redirection that has not met another episode. -/
theorem redirect_carries {result : RedirectResult}
    (h : w.redirectPreservedUnresolved oldPath newPath = (result, w')) :
    result = .collision ∨ (∃ entry, result = .targetOnly entry) ∨
      ∀ entry, w'.preservedUnresolved newPath = some entry →
        (w.preservedUnresolved oldPath).map (·.episode) = some entry.episode := by
  unfold RenameWorld.redirectPreservedUnresolved at h
  split at h
  · cases h
    exact .inr (.inl ⟨_, rfl⟩)
  · next hnew =>
    cases h
    refine .inr (.inr fun entry he => ?_)
    rw [hnew] at he
    cases he
  · next hold =>
    split at h
    · next hp =>
      cases h
      refine .inr (.inr fun entry he => ?_)
      rw [← hp, hold] at he
      cases he
      rw [hold, map_some]
    split at h
    · split at h
      · cases h
        exact .inl rfl
      · next hepis =>
        cases h
        refine .inr (.inr fun entry he => ?_)
        rw [not_not] at hepis
        have htgt := (update_self newPath _ _).symm.trans he
        cases htgt
        rw [hold, map_some, hepis]
    cases h
    refine .inr (.inr fun entry he => ?_)
    have htgt := (update_self newPath _ _).symm.trans he
    cases htgt
    rw [hold, map_some]

theorem redirect_collision (h : w.redirectPreservedUnresolved oldPath newPath = (.collision, w')) :
    w' = w.recordCollision oldPath newPath := by
  unfold RenameWorld.redirectPreservedUnresolved at h
  split at h
  · cases h
  · cases h
  split at h
  · cases h
  split at h
  · split at h
    · cases h
      rfl
    · cases h
  · cases h

/-- The write of a path is scheduled if nothing forbids it. -/
theorem scheduleRemoteWrite_spec (w : RenameWorld) (path : JsString) :
    (w.scheduleRemoteWrite path).remoteCreateAuthorizations = w.remoteCreateAuthorizations ∧
      (w.scheduleRemoteWrite path).preservedUnresolved = w.preservedUnresolved ∧
      ((w.scheduleRemoteWrite path).pendingWrites path = true ∨
        (w.preservedUnresolved path).isSome = true ∨ w.capturesAdmission path = false ∨
        w.isMarkdownPathSyncable path = false) := by
  unfold RenameWorld.scheduleRemoteWrite
  split
  · next h => exact ⟨rfl, rfl, .inr (.inr (.inl (by simpa using h)))⟩
  unfold scheduleWrite
  split
  · next h => exact ⟨rfl, rfl, .inr (.inr (.inr (by simpa using h)))⟩
  split
  · next h => exact ⟨rfl, rfl, .inr (.inl h)⟩
  · exact ⟨rfl, rfl, .inl (by simp)⟩

end World

namespace RemoteRename.Sound

variable {t : RenameTurn} {file : ℕ} {planned : JsString}

theorem finish (h : t.call.IssuesSafely)
    (hcon : t.isIntentCurrent = true → t.call.HasConcluded t.world) :
    t.finish.call.Sound where
  issues file w hiss := (h file w hiss).of_same rfl rfl rfl rfl rfl
  ended w he hi := by
    cases he
    exact hcon hi
  phase := trivial

theorem preserveCollision (h : t.call.IssuesSafely) : t.preserveCollision.call.Sound :=
  finish h fun _ => .inr (.inl (quarantined_recordCollision t.call))

theorem failed (h : t.call.IssuesSafely) : (t.failed file).call.Sound :=
  preserveCollision (t := t.retire file) h

/-- A call whose intent is not current may end as it is. -/
theorem stale (h : t.call.IssuesSafely) (hi : (!t.isIntentCurrent) = true) :
    t.finish.call.Sound := by
  refine finish h fun hcur => ?_
  rw [hcur] at hi
  cases hi

/-- A redirection that has not worked leaves both paths flagged, one that has worked leaves no
entry at the target but the source's own. -/
theorem redirected (t : RenameTurn) :
    (t.redirectPreservedMarker.1 = false ∧ t.call.IsQuarantined t.redirectPreservedMarker.2) ∨
    (t.redirectPreservedMarker.1 = true ∧
      (t.call.initialSourceEpisode = (t.world.preservedUnresolved t.call.oldPath).map (·.episode) →
        ∀ entry, t.redirectPreservedMarker.2.preservedUnresolved t.call.newPath = some entry →
          t.call.initialSourceEpisode = some entry.episode)) := by
  unfold RenameTurn.redirectPreservedMarker
  split
  · next heq =>
    rw [redirect_collision heq]
    exact .inl ⟨rfl, quarantined_recordCollision t.call⟩
  · next entry w heq =>
    split
    · next hepis =>
      refine .inr ⟨rfl, fun _ entry' he' => ?_⟩
      unfold RenameWorld.redirectPreservedUnresolved at heq
      split at heq
      · next hnew =>
        cases heq
        rw [hnew] at he'
        cases he'
        exact hepis
      · cases heq
      split at heq
      · cases heq
      split at heq
      · split at heq <;> cases heq
      · cases heq
    · exact .inl ⟨rfl, quarantined_recordCollision t.call⟩
  · next result w hcoll honly heq =>
    refine .inr ⟨rfl, fun hinit entry he => ?_⟩
    rcases redirect_carries heq with hr | ⟨_, hr⟩ | hcar
    · exact (hcoll hr).elim
    · exact (honly _ hr).elim
    · exact hinit.trans (hcar entry he)

theorem arrived_of_same {w w' : RenameWorld} (h : SameVault w w') (harr : t.call.HasArrived w) :
    t.call.HasArrived w' := by
  obtain ⟨file, he, hf⟩ := harr
  refine ⟨file, by rw [h.entry, he], ?_⟩
  rwa [h.idToText]

theorem scheduled_target {w : RenameWorld} (call : RemoteRename)
    (hcar : ∀ entry, w.preservedUnresolved call.newPath = some entry →
      call.initialSourceEpisode = some entry.episode) :
    call.IsTargetScheduled
      ((w.authorizeRemoteCreate call.newPath).scheduleRemoteWrite call.newPath) := by
  obtain ⟨haut, hen, hsch⟩ :=
    scheduleRemoteWrite_spec (w.authorizeRemoteCreate call.newPath) call.newPath
  have hs : SameVault (w.authorizeRemoteCreate call.newPath)
      ((w.authorizeRemoteCreate call.newPath).scheduleRemoteWrite call.newPath) :=
    .scheduleRemoteWrite
  refine ⟨by rw [haut]; exact update_self .., ?_⟩
  rw [hen, hs.capturesAdmission, hs.isMarkdownPathSyncable]
  rcases hsch with hp | he | href
  · exact .inl hp
  · obtain ⟨entry, he⟩ := isSome_iff_exists.mp he
    exact .inr (.inl ⟨entry, he, hcar entry he⟩)
  · exact .inr (.inr href)

/-- The file has arrived at the target, or nothing is on either side and the target is to be
created. -/
theorem conclude {schedule authorize : Bool} (h : t.call.IssuesSafely)
    (hend : (authorize = false ∧ t.call.HasArrived t.world) ∨
      (authorize = true ∧ schedule = true ∧ t.call.initialSourceEpisode =
        (t.world.preservedUnresolved t.call.oldPath).map (·.episode))) :
    (t.conclude schedule authorize).call.Sound := by
  unfold RenameTurn.conclude
  split
  · next hi => exact stale h hi
  dsimp only
  rcases redirected t with ⟨hf, hquar⟩ | ⟨htrue, hcar⟩
  · rw [hf]
    exact finish (t := t.settlePaths _) h fun _ => .inr (.inl hquar)
  rw [htrue]
  rcases hend with ⟨rfl, harr⟩ | ⟨rfl, rfl, hinit⟩
  · have hset := arrived_of_same QuietTurn.settlePaths.world harr
    split
    · rename_i hf
      cases hf
    split
    · exact finish (t := (t.settlePaths _).scheduleTarget false) h fun _ =>
        .inl (arrived_of_same QuietTurn.scheduleTarget.world hset)
    · exact finish (t := t.settlePaths _) h fun _ => .inl hset
  · exact finish (t := (t.settlePaths _).scheduleTarget true) h fun _ =>
      .inr (.inr (.inl (scheduled_target t.call (hcar hinit))))

/-- A rename that comes through late leaves nothing to be shown, its intent is gone. -/
theorem concludeStale (h : t.call.IssuesSafely) (hi : t.isIntentCurrent = false) :
    t.concludeStale.call.Sound := by
  have hset : (t.settlePaths t.redirectPreservedMarker.2).isIntentCurrent = false :=
    (QuietTurn.settlePaths.world.intent t.call).trans hi
  unfold RenameTurn.concludeStale
  dsimp only
  split
  · refine finish (t := { t.settlePaths _ with world := _ }) h fun hcur => ?_
    have hr : SameVault (t.settlePaths t.redirectPreservedMarker.2).world
        ((t.settlePaths t.redirectPreservedMarker.2).world.recordPreservedUnresolved
          t.call.newPath .unknown) := .recordPreservedUnresolved
    exact absurd (((hr.intent t.call).trans hset).symm.trans hcur) Bool.false_ne_true
  · refine finish (t := t.settlePaths _) h fun hcur => ?_
    exact absurd (hset.symm.trans hcur) Bool.false_ne_true

theorem issues_of_none {call : RemoteRename} (h : call.issued = none) : call.IssuesSafely := by
  intro file w hiss
  rw [h] at hiss
  cases hiss

variable {reads : List (ℕ × JsString)}

/-- A call that has issued nothing goes on to wait. -/
theorem awaiting {phase : RenamePhase} (h : t.call.Reads reads)
    (hph : phase.Meaning { t.call with phase }) : (t.awaiting phase).call.Sound where
  issues := issues_of_none h.issued
  ended w he := by
    have hn : t.call.endedIn = some w := he
    rw [h.endedIn] at hn
    cases hn
  phase := hph

theorem start (h : t.call.Reads []) : t.start.call.Sound := by
  have hiss : t.capture.call.IssuesSafely := issues_of_none h.issued
  have hr : t.capture.call.Reads [] := ⟨h.reads, h.issued, h.endedIn⟩
  unfold RenameTurn.start
  split
  · next hi => exact stale hiss hi
  split
  · exact preserveCollision hiss
  unfold RenameTurn.inspect
  split
  · exact awaiting hr ⟨h.reads, h.issued, h.endedIn⟩
  · exact preserveCollision hiss
  · exact preserveCollision hiss
  · split
    · exact preserveCollision hiss
    · exact awaiting hr ⟨h.reads, h.issued, h.endedIn⟩
  · exact conclude hiss (.inr ⟨rfl, rfl, rfl⟩)

theorem afterTargetRead {expected : ℕ × JsString} {read : Option JsString}
    (h : t.call.Reads (read.map fun content => (file, content)).toList) :
    (t.afterTargetRead file expected read).call.Sound := by
  have hiss : t.call.IssuesSafely := issues_of_none h.issued
  unfold RenameTurn.afterTargetRead
  split
  · exact preserveCollision hiss
  · next content =>
    split
    · next hi => exact stale hiss hi
    split
    · exact preserveCollision hiss
    · next hmat =>
      simp only [RenameTurn.targetMatches, Bool.not_eq_true, Bool.not_eq_false',
        Bool.and_eq_true, decide_eq_true_eq] at hmat
      obtain ⟨⟨⟨-, htgt⟩, ht⟩, hc⟩ := hmat
      refine conclude hiss (.inl ⟨rfl, file, htgt, .inr ⟨expected.1, content, ?_, ?_⟩⟩)
      · rw [ht, hc]
      rw [h.reads]
      exact List.mem_singleton_self _

theorem afterFolder (h : t.call.Reads [(file, planned)]) :
    (t.afterFolder file planned).call.Sound := by
  have hiss : t.call.IssuesSafely := issues_of_none h.issued
  unfold RenameTurn.afterFolder
  split
  · next hi => exact stale hiss hi
  split
  · exact awaiting h ⟨h.reads, h.issued, h.endedIn⟩
  · exact preserveCollision hiss

/-- Where the critical section refuses a call whose intent is current. -/
theorem refused (h : t.call.IssuesSafely) (href : (!t.entersCriticalSection) = true) :
    t.finish.call.Sound := by
  refine finish h fun hi => .inr (.inr (.inr ?_))
  simp only [RenameTurn.isIntentCurrent, isIntentCurrent, Bool.and_eq_true] at hi
  simpa [RenameTurn.entersCriticalSection, hi.1] using href

theorem afterSourceRead {read : Option JsString}
    (h : t.call.Reads (read.map fun content => (file, content)).toList) :
    (t.afterSourceRead file read).call.Sound := by
  have hiss : t.call.IssuesSafely := issues_of_none h.issued
  unfold RenameTurn.afterSourceRead
  split
  · exact failed hiss
  split
  · next hi => exact stale hiss hi
  split
  · split
    · next href => exact refused hiss href
    · exact awaiting h ⟨h.reads, h.issued, h.endedIn⟩
  · exact afterFolder h

/-- `renameFile` is called for a file that was read twice with one content. -/
theorem afterFinalRead {read : Option JsString}
    (h : t.call.Reads ((read.map fun content => (file, content)).toList ++ [(file, planned)])) :
    (t.afterFinalRead file planned read).call.Sound := by
  have hiss : t.call.IssuesSafely := issues_of_none h.issued
  unfold RenameTurn.afterFinalRead
  split
  · exact failed hiss
  · next content =>
    split
    · next hi => exact stale hiss hi
    · next hi =>
      split
      · next hexact =>
        obtain ⟨hsrc, rfl, htgt⟩ := hexact
        dsimp only
        split
        · next href =>
          have hs : SameVault (t.setPendingRemoteRename file).world
              ((t.setPendingRemoteRename file).retire file).world := .retirePendingRemoteRename
          refine refused (t := (t.setPendingRemoteRename file).retire file) hiss ?_
          unfold RenameTurn.entersCriticalSection at href ⊢
          rw [hs.isAdmissionCurrent, hs.entersCriticalSection]
          exact href
        have hcur : t.isIntentCurrent = true := by simpa using hi
        refine ⟨fun f w hissued => ?_, fun w he => ?_, ⟨_, rfl⟩, h.endedIn⟩
        · cases hissued
          exact ⟨⟨content, h.reads⟩, hsrc, htgt, hcur⟩
        have hn : t.call.endedIn = some w := he
        rw [h.endedIn] at hn
        cases hn
      · exact preserveCollision hiss

variable {resolved : Bool}

theorem afterRename (h : t.call.IssuesSafely) (hiss : ∃ w, t.call.issued = some (file, w)) :
    (t.afterRename file resolved).call.Sound := by
  unfold RenameTurn.afterRename
  split
  · exact failed h
  dsimp only
  split
  · exact failed (t := t.retire file) h
  · next hp =>
    rw [not_or, not_not, not_not] at hp
    split
    · next hi =>
      rw [Bool.not_eq_true'] at hi
      exact concludeStale (t := (t.retire file).retire file) h
        ((QuietTurn.retire.world.intent t.call).trans hi)
    · exact conclude (t := t.retire file) h (.inl ⟨rfl, file, hp.2, .inl hiss⟩)

/-- An await of the call ends. -/
theorem resume (h : t.call.Sound) : (t.resume resolved).call.Sound := by
  have hph := h.phase
  unfold RenameTurn.resume
  split
  · next heq =>
    rw [heq] at hph
    exact start hph
  · exact h
  · next heq =>
    rw [heq] at hph
    exact afterTargetRead hph
  · exact h
  · next heq =>
    rw [heq] at hph
    exact afterSourceRead hph
  · next heq =>
    rw [heq] at hph
    split
    · exact afterFolder hph
    · exact failed h.issues
  · exact h
  · next heq =>
    rw [heq] at hph
    exact afterFinalRead hph
  · next heq =>
    rw [heq] at hph
    exact afterRename h.issues hph.1
  · exact h

variable {fails : Bool}

/-- A read that fails has read nothing, one that does not has read the file. -/
theorem sample {phase : Option (Option JsString) → RenamePhase} (h : t.call.Reads reads)
    (hfails : ∀ call : RemoteRename, call.Reads reads → (phase (some none)).Meaning call)
    (hr : ∀ call content, call.Reads ((file, content) :: reads) →
      (phase (some (some content))).Meaning call) : (t.sample file fails phase).call.Sound := by
  unfold RenameTurn.sample
  split
  · exact awaiting h (hfails _ ⟨h.reads, h.issued, h.endedIn⟩)
  refine ⟨issues_of_none h.issued, fun w he => ?_, hr _ _ ⟨?_, h.issued, h.endedIn⟩⟩
  · have hn : t.call.endedIn = some w := he
    rw [h.endedIn] at hn
    cases hn
  · rw [h.reads]

theorem read (h : t.call.Sound) : (t.read fails).call.Sound := by
  have hph := h.phase
  unfold RenameTurn.read
  split
  · next heq =>
    rw [heq] at hph
    exact sample hph (fun _ h => h) (fun _ _ h => h)
  · next heq =>
    rw [heq] at hph
    exact sample hph (fun _ h => h) (fun _ _ h => h)
  · next heq =>
    rw [heq] at hph
    exact sample hph (fun _ h => h) (fun _ _ h => h)
  · exact h

theorem perform {source : JsString} (h : t.call.Sound) : (t.perform source).call.Sound := by
  unfold RenameTurn.perform
  split <;> exact h

/-- A call that has just been made. -/
theorem queued (fileId : ℕ) (oldPath newPath : JsString) (admission : ℕ) :
    RemoteRename.Sound { fileId, oldPath, newPath, admission } where
  issues := issues_of_none rfl
  ended w he := by cases he
  phase := ⟨rfl, rfl, rfl⟩

end RemoteRename.Sound

end Kaos.Sync
