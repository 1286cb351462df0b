import Kaos.Sync.MarkdownRemoteRenameSafety

/-! Runs of remote renames: their tokens, the files that they meet, and how they end. -/
namespace Kaos.Sync

open Kaos.Lib RemoteRenames QuietTurn List Function

section Tokens

/-- The tokens after a turn are those before it, without that of a `renameFile` which has settled,
or with that of one which is called. -/
structure TokenEffect (t t' : RenameTurn) : Prop where
  oldPath : t'.call.oldPath = t.call.oldPath
  newPath : t'.call.newPath = t.call.newPath
  tokens : ∀ path token, t'.world.pendingRemoteRenames path = some token →
    (t.world.pendingRemoteRenames path = some token ∧
      (t.call.phase = .renaming token.file → t.call.oldPath = token.oldPath →
        t.call.newPath = token.newPath → path = t.call.newPath →
        t'.call.phase = .renaming token.file)) ∨
    (path = t.call.newPath ∧ ∃ file, token = ⟨t.call.oldPath, t.call.newPath, file, t.id⟩ ∧
      t'.call.phase = .renaming file)

namespace TokenEffect

variable {t t' : RenameTurn} {file : ℕ} {planned : JsString}

theorem same (t : RenameTurn) : TokenEffect t t where
  oldPath := rfl
  newPath := rfl
  tokens _ _ ht := .inl ⟨ht, fun hph _ _ _ => hph⟩

theorem of_quiet (h : QuietTurn t t') (hph : ∀ file, t.call.phase ≠ .renaming file) :
    TokenEffect t t' where
  oldPath := h.oldPath
  newPath := h.newPath
  tokens path token ht :=
    .inl ⟨h.world.tokens path token ht, fun heq => absurd heq (hph _)⟩

/-- No token of the rename is left once it is retired. -/
theorem retired {w : RenameWorld} {oldPath newPath : JsString} {token : PendingRemoteRename}
    (h : (w.retirePendingRemoteRename oldPath newPath file).pendingRemoteRenames newPath =
      some token) : ¬ (token.oldPath = oldPath ∧ token.newPath = newPath ∧ token.file = file) := by
  unfold RenameWorld.retirePendingRemoteRename at h
  split at h
  · next pending hp =>
    split at h
    · simp at h
    · next hkey =>
      rw [hp] at h
      cases h
      exact hkey
  · next hn =>
    rw [hn] at h
    cases h

theorem afterRename {resolved : Bool} (hph : t.call.phase = .renaming file) :
    TokenEffect t (t.afterRename file resolved) where
  oldPath := QuietTurn.afterRename.oldPath
  newPath := QuietTurn.afterRename.newPath
  tokens path token ht := by
    have hret := (QuietTurn.afterRename (t := t)).world.tokens path token ht
    refine .inl ⟨retire.world.tokens path token hret, fun hown hold hnew hp => ?_⟩
    subst hp
    rw [hph] at hown
    cases hown
    exact absurd ⟨hold.symm, hnew.symm, rfl⟩ (retired hret)

theorem afterFinalRead {read : Option JsString} (hph : ∀ file, t.call.phase ≠ .renaming file) :
    TokenEffect t (t.afterFinalRead file planned read) := by
  unfold RenameTurn.afterFinalRead
  split
  · exact of_quiet .failed hph
  split
  · exact of_quiet (.finish t) hph
  split
  · dsimp only
    have hset : ∀ path token,
        (t.setPendingRemoteRename file).world.pendingRemoteRenames path = some token →
        t.world.pendingRemoteRenames path = some token ∨
          (path = t.call.newPath ∧ token = ⟨t.call.oldPath, t.call.newPath, file, t.id⟩) := by
      intro path token ht
      by_cases hp : path = t.call.newPath
      · subst hp
        have hs := (update_self t.call.newPath _ _).symm.trans ht
        cases hs
        exact .inr ⟨rfl, rfl⟩
      · exact .inl ((update_of_ne hp _ _).symm.trans ht)
    split
    · refine ⟨rfl, rfl, fun path token ht => ?_⟩
      have hk : ((t.setPendingRemoteRename file).retire file).world.pendingRemoteRenames
          path = some token := ht
      rcases hset path token (retire.world.tokens path token hk) with
        ht | ⟨rfl, rfl⟩
      · exact .inl ⟨ht, fun heq => absurd heq (hph _)⟩
      · exact absurd ⟨rfl, rfl, rfl⟩ (retired hk)
    refine ⟨rfl, rfl, fun path token ht => ?_⟩
    rcases hset path token ht with ht | ⟨hp, ht⟩
    · exact .inl ⟨ht, fun heq => absurd heq (hph _)⟩
    · exact .inr ⟨hp, file, ht, rfl⟩
  · exact of_quiet .preserveCollision hph

theorem resume {resolved : Bool} : TokenEffect t (t.resume resolved) := by
  have ho (phase : RenamePhase) (heq : t.call.phase = phase)
      (hph : ∀ file, phase ≠ .renaming file) : ∀ file, t.call.phase ≠ .renaming file :=
    fun file hren => hph file (heq.symm.trans hren)
  unfold RenameTurn.resume
  split
  · next heq => exact of_quiet .start (ho _ heq (by simp))
  · exact same t
  · next heq => exact of_quiet .afterTargetRead (ho _ heq (by simp))
  · exact same t
  · next heq => exact of_quiet .afterSourceRead (ho _ heq (by simp))
  · next heq =>
    split
    · exact of_quiet .afterFolder (ho _ heq (by simp))
    · exact of_quiet .failed (ho _ heq (by simp))
  · exact same t
  · next heq => exact afterFinalRead (ho _ heq (by simp))
  · next heq => exact afterRename heq
  · exact same t

theorem sample {fails : Bool} {phase : Option (Option JsString) → RenamePhase} :
    QuietTurn t (t.sample file fails phase) := by
  unfold RenameTurn.sample
  split
  · exact .awaiting
  · exact ⟨.refl _, rfl, rfl⟩

theorem read {fails : Bool} : TokenEffect t (t.read fails) := by
  unfold RenameTurn.read
  split
  · next heq => exact of_quiet sample (by simp [heq])
  · next heq => exact of_quiet sample (by simp [heq])
  · next heq => exact of_quiet sample (by simp [heq])
  · exact same t

theorem perform {source : JsString} : TokenEffect t (t.perform source) := by
  unfold RenameTurn.perform
  split
  · next heq =>
    unfold RenameWorld.createEntry
    split
    · exact ⟨rfl, rfl, fun _ _ ht => .inl ⟨ht, fun hph _ _ _ => hph⟩⟩
    · exact same t
  · unfold RenameWorld.moveFile
    split
    · exact ⟨rfl, rfl, fun _ _ ht => .inl ⟨ht, fun hph _ _ _ => hph⟩⟩
    · exact same t
  · exact same t

end TokenEffect

end Tokens

section Vault

/-- The file is in the vault. -/
def RenameWorld.Has (w : RenameWorld) (file : ℕ) : Prop :=
  ∃ path, w.entry path = some (.file file)

/-- The files stay with their bytes. -/
def KeepsFiles (w w' : RenameWorld) : Prop :=
  (∀ file, w.Has file → w'.Has file) ∧ w'.disk = w.disk

namespace KeepsFiles

variable {w w' : RenameWorld} {t : RenameTurn} {path source target : JsString} {file : ℕ}

theorem refl (w : RenameWorld) : KeepsFiles w w := ⟨fun _ h => h, rfl⟩

theorem of_same (h : SameVault w w') : KeepsFiles w w' := by
  refine ⟨fun file hf => ?_, h.disk⟩
  unfold RenameWorld.Has
  rwa [h.entry]

variable {entry : NoteEntry}

theorem createEntry : KeepsFiles w (w.createEntry path entry) := by
  unfold RenameWorld.createEntry
  split
  · next hfr =>
    refine ⟨fun file hf => ?_, rfl⟩
    obtain ⟨p, hp⟩ := hf
    refine ⟨p, ?_⟩
    have hne : p ≠ path := by
      rintro rfl
      rw [hfr] at hp
      cases hp
    simpa only [update_of_ne hne] using hp
  · exact refl w

/-- Nothing is overwritten by a file that moves. -/
theorem moveFile : KeepsFiles w (w.moveFile source target file) := by
  unfold RenameWorld.moveFile
  split
  · next hmoves =>
    obtain ⟨hsrc, hf⟩ := hmoves
    refine ⟨fun other ho => ?_, rfl⟩
    obtain ⟨p, hp⟩ := ho
    have hne : p ≠ target := by
      rintro rfl
      rw [hf] at hp
      cases hp
    by_cases hpa : p = source
    · subst hpa
      rw [hsrc] at hp
      cases hp
      exact ⟨target, update_self ..⟩
    refine ⟨p, ?_⟩
    simpa only [update_of_ne hne, update_of_ne hpa] using hp
  · exact refl w

theorem removeEntry (ho : entry ≠ .file file) (h : w.Has file) :
    (w.removeEntry path entry).Has file := by
  unfold RenameWorld.removeEntry
  split
  · next he =>
    obtain ⟨p, hp⟩ := h
    refine ⟨p, ?_⟩
    have hne : p ≠ path := by
      rintro rfl
      rw [he] at hp
      cases hp
      exact ho rfl
    simpa only [update_of_ne hne] using hp
  · exact h

theorem afterFinalRead {planned : JsString} {read : Option JsString} :
    KeepsFiles t.world (t.afterFinalRead file planned read).world := by
  unfold RenameTurn.afterFinalRead
  split
  · exact of_same failed.world
  split
  · exact refl _
  split
  · dsimp only
    split
    · have hret : KeepsFiles (t.setPendingRemoteRename file).world
          ((t.setPendingRemoteRename file).retire file).world :=
        of_same retire.world
      exact ⟨fun f hf => hret.1 f hf, hret.2⟩
    · exact ⟨fun _ h => h, rfl⟩
  · exact of_same preserveCollision.world

theorem resume {resolved : Bool} : KeepsFiles t.world (t.resume resolved).world := by
  unfold RenameTurn.resume
  split
  · exact of_same start.world
  · exact refl _
  · exact of_same afterTargetRead.world
  · exact refl _
  · exact of_same afterSourceRead.world
  · split
    · exact of_same afterFolder.world
    · exact of_same failed.world
  · exact refl _
  · exact afterFinalRead
  · exact of_same (retire.trans QuietTurn.afterRename).world
  · exact refl _

theorem read {fails : Bool} : KeepsFiles t.world (t.read fails).world := by
  unfold RenameTurn.read
  split
  · exact of_same TokenEffect.sample.world
  · exact of_same TokenEffect.sample.world
  · exact of_same TokenEffect.sample.world
  · exact refl _

theorem perform : KeepsFiles t.world (t.perform source).world := by
  unfold RenameTurn.perform
  split
  · exact createEntry
  · exact moveFile
  · exact refl _

end KeepsFiles

end Vault

section Runs

/-- Every call keeps to what its phase says, and a token belongs to a call that waits for
`renameFile`. -/
structure RemoteRenames.Sound (s : RemoteRenames) : Prop where
  calls : ∀ call ∈ s.calls, call.Sound
  tokens : ∀ path token, s.world.pendingRemoteRenames path = some token →
    path = token.newPath ∧ ∃ call, s.calls[token.call]? = some call ∧
      call.phase = .renaming token.file ∧ call.oldPath = token.oldPath ∧
      call.newPath = token.newPath

/-- What an event makes of the bytes of a file, as far as the user and other programs do. -/
def RenameEvent.bytes (file : ℕ) (content : JsString) : RenameEvent → JsString
  | .localEdit file' content' => if file' = file then content' else content
  | _ => content

def bytesAfter (file : ℕ) (content : JsString) (events : List RenameEvent) : JsString :=
  events.foldl (RenameEvent.bytes file) content

namespace RemoteRenames

variable {s : RemoteRenames} {id : ℕ} {move : RenameTurn → RenameTurn}

variable {w : RenameWorld}

/-- The calls are not touched, and no token is new. -/
theorem sound_of_world (h : s.Sound)
    (htok : ∀ path token, w.pendingRemoteRenames path = some token →
      s.world.pendingRemoteRenames path = some token) : Sound { s with world := w } where
  calls := h.calls
  tokens path token ht := h.tokens path token (htok path token ht)

theorem sound_turn (h : s.Sound) (hc : ∀ t, t.call.Sound → (move t).call.Sound)
    (htok : ∀ t, TokenEffect t (move t)) : (s.turn id move).Sound := by
  unfold turn
  split
  · next call hid =>
    have hef := htok ⟨s.world, call, id⟩
    have hlt : id < s.calls.length := (List.getElem?_eq_some_iff.mp hid).1
    refine ⟨fun call' hmem => ?_, fun path token ht => ?_⟩
    · rcases mem_or_eq_of_mem_set hmem with hold | rfl
      · exact h.calls call' hold
      · exact hc ⟨s.world, call, id⟩ (h.calls call (mem_of_getElem? hid))
    rcases hef.tokens path token ht with ⟨hold, hown⟩ | ⟨rfl, file, rfl, hph⟩
    · obtain ⟨hp, owner, ho, hren, holdPath, hnew⟩ := h.tokens path token hold
      refine ⟨hp, ?_⟩
      by_cases hs : token.call = id
      · rw [hs, hid] at ho
        cases ho
        refine ⟨_, by rw [hs]; exact getElem?_set_self hlt, ?_⟩
        exact ⟨hown hren holdPath hnew (hp.trans hnew.symm),
          hef.oldPath.trans holdPath, hef.newPath.trans hnew⟩
      · refine ⟨owner, ?_, hren, holdPath, hnew⟩
        rwa [getElem?_set_ne (Ne.symm hs)]
    · exact ⟨rfl, _, getElem?_set_self hlt, hph, hef.oldPath, hef.newPath⟩
  · exact h

variable {file : ℕ}

theorem consumed {oldPath newPath path : JsString} {token : PendingRemoteRename}
    (h : (w.consumeRemoteRename oldPath newPath file).2.pendingRemoteRenames path = some token) :
    w.pendingRemoteRenames path = some token := by
  unfold RenameWorld.consumeRemoteRename at h
  split at h
  · split at h
    · exact h
    by_cases hp : path = newPath
    · subst hp
      simp at h
    · simpa only [update_of_ne hp] using h
  · exact h

theorem sound_handleRemoteRename {fileId admission : ℕ} {oldPath newPath : JsString}
    (h : s.Sound) : (s.handleRemoteRename fileId oldPath newPath admission).Sound := by
  unfold handleRemoteRename
  split
  · exact h
  split
  · exact h
  split
  · exact h
  refine ⟨fun call hmem => ?_, fun path token ht => ?_⟩
  · rcases mem_append.mp hmem with hold | hnew
    · exact h.calls call hold
    rw [mem_singleton.mp hnew]
    exact .queued fileId oldPath newPath admission
  obtain ⟨hp, owner, ho, hr⟩ := h.tokens path token ht
  refine ⟨hp, owner, ?_, hr⟩
  rwa [List.getElem?_append_left (List.getElem?_eq_some_iff.mp ho).1]

theorem sound_next (h : s.Sound) (event : RenameEvent) : (s.next event).Sound := by
  cases event with
  | localCreate path entry =>
    refine sound_of_world h fun path' token ht => ?_
    unfold RenameWorld.createEntry at ht
    split at ht <;> exact ht
  | localEdit file content | shared w => exact sound_of_world h fun _ _ ht => ht
  | localDelete path entry =>
    refine sound_of_world h fun path' token ht => ?_
    unfold RenameWorld.removeEntry at ht
    split at ht <;> exact ht
  | localRename source target file =>
    refine sound_of_world h fun path' token ht => ?_
    unfold RenameWorld.moveFile at ht
    split at ht <;> exact ht
  | consumeRemoteRename oldPath newPath file => exact sound_of_world h fun _ _ => consumed
  | handleRemoteRename fileId oldPath newPath admission => exact sound_handleRemoteRename h
  | read id fails => exact sound_turn h (fun _ hc => hc.read) fun _ => .read
  | perform id source => exact sound_turn h (fun _ hc => hc.perform) fun _ => .perform
  | resume id resolved => exact sound_turn h (fun _ hc => hc.resume) fun _ => .resume

theorem sound_run (h : s.Sound) (events : List RenameEvent) : (s.run events).Sound := by
  induction events generalizing s with
  | nil => exact h
  | cons event events ih => exact ih (sound_next h event)

theorem sound_init (w : RenameWorld) : (init w).Sound where
  calls call hmem := by cases hmem
  tokens path token ht := by cases ht

theorem keeps_turn (hmove : ∀ t : RenameTurn, KeepsFiles t.world (move t).world) :
    KeepsFiles s.world (s.turn id move).world := by
  unfold turn
  split
  · next call _ => exact hmove ⟨s.world, call, id⟩
  · exact .refl _

/-- A file goes only if it is deleted locally, and its bytes change only in a local edit. -/
theorem keeps_next {event : RenameEvent} (h : s.world.Has file)
    (hev : ∀ path, event ≠ .localDelete path (.file file)) : (s.next event).world.Has file ∧
      (s.next event).world.disk file = event.bytes file (s.world.disk file) := by
  have hk {w : RenameWorld} (hw : KeepsFiles s.world w) :
      w.Has file ∧ w.disk file = s.world.disk file := ⟨hw.1 file h, congrFun hw.2 file⟩
  cases event with
  | localCreate path entry => exact hk .createEntry
  | localEdit file' content =>
    refine ⟨h, ?_⟩
    by_cases hf : file' = file
    · subst hf
      simp [next, RenameEvent.bytes]
    · simp [next, RenameEvent.bytes, hf, update_of_ne (Ne.symm hf)]
  | localDelete path entry =>
    have ho : entry ≠ .file file := by
      rintro rfl
      exact hev path rfl
    have hd : (s.world.removeEntry path entry).disk = s.world.disk := by
      unfold RenameWorld.removeEntry
      split <;> rfl
    exact ⟨KeepsFiles.removeEntry ho h, congrFun hd file⟩
  | localRename source target file' => exact hk .moveFile
  | shared w => exact ⟨h, rfl⟩
  | consumeRemoteRename oldPath newPath file' =>
    have hs : KeepsFiles s.world (s.world.consumeRemoteRename oldPath newPath file').2 := by
      unfold RenameWorld.consumeRemoteRename
      split
      · split
        · exact .refl _
        · exact ⟨fun _ h => h, rfl⟩
      · exact .refl _
    exact hk hs
  | handleRemoteRename fileId oldPath newPath admission =>
    have hworld : (s.handleRemoteRename fileId oldPath newPath admission).world = s.world := by
      unfold handleRemoteRename
      split
      · rfl
      split
      · rfl
      · split <;> rfl
    exact hk (hworld ▸ .refl _)
  | read id fails => exact hk (keeps_turn fun _ => .read)
  | perform id source => exact hk (keeps_turn fun _ => .perform)
  | resume id resolved => exact hk (keeps_turn fun _ => .resume)

theorem keeps_run {events : List RenameEvent} (h : s.world.Has file)
    (hevents : ∀ path, .localDelete path (.file file) ∉ events) : (s.run events).world.Has file ∧
      (s.run events).world.disk file = bytesAfter file (s.world.disk file) events := by
  induction events generalizing s with
  | nil => exact ⟨h, rfl⟩
  | cons event events ih =>
    have hev : ∀ path, event ≠ .localDelete path (.file file) := by
      rintro path rfl
      exact hevents path mem_cons_self
    have hhead := keeps_next h hev
    obtain ⟨hhas, hb⟩ := ih hhead.1 fun path hmem =>
      hevents path (mem_cons_of_mem _ hmem)
    refine ⟨hhas, ?_⟩
    rw [hhead.2] at hb
    exact hb

end RemoteRenames

/-- In any run a file that is on disk stays there with its bytes unless it is deleted or edited
locally, a rename is issued only as it was inspected, an ended call whose intent is current has
brought the file to its target, flagged both paths or seen to the target's creation, and each
token is that of a rename under way. -/
theorem remote_renames_lose_no_file (w : RenameWorld) (before events : List RenameEvent) :
    (∀ file, ((init w).run before).world.Has file →
      (∀ path, .localDelete path (.file file) ∉ events) →
      ((init w).run (before ++ events)).world.Has file ∧
        ((init w).run (before ++ events)).world.disk file =
          bytesAfter file (((init w).run before).world.disk file) events) ∧
    (∀ call ∈ ((init w).run events).calls, ∀ file w', call.issued = some (file, w') →
      call.IssuedSafely file w') ∧
    (∀ call ∈ ((init w).run events).calls, ∀ w', call.endedIn = some w' →
      w'.isIntentCurrent call = true → call.HasConcluded w') ∧
    ∀ path token,
      ((init w).run events).world.pendingRemoteRenames path = some token →
      ∃ call, ((init w).run events).calls[token.call]? = some call ∧
        call.phase = .renaming token.file := by
  have hs := sound_run (sound_init w) events
  refine ⟨fun file hf hevents => ?_, fun call hc => (hs.calls call hc).issues,
    fun call hc => (hs.calls call hc).ended, fun path token ht => ?_⟩
  · have hrun : (init w).run (before ++ events) =
        ((init w).run before).run events := List.foldl_append ..
    rw [hrun]
    exact keeps_run hf hevents
  obtain ⟨-, call, hc, hph, -⟩ := hs.tokens path token ht
  exact ⟨call, hc, hph⟩

/-- A note at `a` whose metadata name `b`. -/
def noteWorld : RenameWorld where
  entry path := if path = js "a" then some (.file 0) else none
  disk _ := js "x"
  metaPath _ := some (js "b")
  idToText _ := none
  isAdmissionCurrent _ := true
  entersCriticalSection _ := true
  capturesAdmission _ := true
  isMarkdownPathSyncable _ := true
  preservedUnresolved _ := none
  pendingRemoteRenames _ := none
  openPaths _ := false
  pendingWrites _ := false
  remoteCreateAuthorizations _ := false
  nextEpisode := 0

def noteRename : List RenameEvent :=
  [.handleRemoteRename 0 (js "a") (js "b") 0, .resume 0 true, .read 0 false, .resume 0 true,
    .read 0 false, .resume 0 true, .perform 0 (js "a"), .resume 0 true]

theorem remote_rename_moves_note :
    ((init noteWorld).run noteRename).world.entry (js "b") = some (.file 0) ∧
      ((init noteWorld).run noteRename).world.disk 0 = js "x" := by
  refine ⟨by decide, ?_⟩
  have hevents : ∀ path, .localDelete path (.file 0) ∉ noteRename := by
    intro path hmem
    simp [noteRename] at hmem
  exact ((remote_renames_lose_no_file noteWorld [] noteRename).1 0 ⟨js "a", rfl⟩ hevents).2

/-- The metadata of one note name `b`, and the missing `a` has an unresolved entry. -/
def carriedWorld : RenameWorld where
  entry _ := none
  disk _ := []
  metaPath _ := some (js "b")
  idToText _ := none
  isAdmissionCurrent _ := true
  entersCriticalSection _ := true
  capturesAdmission _ := true
  isMarkdownPathSyncable _ := true
  preservedUnresolved path := if path = js "a" then some ⟨0, .unknown⟩ else none
  pendingRemoteRenames _ := none
  openPaths _ := false
  pendingWrites _ := false
  remoteCreateAuthorizations _ := false
  nextEpisode := 1

/-- A call whose intent is current may end without a file at the target, a path collision or a
scheduled write: the unresolved entry moves along and blocks the write. -/
theorem remote_rename_ends_unscheduled : ∃ call w,
    ((init carriedWorld).run
      [.handleRemoteRename 0 (js "a") (js "b") 0, .resume 0 true]).calls = [call] ∧
    call.endedIn = some w ∧ w.isIntentCurrent call = true ∧
    w.entersCriticalSection call.admission = true ∧
    w.entry (js "b") = none ∧ w.preservedUnresolved (js "a") = none ∧
    w.preservedUnresolved (js "b") = some ⟨0, .unknown⟩ ∧ w.pendingWrites (js "b") = false := by
  refine ⟨_, _, rfl, rfl, ?_⟩
  decide

end Runs

end Kaos.Sync
