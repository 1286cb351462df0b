import Kaos.Sync.BlobDownloadSafety

/-! What the downloads of a path have done to its files, in any run. -/
namespace Kaos.Sync

open Kaos.Lib BlobDownloads List

variable {sha : List UInt8 → JsString} {s s' : BlobDownloads} {i : ℕ}
  {a a' : DownloadAttempt} {result : DownloadResult} {event : DownloadEvent}

section Steps

/-- The attempt as the drain starts it. -/
def DownloadItem.startAttempt (item : DownloadItem) (id : ℕ) : DownloadAttempt where
  item := id
  generation := item.generation
  attemptHash := item.target.hash
  acceptableLocalHashes := normalizeAcceptableLocalHashes item.target.acceptableLocalHashes
  phase := .done

def BlobDownloads.start (s : BlobDownloads) (id : ℕ) (item : DownloadItem) : BlobDownloads :=
  { s with attempts := s.attempts ++ [item.startAttempt id] }

theorem processDownload_spec (s : BlobDownloads) (id : ℕ) (item : DownloadItem)
    (hadm : event.Admits s.attempts.length) :
    Effects sha (s.start id item)
      (s.processDownload id item) event s.attempts.length (item.startAttempt id) := by
  have ha : (s.attempts ++ [item.startAttempt id])[s.attempts.length]? =
      some (item.startAttempt id) := getElem?_concat_length
  unfold processDownload
  dsimp only
  split
  · exact .idle (keeps_discard _ id) ha
  split
  · exact .startAdmission hadm
  split
  · exact .abort rfl (goes_aborting rfl)
  split
  · split
    · unfold startRead
      split <;> exact .goes rfl (.bare rfl)
    · exact .idle (keeps_discard _ id) ha
  · exact .idle (keeps_discard _ id) ha

/-- The drain has started an attempt. -/
structure Starts (s s₀ : BlobDownloads) (a : DownloadAttempt) : Prop where
  world : s₀.world = s.world
  attempts : s₀.attempts = s.attempts ++ [a]
  done : a.phase = .done
  installed : s₀.installed = s.installed
  artifacts : s₀.artifacts = s.artifacts
  conflicts : s₀.conflicts = s.conflicts
  failures : s₀.permanentFailures = s.permanentFailures
  queue : KeepsQueue s s₀
  item : a.item < s.items.length

/-- What the drain does: nothing, or it starts an attempt. -/
theorem download_drain_spec (sha : List UInt8 → JsString) (s : BlobDownloads)
    (result : DownloadResult) : s.drain result = s ∨ ∃ s₀ a, Starts s s₀ a ∧
      Effects sha s₀ (s.drain result) (.drain result) s.attempts.length a := by
  unfold drain
  split
  · exact .inl rfl
  · next id _ =>
    split
    · exact .inl rfl
    · next item hi =>
      split
      · obtain ⟨hlen, hstamps, hgen, hq⟩ := (keeps_modifyItem s id
          (fun item => { item with isProcessing := true }) (fun _ => rfl)).toKeepsQueue
        exact .inr ⟨(s.modifyItem id fun item => { item with isProcessing := true }).start id item,
          item.startAttempt id, ⟨rfl, rfl, rfl, rfl, rfl, rfl, rfl, ⟨hlen, hstamps, hgen, hq⟩,
          (List.getElem?_eq_some_iff.mp hi).1⟩, processDownload_spec _ id item trivial⟩
      · exact .inl rfl

theorem stays_enqueue (s : BlobDownloads) (hash : JsString)
    (acceptableLocalHashes : List JsString) :
    Stays s (s.enqueueDownload hash acceptableLocalHashes) := by
  unfold enqueueDownload
  split
  · exact .refl s
  dsimp only
  split <;> exact ⟨rfl, rfl, rfl, rfl, rfl, Nat.le_refl _⟩

theorem stays_import (s : BlobDownloads) (item : DownloadItem) :
    Stays s (s.next sha (.importDownload item)) := by
  simp only [BlobDownloads.next]
  split
  · exact .refl s
  · exact ⟨rfl, rfl, rfl, rfl, rfl, Nat.le_refl _⟩

theorem sampleRead_spec (ha : s.attempts[i]? = some a) :
    Effects sha s (s.sampleRead i a) (.read i) i a := by
  unfold sampleRead
  split
  · next source purpose hph =>
    refine .goes rfl ⟨?_, ?_, ?_, ?_, ?_, (absent₃ rfl), (absent₂ rfl),
      (absent rfl), (absent rfl), (absent rfl)⟩
    · intro data h
      rw [hph]
      cases purpose <;> exact .inl h
    · intro admission h
      rw [hph]
      cases purpose <;> exact .inl h
    · intro hash h
      rw [hph]
      cases purpose <;> exact .inl h
    · intro held h
      cases hdata : s.world.disk source.file with rw [hdata] at h
      | none => cases h
      | some data =>
        cases h
        exact .inr ⟨rfl, hph, hdata⟩
    · intro source' purpose' h
      rw [hph]
      cases purpose <;> exact .inl h
  · next download prior after hph =>
    have hk : a.phase.Has download := has_of_download (by rw [hph]; rfl)
    exact .goes rfl (.download hk rfl (absent rfl) rfl rfl rfl rfl rfl rfl (absent rfl))
  · exact .idle (.refl s) ha

/-- What a call of the vault does: it creates the file or its predecessor on a vacant path, it moves
the file to its backup path, it creates an artifact, or nothing happens. -/
inductive CallEffect (s : BlobDownloads) (i : ℕ) (a : DownloadAttempt) (file : ℕ)
    (s' : BlobDownloads) : Prop
  | created (download : StagedDownload) (prior : Option CleanPrior) (stat : ℕ × ℕ)
    (phase : a.phase = .creating download prior none) (vacant : s.world.isVacant = true)
    (isNew : s.world.isNew file = true)
    (eq : s' = { (s.withWorld (s.world.createBinary file stat download.data)).enter i a
      (.creating download prior (some file)) with
        installed := s.installed ++ [(i, file, download.data)] })
  | restored (download : StagedDownload) (after : AfterRestore) (data : List UInt8) (stat : ℕ × ℕ)
    (phase : a.phase = .restoreCreating download after data false)
    (vacant : s.world.isVacant = true) (isNew : s.world.isNew file = true)
    (eq : s' = (s.withWorld (s.world.createBinary file stat data)).enter i a
      (.restoreCreating download after data true))
  | moved (download : StagedDownload) (source : UploadSource) (purpose : BackupPurpose)
    (phase : a.phase = .moving download source purpose)
    (there : s.world.file = some source.file)
    (eq : s' = s.withWorld (s.world.moveToBackup source.file purpose.backupPath))
  | wrote (download : StagedDownload) (localHash : JsString) (left : ℕ) (w : DownloadWorld)
    (phase : a.phase = .creatingArtifact download localHash left false)
    (isNew : s.world.isNew file = true)
    (eq : s' = { (s.withWorld w).enter i a (.creatingArtifact download localHash left true) with
      artifacts := s.artifacts ++ [(left, download.data)] })
    (path : w.file = s.world.file)
    (disk : w.disk = Function.update s.world.disk file (some download.data))
    (attention : w.attention = s.world.attention)
  | nothing (eq : s' = s)

theorem applyCall_spec {file : ℕ} {stat : ℕ × ℕ} :
    CallEffect s i a file (s.applyCall i a file stat) := by
  unfold applyCall
  split
  · next download prior hph =>
    split
    · next h =>
      rw [Bool.and_eq_true] at h
      exact .created download prior stat hph h.1 h.2 rfl
    · exact .nothing rfl
  · next download after data hph =>
    split
    · next h =>
      rw [Bool.and_eq_true] at h
      exact .restored download after data stat hph h.1 h.2 rfl
    · exact .nothing rfl
  · next download source purpose hph =>
    split
    · next h => exact .moved download source purpose hph h rfl
    · exact .nothing rfl
  · next download localHash left hph =>
    split
    · next h =>
      rw [Bool.and_eq_true] at h
      exact .wrote download localHash left _ hph h.2 rfl rfl rfl rfl
    · exact .nothing rfl
  · exact .nothing rfl

/-- A call leaves the queue, the conflicts and what is on record as they are. -/
theorem CallEffect.keeps {file : ℕ} (h : CallEffect s i a file s') :
    KeepsQueue s s' ∧ s'.conflicts = s.conflicts ∧
      s'.permanentFailures = s.permanentFailures ∧ s'.world.attention = s.world.attention := by
  have hqueue : ∀ {s' : BlobDownloads}, s'.items = s.items → s'.generation = s.generation →
      s'.queued = s.queued → KeepsQueue s s' :=
    fun hitems hgen hq => keepsQueue_of_items hitems hgen.ge (.inl hq)
  cases h with
  | created _ _ _ _ _ _ heq | restored _ _ _ _ _ _ _ heq | moved _ _ _ _ _ heq | nothing heq =>
    rw [heq]
    exact ⟨hqueue rfl rfl rfl, rfl, rfl, rfl⟩
  | wrote _ _ _ _ _ _ heq _ _ hatt =>
    rw [heq]
    exact ⟨hqueue rfl rfl rfl, rfl, rfl, hatt⟩

/-- What the new phase says is what the old one said, but for an artifact that has been written. -/
theorem Goes.call {file : ℕ} {stat : ℕ × ℕ} {phase : DownloadPhase}
    (h : (phase.data, phase.admission, phase.localHash, phase.held, phase.backingUp, phase.renamed,
      phase.replacing, phase.missing, phase.matched) = (a.phase.data, a.phase.admission,
        a.phase.localHash, a.phase.held, a.phase.backingUp, a.phase.renamed, a.phase.replacing,
        a.phase.missing, a.phase.matched)) : Goes sha s (.call i file stat) i a phase := by
  simp only [Prod.mk.injEq] at h
  obtain ⟨hdata, hadm, hl, hh, hbac, hren, hrep, hmis, hm⟩ := h
  exact ⟨fun _ h => .inl (hdata ▸ h), fun _ h => .inl (hadm ▸ h), fun _ h => .inl (hl ▸ h),
    fun _ h => .inl (hh ▸ h), fun _ _ h => .inl (hbac ▸ h),
    fun _ _ _ h => .inl (hren ▸ h), fun _ _ h => .inl (hrep ▸ h),
    fun _ h => .inl (hmis ▸ h), fun _ h => .inl (hm ▸ h),
    fun _ _ => .inr ⟨file, stat, rfl⟩⟩

/-- A call leaves the attempt what it knows; a call that has written its artifact is logged. -/
theorem CallEffect.attempts {file : ℕ} {stat : ℕ × ℕ} (h : CallEffect s i a file s')
    (ha : s.attempts[i]? = some a) :
    ∃ phase, s'.attempts = s.attempts.set i { a with phase } ∧
      Goes sha s (.call i file stat) i a phase ∧ phase.isOver = a.phase.isOver ∧
      (∀ written ∈ s.artifacts, written ∈ s'.artifacts) ∧
      ∀ written, phase.written = some written → a.phase.written = some written ∨
        written ∈ s'.artifacts := by
  have hs : s.attempts = s.attempts.set i { a with phase := a.phase } := by
    obtain ⟨hi, rfl⟩ := List.getElem?_eq_some_iff.mp ha
    exact (List.set_getElem_self hi).symm
  cases h with
  | created download prior _ hph _ _ heq =>
    rw [heq]
    refine ⟨_, rfl, .call ?_, by rw [hph]; rfl, fun _ h => h, nofun⟩
    rw [hph]
    cases prior <;> rfl
  | restored download after data _ hph _ _ heq =>
    rw [heq]
    refine ⟨_, rfl, .call ?_, by rw [hph]; rfl, fun _ h => h, nofun⟩
    rw [hph]
    rfl
  | wrote download localHash left _ hph _ heq =>
    rw [heq]
    refine ⟨_, rfl, .call ?_, by rw [hph]; rfl, fun _ h => mem_append_left _ h, ?_⟩
    · rw [hph]
      rfl
    intro written h
    cases h
    exact .inr (mem_append_right _ (mem_singleton.mpr rfl))
  | moved _ _ _ _ _ heq | nothing heq =>
    rw [heq]
    exact ⟨a.phase, hs, .same rfl, rfl, fun _ h => h, fun _ h => .inl h⟩

/-- No attempt goes on. -/
structure Quiet (s s' : BlobDownloads) (event : DownloadEvent) : Prop where
  attempts : s'.attempts = s.attempts
  installed : s'.installed = s.installed
  artifacts : s'.artifacts = s.artifacts
  conflicts : s'.conflicts = s.conflicts
  failures : s.permanentFailures ≤ s'.permanentFailures
  files : (∀ w, event ≠ .world w) → SameFiles s.world s'.world
  attention : (∀ w, event ≠ .world w) → event ≠ .destroy → s'.world.attention = s.world.attention

theorem Stays.quiet (h : Stays s s') : Quiet s s' event := by
  refine ⟨h.attempts, h.installed, h.artifacts, h.conflicts, h.failures, ?_, ?_⟩ <;> rw [h.world]
  · exact fun _ => .refl _
  · exact fun _ _ => rfl

/-- What an event does: no attempt goes on, the drain starts one, the vault takes the call of one, or
one goes on from a read or an await of its own. -/
inductive Moves (sha : List UInt8 → JsString) (s s' : BlobDownloads) :
    DownloadEvent → Prop
  | quiet {event : DownloadEvent} (h : Quiet s s' event) : Moves sha s s' event
  | starts {result : DownloadResult} {s₀ : BlobDownloads} {a : DownloadAttempt} (h : Starts s s₀ a)
    (effects : Effects sha s₀ s' (.drain result) s.attempts.length a) :
    Moves sha s s' (.drain result)
  | calls {i file : ℕ} {stat : ℕ × ℕ} {a : DownloadAttempt} (attempt : s.attempts[i]? = some a)
    (effect : CallEffect s i a file s') : Moves sha s s' (.call i file stat)
  | goes {event : DownloadEvent} {i : ℕ} {a : DownloadAttempt}
    (own : event = .read i ∨ ∃ result, event = .resume i result)
    (attempt : s.attempts[i]? = some a) (effects : Effects sha s s' event i a) :
    Moves sha s s' event

theorem next_moves (sha : List UInt8 → JsString) (s : BlobDownloads) (event : DownloadEvent) :
    Moves sha s (s.next sha event) event := by
  cases event with
  | world w =>
    exact .quiet ⟨rfl, rfl, rfl, rfl, Nat.le_refl _, fun h => absurd rfl (h w),
      fun h => absurd rfl (h w)⟩
  | destroy =>
    exact .quiet ⟨rfl, rfl, rfl, rfl, Nat.le_refl _, fun _ => ⟨rfl, rfl, rfl, rfl, rfl⟩,
      fun _ h => absurd rfl h⟩
  | fence | delete => exact .quiet (Stays.quiet ⟨rfl, rfl, rfl, rfl, rfl, Nat.le_refl _⟩)
  | enqueue hash acceptableLocalHashes => exact .quiet (stays_enqueue ..).quiet
  | importDownload item => exact .quiet (stays_import s item).quiet
  | drain result =>
    simp only [BlobDownloads.next]
    rcases download_drain_spec sha s result with heq | ⟨s₀, a, hstarts, heff⟩
    · rw [heq]
      exact .quiet (Stays.refl s).quiet
    · exact .starts hstarts heff
  | read j =>
    cases ha : s.attempts[j]? with simp only [BlobDownloads.next, ha]
    | none => exact .quiet (Stays.refl s).quiet
    | some a => exact .goes (.inl rfl) ha (sampleRead_spec ha)
  | call j file stat =>
    cases ha : s.attempts[j]? with simp only [BlobDownloads.next, ha]
    | none => exact .quiet (Stays.refl s).quiet
    | some a => exact .calls ha applyCall_spec
  | resume j result =>
    cases ha : s.attempts[j]? with simp only [BlobDownloads.next, ha]
    | none => exact .quiet (Stays.refl s).quiet
    | some a => exact .goes (.inr ⟨result, rfl⟩) ha (download_resume_spec ha rfl)

end Steps

section History

/-- Where an attempt has got after an event, and that nothing of it comes from elsewhere; the drain
starts one that knows nothing. -/
def Came (sha : List UInt8 → JsString) (s s' : BlobDownloads) (event : DownloadEvent)
    (i : ℕ) (a' : DownloadAttempt) : Prop :=
  ∃ s₀ a, (s.attempts[i]? = some a ∧ s₀ = s ∧ (∀ result, event = .drain result → a' = a) ∨
      s₀.world = s.world ∧ a.phase = .done ∧ s.attempts.length = i ∧
        ∃ result, event = .drain result) ∧
    a' = { a with phase := a'.phase } ∧ Goes sha s₀ event i a a'.phase ∧
    ∀ written, a'.phase.written = some written → a.phase.written = some written ∨
      written ∈ s'.artifacts

theorem came_of_mem (ha : s.attempts[i]? = some a) : Came sha s s' event i a :=
  ⟨s, a, .inl ⟨ha, rfl, fun _ _ => rfl⟩, rfl, .same rfl, fun _ h => .inl h⟩

variable {j : ℕ} {phase : DownloadPhase}

theorem came_of_set (ha : s.attempts[i]? = some a)
    (ha' : (s.attempts.set i { a with phase })[j]? = some a')
    (hg : Goes sha s event i a phase) (hev : ∀ result, event ≠ .drain result)
    (hw : ∀ written, phase.written = some written → a.phase.written = some written ∨
      written ∈ s'.artifacts) : Came sha s s' event j a' := by
  rcases getElem?_set_cases ha' with ⟨-, hold⟩ | ⟨rfl, rfl⟩
  · exact came_of_mem hold
  · exact ⟨s, a, .inl ⟨ha, rfl, fun result h => absurd h (hev result)⟩, rfl, hg, hw⟩

theorem Moves.came (h : Moves sha s s' event) (ha' : s'.attempts[i]? = some a') :
    Came sha s s' event i a' := by
  cases h with
  | quiet h =>
    rw [h.attempts] at ha'
    exact came_of_mem ha'
  | @starts result s₀ a h heff =>
    obtain ⟨phase, hset, hg, -⟩ := heff.attempts
    rw [hset, h.attempts] at ha'
    rcases getElem?_set_cases ha' with ⟨hi, hold⟩ | ⟨rfl, rfl⟩
    · rcases getElem?_append_one hold with hmem | ⟨hl, -⟩
      · exact came_of_mem hmem
      · exact absurd hl hi
    · exact ⟨s₀, a, .inr ⟨h.world, h.done, rfl, result, rfl⟩, rfl, hg,
        fun written h => (hg.written written h).imp_right nofun⟩
  | calls ha hef =>
    obtain ⟨phase, hset, hg, -, -, hw⟩ := hef.attempts ha
    rw [hset] at ha'
    exact came_of_set ha ha' hg nofun hw
  | goes hown ha heff =>
    obtain ⟨phase, hset, hg, -⟩ := heff.attempts
    rw [hset] at ha'
    refine came_of_set ha ha' hg ?_ ?_
    · rintro result rfl
      rcases hown with h | ⟨_, h⟩ <;> cases h
    -- the end of an await and the bytes of a read write no artifact
    intro written hw
    rcases hg.written written hw with hb | ⟨file, stat, rfl⟩
    · exact .inl hb
    · rcases hown with h | ⟨_, h⟩ <;> cases h

/-- Artifacts that have been written stay in the log. -/
theorem Moves.artifacts (h : Moves sha s s' event) {written : ℕ × List UInt8}
    (hmem : written ∈ s.artifacts) : written ∈ s'.artifacts := by
  cases h with
  | quiet h => rwa [h.artifacts]
  | starts h heff => rwa [heff.artifacts, h.artifacts]
  | goes _ _ heff => rwa [heff.artifacts]
  | calls ha hef =>
    obtain ⟨-, -, -, -, hstays, -⟩ := @CallEffect.attempts sha _ _ _ _ _ (0, 0) hef ha
    exact hstays written hmem

variable (sha) (w : DownloadWorld) (events : List DownloadEvent)

/-- Event `j` gave attempt `i` the bytes that the file had at that moment. -/
structure HasRead (j i file : ℕ) (data : List UInt8) : Prop where
  event : events[j]? = some (.read i)
  bytes : (downloadsAt sha w events j).world.disk file = some data

/-- Event `m` admits attempt `i`. -/
def IsAdmission (m i : ℕ) : Prop :=
  (∃ result, events[m]? = some (.drain result)) ∧
      (downloadsAt sha w events m).attempts.length = i ∨
    ∃ result, events[m]? = some (.resume i result)

/-- Before event `n` the file was read, and at event `k` it could be moved to a backup path at which
nothing had been at event `c`. -/
structure MovesAside (n c j k i : ℕ) (a : DownloadAttempt) (download : StagedDownload)
    (source : UploadSource) (purpose : BackupPurpose) (data : List UInt8) : Prop where
  order : c < k ∧ j < k ∧ k < n
  fresh : (downloadsAt sha w events c).world.backup purpose.backupPath = none
  read : HasRead sha w events j i source.file data
  identity : (downloadsAt sha w events k).world.isIdentityCurrent source = true
  mayMove : (downloadsAt sha w events k).canBackup a download (sha data)
    purpose = true
  admission : ∃ m < k, IsAdmission sha w events m i ∧
    download.admission = (downloadsAt sha w events m).world.captureAdmission

/-- Before event `n` the path's file was read, and it was still there when its bytes had been
hashed. -/
def HasHashed (n i : ℕ) (hash : JsString) : Prop :=
  ∃ j k source data, j < k ∧ k < n ∧ HasRead sha w events j i source.file data ∧
    (downloadsAt sha w events k).world.isIdentityCurrent source = true ∧
    hash = sha data

/-- What an attempt knows, and since when. -/
structure DownloadKnown (n i : ℕ) (a : DownloadAttempt) : Prop where
  data : ∀ data, a.phase.data = some data → sha data = a.attemptHash
  admission : ∀ admission, a.phase.admission = some admission → ∃ m < n,
    IsAdmission sha w events m i ∧
    admission = (downloadsAt sha w events m).world.captureAdmission ∧
    (admission.existing = none → admission.settledRef = none)
  localHash : ∀ hash, a.phase.localHash = some hash → HasHashed sha w events n i hash
  held : ∀ source purpose data, a.phase.held = some (source, purpose, data) → ∃ j < n,
    HasRead sha w events j i source.file data
  backingUp : ∀ source purpose, a.phase.backingUp = some (source, purpose) → ∃ c < n,
    (downloadsAt sha w events c).world.backup purpose.backupPath = none
  renamed : ∀ download source purpose, a.phase.renamed = some (download, source, purpose) →
    ∃ c j k data, MovesAside sha w events n c j k i a download source purpose data
  replacing : ∀ download prior, a.phase.replacing = some (download, prior) →
    ∃ source c j k l data, l < n ∧
      MovesAside sha w events l c j k i a download source (.replace prior) data ∧
      (downloadsAt sha w events l).world.backupOwnsFile prior.backupPath
        source.file = true
  missing : ∀ download, a.phase.missing = some download → download.admission.existing = none
  matched : ∀ hash, a.phase.matched = some hash → hash = a.attemptHash ∧
    HasHashed sha w events n i hash
  written : ∀ written, a.phase.written = some written →
    written ∈ (downloadsAt sha w events n).artifacts

variable {sha w events}

theorem downloadsAt_step (sha : List UInt8 → JsString) (w : DownloadWorld)
    (events : List DownloadEvent) (n : ℕ) :
    (events[n]? = none ∧ downloadsAt sha w events (n + 1) = downloadsAt sha w events n) ∨
      ∃ event, events[n]? = some event ∧
        Moves sha (downloadsAt sha w events n) (downloadsAt sha w events (n + 1)) event := by
  refine (stateAt_step (next sha) { world := w } events n).imp_right ?_
  rintro ⟨event, hev, heq⟩
  refine ⟨event, hev, ?_⟩
  change Moves sha (downloadsAt sha w events n) (stateAt _ _ events (n + 1)) event
  rw [heq]
  exact next_moves sha _ event

theorem known_done (n i : ℕ) (h : a.phase = .done) : DownloadKnown sha w events n i a := by
  refine ⟨?_, ?_, ?_, ?_, ?_, ?_, ?_, ?_, ?_, ?_⟩ <;> rw [h]
  · exact fun _ h => by cases h
  · exact fun _ h => by cases h
  · exact fun _ h => by cases h
  · exact fun _ _ _ h => by cases h
  · exact fun _ _ h => by cases h
  · exact fun _ _ _ h => by cases h
  · exact fun _ _ h => by cases h
  · exact fun _ h => by cases h
  · exact fun _ h => by cases h
  · exact fun _ h => by cases h

variable {source : UploadSource} {download : StagedDownload} {purpose : BackupPurpose}
  {data : List UInt8}

theorem backup_of_held (h : phase.held = some (source, .backup download purpose, data)) :
    phase.backingUp = some (source, purpose) ∧ phase.admission = some download.admission := by
  cases phase with
  | reading source' purpose' read =>
    cases read with
    | sampled bytes =>
      cases bytes with
      | none => cases h
      | some bytes =>
        cases h
        exact ⟨rfl, rfl⟩
    | hashing bytes =>
      cases h
      exact ⟨rfl, rfl⟩
    | _ => cases h
  | _ => cases h

variable {n c k : ℕ}

theorem MovesAside.later {n' : ℕ} (hn : n ≤ n')
    (h : MovesAside sha w events n c j k i a download source purpose data) :
    MovesAside sha w events n' c j k i a download source purpose data := by
  obtain ⟨hck, hjk, hkn⟩ := h.order
  exact ⟨⟨hck, hjk, by omega⟩, h.fresh, h.read, h.identity, h.mayMove, h.admission⟩

/-- Which files an attempt may move depends on its item only. -/
theorem MovesAside.enter (h : MovesAside sha w events n c j k i a download source purpose data)
    (phase : DownloadPhase) :
    MovesAside sha w events n c j k i { a with phase } download source purpose data := by
  refine ⟨h.order, h.fresh, h.read, h.identity, ?_, h.admission⟩
  rw [← h.mayMove]
  cases purpose <;> rfl

theorem DownloadKnown.later (h : DownloadKnown sha w events n i a)
    (hart : ∀ written ∈ (downloadsAt sha w events n).artifacts,
      written ∈ (downloadsAt sha w events (n + 1)).artifacts) :
    DownloadKnown sha w events (n + 1) i a := by
  have hhas : ∀ {hash}, HasHashed sha w events n i hash →
      HasHashed sha w events (n + 1) i hash := by
    rintro hash ⟨j, k, source, data, hjk, hk, hlo⟩
    exact ⟨j, k, source, data, hjk, by omega, hlo⟩
  refine ⟨h.data, ?_, fun hash hlo => hhas (h.localHash hash hlo), ?_, ?_, ?_, ?_,
    h.missing, ?_, ?_⟩
  · intro admission hadm
    obtain ⟨m, hm, hcap⟩ := h.admission admission hadm
    exact ⟨m, by omega, hcap⟩
  · intro source purpose data hh
    obtain ⟨j, hj, hr⟩ := h.held source purpose data hh
    exact ⟨j, by omega, hr⟩
  · intro source purpose hbac
    obtain ⟨c, hc, hvac⟩ := h.backingUp source purpose hbac
    exact ⟨c, by omega, hvac⟩
  · intro download source purpose hren
    obtain ⟨c, j, k, data, ha⟩ := h.renamed download source purpose hren
    exact ⟨c, j, k, data, ha.later (Nat.le_succ n)⟩
  · intro download prior hrep
    obtain ⟨source, c, j, k, l, data, hl, ha⟩ := h.replacing download prior hrep
    exact ⟨source, c, j, k, l, data, by omega, ha⟩
  · intro hash hma
    obtain ⟨hhash, hr⟩ := h.matched hash hma
    exact ⟨hhash, hhas hr⟩
  intro written hw
  exact hart written (h.written written hw)

theorem known_step (hev : events[n]? = some event)
    (hart : ∀ written ∈ (downloadsAt sha w events n).artifacts,
      written ∈ (downloadsAt sha w events (n + 1)).artifacts)
    (hk : ∀ a, (downloadsAt sha w events n).attempts[i]? = some a →
      DownloadKnown sha w events n i a)
    (hcame : Came sha (downloadsAt sha w events n) (downloadsAt sha w events (n + 1)) event i a') :
    DownloadKnown sha w events (n + 1) i a' := by
  obtain ⟨s₀, a, hfrom, ha', hg, hw⟩ := hcame
  have hold : DownloadKnown sha w events n i a := by
    rcases hfrom with ⟨ha, -⟩ | ⟨-, hd, -⟩
    · exact hk a ha
    · exact known_done n i hd
  have hlr : DownloadKnown sha w events (n + 1) i a := hold.later hart
  have hworld : s₀.world = (downloadsAt sha w events n).world := by
    rcases hfrom with ⟨-, rfl, -⟩ | ⟨hworld, -⟩
    · rfl
    · exact hworld
  have hsa : ∀ {held}, a.phase.held = some held → s₀ = downloadsAt sha w events n := by
    intro held hh
    rcases hfrom with ⟨-, hs, -⟩ | ⟨-, hd, -⟩
    · exact hs
    rw [hd] at hh
    cases hh
  have hadm : ∀ admission, a'.phase.admission = some admission → event.Admits i →
      a.phase.admission = some admission ∨ IsAdmission sha w events n i := by
    intro admission h hadmits
    rcases hfrom with ⟨-, -, hdr⟩ | ⟨-, -, hlen, result, rfl⟩
    · cases event with
      | drain result =>
        rw [hdr result rfl] at h
        exact .inl h
      | resume j result =>
        cases hadmits
        exact .inr (.inr ⟨result, hev⟩)
      | _ => cases hadmits
    · exact .inr (.inl ⟨⟨result, hev⟩, hlen⟩)
  rw [ha']
  generalize a'.phase = phase at hg hw hadm
  constructor
  · intro data h
    rcases hg.data data h with hb | hhash
    · exact hlr.data data hb
    · exact hhash
  · intro admission h
    rcases hg.admission admission h with hb | ⟨hcap, hset, hadmits⟩
    · exact hlr.admission admission hb
    rcases hadm admission h hadmits with hb | hadmitted
    · exact hlr.admission admission hb
    rw [hworld] at hcap
    exact ⟨n, by omega, hadmitted, hcap, hset⟩
  · intro hash h
    rcases hg.localHash hash h with hb | ⟨source, purpose, data, hh, -, hiden, hhash⟩
    · exact hlr.localHash hash hb
    obtain ⟨j, hj, hr⟩ := hold.held _ _ _ hh
    rw [hworld] at hiden
    exact ⟨j, n, source, data, hj, by omega, hr, hiden, hhash⟩
  · intro source purpose data h
    rcases hg.held _ h with hb | ⟨rfl, -, hby⟩
    · exact hlr.held _ _ _ hb
    rw [hworld] at hby
    exact ⟨n, by omega, hev, hby⟩
  · intro source purpose h
    rcases hg.backingUp _ _ h with hb | hvac
    · exact hlr.backingUp _ _ hb
    rw [hworld] at hvac
    exact ⟨n, by omega, hvac⟩
  · intro download source purpose h
    rcases hg.renamed _ _ _ h with hb | ⟨data, hh, hiden, hmay⟩
    · obtain ⟨c, j, k, data, has⟩ := hlr.renamed _ _ _ hb
      exact ⟨c, j, k, data, has.enter phase⟩
    obtain ⟨j, hj, hr⟩ := hold.held _ _ _ hh
    obtain ⟨hbac, hknows⟩ := backup_of_held hh
    obtain ⟨c, hc, hvac⟩ := hold.backingUp _ _ hbac
    obtain ⟨m, hm, hadmitted, hcap, -⟩ := hold.admission _ hknows
    rw [hsa hh] at hiden hmay
    exact ⟨c, j, n, data, ⟨hc, hj, by omega⟩, hvac, hr, hiden, hmay,
      m, hm, hadmitted, hcap⟩
  · intro download prior h
    rcases hg.replacing _ _ h with hb | ⟨source, hren, howns⟩
    · obtain ⟨source, c, j, k, l, data, hl, has, howns⟩ := hlr.replacing _ _ hb
      exact ⟨source, c, j, k, l, data, hl, has.enter phase, howns⟩
    obtain ⟨c, j, k, data, has⟩ := hold.renamed _ _ _ hren
    rw [hworld] at howns
    exact ⟨source, c, j, k, n, data, by omega, has.enter phase, howns⟩
  · intro download h
    rcases hg.missing _ h with hb | hmiss
    · exact hlr.missing _ hb
    · exact hmiss
  · intro hash h
    rcases hg.matched hash h with hb | ⟨hhash, hlo⟩
    · exact hlr.matched hash hb
    · exact ⟨hhash, hlr.localHash hash hlo⟩
  intro written h
  rcases hw written h with hb | hlog
  · exact hlr.written written hb
  · exact hlog

/-- What an attempt knows it knows of some moment of the run. -/
theorem known_at (n : ℕ) {a : DownloadAttempt}
    (ha : (downloadsAt sha w events n).attempts[i]? = some a) :
    DownloadKnown sha w events n i a := by
  induction n generalizing a with
  | zero => cases ha
  | succ n ih =>
    rcases downloadsAt_step sha w events n with ⟨-, hs⟩ | ⟨event, hev, hmoves⟩
    · rw [hs] at ha
      refine (ih ha).later ?_
      rw [hs]
      exact fun _ h => h
    · exact known_step hev (fun _ => hmoves.artifacts) (fun _ => ih) (hmoves.came ha)

end History

section Files

/-- Only a call of the vault changes the path's files, or what happens around the manager. -/
theorem Moves.files (h : Moves sha s s' event) (hev : ∀ w, event ≠ .world w) :
    SameFiles s.world s'.world ∧ s'.installed = s.installed ∨
      ∃ i a file stat, event = .call i file stat ∧ s.attempts[i]? = some a ∧
        CallEffect s i a file s' := by
  cases h with
  | quiet h => exact .inl ⟨h.files hev, h.installed⟩
  | starts h heff =>
    rw [← h.world, ← h.installed]
    exact .inl ⟨heff.files, heff.installed⟩
  | goes _ _ heff => exact .inl ⟨heff.files, heff.installed⟩
  | calls ha hef => exact .inr ⟨_, _, _, _, rfl, ha, hef⟩

/-- Only an attempt records a conflict. -/
theorem Moves.conflicts (h : Moves sha s s' event) (hne : s'.conflicts ≠ s.conflicts) :
    ∃ i a localHash left entry, s.attempts[i]? = some a ∧
      RecordsConflict sha s s' i a localHash left entry := by
  cases h with
  | quiet h => exact absurd h.conflicts hne
  | starts h heff =>
    rcases heff.conflicts with hs | ⟨localHash, left, entry, hrec⟩
    · exact absurd (hs.trans h.conflicts) hne
    have hk := hrec.known
    rw [h.done] at hk
    cases hk
  | calls _ hef => exact absurd hef.keeps.2.1 hne
  | goes _ ha heff =>
    obtain ⟨localHash, left, entry, hrec⟩ := heff.conflicts.resolve_left hne
    exact ⟨_, _, localHash, left, entry, ha, hrec⟩

end Files

/-- An attempt comes to its end by a step of its own. -/
theorem Moves.over (h : Moves sha s s' event) (ha : s.attempts[i]? = some a)
    (ho : a.phase.isOver = false) (ha' : s'.attempts[i]? = some a')
    (ho' : a'.phase.isOver = true) : GivesUp s s' a := by
  have hs : s.attempts[i]? ≠ some a' := by
    intro ha'
    cases ha.symm.trans ha'
    cases ho.symm.trans ho'
  cases h with
  | quiet h =>
    rw [h.attempts] at ha'
    exact absurd ha' hs
  | starts h heff =>
    obtain ⟨phase, hset, -⟩ := heff.attempts
    have hi := (List.getElem?_eq_some_iff.mp ha).1
    rw [hset, h.attempts, getElem?_set_ne (by omega), getElem?_append_left hi] at ha'
    exact absurd ha' hs
  | calls hb hef =>
    obtain ⟨phase, hset, -, hsam, -⟩ := @CallEffect.attempts sha _ _ _ _ _ (0, 0) hef hb
    rw [hset] at ha'
    rcases getElem?_set_cases ha' with ⟨-, hold⟩ | ⟨rfl, rfl⟩
    · exact absurd hold hs
    cases hb.symm.trans ha
    cases (hsam.trans ho).symm.trans ho'
  | goes _ hb heff =>
    obtain ⟨phase, hset, -, hgives⟩ := heff.attempts
    rw [hset] at ha'
    rcases getElem?_set_cases ha' with ⟨-, hold⟩ | ⟨rfl, rfl⟩
    · exact absurd hold hs
    cases hb.symm.trans ha
    exact (hgives ho').resolve_left (by rw [ho]; exact Bool.noConfusion)

end Kaos.Sync
