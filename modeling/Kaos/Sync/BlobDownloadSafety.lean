import Kaos.Sync.BlobDownloadAttempt
import Kaos.Sync.BlobUploadSafety

/-! A download writes to a vacant path only, and it moves a local file away only if the file is a
clean predecessor or a replica of its own. -/
namespace Kaos.Sync

open Kaos.Lib BlobDownloads DownloadPhase List Option

namespace DownloadPhase

def download : DownloadPhase → Option StagedDownload
  | .aborting (.conflict download _) _ => some download
  | .reading _ (.backup download _) _ => some download
  | .reading _ (.created download _) _ => some download
  | .reading _ (.race download) _ => some download
  | .reading _ (.artifact download _ _) _ => some download
  | .creatingFolder download => some download
  | .creating download _ _ => some download
  | .moving download _ _ => some download
  | .restoreReading download _ _ _ => some download
  | .restoreCreating download _ _ _ => some download
  | .creatingArtifact download _ _ _ => some download
  | .cachingArtifact download _ _ => some download
  | _ => none

/-- The remote bytes, once they are verified. -/
def data : DownloadPhase → Option (List UInt8)
  | .stagingDownload _ _ data _ => some data
  | phase => phase.download.map StagedDownload.data

def admission : DownloadPhase → Option DownloadAdmission
  | .reading _ (.initial admission) _ => some admission
  | .downloading admission _ => some admission
  | .hashing admission _ _ => some admission
  | .stagingDownload admission _ _ _ => some admission
  | phase => phase.download.map StagedDownload.admission

/-- The hash of the local file as it was read. -/
def localHash : DownloadPhase → Option JsString
  | .reading _ (.initial _) (.returned snapshot) => some snapshot.hash
  | .reading _ (.race _) (.returned snapshot) => some snapshot.hash
  | .reading _ (.artifact _ localHash _) _ => some localHash
  | .downloading _ before => before
  | .hashing _ before _ => before
  | .stagingDownload _ before _ _ => before
  | .aborting (.conflict _ localHash) _ => some localHash
  | .creatingArtifact _ localHash _ _ => some localHash
  | .cachingArtifact _ localHash _ => some localHash
  | _ => none

/-- The bytes that a read has given, until they are hashed. -/
def held : DownloadPhase → Option (UploadSource × DownloadRead × List UInt8)
  | .reading source purpose (.sampled (some data)) => some (source, purpose, data)
  | .reading source purpose (.hashing data) => some (source, purpose, data)
  | _ => none

/-- A file that is to go to a backup path. -/
def backingUp : DownloadPhase → Option (UploadSource × BackupPurpose)
  | .reading source (.backup _ purpose) _ => some (source, purpose)
  | .moving _ source purpose => some (source, purpose)
  | _ => none

/-- A rename that is under way. -/
def renamed : DownloadPhase → Option (StagedDownload × UploadSource × BackupPurpose)
  | .moving download source purpose => some (download, source, purpose)
  | _ => none

/-- The creation of a replacement. -/
def replacing : DownloadPhase → Option (StagedDownload × CleanPrior)
  | .creating download (some prior) _ => some (download, prior)
  | _ => none

/-- The creation of a file that is missing. -/
def missing : DownloadPhase → Option StagedDownload
  | .creatingFolder download => some download
  | .creating download none _ => some download
  | _ => none

/-- The hash of the local bytes, if they are about to be settled as the remote ones. -/
def matched : DownloadPhase → Option JsString
  | .finalizing .race hash .. => some hash
  | _ => none

/-- The attempt has nothing more to do. -/
def isOver : DownloadPhase → Bool
  | .aborting .ended _ => true
  | .done => true
  | _ => false

/-- The attempt knows nothing yet, or it needs nothing of it any more. -/
def isBare : DownloadPhase → Bool
  | .aborting (.conflict ..) _ => false
  | .aborting .. => true
  | .reading _ (.staged _) .pending => true
  | .reading _ (.staged _) .stale => true
  | .reading _ (.equality ..) .pending => true
  | .reading _ (.equality ..) .stale => true
  | .stagingUnversioned _ => true
  | .stagingEquality .. => true
  | .done => true
  | _ => false

/-- The artifact that has been written. -/
def written : DownloadPhase → Option (ℕ × List UInt8)
  | .creatingArtifact download _ left true => some (left, download.data)
  | .cachingArtifact download _ left => some (left, download.data)
  | _ => none

end DownloadPhase

/-- A read of the path's own file. -/
def DownloadRead.IsLocal : DownloadRead → Prop
  | .initial _ => True
  | .race _ => True
  | _ => False

variable {sha : List UInt8 → JsString} {s s' s'' : BlobDownloads} {i : ℕ}
  {a : DownloadAttempt} {result : DownloadResult} {event : DownloadEvent} {phase : DownloadPhase}

/-- The attempt may be admitted. -/
def DownloadEvent.Admits (i : ℕ) : DownloadEvent → Prop
  | .drain _ => True
  | .resume j _ => j = i
  | _ => False

/-- How an attempt goes on, and where what it knows comes from. -/
structure Goes (sha : List UInt8 → JsString) (s : BlobDownloads)
    (event : DownloadEvent) (i : ℕ) (a : DownloadAttempt) (phase : DownloadPhase) : Prop where
  data : ∀ data, phase.data = some data → a.phase.data = some data ∨ sha data = a.attemptHash
  admission : ∀ admission, phase.admission = some admission →
    a.phase.admission = some admission ∨ admission = s.world.captureAdmission ∧
      (admission.existing = none → admission.settledRef = none) ∧ event.Admits i
  localHash : ∀ hash, phase.localHash = some hash → a.phase.localHash = some hash ∨
    ∃ source purpose data, a.phase.held = some (source, purpose, data) ∧ purpose.IsLocal ∧
      s.world.isIdentityCurrent source = true ∧ hash = sha data
  held : ∀ held, phase.held = some held → a.phase.held = some held ∨
    event = .read i ∧ a.phase = .reading held.1 held.2.1 .pending ∧
      s.world.disk held.1.file = some held.2.2
  backingUp : ∀ source purpose, phase.backingUp = some (source, purpose) →
    a.phase.backingUp = some (source, purpose) ∨ s.world.backup purpose.backupPath = none
  renamed : ∀ download source purpose, phase.renamed = some (download, source, purpose) →
    a.phase.renamed = some (download, source, purpose) ∨
    ∃ data, a.phase.held = some (source, .backup download purpose, data) ∧
      s.world.isIdentityCurrent source = true ∧
      s.canBackup a download (sha data) purpose = true
  replacing : ∀ download prior, phase.replacing = some (download, prior) →
    a.phase.replacing = some (download, prior) ∨
    ∃ source, a.phase.renamed = some (download, source, .replace prior) ∧
      s.world.backupOwnsFile prior.backupPath source.file = true
  missing : ∀ download, phase.missing = some download → a.phase.missing = some download ∨
    download.admission.existing = none
  matched : ∀ hash, phase.matched = some hash → a.phase.matched = some hash ∨
    hash = a.attemptHash ∧ a.phase.localHash = some hash
  written : ∀ written, phase.written = some written → a.phase.written = some written ∨
    ∃ file stat, event = .call i file stat

/-- No file of the path changes. -/
structure SameFiles (w w' : DownloadWorld) : Prop where
  file : w'.file = w.file
  isAtPath : w'.isAtPath = w.isAtPath
  stat : w'.stat = w.stat
  disk : w'.disk = w.disk
  backup : w'.backup = w.backup

/-- Nothing is settled either. -/
structure SamePath (w w' : DownloadWorld) : Prop extends SameFiles w w' where
  settledRef : w'.settledRef = w.settledRef
  settledSourceVersion : w'.settledSourceVersion = w.settledSourceVersion

/-- The Attention entry is the same, too. -/
structure SameRecords (w w' : DownloadWorld) : Prop extends SamePath w w' where
  attention : w'.attention = w.attention

/-- Items keep the generation they were queued under, and the queue at most loses its item. -/
structure KeepsQueue (s s' : BlobDownloads) : Prop where
  length : s'.items.length = s.items.length
  stamps : ∀ (id : ℕ) (item' : DownloadItem), s'.items[id]? = some item' →
    ∃ item, s.items[id]? = some item ∧ item'.generation = item.generation
  generation : s.generation ≤ s'.generation
  queued : s'.queued = s.queued ∨ s'.queued = none

/-- Items and the queue may change, and nothing else. -/
structure Stays (s s' : BlobDownloads) : Prop where
  world : s'.world = s.world
  attempts : s'.attempts = s.attempts
  installed : s'.installed = s.installed
  artifacts : s'.artifacts = s.artifacts
  conflicts : s'.conflicts = s.conflicts
  failures : s.permanentFailures ≤ s'.permanentFailures

structure Keeps (s s' : BlobDownloads) : Prop extends Stays s s', KeepsQueue s s'

section Keeps

variable (w : DownloadWorld)

theorem SameFiles.refl : SameFiles w w := ⟨rfl, rfl, rfl, rfl, rfl⟩

theorem SamePath.refl : SamePath w w := ⟨.refl w, rfl, rfl⟩

theorem SameRecords.refl : SameRecords w w := ⟨.refl w, rfl⟩

theorem KeepsQueue.refl (s : BlobDownloads) : KeepsQueue s s :=
  ⟨rfl, fun _ item h => ⟨item, h, rfl⟩, Nat.le_refl _, .inl rfl⟩

theorem KeepsQueue.trans (h : KeepsQueue s s') (h' : KeepsQueue s' s'') : KeepsQueue s s'' := by
  refine ⟨h'.length.trans h.length, ?_, h.generation.trans h'.generation, ?_⟩
  · intro id item'' hi''
    obtain ⟨item', hi', hstamp'⟩ := h'.stamps id item'' hi''
    obtain ⟨item, hi, hstamp⟩ := h.stamps id item' hi'
    exact ⟨item, hi, hstamp'.trans hstamp⟩
  rcases h'.queued with hq' | hq'
  · rw [hq']
    exact h.queued
  · exact .inr hq'

theorem keepsQueue_of_items (hitems : s'.items = s.items)
    (hgen : s.generation ≤ s'.generation)
    (hq : s'.queued = s.queued ∨ s'.queued = none) : KeepsQueue s s' := by
  refine ⟨by rw [hitems], ?_, hgen, hq⟩
  intro id item h
  rw [hitems] at h
  exact ⟨item, h, rfl⟩

theorem Stays.refl (s : BlobDownloads) : Stays s s := ⟨rfl, rfl, rfl, rfl, rfl, Nat.le_refl _⟩

theorem Keeps.refl (s : BlobDownloads) : Keeps s s := ⟨.refl s, .refl s⟩

theorem Keeps.trans (h : Keeps s s') (h' : Keeps s' s'') : Keeps s s'' :=
  ⟨⟨h'.world.trans h.world, h'.attempts.trans h.attempts, h'.installed.trans h.installed,
    h'.artifacts.trans h.artifacts, h'.conflicts.trans h.conflicts,
    h.failures.trans h'.failures⟩, h.toKeepsQueue.trans h'.toKeepsQueue⟩

theorem keeps_modifyItem (s : BlobDownloads) (id : ℕ) (f : DownloadItem → DownloadItem)
    (hf : ∀ item, (f item).generation = item.generation) : Keeps s (s.modifyItem id f) := by
  refine ⟨⟨rfl, rfl, rfl, rfl, rfl, Nat.le_refl _⟩, length_modify .., ?_, Nat.le_refl _, .inl rfl⟩
  intro other item' h
  obtain ⟨item, hi, heq⟩ := map_eq_some_iff.mp ((getElem?_modify ..).symm.trans h)
  refine ⟨item, hi, ?_⟩
  rw [← heq]
  split
  · exact hf item
  · rfl

theorem keeps_dropQueued (s : BlobDownloads) : Keeps s s.dropQueued :=
  ⟨⟨rfl, rfl, rfl, rfl, rfl, Nat.le_refl _⟩, keepsQueue_of_items rfl (Nat.le_refl _) (.inr rfl)⟩

theorem keeps_discard (s : BlobDownloads) (id : ℕ) : Keeps s (s.discardDownloadItem id) := by
  unfold discardDownloadItem
  split
  · exact keeps_dropQueued s
  · exact .refl s

theorem rerun_generation (item : DownloadItem) :
    item.prepareDownloadRerun.generation = item.generation := rfl

theorem keeps_defer (h : s.deferSupersededDownload a = some s') : Keeps s s' := by
  unfold deferSupersededDownload at h
  split at h
  · cases h
  have htgt : Keeps s (s.retarget a) := by
    unfold retarget
    split
    · split
      · exact keeps_modifyItem s _ _ (fun _ => rfl)
      · exact .refl s
    · exact .refl s
  rw [← some.inj h]
  split
  · exact htgt.trans (keeps_modifyItem _ _ _ rerun_generation)
  · exact htgt.trans (keeps_discard _ _)

theorem samePath_abort (stage : BlobSettlementStage) :
    SameRecords w (w.withPath (w.abortSettlementStage stage)) := by
  unfold BlobPathWorld.abortSettlementStage
  split <;> exact ⟨⟨⟨rfl, rfl, rfl, rfl, rfl⟩, rfl, rfl⟩, rfl⟩

theorem samePath_prepare (kind : BlobSettlementStageKind) (ref : BlobRef)
    (sourceVersion : Option JsString) (stageId : JsString) :
    SameRecords w (w.withPath (w.prepareSettlementStage kind ref sourceVersion stageId).2) := by
  unfold BlobPathWorld.prepareSettlementStage
  split
  · split <;> exact ⟨⟨⟨rfl, rfl, rfl, rfl, rfl⟩, rfl, rfl⟩, rfl⟩
  dsimp only
  split <;> exact ⟨⟨⟨rfl, rfl, rfl, rfl, rfl⟩, rfl, rfl⟩, rfl⟩

theorem sameFiles_finalize (stage : BlobSettlementStage) (ref : BlobRef)
    (sourceVersion : JsString) :
    SameFiles w (w.withPath (w.finalizeSettlementStage stage ref sourceVersion).2) := by
  unfold BlobPathWorld.finalizeSettlementStage
  split
  · exact ⟨rfl, rfl, rfl, rfl, rfl⟩
  · split <;> exact ⟨rfl, rfl, rfl, rfl, rfl⟩

theorem attention_finalize (stage : BlobSettlementStage) (ref : BlobRef)
    (sourceVersion : JsString) :
    (w.withPath (w.finalizeSettlementStage stage ref sourceVersion).2).attention = w.attention := by
  unfold BlobPathWorld.finalizeSettlementStage
  split
  · rfl
  · split <;> rfl

end Keeps

/-- A conflict is recorded with the hash of the local file, that of the remote bytes, and the
artifact that holds these. -/
structure RecordsConflict (sha : List UInt8 → JsString) (s s' : BlobDownloads) (i : ℕ)
    (a : DownloadAttempt) (localHash : JsString) (left : ℕ) (entry : DownloadConflictEntry) :
    Prop where
  conflicts : s'.conflicts = s.conflicts ++ [(i, entry)]
  attention : s'.world.attention = some entry.toBlobAttentionEntry
  reason : entry.reason = .remoteDownloadLocalConflict
  hashes : entry.localHash = some localHash ∧ entry.knownRemoteHash = some a.attemptHash
  known : a.phase.localHash = some localHash
  artifact : entry.artifactPath = some (s.world.artifactPath left) ∧
    (∃ data, a.phase.written = some (left, data) ∧ a.phase.data = some data) ∨
    entry.artifactPath = some (s.world.artifactPath left) ∧
      ∃ source download snapshot, a.phase = .reading source (.artifact download localHash left)
        (.returned snapshot) ∧ snapshot.hash = a.attemptHash

/-- How an attempt comes to have nothing more to do. -/
inductive GivesUp (s s' : BlobDownloads) (a : DownloadAttempt) : Prop
  /-- The item is tried again. -/
  | pending (h : (s'.items[a.item]?.all (!·.isProcessing)) = true)
  | dequeued (h : s'.queued ≠ some a.item)
  | recorded (h : s'.conflicts ≠ s.conflicts)
  /-- The local bytes are the remote ones. -/
  | matched (hash : JsString) (h : a.phase.matched = some hash ∨
      hash = a.attemptHash ∧ a.phase.localHash = some hash)
  | vacated (h : s.world.file = none)
  /-- The attempt has given up its stage without authority, and has its authority again. -/
  | regained (stage : Option BlobSettlementStage) (h : a.phase = .aborting .defer stage)
    (authority : s.isDownloadAttemptAuthoritative a = true)

/-- The item of the attempt may still be transferred. -/
def HasCurrentItem (s : BlobDownloads) (a : DownloadAttempt) : Prop :=
  ∃ item, s.items[a.item]? = some item ∧ s.isTransferCurrent item.generation = true

/-- What a step of an attempt does. -/
structure Effects (sha : List UInt8 → JsString) (s s' : BlobDownloads)
    (event : DownloadEvent) (i : ℕ) (a : DownloadAttempt) : Prop where
  files : SameFiles s.world s'.world
  settled : SamePath s.world s'.world ∨ HasCurrentItem s a
  queue : KeepsQueue s s'
  installed : s'.installed = s.installed
  artifacts : s'.artifacts = s.artifacts
  conflicts : s'.conflicts = s.conflicts ∨
    ∃ localHash left entry, RecordsConflict sha s s' i a localHash left entry
  attempts : ∃ phase, s'.attempts = s.attempts.set i { a with phase } ∧
    Goes sha s event i a phase ∧
    (phase.isOver = true → a.phase.isOver = true ∨ GivesUp s s' a)
  attention : s'.world.attention = s.world.attention ∨
    ∃ entry, s'.world.attention = some entry ∧ entry.reason = .remoteDownloadLocalConflict
  failures : s.permanentFailures ≤ s'.permanentFailures

section Effects

/-- A phase that says nothing new. -/
theorem Goes.of (hdata : ∀ data, phase.data = some data → a.phase.data = some data)
    (hadm : ∀ admission, phase.admission = some admission → a.phase.admission = some admission)
    (hl : ∀ hash, phase.localHash = some hash → a.phase.localHash = some hash)
    (hh : phase.held = none)
    (hbac : ∀ source purpose, phase.backingUp = some (source, purpose) →
      s.world.backup purpose.backupPath = none)
    (hren : phase.renamed = none) (hrep : phase.replacing = none)
    (hmissing : phase.missing = none) (hm : phase.matched = none)
    (hw : ∀ written, phase.written = some written → a.phase.written = some written) :
    Goes sha s event i a phase := by
  refine ⟨fun d h => .inl (hdata d h), fun d h => .inl (hadm d h),
    fun d h => .inl (hl d h), ?_, fun d d' h => .inr (hbac d d' h), ?_, ?_, ?_, ?_,
    fun d h => .inl (hw d h)⟩
  · intro held h
    rw [hh] at h
    cases h
  · intro download source purpose h
    rw [hren] at h
    cases h
  · intro download prior h
    rw [hrep] at h
    cases h
  · intro download h
    rw [hmissing] at h
    cases h
  intro hash h
  rw [hm] at h
  cases h

/-- A phase that knows nothing. -/
theorem Goes.plain (hdata : phase.data = none) (hadm : phase.admission = none)
    (hl : phase.localHash = none) (hh : phase.held = none)
    (hbac : phase.backingUp = none) (hren : phase.renamed = none)
    (hrep : phase.replacing = none) (hmissing : phase.missing = none)
    (hm : phase.matched = none) (hw : phase.written = none) :
    Goes sha s event i a phase := by
  refine .of ?_ ?_ ?_ hh ?_ hren hrep hmissing hm ?_
  · intro _ h
    rw [hdata] at h
    cases h
  · intro _ h
    rw [hadm] at h
    cases h
  · intro _ h
    rw [hl] at h
    cases h
  · intro _ _ h
    rw [hbac] at h
    cases h
  intro _ h
  rw [hw] at h
  cases h

theorem Goes.bare (h : phase.isBare = true) : Goes sha s event i a phase := by
  have hplain : phase.data = none ∧ phase.admission = none ∧ phase.localHash = none ∧
      phase.held = none ∧ phase.backingUp = none ∧ phase.renamed = none ∧
      phase.replacing = none ∧ phase.missing = none ∧ phase.matched = none ∧
      phase.written = none := by
    cases phase with
    | aborting after stage =>
      cases after with
      | conflict => cases h
      | _ => exact ⟨rfl, rfl, rfl, rfl, rfl, rfl, rfl, rfl, rfl, rfl⟩
    | reading source purpose read =>
      cases purpose with
      | staged | equality =>
        cases read with
        | pending | stale => exact ⟨rfl, rfl, rfl, rfl, rfl, rfl, rfl, rfl, rfl, rfl⟩
        | _ => cases h
      | _ => cases h
    | stagingUnversioned | stagingEquality | done =>
      exact ⟨rfl, rfl, rfl, rfl, rfl, rfl, rfl, rfl, rfl, rfl⟩
    | _ => cases h
  obtain ⟨hdata, hadm, hl, hh, hbac, hren, hrep, hmissing, hm, hw⟩ := hplain
  exact .plain hdata hadm hl hh hbac hren hrep hmissing hm hw

theorem Goes.done : Goes sha s event i a .done := .bare rfl

/-- The phase is one of the download, or it leads to it. -/
def DownloadPhase.Has (phase : DownloadPhase) (download : StagedDownload) : Prop :=
  phase.data = some download.data ∧ phase.admission = some download.admission

theorem has_of_download {download : StagedDownload} (h : phase.download = some download) :
    phase.Has download := by
  cases phase with
  | reading source purpose read =>
    cases purpose with
    | backup | created | race | artifact =>
      cases h
      exact ⟨rfl, rfl⟩
    | _ => cases h
  | aborting after stage =>
    cases after with
    | conflict =>
      cases h
      exact ⟨rfl, rfl⟩
    | _ => cases h
  | creatingFolder | creating | moving | restoreReading | restoreCreating | creatingArtifact
  | cachingArtifact =>
    cases h
    exact ⟨rfl, rfl⟩
  | _ => cases h

/-- A phase of the same download that says nothing else. -/
theorem Goes.download {download : StagedDownload} (ha : a.phase.Has download)
    (hph : phase.download = some download)
    (hl : ∀ hash, phase.localHash = some hash → a.phase.localHash = some hash)
    (hh : phase.held = none) (hbac : phase.backingUp = none)
    (hren : phase.renamed = none) (hrep : phase.replacing = none)
    (hmissing : phase.missing = none) (hm : phase.matched = none)
    (hw : ∀ written, phase.written = some written → a.phase.written = some written) :
    Goes sha s event i a phase := by
  obtain ⟨hdata, hadm⟩ := has_of_download hph
  obtain ⟨hadata, haad⟩ := ha
  refine .of ?_ ?_ hl hh ?_ hren hrep hmissing hm hw
  · intro _ h
    rw [hdata] at h
    rw [hadata, h]
  · intro _ h
    rw [hadm] at h
    rw [haad, h]
  intro _ _ h
  rw [hbac] at h
  cases h

variable {w : DownloadWorld}

theorem Effects.step (hk : Keeps s s') (hf : SameFiles s.world w)
    (hset : SamePath s.world w ∨ HasCurrentItem s a)
    (hatt : w.attention = s.world.attention) (hg : Goes sha s event i a phase)
    (ho : phase.isOver = true → a.phase.isOver = true ∨
      GivesUp s ((s'.withWorld w).enter i a phase) a) :
    Effects sha s ((s'.withWorld w).enter i a phase) event i a := by
  obtain ⟨hlen, hstamps, hgen, hq⟩ := hk.toKeepsQueue
  refine ⟨hf, hset, ⟨hlen, hstamps, hgen, hq⟩, hk.installed,
    hk.artifacts, .inl hk.conflicts, ⟨phase, ?_, hg, ho⟩, .inl hatt,
    hk.failures⟩
  exact congrArg (List.set · i _) hk.attempts

theorem Effects.enter (ho : phase.isOver = false) (hk : Keeps s s')
    (hp : SameRecords s.world w) (hg : Goes sha s event i a phase) :
    Effects sha s ((s'.withWorld w).enter i a phase) event i a := by
  refine .step hk hp.toSameFiles (.inl hp.toSamePath) hp.attention hg ?_
  intro h
  rw [ho] at h
  cases h

theorem Effects.goes (ho : phase.isOver = false) (hg : Goes sha s event i a phase) :
    Effects sha s (s.enter i a phase) event i a :=
  .enter ho (.refl s) (.refl s.world) hg

theorem Effects.end (hk : Keeps s s')
    (hgives : a.phase.isOver = true ∨ GivesUp s (s'.endAttempt i a) a) :
    Effects sha s (s'.endAttempt i a) event i a := by
  have hp : SameRecords s.world s'.world := by
    rw [hk.world]
    exact .refl s.world
  exact .step hk hp.toSameFiles (.inl hp.toSamePath) hp.attention .done
    (fun _ => hgives)

variable {f : DownloadItem → DownloadItem}

/-- An item that is not processed any more is tried again. -/
theorem modify_pending {items : List DownloadItem} (id : ℕ)
    (hf : ∀ item, (f item).isProcessing = false) :
    ((items.modify id f)[id]?.all (!·.isProcessing)) = true := by
  rw [getElem?_modify_eq]
  cases items[id]? with
  | none => rfl
  | some item =>
    change (!(f item).isProcessing) = true
    rw [hf]
    rfl

theorem GivesUp.modify (hf : ∀ item, (f item).isProcessing = false) :
    GivesUp s ((s'.modifyItem a.item f).endAttempt i a) a :=
  .pending (modify_pending a.item hf)

theorem discard_queued (s : BlobDownloads) (id : ℕ) :
    (s.discardDownloadItem id).queued ≠ some id := by
  unfold discardDownloadItem
  split
  · exact nofun
  · next h => exact h

theorem GivesUp.drop : GivesUp s (s'.dropQueued.endAttempt i a) a :=
  .dequeued nofun

theorem GivesUp.discard : GivesUp s ((s'.discardDownloadItem a.item).endAttempt i a) a :=
  .dequeued (discard_queued s' a.item)

theorem Effects.discard : Effects sha s ((s.discardDownloadItem a.item).endAttempt i a) event i a :=
  .end (keeps_discard s a.item) (.inr .discard)

variable {stage : BlobSettlementStage} {after : AfterStage}

theorem Effects.abortAfter (hk : Keeps s s')
    (hg : Goes sha s event i a (.aborting after (some stage)))
    (ho : (aborting after (some stage)).isOver = true →
      a.phase.isOver = true ∨ GivesUp s (s'.abort i a stage after) a) :
    Effects sha s (s'.abort i a stage after) event i a := by
  have hp : SameRecords s.world (s'.world.withPath (s'.world.abortSettlementStage stage)) := by
    rw [hk.world]
    exact samePath_abort s.world stage
  exact .step hk hp.toSameFiles (.inl hp.toSamePath) hp.attention hg ho

theorem Effects.abort (ho : (aborting after (some stage)).isOver = false)
    (hg : Goes sha s event i a (.aborting after (some stage))) :
    Effects sha s (s.abort i a stage after) event i a := by
  refine .abortAfter (.refl s) hg ?_
  intro h
  rw [ho] at h
  cases h

/-- The stage is given up, and that is all. -/
theorem Effects.abortEnded (hk : Keeps s s')
    (hgives : GivesUp s (s'.abort i a stage .ended) a) :
    Effects sha s (s'.abort i a stage .ended) event i a :=
  .abortAfter hk (.bare rfl) (fun _ => .inr hgives)

/-- An attempt that has been superseded leaves its item to be tried again, or off the queue. -/
theorem gives_defer (h : s.deferSupersededDownload a = some s') :
    (s'.items[a.item]?.all (!·.isProcessing)) = true ∨ s'.queued ≠ some a.item := by
  unfold deferSupersededDownload at h
  split at h
  · cases h
  rw [← some.inj h]
  split
  · exact .inl (modify_pending a.item (fun _ => rfl))
  · exact .inr (discard_queued _ _)

theorem Effects.abortDeferred (h : s.deferSupersededDownload a = some s') :
    Effects sha s (s'.abort i a stage .ended) event i a := by
  refine .abortEnded (keeps_defer h) ?_
  rcases gives_defer h with hp | hdeq
  · exact .pending hp
  · exact .dequeued hdeq

theorem Effects.deferred (h : s.deferSupersededDownload a = some s') :
    Effects sha s (s'.endAttempt i a) event i a := by
  refine .end (keeps_defer h) (.inr ?_)
  rcases gives_defer h with hp | hdeq
  · exact .pending hp
  · exact .dequeued hdeq

theorem Effects.fail : Effects sha s (s.fail i a result) event i a := by
  have hmod : ∀ {f : DownloadItem → DownloadItem}, (∀ item, (f item).isProcessing = false) →
      (∀ item, (f item).generation = item.generation) →
      Effects sha s ((s.modifyItem a.item f).endAttempt i a) event i a :=
    fun hf hstamp => .end (keeps_modifyItem s a.item _ hstamp) (.inr (.modify hf))
  unfold BlobDownloads.fail
  split
  · exact .discard
  split
  · next hn =>
    refine .end (.refl s) (.inr (.pending ?_))
    change (s.items[a.item]?.all _) = true
    rw [hn]
    rfl
  split
  · exact hmod (fun _ => rfl) (fun _ => rfl)
  split
  · exact hmod (fun _ => rfl) (fun _ => rfl)
  split
  · exact hmod (fun _ => rfl) (fun _ => rfl)
  split
  · exact hmod (fun _ => rfl) (fun _ => rfl)
  have hk : Keeps s
      { s.dropQueued with permanentFailures := s.permanentFailures + 1 } :=
    ⟨⟨rfl, rfl, rfl, rfl, rfl, Nat.le_succ _⟩, keepsQueue_of_items rfl (Nat.le_refl _) (.inr rfl)⟩
  exact .end hk (.inr (.dequeued nofun))

/-- What follows a stage that is given up, unless there is a conflict. -/
theorem goes_aborting {stage : Option BlobSettlementStage}
    (haf : (aborting after stage).download = none) :
    Goes sha s event i a (.aborting after stage) := by
  cases after with
  | conflict download localHash => cases haf
  | _ => exact .bare rfl

theorem Effects.startAdmission (hadm : event.Admits i) :
    Effects sha s (s.startAdmission i a) event i a := by
  unfold BlobDownloads.startAdmission
  dsimp only
  split
  · exact .end (keeps_dropQueued s) (.inr .drop)
  split
  · next he =>
    split
    · exact .discard
    · next hset =>
      rw [Bool.not_eq_true, isSome_eq_false_iff, isNone_iff_eq_none] at hset
      refine .goes rfl ⟨(absent rfl), ?_, (absent rfl),
        (absent rfl), (absent₂ rfl), (absent₃ rfl), (absent₂ rfl), (absent rfl), (absent rfl),
        (absent rfl)⟩
      intro admission h
      cases h
      exact .inr ⟨rfl, fun _ => hset, hadm⟩
  · next source he =>
    refine .goes rfl ⟨(absent rfl), ?_, ?_, ?_, (absent₂ rfl), (absent₃ rfl),
      (absent₂ rfl), (absent rfl), (absent rfl), (absent rfl)⟩
    · intro admission h
      cases h
      refine .inr ⟨rfl, fun hn => ?_, hadm⟩
      rw [he] at hn
      cases hn
    · intro hash h
      split at h <;> cases h
    intro held h
    split at h <;> cases h

variable {source : UploadSource} {purpose : DownloadRead}

variable {download : StagedDownload} {localHash : JsString}

/-- A read that begins of the same download. -/
theorem Effects.startRead (ha : a.phase.Has download)
    (hpurpose : ∀ read, (reading source purpose read).download = some download)
    (hlocal : ∀ hash, (reading source purpose .pending).localHash = some hash →
      a.phase.localHash = some hash) (hbacking : ∀ backup, purpose = .backup download backup →
      s.world.backup backup.backupPath = none) :
    Effects sha s (s.startRead i a source purpose) event i a := by
  obtain ⟨hdata, hadm⟩ := has_of_download (hpurpose
    (if s.world.isReadCurrent source purpose then .pending else .stale))
  refine .goes rfl (.of ?_ ?_ ?_ ?_ ?_ rfl rfl rfl rfl (absent rfl))
  · intro _ h
    rw [hdata] at h
    rw [ha.1, h]
  · intro _ h
    rw [hadm] at h
    rw [ha.2, h]
  · intro hash h
    refine hlocal hash ?_
    split at h
    · exact h
    · cases purpose <;> exact h
  · split <;> rfl
  intro source' backup h
  cases purpose with
  | backup download' purpose =>
    cases hpurpose .pending
    cases h
    exact hbacking _ rfl
  | _ => cases h

theorem Effects.startArtifact (ha : a.phase.Has download)
    (hlocal : a.phase.localHash = some localHash) (left : ℕ) :
    Effects sha s (s.startArtifact i a result download localHash left) event i a := by
  have hh : ∀ hash, some localHash = some hash → a.phase.localHash = some hash := by
    intro hash h
    rw [hlocal, h]
  induction left with
  | zero => exact .fail
  | succ left ih =>
    simp only [BlobDownloads.startArtifact]
    split
    · exact .startRead ha (fun _ => rfl) hh nofun
    · exact ih
    split
    · exact .goes rfl (.download ha rfl hh rfl rfl rfl rfl rfl rfl (absent rfl))
    · exact .fail

theorem Effects.finishArtifact {left : ℕ} (hlocal : a.phase.localHash = some localHash)
    (hartifact : (∃ data, a.phase.written = some (left, data) ∧ a.phase.data = some data) ∨
      ∃ source download snapshot, a.phase = .reading source (.artifact download localHash left)
        (.returned snapshot) ∧ snapshot.hash = a.attemptHash) :
    Effects sha s (s.finishArtifact i a result localHash left) event i a := by
  unfold BlobDownloads.finishArtifact
  split
  · next s' hdefer => exact .deferred hdefer
  have hk := keeps_discard (s.quarantineDownloadConflict i a result localHash left) a.item
  have hp : SamePath s.world
      ((s.quarantineDownloadConflict i a result localHash left).discardDownloadItem
        a.item).world := by
    exact ⟨⟨rfl, rfl, rfl, rfl, rfl⟩, rfl, rfl⟩
  have hqueue : KeepsQueue s (s.quarantineDownloadConflict i a result localHash left) :=
    keepsQueue_of_items rfl (Nat.le_succ _) (.inr rfl)
  obtain ⟨hlen, hstamps, hgen, hq⟩ := hqueue.trans hk.toKeepsQueue
  have hcon : ∃ entry, ((s.quarantineDownloadConflict i a result localHash
      left).discardDownloadItem a.item).conflicts = s.conflicts ++ [(i, entry)] :=
    ⟨_, hk.conflicts⟩
  refine ⟨hp.toSameFiles, .inl hp, ⟨hlen, hstamps, hgen, hq⟩,
    hk.installed, hk.artifacts, .inr ⟨localHash, left, ?_⟩,
    ⟨.done, congrArg (List.set · i _) hk.attempts, .done, fun _ => .inr (.recorded ?_)⟩,
    .inr ⟨_, congrArg (·.attention) hk.world, rfl⟩, hk.failures⟩
  · refine ⟨_, hk.conflicts, ?_, rfl, ⟨rfl, rfl⟩, hlocal, ?_⟩
    · change (BlobDownloads.discardDownloadItem _ _).world.attention = _
      rfl
    rcases hartifact with hw | hr
    · exact .inl ⟨rfl, hw⟩
    · exact .inr ⟨rfl, hr⟩
  obtain ⟨entry, he⟩ := hcon
  intro hs
  have hlen := congrArg List.length (he.symm.trans hs)
  rw [length_append] at hlen
  exact absurd hlen (Nat.succ_ne_self _)

theorem authoritative_of_defer (h : s.deferSupersededDownload a = none) :
    s.isDownloadAttemptAuthoritative a = true := by
  by_contra hnot
  rw [deferSupersededDownload, if_neg hnot] at h
  cases h

theorem Effects.afterStage {stage : Option BlobSettlementStage}
    (hph : a.phase = .aborting after stage) (hadm : event.Admits i) :
    Effects sha s (s.afterStage i a result after) event i a := by
  cases after with simp only [BlobDownloads.afterStage]
  | startAdmission => exact .startAdmission hadm
  | ended =>
    refine .end (.refl s) (.inl ?_)
    rw [hph]
    rfl
  | fail => exact .fail
  | defer =>
    cases h : s.deferSupersededDownload a with
    | none => exact .end (.refl s) (.inr (.regained stage hph (authoritative_of_defer h)))
    | some s' => exact .deferred h
  | deferOrFail =>
    split
    · next h => exact .deferred h
    · exact .fail
  | deferOrWait =>
    split
    · next h => exact .deferred h
    · exact .end (keeps_modifyItem s _ _ (fun _ => rfl)) (.inr (.modify fun _ => rfl))
  | conflict download localHash =>
    split
    · next h => exact .deferred h
    split
    · exact .startArtifact (has_of_download (by rw [hph]; rfl)) (by rw [hph]; rfl) 100
    · exact .discard

theorem Effects.complete : Effects sha s (s.complete i a) event i a := by
  unfold BlobDownloads.complete
  split
  · exact .end (keeps_modifyItem s _ _ (fun _ => rfl)) (.inr (.modify fun _ => rfl))
  · exact .discard

variable {after : AfterFinalize} {hash : JsString}

theorem Effects.afterFinalize {isFinal : Bool}
    (hm : after = .race → a.phase.matched = some hash ∨
      hash = a.attemptHash ∧ a.phase.localHash = some hash) :
    Effects sha s (s.afterFinalize i a stage isFinal after) event i a := by
  cases after with
  | equality => exact .discard
  | staged =>
    simp only [BlobDownloads.afterFinalize]
    split
    · exact .complete
    · exact .discard
  | settled =>
    simp only [BlobDownloads.afterFinalize]
    split
    · exact .complete
    · exact .abort rfl (goes_aborting rfl)
  | race =>
    simp only [BlobDownloads.afterFinalize]
    split
    · exact .complete
    · exact .abortEnded (.refl s) (.matched hash (hm rfl))

theorem currentItem_of_attempt (h : s.isDownloadAttemptAuthoritative a = true) :
    HasCurrentItem s a := by
  simp only [isDownloadAttemptAuthoritative, Bool.and_eq_true, Option.any_eq_true] at h
  obtain ⟨-, item, hi, ⟨⟨⟨hcur, -⟩, -⟩, -⟩, -⟩ := h
  exact ⟨item, hi, hcur⟩

theorem attempt_of_stage (h : s.isDownloadStageAuthoritative a stage = true) :
    s.isDownloadAttemptAuthoritative a = true := by
  simp only [isDownloadStageAuthoritative, Bool.and_eq_true] at h
  exact h.1.1.1.1.2

theorem Effects.finalize {ref : BlobRef} {sourceVersion : JsString} (hcur : HasCurrentItem s a)
    (hm : after = .race → hash = a.attemptHash ∧ a.phase.localHash = some hash) :
    Effects sha s (s.finalize i a after hash stage ref sourceVersion) event i a := by
  refine .step (.refl s) (sameFiles_finalize ..) (.inr hcur) (attention_finalize ..)
    ⟨(absent rfl), (absent rfl), (absent rfl), (absent rfl),
    (absent₂ rfl), (absent₃ rfl), (absent₂ rfl),
    (absent rfl), ?_, (absent rfl)⟩ nofun
  intro hash' h
  cases after with
  | race =>
    cases h
    exact .inr (hm rfl)
  | _ => cases h

theorem Effects.record
    (hmatch : after = .race → hash = a.attemptHash ∧ a.phase.localHash = some hash) :
    Effects sha s (s.recordAuthoritativeDownloadSettlement i a after hash stage) event i a := by
  unfold recordAuthoritativeDownloadSettlement
  split
  · next hs =>
    split
    · exact .finalize (currentItem_of_attempt (attempt_of_stage hs)) hmatch
    · exact .afterFinalize (fun h => .inr (hmatch h))
  · exact .afterFinalize (fun h => .inr (hmatch h))

theorem Effects.afterReplacement : Effects sha s (s.afterReplacement i a download) event i a := by
  unfold BlobDownloads.afterReplacement
  split <;> exact .abort rfl (goes_aborting rfl)

theorem Effects.afterRestore {after : AfterRestore} :
    Effects sha s (s.afterRestore i a download after) event i a := by
  cases after with
  | superseded => exact .abort rfl (goes_aborting rfl)
  | createFailed =>
    simp only [BlobDownloads.afterRestore]
    split <;> exact .abort rfl (goes_aborting rfl)

theorem Effects.restore {prior : CleanPrior} {after : AfterRestore} (ha : a.phase.Has download) :
    Effects sha s (s.restoreRemoteOverwriteBackup i a download prior after)
      event i a := by
  unfold restoreRemoteOverwriteBackup
  split
  · exact .goes rfl (.download ha rfl (absent rfl) rfl rfl rfl rfl rfl rfl (absent rfl))
  · exact .afterRestore

theorem Effects.resolveCreateRace (ha : a.phase.Has download) :
    Effects sha s (s.resolveCreateRaceConflict i a download) event i a := by
  unfold resolveCreateRaceConflict
  split
  · next hf => exact .abortEnded (.refl s) (.vacated hf)
  · exact .startRead ha (fun _ => rfl) (absent rfl) nofun

theorem nextBackup_vacant {candidates : List ℕ} {backupPath : ℕ}
    (h : w.nextAvailableBlobLocalBackupPath candidates = some backupPath) :
    w.backup backupPath = none :=
  isNone_iff_eq_none.mp
    (find?_some (p := fun candidate => (w.backup candidate).isNone) h)

theorem Effects.afterBackupRefused {purpose : BackupPurpose} :
    Effects sha s (s.afterBackupRefused i a download purpose) event i a := by
  cases purpose with
  | replace prior => exact .afterReplacement
  | retire prior generation backupPath => exact .abort rfl (goes_aborting rfl)

theorem Effects.afterBackup {purpose : BackupPurpose}
    (hph : a.phase = .moving download source purpose)
    (hbac : s.world.backupOwnsFile purpose.backupPath source.file = true) :
    Effects sha s (s.afterBackup i a download purpose) event i a := by
  have ha : a.phase.Has download := has_of_download (by rw [hph]; rfl)
  cases purpose with
  | replace prior =>
    simp only [BlobDownloads.afterBackup]
    split
    · exact .restore ha
    split
    · exact .abort rfl (goes_aborting rfl)
    refine .goes rfl ⟨?_, ?_, (absent rfl), (absent rfl), (absent₂ rfl), (absent₃ rfl), ?_,
      (absent rfl), (absent rfl), (absent rfl)⟩
    · intro data h
      cases h
      exact .inl ha.1
    · intro admission h
      cases h
      exact .inl ha.2
    intro download' prior' h
    cases h
    exact .inr ⟨source, by rw [hph]; rfl, hbac⟩
  | retire prior generation backupPath =>
    cases prior with
    | none => exact .abort rfl (goes_aborting rfl)
    | some prior =>
      simp only [BlobDownloads.afterBackup]
      split
      · exact .restore ha
      · exact .abort rfl (goes_aborting rfl)

variable {before : Option JsString} {data : List UInt8}

theorem Effects.stageDownload {admission : DownloadAdmission}
    (hph : a.phase = .hashing admission before data) (hdata : sha data = a.attemptHash) :
    Effects sha s (s.stageDownload i a result admission before data) event i a := by
  unfold BlobDownloads.stageDownload
  split
  · next h => exact .deferred h
  split
  · exact .discard
  refine .enter (by split <;> rfl) (.refl s) (samePath_prepare ..) ?_
  split
  · exact .bare rfl
  refine ⟨?_, ?_, ?_, (absent rfl), (absent₂ rfl), (absent₃ rfl),
    (absent₂ rfl), (absent rfl), (absent rfl), (absent rfl)⟩
  · intro data' h
    cases h
    exact .inr hdata
  · intro admission' h
    rw [hph]
    exact .inl h
  intro hash h
  rw [hph]
  exact .inl h

section

variable (ha : a.phase.Has download)
  (hmissing : a.phase.missing = some download ∨ download.admission.existing = none)
include ha hmissing

/-- A folder or a file is made where no file was admitted. -/
theorem goes_creating :
    Goes sha s event i a (.creating download none none) ∧
      Goes sha s event i a (.creatingFolder download) := by
  constructor
  all_goals
    refine ⟨?_, ?_, (absent rfl), (absent rfl), (absent₂ rfl), (absent₃ rfl), (absent₂ rfl),
      ?_, (absent rfl), (absent rfl)⟩
    · intro data h
      cases h
      exact .inl ha.1
    · intro admission h
      cases h
      exact .inl ha.2
    intro download' h
    cases h
    exact hmissing

theorem Effects.createMissing : Effects sha s (s.createMissing i a download) event i a := by
  unfold BlobDownloads.createMissing
  split
  · exact .abortEnded (keeps_discard s _) (.dequeued (discard_queued s _))
  split
  · next h => exact .abortDeferred h
  · exact .goes rfl (goes_creating ha hmissing).1

end

theorem Effects.install (ha : a.phase.Has download) (hl : a.phase.localHash = before) :
    Effects sha s (s.installDownload i a result download before) event i a := by
  unfold installDownload
  split
  · exact .abort rfl (goes_aborting rfl)
  split
  · split
    · exact .abort rfl (goes_aborting rfl)
    · next hash =>
      split
      · split
        · exact .abort rfl (goes_aborting rfl)
        · next backupPath hp =>
          refine .startRead ha (fun _ => rfl) (absent rfl) ?_
          intro backup h
          cases h
          exact nextBackup_vacant hp
      refine .abort rfl (.download ha rfl ?_ rfl rfl rfl rfl rfl rfl (absent rfl))
      intro hash' h
      rw [hl]
      exact h
  · next hmissing =>
    split
    · split
      · exact .goes rfl (goes_creating ha (.inr hmissing)).2
      · exact .abortEnded (keeps_discard s _) (.dequeued (discard_queued s _))
    · exact .createMissing ha (.inr hmissing)

theorem Effects.createFailed {prior : Option CleanPrior} (ha : a.phase.Has download) :
    Effects sha s (s.createFailed i a result download prior) event i a := by
  cases prior with simp only [BlobDownloads.createFailed]
  | some prior =>
    split
    · exact .afterReplacement
    split
    · exact .restore ha
    · exact .afterRestore
  | none =>
    split
    · exact .resolveCreateRace ha
    · exact .abort rfl (goes_aborting rfl)

variable {snapshot : Option ExactSnapshot}

variable {source : UploadSource} {purpose : DownloadRead} {read read' : ExactRead}

theorem held_reading (source : UploadSource) (purpose : DownloadRead) (read : ExactRead) :
    (reading source purpose read).held = read.bytes.map fun data => (source, purpose, data) := by
  cases read with
  | sampled data => cases data <;> rfl
  | _ => rfl

theorem held_of_waits {isCurrent rejected : Bool}
    (hr : read.resume isCurrent rejected = .waits read')
    {held : UploadSource × DownloadRead × List UInt8}
    (h : (reading source purpose read').held = some held) :
    (reading source purpose read).held = some held := by
  rw [held_reading] at h
  obtain ⟨data, hdata, rfl⟩ := Option.map_eq_some_iff.mp h
  rw [held_reading, (ExactRead.resume_waits hr).2 data hdata, Option.map_some]

/-- A read goes on with what it has. -/
theorem goes_read (hph : a.phase = .reading source purpose read)
    (hl : ∀ hash, (reading source purpose read').localHash = some hash →
      a.phase.localHash = some hash ∨ ∃ source purpose data,
        a.phase.held = some (source, purpose, data) ∧ purpose.IsLocal ∧
          s.world.isIdentityCurrent source = true ∧ hash = sha data)
    (hh : ∀ held, (reading source purpose read').held = some held → a.phase.held = some held) :
    Goes sha s event i a (.reading source purpose read') := by
  refine ⟨?_, ?_, hl, fun held h => .inl (hh held h), ?_, (absent₃ rfl), (absent₂ rfl),
    (absent rfl), (absent rfl), (absent rfl)⟩
  · intro data h
    rw [hph]
    cases purpose <;> exact .inl h
  · intro admission h
    rw [hph]
    cases purpose <;> exact .inl h
  intro source' purpose' h
  rw [hph]
  cases purpose <;> exact .inl h

theorem Effects.waits (hph : a.phase = .reading source purpose read) {isCurrent rejected : Bool}
    (hr : read.resume isCurrent rejected = .waits read') :
    Effects sha s (s.enter i a (.reading source purpose read')) event i a := by
  obtain ⟨hnot, -⟩ := ExactRead.resume_waits hr
  refine .goes rfl (goes_read hph ?_ fun held h => hph ▸ held_of_waits hr h)
  intro hash h
  rw [hph]
  cases purpose with
  | artifact download localHash left => exact .inl h
  | initial admission | race download =>
    cases read' with
    | returned snapshot => exact absurd rfl (hnot snapshot)
    | _ => cases h
  | _ => cases h

/-- Bytes that have been hashed are the local file's. -/
theorem Effects.verified (hph : a.phase = .reading source purpose (.hashing data))
    (hcur : s.world.isReadCurrent source purpose = true) :
    Effects sha s (s.enter i a (.reading source purpose
      (.returned ⟨sha data, data, .refused false false⟩))) event i a := by
  refine .goes rfl (goes_read hph ?_ (absent rfl))
  intro hash h
  rw [hph]
  cases purpose with
  | artifact download localHash left => exact .inl h
  | initial admission | race download =>
    cases h
    exact .inr ⟨source, _, data, rfl, trivial, hcur, rfl⟩
  | _ => cases h

theorem Effects.afterRead (hph : a.phase = .reading source purpose read)
    (hr : snapshot = none ∨ ∃ exact, snapshot = some exact ∧ read = .returned exact) :
    Effects sha s (s.afterRead i a result source purpose snapshot) event i a := by
  cases purpose with simp only [BlobDownloads.afterRead]
  | staged stage =>
    split
    · exact .record nofun
    · exact .discard
  | initial admission =>
    split
    · split
      · next h => exact .deferred h
      split
      · exact .discard
      · split <;> exact .enter rfl (.refl s) (samePath_prepare ..) (.bare rfl)
    refine .goes rfl (.of (absent rfl) ?_ ?_ rfl (absent₂ rfl) rfl rfl rfl rfl (absent rfl))
    · intro admission' h
      rw [hph]
      exact h
    intro hash h
    rcases hr with rfl | ⟨exact, rfl, rfl⟩
    · cases h
    rw [hph]
    exact h
  | equality target sourceVersion stage =>
    split
    · next hcur => exact .finalize (currentItem_of_attempt hcur.2) nofun
    · exact .abort rfl (goes_aborting rfl)
  | backup download purpose => exact .afterBackupRefused
  | created download prior =>
    have ha : a.phase.Has download := has_of_download (by rw [hph]; rfl)
    split
    · split
      · exact .record nofun
      split
      · exact .fail
      · next backupPath hp =>
        refine .startRead ha (fun _ => rfl) (absent rfl) ?_
        intro backup h
        cases h
        exact nextBackup_vacant hp
    · split
      · exact .resolveCreateRace ha
      · exact .afterReplacement
  | race download =>
    have ha : a.phase.Has download := has_of_download (by rw [hph]; rfl)
    split
    · exact .abort rfl (goes_aborting rfl)
    · next hash hh =>
      have hl : a.phase.localHash = some hash := by
        rcases hr with rfl | ⟨exact, rfl, rfl⟩
        · cases hh
        rw [hph]
        exact hh
      split
      · next hm => exact .record (fun _ => ⟨hm, hl⟩)
      refine .abort rfl (.download ha rfl ?_ rfl rfl rfl rfl rfl rfl (absent rfl))
      intro hash' h
      cases h
      exact hl
  | artifact download localHash left =>
    have ha : a.phase.Has download := has_of_download (by rw [hph]; rfl)
    have hl : a.phase.localHash = some localHash := by rw [hph]; rfl
    split
    · next hh =>
      refine .finishArtifact hl (.inr ?_)
      rcases hr with rfl | ⟨exact, rfl, rfl⟩
      · cases hh
      · exact ⟨source, download, exact, hph, some.inj hh⟩
    · exact .startArtifact ha hl _

theorem Effects.readFailed : Effects sha s (s.readFailed i a result purpose) event i a := by
  cases purpose with
  | backup download purpose =>
    cases purpose with
    | replace prior => exact .abort rfl (goes_aborting rfl)
    | retire prior generation backupPath => exact .fail
  | _ => exact .fail

theorem Goes.same (h : phase = a.phase) : Goes sha s event i a phase := by
  rw [h]
  exact ⟨fun _ h => .inl h, fun _ h => .inl h, fun _ h => .inl h, fun _ h => .inl h,
    fun _ _ h => .inl h, fun _ _ _ h => .inl h, fun _ _ h => .inl h, fun _ h => .inl h,
    fun _ h => .inl h, fun _ h => .inl h⟩

theorem Effects.idle (hk : Keeps s s') (ha : s.attempts[i]? = some a) :
    Effects sha s s' event i a := by
  have hp : SameRecords s.world s'.world := by
    rw [hk.world]
    exact .refl s.world
  refine ⟨hp.toSameFiles, .inl hp.toSamePath, hk.toKeepsQueue, hk.installed,
    hk.artifacts, .inl hk.conflicts, ⟨a.phase, ?_, .same rfl, .inl⟩,
    .inl hp.attention, hk.failures⟩
  obtain ⟨hi, rfl⟩ := List.getElem?_eq_some_iff.mp ha
  rw [hk.attempts]
  exact (List.set_getElem_self hi).symm

/-- What the end of an await does. -/
theorem download_resume_spec (ha : s.attempts[i]? = some a) (hadm : event.Admits i) :
    Effects sha s (s.resumeAttempt i a result sha) event i a := by
  cases hph : a.phase with simp only [resumeAttempt, hph]
  | aborting after stage =>
    split
    · exact .fail
    · exact .afterStage hph hadm
  | reading source purpose read =>
    split
    · next read' hr => exact .waits hph hr
    · next data hr =>
      obtain ⟨rfl, hcur⟩ := ExactRead.resume_verified hr
      split
      · next download purpose =>
        split
        · next hbac =>
          rw [Bool.and_eq_true] at hbac
          have hk : a.phase.Has download := has_of_download (by rw [hph]; rfl)
          refine .goes rfl ⟨?_, ?_, (absent rfl), (absent rfl), ?_, ?_,
            (absent₂ rfl), (absent rfl), (absent rfl), (absent rfl)⟩
          · intro data' h
            cases h
            exact .inl hk.1
          · intro admission h
            cases h
            exact .inl hk.2
          · intro source' purpose' h
            rw [hph]
            exact .inl h
          intro download' source' purpose' h
          cases h
          exact .inr ⟨data, by rw [hph]; rfl, hcur, hbac.1⟩
        · exact .verified hph hcur
      · exact .verified hph hcur
    · exact .readFailed
    · next snapshot hr => exact .afterRead hph (ExactRead.resume_returned hr)
  | stagingUnversioned staged =>
    split
    · exact .discard
    · exact .fail
  | stagingEquality source target sourceVersion stage =>
    split
    · exact .fail
    · next stage' _ =>
      unfold startRead
      split <;> exact .goes rfl (.bare rfl)
  | downloading admission before =>
    split
    · exact .fail
    refine .goes rfl (.of (absent rfl) ?_ ?_ rfl (absent₂ rfl) rfl rfl rfl rfl (absent rfl))
    · intro admission' h
      rw [hph]
      exact h
    intro hash h
    rw [hph]
    exact h
  | hashing admission before data =>
    split
    · exact .fail
    · next hdata =>
      rw [Bool.not_eq_true, Bool.or_eq_false_iff, decide_eq_false_iff_not, not_not] at hdata
      exact .stageDownload hph hdata.2
  | stagingDownload admission before data stage =>
    split
    · exact .fail
    · next stage' _ => exact .install (by rw [hph]; exact ⟨rfl, rfl⟩) (by rw [hph]; rfl)
  | creatingFolder download =>
    split
    · exact .abort rfl (goes_aborting rfl)
    · exact .createMissing (has_of_download (by rw [hph]; rfl)) (.inl (by rw [hph]; rfl))
  | creating download prior created =>
    have hk : a.phase.Has download := has_of_download (by rw [hph]; rfl)
    split
    · exact .createFailed hk
    · exact .startRead hk (fun _ => rfl) (absent rfl) nofun
  | moving download source purpose =>
    split
    · next hbac => exact .afterBackup hph hbac
    split
    · split
      · exact .abort rfl (goes_aborting rfl)
      · exact .afterBackupRefused
    · exact .afterBackupRefused
  | restoreReading download prior after sample =>
    have hk : a.phase.Has download := has_of_download (by rw [hph]; rfl)
    split
    · exact .idle (.refl s) ha
    · exact .afterRestore
    split
    · exact .goes rfl (.download hk rfl (absent rfl) rfl rfl rfl rfl rfl rfl (absent rfl))
    · exact .afterRestore
  | restoreCreating download after data created => exact .afterRestore
  | creatingArtifact download localHash left created =>
    have hk : a.phase.Has download := has_of_download (by rw [hph]; rfl)
    split
    · next hc =>
      rw [Bool.and_eq_true] at hc
      refine .goes rfl (.download hk rfl ?_ rfl rfl rfl rfl rfl rfl ?_)
      · intro hash h
        rw [hph]
        exact h
      intro written h
      rw [hph, hc.1]
      exact h
    · split
      · exact .startArtifact hk (by rw [hph]; rfl) _
      · exact .fail
  | cachingArtifact download localHash left =>
    have hk : a.phase.Has download := has_of_download (by rw [hph]; rfl)
    have hl : a.phase.localHash = some localHash := by rw [hph]; rfl
    split
    · exact .finishArtifact hl (.inl ⟨download.data, by rw [hph]; rfl, hk.1⟩)
    split
    · exact .startArtifact hk hl _
    · exact .fail
  | finalizing after hash stage ref sourceVersion finalization =>
    have hm : after = .race → a.phase.matched = some hash := by
      rintro rfl
      rw [hph]
      rfl
    split
    · exact .afterFinalize (fun h => .inl (hm h))
    · exact .fail
    · split
      · exact .fail
      refine .goes rfl ⟨(absent rfl), (absent rfl), (absent rfl), (absent rfl), (absent₂ rfl),
        (absent₃ rfl), (absent₂ rfl), (absent rfl), ?_, (absent rfl)⟩
      intro hash' h
      rw [hph]
      cases after <;> exact .inl h
    · exact .afterFinalize (fun h => .inl (hm h))
  | done => exact .idle (.refl s) ha

end Effects

end Kaos.Sync
