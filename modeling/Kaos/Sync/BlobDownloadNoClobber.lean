import Kaos.Sync.BlobDownloadRuns

/-! Downloads keep local bytes: they write to a vacant path, move files aside whole, and record what
they cannot write. -/
namespace Kaos.Sync

open Kaos.Lib

variable (sha : List UInt8 → JsString) (w : DownloadWorld) (events : List DownloadEvent)

/-- Event `m` admitted attempt `i` to a path without a file, and nothing was settled for it. -/
structure WasMissing (m i : ℕ) : Prop where
  admission : IsAdmission sha w events m i
  file : (downloadsAt sha w events m).world.file = none
  settled : (downloadsAt sha w events m).world.getSettledRef = none

/-- Bytes of hash `hash` are those that were settled when event `m` admitted attempt `i`; at event
`k` they still are, and they precede the path's reference, which the item is to download. -/
structure IsCleanPrior (m k i : ℕ) (a : DownloadAttempt) (hash : JsString) (settled : BlobRef)
    (sourceVersion : JsString) (target : BlobRef) (item : DownloadItem) : Prop where
  order : m < k
  admission : IsAdmission sha w events m i
  captured : (downloadsAt sha w events m).world.getSettledRef = some settled ∧
    (downloadsAt sha w events m).world.settledSourceVersion = some sourceVersion
  settledHash : settled.hash = hash
  stillSettled :
    sameBlobRef (downloadsAt sha w events k).world.settledRef (some settled) = true ∧
    (downloadsAt sha w events k).world.settledSourceVersion = some sourceVersion
  live : (downloadsAt sha w events k).world.getAuthoritativeDownloadRef = some target
  queued : (downloadsAt sha w events k).items[a.item]? = some item ∧
    item.target.targetRefFingerprint = blobRefFingerprint (some target)
  prior : hash ∈ getBlobRefPriorHashes target

/-- Before event `n` attempt `i` has moved a clean predecessor to a backup path. -/
def HasMovedCleanPrior (n i : ℕ) (a : DownloadAttempt) : Prop :=
  ∃ m c j k l download source prior data settled sourceVersion target item, l < n ∧
    MovesAside sha w events l c j k i a download source (.replace prior) data ∧
    (downloadsAt sha w events l).world.backupOwnsFile prior.backupPath
      source.file = true ∧
    IsCleanPrior sha w events m k i a (sha data) settled sourceVersion
      target item

/-- At event `n` attempt `i` puts remote bytes at the path. -/
structure Installs (n i : ℕ) (a : DownloadAttempt) (file : ℕ) (data : List UInt8) : Prop where
  event : ∃ stat, events[n]? = some (.call i file stat)
  attempt : (downloadsAt sha w events n).attempts[i]? = some a
  installed : (downloadsAt sha w events (n + 1)).installed =
    (downloadsAt sha w events n).installed ++ [(i, file, data)]
  vacant : (downloadsAt sha w events n).world.isVacant = true
  verified : sha data = a.attemptHash
  prior : (∃ m < n, WasMissing sha w events m i) ∨ HasMovedCleanPrior sha w events n i a

/-- At event `n` attempt `i` moves the path's file to a backup path: a clean predecessor, or bytes
that are the target's. -/
def MovesFile (n i file : ℕ) : Prop :=
  ∃ a c j k download source purpose data, source.file = file ∧
    MovesAside sha w events n c j k i a download source purpose data ∧
    (downloadsAt sha w events (n + 1)).world.backup purpose.backupPath = some (some file) ∧
    (sha data = a.attemptHash ∨ ∃ m settled sourceVersion target item,
      IsCleanPrior sha w events m k i a (sha data) settled sourceVersion target item)

/-- At event `n` attempt `i` records a conflict between the local bytes that it has read and the
remote ones, which an artifact holds. -/
structure RecordsBoth (n i : ℕ) (a : DownloadAttempt) (localHash : JsString) (left : ℕ)
    (entry : DownloadConflictEntry) : Prop where
  conflicts : (downloadsAt sha w events (n + 1)).conflicts =
    (downloadsAt sha w events n).conflicts ++ [(i, entry)]
  attention : (downloadsAt sha w events (n + 1)).world.attention = some entry.toBlobAttentionEntry
  reason : entry.reason = .remoteDownloadLocalConflict
  hashes : entry.localHash = some localHash ∧ entry.knownRemoteHash = some a.attemptHash
  localBytes : HasHashed sha w events n i localHash
  artifactPath : entry.artifactPath = some ((downloadsAt sha w events n).world.artifactPath left)
  artifact : (∃ data, (left, data) ∈ (downloadsAt sha w events n).artifacts ∧
      sha data = a.attemptHash) ∨
    ∃ source download snapshot, a.phase = .reading source (.artifact download localHash left)
      (.returned snapshot) ∧ snapshot.hash = a.attemptHash

/-- How attempt `i` leaves off at event `n`. -/
inductive LeavesOff (n i : ℕ) (a : DownloadAttempt) : Prop
  | again (h : ((downloadsAt sha w events (n + 1)).items[a.item]?.all (!·.isProcessing)) = true)
  | dequeued (h : (downloadsAt sha w events (n + 1)).queued ≠ some a.item)
  | recorded (h : (downloadsAt sha w events (n + 1)).conflicts ≠
      (downloadsAt sha w events n).conflicts)
  | same (h : HasHashed sha w events n i a.attemptHash)
  | vacated (h : (downloadsAt sha w events n).world.file = none)
  | regained (stage : Option BlobSettlementStage) (h : a.phase = .aborting .defer stage)
    (authority : (downloadsAt sha w events n).isDownloadAttemptAuthoritative a = true)

/-- What event `n` can do to local bytes. -/
structure NeverClobbers (n : ℕ) : Prop where
  installs : (downloadsAt sha w events (n + 1)).installed ≠
      (downloadsAt sha w events n).installed →
    ∃ i a file data, Installs sha w events n i a file data
  bytes : (∀ w', events[n]? ≠ some (.world w')) → ∀ file data,
    (downloadsAt sha w events n).world.disk file = some data →
    (downloadsAt sha w events (n + 1)).world.disk file = some data
  path : (∀ w', events[n]? ≠ some (.world w')) → ∀ file,
    (downloadsAt sha w events n).world.file = some file →
    (downloadsAt sha w events (n + 1)).world.file = some file ∨ ∃ i, MovesFile sha w events n i file
  conflicts : (downloadsAt sha w events (n + 1)).conflicts ≠
      (downloadsAt sha w events n).conflicts →
    ∃ i a localHash left entry, RecordsBoth sha w events n i a localHash left entry
  ends : ∀ i a a', (downloadsAt sha w events n).attempts[i]? = some a →
    (downloadsAt sha w events (n + 1)).attempts[i]? = some a' →
    a.phase.isOver = false → a'.phase.isOver = true → LeavesOff sha w events n i a

variable {sha w events} {n c j k i : ℕ} {a : DownloadAttempt}

variable {download : StagedDownload} {source : UploadSource} {data : List UInt8}

/-- A file that may be replaced is a clean predecessor. -/
theorem cleanPrior_of_moves {prior : CleanPrior}
    (h : MovesAside sha w events n c j k i a download source (.replace prior) data) :
    ∃ m settled sourceVersion target item, IsCleanPrior sha w events m k i a
      (sha data) settled sourceVersion target item := by
  obtain ⟨m, hm, hadm, hcap⟩ := h.admission
  have hmay := h.mayMove
  simp only [BlobDownloads.canBackup, BlobDownloads.isDownloadPredecessorAuthoritative,
    Bool.and_eq_true, decide_eq_true_eq, Option.any_eq_true, hcap,
    DownloadWorld.captureAdmission] at hmay
  obtain ⟨-, ⟨⟨-, ⟨⟨⟨settled, hset, hh⟩, hver⟩, hs⟩, hsam⟩, target,
    htgt, ⟨item, hi, hprint⟩, hprior⟩⟩ := hmay
  obtain ⟨sourceVersion, hsour⟩ := Option.isSome_iff_exists.mp hver
  rw [hset] at hs
  exact ⟨m, settled, sourceVersion, target, item, hm, hadm, ⟨hset, hsour⟩, hh,
    ⟨hs, hsam.trans hsour⟩, htgt, ⟨hi, hprint⟩,
    List.contains_iff_mem.mp hprior⟩

/-- A file that is moved is a clean predecessor, or its bytes are the target's. -/
theorem movesFile_of_moves {purpose : BackupPurpose}
    (h : MovesAside sha w events n c j k i a download source purpose data)
    (hbac : (downloadsAt sha w events (n + 1)).world.backup purpose.backupPath =
      some (some source.file)) : MovesFile sha w events n i source.file := by
  refine ⟨a, c, j, k, download, source, purpose, data, rfl, h, hbac, ?_⟩
  cases purpose with
  | replace prior => exact .inr (cleanPrior_of_moves h)
  | retire prior generation backupPath =>
    have hmay := h.mayMove
    simp only [BlobDownloads.canBackup, Bool.and_eq_true, decide_eq_true_eq] at hmay
    exact .inl hmay.2

theorem installs_of_created {file : ℕ} {stat : ℕ × ℕ}
    {prior : Option CleanPrior} (hev : events[n]? = some (.call i file stat))
    (ha : (downloadsAt sha w events n).attempts[i]? = some a)
    (hph : a.phase = .creating download prior none)
    (hvac : (downloadsAt sha w events n).world.isVacant = true)
    (hins : (downloadsAt sha w events (n + 1)).installed =
      (downloadsAt sha w events n).installed ++ [(i, file, download.data)]) :
    Installs sha w events n i a file download.data := by
  have hk := known_at n ha
  refine ⟨⟨stat, hev⟩, ha, hins, hvac, hk.data _ (by rw [hph]; rfl), ?_⟩
  cases prior with
  | none =>
    left
    have hmiss := hk.missing download (by rw [hph]; rfl)
    obtain ⟨m, hm, hadm, hcap, hset⟩ := hk.admission download.admission (by rw [hph]; rfl)
    have hn := hset hmiss
    rw [hcap] at hmiss hn
    exact ⟨m, hm, hadm, Option.map_eq_none_iff.mp hmiss, hn⟩
  | some prior =>
    right
    obtain ⟨source, c, j, k, l, data, hl, has, howns⟩ :=
      hk.replacing download prior (by rw [hph]; rfl)
    obtain ⟨m, settled, sourceVersion, target, item, hprior⟩ := cleanPrior_of_moves has
    exact ⟨m, c, j, k, l, download, source, prior, data, settled, sourceVersion, target, item, hl,
      has, howns, hprior⟩

theorem recordsBoth_of_records {localHash : JsString} {left : ℕ} {entry : DownloadConflictEntry}
    (ha : (downloadsAt sha w events n).attempts[i]? = some a)
    (h : RecordsConflict sha (downloadsAt sha w events n)
      (downloadsAt sha w events (n + 1)) i a localHash left entry) :
    RecordsBoth sha w events n i a localHash left entry := by
  have hk := known_at n ha
  refine ⟨h.conflicts, h.attention, h.reason, h.hashes, hk.localHash _ h.known, ?_, ?_⟩
  · rcases h.artifact with ⟨hp, -⟩ | ⟨hp, -⟩ <;> exact hp
  rcases h.artifact with ⟨-, data, hw, hdata⟩ | ⟨-, hr⟩
  · exact .inl ⟨data, hk.written _ hw, hk.data _ hdata⟩
  · exact .inr hr

theorem leavesOff_of_gives (ha : (downloadsAt sha w events n).attempts[i]? = some a)
    (h : GivesUp (downloadsAt sha w events n) (downloadsAt sha w events (n + 1)) a) :
    LeavesOff sha w events n i a := by
  have hk := known_at n ha
  cases h with
  | pending h => exact .again h
  | dequeued h => exact .dequeued h
  | recorded h => exact .recorded h
  | vacated h => exact .vacated h
  | regained stage h authority => exact .regained stage h authority
  | matched hash h =>
    refine .same ?_
    rcases h with hm | ⟨rfl, hl⟩
    · obtain ⟨rfl, hr⟩ := hk.matched hash hm
      exact hr
    · exact hk.localHash _ hl

/-- A new file overwrites no bytes. -/
theorem update_new {disk : ℕ → Option (List UInt8)} {file file' : ℕ} {data' : List UInt8}
    (hnew : (disk file).isNone = true) (h : disk file' = some data') :
    Function.update disk file (some data) file' = some data' := by
  rw [Function.update_of_ne, h]
  rintro rfl
  rw [h] at hnew
  cases hnew

/-- In any run, an attempt puts remote bytes at a vacant path only, where nothing was settled for a
missing file or from where it has moved a clean predecessor; it moves no other local file away, and
no bytes are overwritten; and it records a conflict with both hashes and the remote bytes. -/
theorem download_never_clobbers (sha : List UInt8 → JsString) (w : DownloadWorld)
    (events : List DownloadEvent) (n : ℕ) : NeverClobbers sha w events n := by
  rcases downloadsAt_step sha w events n with ⟨-, heq⟩ | ⟨event, hev, hmoves⟩
  · constructor
    · exact fun h => absurd (congrArg _ heq) h
    · intro _ file data h
      rw [heq]
      exact h
    · intro _ file h
      rw [heq]
      exact .inl h
    · exact fun h => absurd (congrArg _ heq) h
    intro i a a' ha ha' ho ho'
    rw [heq, ha] at ha'
    cases ha'
    rw [ho] at ho'
    cases ho'
  have hf := hmoves.files
  have hins : (∀ w', events[n]? ≠ some (.world w')) → ∀ w', event ≠ .world w' := by
    rintro h w' rfl
    exact h w' hev
  constructor
  · intro h
    have hnot : ∀ w', event ≠ .world w' := by
      rintro w' rfl
      cases hmoves with
      | quiet hq => exact h hq.installed
      | goes hown => rcases hown with h | ⟨_, h⟩ <;> cases h
    rcases hf hnot with ⟨-, hs⟩ | ⟨i, a, file, stat, rfl, ha, hef⟩
    · exact absurd hs h
    cases hef with
    | created download prior stat hph hvac _ heq =>
      exact ⟨i, a, file, download.data,
        installs_of_created hev ha hph hvac (congrArg (·.installed) heq)⟩
    | restored _ _ _ _ _ _ _ heq | moved _ _ _ _ _ heq | wrote _ _ _ _ _ _ heq | nothing heq =>
      exact absurd (congrArg (·.installed) heq) h
  · intro hnot file data h
    rcases hf (hins hnot) with ⟨hs, -⟩ | ⟨i, a, file', stat, rfl, ha, hef⟩
    · rw [hs.disk]
      exact h
    cases hef with
    | created _ _ _ _ _ hnew heq | restored _ _ _ _ _ _ hnew heq =>
      rw [heq]
      exact update_new hnew h
    | moved _ _ _ _ _ heq | nothing heq =>
      rw [heq]
      exact h
    | wrote _ _ _ _ _ hnew heq _ hd =>
      rw [heq]
      exact (congrFun hd file).trans (update_new hnew h)
  · intro hnot file h
    have hocc : ¬ (downloadsAt sha w events n).world.isVacant = true := by
      rw [DownloadWorld.isVacant, h]
      exact Bool.noConfusion
    rcases hf (hins hnot) with ⟨hs, -⟩ | ⟨i, a, file', stat, rfl, ha, hef⟩
    · rw [hs.file]
      exact .inl h
    cases hef with
    | created _ _ _ _ hvac | restored _ _ _ _ _ hvac => exact absurd hvac hocc
    | moved download source purpose hph ht heq =>
      right
      cases ht.symm.trans h
      obtain ⟨c, j, k, data, has⟩ :=
        (known_at n ha).renamed download source purpose (by rw [hph]; rfl)
      refine ⟨i, movesFile_of_moves has ?_⟩
      rw [heq]
      exact Function.update_self _ _ _
    | wrote _ _ _ _ _ _ heq hp =>
      rw [heq]
      exact .inl (hp.trans h)
    | nothing heq =>
      rw [heq]
      exact .inl h
  · intro h
    obtain ⟨i, a, localHash, left, entry, ha, hrec⟩ := hmoves.conflicts h
    exact ⟨i, a, localHash, left, entry, recordsBoth_of_records ha hrec⟩
  intro i a a' ha ha' ho ho'
  exact leavesOff_of_gives ha (hmoves.over ha ho ha' ho')

/-- A digest of 64 digits. -/
def firstByteDigest (data : List UInt8) : JsString := List.replicate 64 (data.headD 0).toUInt16

/-- A path whose file is as this device has settled it; its reference has gone on. -/
def advancedAttachment : DownloadWorld where
  live := some ({ hash := firstByteDigest [50], size := 1, priorHashes := [firstByteDigest [49]] },
    some [50])
  tombstone := none
  file := some 0
  isAtPath := fun _ => true
  stat := fun _ => (1, 1)
  disk := fun file => if file = 0 then some [49] else none
  hashCache := none
  stage := none
  settledRef := some { hash := firstByteDigest [49], size := 1 }
  settledSourceVersion := some [49]
  attention := none
  uploadGateOpen := true
  destroyed := false
  attentionAcceptInFlight := false
  isSyncable := true
  isLocalOnly := false
  maxSize := 0
  settlementAuthority := true
  operationAuthority := true
  isFolder := false
  parentMissing := false
  downloadGateOpen := true
  backup := fun _ => none
  artifact := fun _ => none
  artifactPath := fun _ => []

/-- The new bytes are downloaded and staged, the file is read again and moved to a backup path. -/
def movedAsideEvents : List DownloadEvent :=
  [.enqueue (firstByteDigest [50]) [firstByteDigest [49]], .drain {}, .read 0, .resume 0 {},
    .resume 0 {}, .resume 0 {}, .resume 0 { data := [50] }, .resume 0 { stageId := [49] },
    .resume 0 { candidates := [0] }, .read 0, .resume 0 {}, .resume 0 {}, .call 0 1 (1, 1)]

example : (downloadsAt firstByteDigest advancedAttachment
    (movedAsideEvents ++ [.resume 0 {}, .call 0 2 (2, 1)]) 15).installed = [(0, 2, [50])] := by
  decide

/-- The reference goes away while the file is moved, and the restoring creation fails. -/
def notRestoredEvents : List DownloadEvent :=
  movedAsideEvents ++
    [.world { (downloadsAt firstByteDigest advancedAttachment movedAsideEvents 13).world with
        live := none },
      .resume 0 {}, .read 0, .resume 0 {}, .resume 0 { rejected := true }, .resume 0 {}]

/-- The local file is not left as it is, though no remote bytes have come and the attempt is over:
it is at its backup path. -/
theorem moved_file_not_restored :
    advancedAttachment.file = some 0 ∧ advancedAttachment.disk 0 = some [49] ∧
      firstByteDigest [49] ≠ firstByteDigest [50] ∧
      (downloadsAt firstByteDigest advancedAttachment notRestoredEvents 19).world.file = none ∧
      (downloadsAt firstByteDigest advancedAttachment notRestoredEvents 19).world.backup 0 =
        some (some 0) ∧
      (downloadsAt firstByteDigest advancedAttachment notRestoredEvents 19).installed = [] ∧
      (downloadsAt firstByteDigest advancedAttachment notRestoredEvents 19).artifacts = [] ∧
      (downloadsAt firstByteDigest advancedAttachment notRestoredEvents 19).conflicts = [] ∧
      (downloadsAt firstByteDigest advancedAttachment notRestoredEvents 19).queued = none ∧
      (downloadsAt firstByteDigest advancedAttachment notRestoredEvents 19).attempts.all
        (·.phase.isOver) = true := by
  decide

end Kaos.Sync
