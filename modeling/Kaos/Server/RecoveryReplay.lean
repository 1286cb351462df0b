import Kaos.Lib.KeyedFold
import Kaos.Server.RecoveryIncremental

/-! `createRecoverySnapshot`, run after run, and what its manifests say when they are replayed. -/
namespace Kaos.Server

open Kaos.Lib Kaos.Yjs Option List

structure RecoveryPendingUpload where
  manifestId : JsString
  createdAt : JsString
  day : JsString
  stateHash : JsString
  previousStateHash : Option JsString
  uploadedContentCount : ℕ
  deriving DecidableEq

structure CreateRecoverySnapshotOptions extends SnapshotOptions where
  contentUploadLimit : Option ℕ
  pendingUpload : Option RecoveryPendingUpload

inductive RecoverySnapshotResult
  | noop
  | pending (upload : RecoveryPendingUpload)
  | created (manifest : FileHistoryManifest) (latest : RecoveryLatestState)
  deriving DecidableEq

section Create

variable (platform P : RecoveryPlatform) (vaultId : JsString)

/-- What the upload is prepared from; it continues a pending one between the same two states. -/
def prepareRecoverySnapshot (doc : FileDoc) (options : CreateRecoverySnapshotOptions)
    (plan : SnapshotPlan) : PreparedFileHistoryPendingUpload :=
  let nextStateHash := stateHash platform plan.persistedState
  let continued := options.pendingUpload.filter fun pending =>
    pending.stateHash = nextStateHash ∧ pending.previousStateHash = plan.previousStateHash
  let queue := buildContentQueue plan.changedCurrentEntries
  { manifestId := (continued.map (·.manifestId)).getD
      (generateRecoveryManifestId options.now options.random)
    createdAt := (continued.map (·.createdAt)).getD (toISOString options.now)
    day := (continued.map (·.day)).getD ((toISOString options.now).take 10)
    stateHash := nextStateHash
    previousStateHash := plan.previousStateHash
    reason := options.reason.getD .automatic
    pinned := options.pinned.getD (options.reason.getD .automatic ≠ .automatic)
    triggeredBy := options.triggeredBy
    crdtSchemaVersion := doc.schemaVersion
    changedEntries := plan.changes.map fun change =>
      { change with device := change.device.or options.triggeredBy }
    contentHashes := queue.map (·.hash)
    contentQueue := queue
    persistedState := plan.persistedState
    processedDirtyFileIds := plan.processedDirtyFileIds
    dirtyWatermark := none
    uploadedContentCount := (continued.map (·.uploadedContentCount)).getD 0 }

/-- The changes are those of a full scan against the latest state. -/
def createRecoverySnapshot (doc : FileDoc) (options : CreateRecoverySnapshotOptions)
    (latestState : Option RecoveryLatestState) : RecoverySnapshotResult :=
  let plan := fullPlan latestState (scanDoc platform doc none) []
  if plan.changes = [] ∧ latestState.isSome then .noop
  else
    let prepared := prepareRecoverySnapshot platform doc options plan
    let nextUploadedContentCount := sliceEnd prepared options.contentUploadLimit
    if nextUploadedContentCount < prepared.contentQueue.length then
      .pending
        { manifestId := prepared.manifestId
          createdAt := prepared.createdAt
          day := prepared.day
          stateHash := prepared.stateHash
          previousStateHash := prepared.previousStateHash
          uploadedContentCount := nextUploadedContentCount }
    else .created (preparedManifest platform vaultId prepared) (preparedLatestState prepared)

end Create

/-- A time that is no finite number is stored as `null`, and a state with it does not read back. -/
def readLatestRecoveryState (stored : Option RecoveryLatestState) : Option RecoveryLatestState :=
  stored.filter fun latest => latest.entries.all fun entry => entry.mtime ≠ some none

/-- The stored latest state and the manifests created so far, the oldest first. -/
structure RecoveryHistory where
  latest : Option RecoveryLatestState
  manifests : List FileHistoryManifest

open RecoveryHistory

structure HistoryCall where
  doc : FileDoc
  options : CreateRecoverySnapshotOptions

namespace RecoveryHistory

variable (platform P : RecoveryPlatform) (vaultId : JsString)

def empty : RecoveryHistory := ⟨none, []⟩

def outcome (history : RecoveryHistory) (call : HistoryCall) : RecoverySnapshotResult :=
  createRecoverySnapshot platform vaultId call.doc call.options
    (readLatestRecoveryState history.latest)

def step (history : RecoveryHistory) (call : HistoryCall) : RecoveryHistory :=
  match history.outcome platform vaultId call with
  | .created manifest latest => ⟨some latest, history.manifests ++ [manifest]⟩
  | _ => history

def run (calls : List HistoryCall) : RecoveryHistory :=
  calls.foldl (step platform vaultId) empty

end RecoveryHistory

section Replay

/-- The path and content hash of each live file. -/
abbrev LiveFiles := JsString → Option (JsString × Option JsString)

variable (deletes : FileHistoryEntry → Bool)

/-- An entry deletes its file or sets its path and content hash. -/
def replayEntry (live : LiveFiles) (entry : FileHistoryEntry) : LiveFiles :=
  Function.update live entry.fileId
    (if deletes entry then none else some (entry.path, entry.contentHash))

def replay (manifests : List FileHistoryManifest) : LiveFiles :=
  (manifests.flatMap (·.changedEntries)).foldl (replayEntry deletes) fun _ => none

/-- Read by its kind alone. -/
def kindDeletes (entry : FileHistoryEntry) : Bool := entry.kind = .deleted

/-- Read by its kind and by the deleted flag it carries. -/
def entryDeletes (entry : FileHistoryEntry) : Bool :=
  entry.kind = .deleted || entry.deleted = some true

def liveEntry (entry : RecoveryStateEntry) : Option (JsString × Option JsString) :=
  if entry.deleted = some true then none else some (entry.path, entry.contentHash)

/-- The live files of a document's recovery state. -/
def liveFiles (platform : RecoveryPlatform) (doc : FileDoc) : LiveFiles := fun fileId =>
  ((entriesByFileId (·.fileId) (scanDoc platform doc none)).get? fileId).bind fun entry =>
    liveEntry entry.toRecoveryStateEntry

end Replay

section Changes

variable {platform P : RecoveryPlatform} {old new doc : FileDoc} {entry : InternalStateEntry}
  {previous : Option RecoveryStateEntry} {change : FileHistoryEntry} {x : JsString}

theorem liveFiles_eq : liveFiles P doc x =
    (fileEntry P doc (readText doc) x).bind fun entry =>
      liveEntry entry.toRecoveryStateEntry := by
  have hall : selects none x = true := rfl
  rw [liveFiles, get?_scanDoc, if_pos hall]

/-- A change says what the file is now. -/
theorem replayed_change (h : buildChangeEntry entry previous = some change) :
    (if entryDeletes change then none else some (change.path, change.contentHash)) =
      liveEntry entry.toRecoveryStateEntry := by
  cases previous with
  | none =>
    cases h
    by_cases hdel : entry.deleted = some true <;> simp [entryDeletes, liveEntry, hdel]
  | some previous =>
    unfold buildChangeEntry at h
    dsimp only at h
    split_ifs at h with hres hdel hp hc
    · cases h
      simp [entryDeletes, liveEntry, hres.2]
    · cases h
      simp [entryDeletes, liveEntry, hdel.2]
    · cases h
      simp [entryDeletes, liveEntry]
    cases h
    simp [entryDeletes, liveEntry]

/-- Where there is no change the file is what it was. -/
theorem liveEntry_of_no_change (h : buildChangeEntry entry previous = none) :
    ∃ earlier, previous = some earlier ∧
      liveEntry earlier = liveEntry entry.toRecoveryStateEntry := by
  cases previous with
  | none => cases h
  | some earlier =>
    refine ⟨earlier, rfl, ?_⟩
    unfold buildChangeEntry at h
    dsimp only at h
    split_ifs at h with hres hdel hp hc
    unfold liveEntry
    by_cases hearly : earlier.deleted = some true
    · have hnow : entry.deleted = some true := by
        by_contra hl
        exact hres ⟨hearly, hl⟩
      rw [if_pos hearly, if_pos hnow]
    have hnow : entry.deleted ≠ some true := fun hnow => hdel ⟨hearly, hnow⟩
    rw [if_neg hearly, if_neg hnow, not_not.mp hp, not_not.mp hc]

/-- The changes between two documents take the live files of the one to those of the other. -/
theorem replay_changes (manifestId createdAt : JsString) :
    (fullOf P old new [] manifestId createdAt).changes.foldl (replayEntry entryDeletes)
      (liveFiles P old) = liveFiles P new := by
  funext x
  by_cases hx : x ∈ (fullOf P old new [] manifestId createdAt).changes.map (·.fileId)
  · obtain ⟨change, hch, rfl⟩ := mem_map.mp hx
    refine (foldl_update_of_mem nodup_changes_fullOf hch).trans ?_
    rcases mem_changes_fullOf.mp hch with ⟨entry, he, hbuilt⟩ | ⟨previous, _, hg, rfl⟩
    · rw [replayed_change hbuilt, liveFiles_eq, fileId_of_buildChangeEntry hbuilt, he, bind_some]
    change none = liveFiles P new previous.fileId
    rw [liveFiles_eq, hg, bind_none]
  refine (foldl_update_of_not_mem hx).trans ?_
  have hp := @get?_previousOf P old x
  rw [liveFiles_eq, liveFiles_eq]
  cases hnew : fileEntry P new (readText new) x with
  | none =>
    cases hold : fileEntry P old (readText old) x with
    | none => rfl
    | some earlier =>
      exfalso
      apply hx
      rw [hold, map_some] at hp
      have hid := fileId_of_fileEntry hold
      refine mem_map.mpr ⟨buildDeletionEntry earlier.toRecoveryStateEntry,
        mem_changes_fullOf.mpr (.inr ⟨earlier.toRecoveryStateEntry, ?_, ?_, rfl⟩), hid⟩
      · rw [hid]
        exact hp
      rw [hid]
      exact hnew
  | some entry =>
    have hid := fileId_of_fileEntry hnew
    have hn : buildChangeEntry entry ((previousOf P old).get? entry.fileId) = none := by
      by_contra hs
      obtain ⟨change, hch⟩ := ne_none_iff_exists'.mp hs
      apply hx
      refine mem_map.mpr ⟨change, mem_changes_fullOf.mpr (.inl ⟨entry, ?_, hch⟩), ?_⟩
      · rw [hid]
        exact hnew
      · rw [fileId_of_buildChangeEntry hch, hid]
    obtain ⟨earlier, hearly, hl⟩ := liveEntry_of_no_change hn
    rw [hid, hp] at hearly
    obtain ⟨internal, hold, rfl⟩ := map_eq_some_iff.mp hearly
    rw [hold, bind_some, bind_some, hl]

end Changes

section Runs

variable {platform P : RecoveryPlatform} {vaultId : JsString} {history : RecoveryHistory}
  {base new : FileDoc} {call : HistoryCall}

def RecoverySnapshotResult.isPending : RecoverySnapshotResult → Bool
  | .pending _ => true
  | _ => false

/-- Without a limit every content is uploaded at once. -/
theorem not_pending_of_no_limit (history : RecoveryHistory)
    (hlimit : call.options.contentUploadLimit = none) :
    (history.outcome P vaultId call).isPending = false := by
  unfold outcome createRecoverySnapshot
  dsimp only
  split
  · rfl
  rw [hlimit, sliceEnd, if_neg (Nat.lt_irrefl _)]
  rfl

/-- The times of the document's files are finite numbers. -/
def FiniteTimes (platform : RecoveryPlatform) (doc : FileDoc) : Prop :=
  ∀ entry ∈ scanDoc platform doc none, entry.mtime ≠ some none

theorem replay_append (deletes : FileHistoryEntry → Bool) (manifests : List FileHistoryManifest)
    (manifest : FileHistoryManifest) : replay deletes (manifests ++ [manifest]) =
      manifest.changedEntries.foldl (replayEntry deletes) (replay deletes manifests) := by
  simp [replay]

/-- The changes depend on the entries of the latest state only. -/
theorem changes_fullPlan {latest : Option RecoveryLatestState} (manifestId createdAt : JsString)
    (h : (latest.map (·.entries)).getD [] = (scanDoc P base none).map (·.toRecoveryStateEntry)) :
    (fullPlan latest (scanDoc P new none) []).changes =
      (fullOf P base new [] manifestId createdAt).changes := by
  unfold fullOf fullPlan latestStateOf
  rw [h, map_some, getD_some]

/-- The stored state is that of some document, and the manifests replay to it. -/
structure Recorded (platform : RecoveryPlatform) (history : RecoveryHistory) (base : FileDoc) :
    Prop where
  entries_eq : ((readLatestRecoveryState history.latest).map (·.entries)).getD [] =
    (scanDoc platform base none).map (·.toRecoveryStateEntry)
  replay_eq : replay entryDeletes history.manifests = liveFiles platform base

def emptyDoc : FileDoc := ⟨none, .empty, .empty, .empty⟩

theorem recorded_empty : Recorded P .empty emptyDoc where
  entries_eq := rfl
  replay_eq := rfl

/-- What a call leaves: without changes all that was there, else the changes replayed. -/
theorem Recorded.outcome_cases (h : Recorded P history base) (call : HistoryCall) :
    (history.outcome P vaultId call = .noop ∧ liveFiles P base = liveFiles P call.doc) ∨
    (history.outcome P vaultId call).isPending = true ∨
    ∃ manifest latest, history.outcome P vaultId call = .created manifest latest ∧
      latest.entries = (scanDoc P call.doc none).map (·.toRecoveryStateEntry) ∧
      manifest.changedEntries.foldl (replayEntry entryDeletes) (liveFiles P base) =
        liveFiles P call.doc := by
  have hchan := @changes_fullPlan _ _ call.doc _ [] [] h.entries_eq
  have hrep := @replay_changes P base call.doc [] []
  rw [← hchan] at hrep
  unfold outcome createRecoverySnapshot
  dsimp only
  split
  · next hnoop =>
    rw [hnoop.1, foldl_nil] at hrep
    exact .inl ⟨rfl, hrep⟩
  split
  · exact .inr (.inl rfl)
  refine .inr (.inr ⟨_, _, rfl, rfl, ?_⟩)
  -- the device of an entry plays no part
  refine Eq.trans ?_ hrep
  exact foldl_map

/-- A call that ends replays to its document. -/
theorem Recorded.replay_step (h : Recorded P history base)
    (hd : (history.outcome P vaultId call).isPending = false) :
    replay entryDeletes (history.step P vaultId call).manifests = liveFiles P call.doc := by
  unfold step
  rcases @outcome_cases _ vaultId _ _ h call with ⟨hnoop, hl⟩ | hp |
    ⟨manifest, latest, hc, _, hl⟩
  · rw [hnoop]
    exact h.replay_eq.trans hl
  · rw [hp] at hd
    cases hd
  rw [hc]
  change replay entryDeletes (history.manifests ++ [manifest]) = _
  rw [replay_append, h.replay_eq, hl]

/-- A call for a document with finite times leaves a state that reads back. -/
theorem Recorded.step (h : Recorded P history base) (hfin : FiniteTimes P call.doc) :
    ∃ base', Recorded P (history.step P vaultId call) base' := by
  have hrep := @replay_step _ vaultId _ _ call h
  unfold RecoveryHistory.step at hrep ⊢
  rcases @outcome_cases _ vaultId _ _ h call with ⟨hnoop, _⟩ | hp |
    ⟨manifest, latest, hc, he, _⟩
  · rw [hnoop]
    exact ⟨base, h⟩
  · cases hout : history.outcome P vaultId call with
    | noop | pending => exact ⟨base, h⟩
    | created =>
      rw [hout] at hp
      cases hp
  rw [hc] at hrep ⊢
  refine ⟨call.doc, ?_, hrep rfl⟩
  have hr : readLatestRecoveryState (some latest) = some latest := by
    refine filter_some_pos ?_
    rw [he, List.all_map, List.all_eq_true]
    intro entry hen
    exact decide_eq_true (hfin entry hen)
  change ((readLatestRecoveryState (some latest)).map (·.entries)).getD [] = _
  rw [hr]
  exact he

theorem recorded_run (calls : List HistoryCall) (hfin : ∀ call ∈ calls, FiniteTimes P call.doc) :
    ∃ base, Recorded P (run P vaultId calls) base := by
  induction calls using List.reverseRecOn with
  | nil => exact ⟨emptyDoc, recorded_empty⟩
  | append_singleton calls call ih =>
    obtain ⟨base, hb⟩ := ih fun earlier hmem => hfin earlier (mem_append_left _ hmem)
    rw [run, foldl_append]
    exact hb.step (hfin call (mem_append_right _ (mem_singleton_self call)))

/-- Replaying the manifests of a run gives the live files of the last document whose call ended. -/
theorem replay_matches_last_document (platform : RecoveryPlatform) (vaultId : JsString)
    (calls : List HistoryCall) (call : HistoryCall)
    (hfinite : ∀ earlier ∈ calls, FiniteTimes platform earlier.doc)
    (hdone : ((run platform vaultId calls).outcome platform vaultId call).isPending = false) :
    replay entryDeletes (run platform vaultId (calls ++ [call])).manifests =
      liveFiles platform call.doc := by
  obtain ⟨base, hb⟩ := @recorded_run _ vaultId calls hfinite
  have hl : run platform vaultId (calls ++ [call]) =
      (run platform vaultId calls).step platform vaultId call := by
    rw [run, foldl_append]
    rfl
  rw [hl]
  exact hb.replay_step hdone

end Runs

section Example

/-- A deleted file at a path. -/
def deletedDoc (path : JsString) : FileDoc where
  schemaVersion := some 2
  fileMeta := YMap.empty.put (js "a") (some (.flat ⟨some path, true, none, none, none⟩))
  idToText := .empty
  pathToId := .empty

def plainCall (doc : FileDoc) : HistoryCall := ⟨doc, ⟨noteOptions, none, none⟩⟩

/-- A deleted file that gets another path is written down as renamed, and so comes back by its
kind. -/
theorem kind_replay_revives_tombstone :
    replay kindDeletes (run asciiPlatform (js "v")
        [plainCall (deletedDoc (js "a.md")), plainCall (deletedDoc (js "b.md"))]).manifests
        (js "a") = some (js "b.md", none) ∧
      liveFiles asciiPlatform (deletedDoc (js "b.md")) (js "a") = none := by
  decide

theorem replay_matches_last_document_edit :
    replay entryDeletes (run asciiPlatform (js "v")
      ([plainCall (vaultNotes (js "one") (js "b.md") false)] ++
        [plainCall (vaultNotes (js "two") (js "d.md") true)])).manifests =
      liveFiles asciiPlatform (vaultNotes (js "two") (js "d.md") true) := by
  refine replay_matches_last_document asciiPlatform (js "v") _ _ ?_ (not_pending_of_no_limit _ rfl)
  intro earlier hear
  obtain rfl := mem_singleton.mp hear
  unfold FiniteTimes
  decide

end Example

end Kaos.Server
