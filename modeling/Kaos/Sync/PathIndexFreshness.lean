import Kaos.Lib.Run
import Kaos.Sync.SchemaMigration

/-! What is looked up in the indexes of paths is what a scan of the document would find. -/
namespace Kaos.Sync

open Kaos.Lib Kaos.Paths Kaos.Yjs VaultSync Txn.Records Option

/-- A lookup of the client, an operation of its own, a transaction that comes in, or an answer of
the server's history. -/
inductive VaultEvent
  | getFileId (path : JsString)
  | getTextForPath (path : JsString)
  | getActiveFileIdsForPath (path : JsString)
  | getActiveMarkdownPaths
  | getActivePathCollisionPaths
  | isPathTombstoned (path : JsString)
  | getMarkdownPathRetirement (path : JsString)
  | getAuthoritativeMarkdownDeleteSnapshot (path : JsString)
  | ensureFile (now : ℚ) (supply : Supply) (operationIds : ℕ → JsString)
      (configuredDevice : Option JsString) (path content : JsString) (device : Option JsString)
      (options : EnsureFileOptions)
  | queueRename (oldPath newPath : JsString)
  | flushRenameBatch (now : ℚ) (ids : ℕ → JsString) (device : Option JsString)
  | applyReconcileRenameBatch (now : ℚ) (ids : ℕ → JsString)
      (renames : OrderedMap JsString JsString) (device : Option JsString)
  | handleRename (now : ℚ) (operationId oldPath newPath : JsString) (device : Option JsString)
  | handleDelete (now : ℚ) (path : JsString) (device : Option JsString)
  | tombstoneIntrinsicExcludedEntries (now : ℚ)
      (shouldTombstoneMarkdownPath shouldTombstoneBlobPath : JsString → Bool)
      (device : Option JsString)
  | resolveActivePathCollision (path : JsString) (preferredDiskContent : Option JsString)
  | runIntegrityChecks (now : ℚ) (supply : Supply) (device : Option JsString)
  | migrateSchemaToV2 (now : ℚ) (ids : ℕ → JsString) (device : Option JsString)
  | clearAllMaps
  | markCurrentSchema
  | markInitialized (initialized : Bool)
  | localPersistenceReady
  | remote (writes : List (JsString × Option MetaValue)) (others : VaultDoc) (ambiguous : Bool)
  | historyKnown (history : JsString → List MarkdownPathHistoryEntry)

/-- A remote transaction: entries of the metadata are set and deleted, and the other maps become
those of `others`. -/
def remoteTxn (doc others : VaultDoc) (writes : List (JsString × Option MetaValue)) : Txn :=
  writes.foldl (fun txn write => txn.putMeta write.1 write.2)
    { doc := { others with metaMap := doc.metaMap }, retirementsTouched := true }

namespace VaultSync

variable (paths : NormalizePath)

def next (sync : VaultSync) : VaultEvent → VaultSync
  | .getFileId path => (sync.getFileId paths.normalize path).2
  | .getTextForPath path => (sync.getTextForPath paths.normalize path).2
  | .getActiveFileIdsForPath path => (sync.getActiveFileIdsForPath paths.normalize path).2
  | .getActiveMarkdownPaths => (sync.getActiveMarkdownPaths paths.normalize).2
  | .getActivePathCollisionPaths => (sync.getActivePathCollisionPaths paths.normalize).2
  | .isPathTombstoned path => (sync.isPathTombstoned paths.normalize path).2
  | .getMarkdownPathRetirement path => (sync.getMarkdownPathRetirement paths.normalize path).2
  | .getAuthoritativeMarkdownDeleteSnapshot path =>
    (sync.getAuthoritativeMarkdownDeleteSnapshot paths.normalize path).2
  | .ensureFile now supply operationIds configuredDevice path content device options =>
    (sync.ensureFile paths.normalize now supply operationIds configuredDevice path content device
      options).2
  | .queueRename oldPath newPath => sync.queueRename paths.normalize oldPath newPath
  | .flushRenameBatch now ids device => sync.flushRenameBatch paths.normalize now ids device
  | .applyReconcileRenameBatch now ids renames device =>
    sync.applyReconcileRenameBatch paths.normalize now ids renames device
  | .handleRename now operationId oldPath newPath device =>
    sync.handleRename paths.normalize now operationId oldPath newPath device
  | .handleDelete now path device => sync.handleDelete paths.normalize now path device
  | .tombstoneIntrinsicExcludedEntries now shouldTombstoneMarkdownPath shouldTombstoneBlobPath
      device =>
    sync.tombstoneIntrinsicExcludedEntries paths.normalize now shouldTombstoneMarkdownPath
      shouldTombstoneBlobPath device
  | .resolveActivePathCollision path preferredDiskContent =>
    (sync.resolveActivePathCollision paths.normalize path preferredDiskContent).2
  | .runIntegrityChecks now supply device =>
    sync.runIntegrityChecks paths.normalize now supply device
  | .migrateSchemaToV2 now ids device => (sync.migrateSchemaToV2 paths.normalize now ids device).1
  | .clearAllMaps => sync.clearAllMaps
  | .markCurrentSchema => sync.markCurrentSchema
  | .markInitialized initialized => sync.markInitialized initialized
  | .localPersistenceReady => { sync with pathIndexesDirty := true }
  | .remote writes others ambiguous => sync.commit (remoteTxn sync.doc others writes) ambiguous
  | .historyKnown history => { sync with history }

end VaultSync

section Operations

variable {norm : JsString → JsString} {sync : VaultSync} {body : Txn → Txn} {doc : VaultDoc}
  {txn : Txn} {path : JsString}

section

variable (h : CacheFresh norm sync)
include h

/-- Marking the indexes keeps every cache fresh. -/
theorem CacheFresh.marked : CacheFresh norm { sync with pathIndexesDirty := true } :=
  ⟨h.snapshot, fun hc => (nomatch hc), h.retirements⟩

theorem CacheFresh.transact (hbody : ∀ txn, txn.Records sync.doc → (body txn).Records sync.doc) :
    CacheFresh norm (sync.transact body) :=
  fresh_commit h (hbody _ (records_start sync.doc)) false

theorem CacheFresh.ensurePathIndexes : CacheFresh norm (sync.ensurePathIndexes norm) := by
  unfold VaultSync.ensurePathIndexes
  split
  · exact ⟨h.snapshot, fun _ => rfl, h.retirements⟩
  · exact h

/-- After the indexes are made sure of, they are those of the document. -/
theorem CacheFresh.indexes_ensured :
    (sync.ensurePathIndexes norm).indexes = computePathIndexes norm sync.doc.metaMap := by
  unfold VaultSync.ensurePathIndexes
  split
  · rfl
  · next hc => exact h.indexes (Bool.eq_false_iff.mpr hc)

end

@[simp] theorem doc_ensurePathIndexes : (sync.ensurePathIndexes norm).doc = sync.doc := by
  unfold ensurePathIndexes
  split <;> rfl

@[simp] theorem history_ensurePathIndexes :
    (sync.ensurePathIndexes norm).history = sync.history := by
  unfold ensurePathIndexes
  split <;> rfl

/-- A lookup of a file leaves the client as it was, or with indexes made sure of. -/
theorem getFileId_snd (norm : JsString → JsString) (sync : VaultSync) (path : JsString) :
    (sync.getFileId norm path).2 = sync ∨
      (sync.getFileId norm path).2 = sync.ensurePathIndexes norm := by
  unfold getFileId
  dsimp only
  split
  · exact .inr rfl
  split
  · exact .inl rfl
  · exact .inr rfl

theorem CacheFresh.getFileId (h : CacheFresh norm sync) (path : JsString) :
    CacheFresh norm (sync.getFileId norm path).2 := by
  rcases getFileId_snd norm sync path with heq | heq <;> rw [heq]
  · exact h
  · exact h.ensurePathIndexes

@[simp] theorem doc_getFileId : (sync.getFileId norm path).2.doc = sync.doc := by
  rcases getFileId_snd norm sync path with heq | heq
  · rw [heq]
  · rw [heq, doc_ensurePathIndexes]

theorem CacheFresh.getActiveFileIdsForPath (h : CacheFresh norm sync) (path : JsString) :
    CacheFresh norm (sync.getActiveFileIdsForPath norm path).2 := by
  unfold VaultSync.getActiveFileIdsForPath
  dsimp only
  split <;> exact h.ensurePathIndexes

theorem CacheFresh.ensureRetirementIndex (h : CacheFresh norm sync) :
    CacheFresh norm (sync.ensureRetirementIndex norm).2 := by
  unfold VaultSync.ensureRetirementIndex
  split
  · exact h
  · exact ⟨h.snapshot, h.indexes, fun index hix => (some.inj hix).symm⟩

/-- The index of retirements is that of the document. -/
theorem CacheFresh.retirements_ensured (h : CacheFresh norm sync) :
    (sync.ensureRetirementIndex norm).1 =
      VaultSync.computeRetirementIndex norm sync.doc.markdownPathRetirements := by
  unfold VaultSync.ensureRetirementIndex
  split
  · next index hix => exact h.retirements index hix
  · rfl

@[simp] theorem doc_ensureRetirementIndex : (sync.ensureRetirementIndex norm).2.doc = sync.doc := by
  unfold ensureRetirementIndex
  split <;> rfl

theorem CacheFresh.isPathTombstoned (h : CacheFresh norm sync) (path : JsString) :
    CacheFresh norm (sync.isPathTombstoned norm path).2 := by
  unfold VaultSync.isPathTombstoned
  dsimp only
  split
  · exact h.ensurePathIndexes
  split
  · exact h.ensurePathIndexes.ensureRetirementIndex.getActiveFileIdsForPath _
  · exact h.ensurePathIndexes.ensureRetirementIndex

theorem CacheFresh.deleteSnapshot (h : CacheFresh norm sync) (path : JsString) :
    CacheFresh norm (sync.getAuthoritativeMarkdownDeleteSnapshot norm path).2 := by
  unfold getAuthoritativeMarkdownDeleteSnapshot
  dsimp only
  split <;> exact h.ensureRetirementIndex

/-- The pending renames are no part of what is cached. -/
theorem CacheFresh.congr {sync' : VaultSync} (h : CacheFresh norm sync)
    (hdoc : sync'.doc = sync.doc) (hind : sync'.indexes = sync.indexes)
    (hdirty : sync'.pathIndexesDirty = sync.pathIndexesDirty)
    (hsnap : sync'.metaSnapshot = sync.metaSnapshot)
    (hret : sync'.markdownRetirementIndex = sync.markdownRetirementIndex) :
    CacheFresh norm sync' := by
  constructor
  · rw [hdoc, hsnap]
    exact h.snapshot
  · rw [hdoc, hind, hdirty]
    exact h.indexes
  rw [hdoc, hret]
  exact h.retirements

theorem CacheFresh.deletePendingRename (h : CacheFresh norm sync) (oldPath : JsString) :
    CacheFresh norm (sync.deletePendingRenameByOldPath oldPath) := by
  unfold deletePendingRenameByOldPath
  split
  · exact h
  · exact h.congr rfl rfl rfl rfl rfl

theorem CacheFresh.setPendingRename (h : CacheFresh norm sync) (oldPath newPath : JsString) :
    CacheFresh norm (sync.setPendingRename oldPath newPath) := by
  unfold VaultSync.setPendingRename
  split
  · exact h.deletePendingRename oldPath
  dsimp only
  split
  · split
    · exact (h.deletePendingRename _).congr rfl rfl rfl rfl rfl
    · exact h.congr rfl rfl rfl rfl rfl
  · exact h.congr rfl rfl rfl rfl rfl

theorem CacheFresh.queueRename (h : CacheFresh norm sync) (oldPath newPath : JsString) :
    CacheFresh norm (sync.queueRename norm oldPath newPath) := by
  have hset : ∀ rootOldPath, CacheFresh norm
      (if rootOldPath = norm newPath then sync.deletePendingRenameByOldPath rootOldPath
        else sync.setPendingRename rootOldPath (norm newPath)) := by
    intro rootOldPath
    split
    · exact h.deletePendingRename _
    · exact h.setPendingRename _ _
  unfold VaultSync.queueRename
  dsimp only
  split
  · exact (hset _).deletePendingRename _
  · exact hset _

/-- The loop of a batch keeps what is observed apart from what its lookups do to the indexes. -/
theorem renames_foldl (now : ℚ) (device : Option JsString) (ids : ℕ → JsString)
    (renames : List (JsString × JsString)) (acc : VaultSync × Txn × ℕ)
    (hr : acc.2.1.Records doc) :
    let applied := renames.foldl (renameInBatch norm now device ids) acc
    applied.1.metaSnapshot = acc.1.metaSnapshot ∧
      applied.1.markdownRetirementIndex = acc.1.markdownRetirementIndex ∧
      applied.2.1.Records doc := by
  induction renames generalizing acc with
  | nil => exact ⟨rfl, rfl, hr⟩
  | cons rename renames ih =>
    have hl : ∀ sync : VaultSync,
        (sync.getFileId norm rename.1).2.metaSnapshot = sync.metaSnapshot ∧
        (sync.getFileId norm rename.1).2.markdownRetirementIndex =
          sync.markdownRetirementIndex := by
      intro sync
      rcases getFileId_snd norm sync rename.1 with heq | heq <;> rw [heq]
      · exact ⟨rfl, rfl⟩
      unfold ensurePathIndexes
      split <;> exact ⟨rfl, rfl⟩
    obtain ⟨hsnap, hret⟩ := hl { acc.1 with doc := acc.2.1.doc }
    have hs : (renameInBatch norm now device ids acc rename).1.metaSnapshot =
          acc.1.metaSnapshot ∧
        (renameInBatch norm now device ids acc rename).1.markdownRetirementIndex =
          acc.1.markdownRetirementIndex ∧
        (renameInBatch norm now device ids acc rename).2.1.Records doc := by
      unfold renameInBatch
      dsimp only
      generalize ({ acc.1 with doc := acc.2.1.doc } : VaultSync).getFileId norm rename.1 =
        found at hsnap hret ⊢
      cases found.1 with
      | some fileId =>
        have hren := (hr.renameFile norm now device fileId rename.1 rename.2
          (ids acc.2.2)).renameBlob now device rename.1 rename.2
        dsimp only
        generalize (acc.2.1.renameFile norm now device fileId rename.1 rename.2
          (ids acc.2.2)).renameBlob now device rename.1 rename.2 = txn at hren ⊢
        exact ⟨hsnap, hret, hren⟩
      | none => exact ⟨hsnap, hret, hr.renameBlob now device rename.1 rename.2⟩
    obtain ⟨hsnap', hret', hr'⟩ := ih _ hs.2.2
    exact ⟨hsnap'.trans hs.1, hret'.trans hs.2.1, hr'⟩

section

variable (h : CacheFresh norm sync) (now : ℚ) (ids : ℕ → JsString)
include h now ids

theorem CacheFresh.applyRenameBatch
    (batch : OrderedMap JsString JsString) (device : Option JsString) :
    CacheFresh norm (sync.applyRenameBatch norm now ids batch device) := by
  unfold VaultSync.applyRenameBatch
  split
  · exact h
  obtain ⟨hsnap, hret, hr⟩ := @renames_foldl norm sync.doc now device
    ids batch.entries (sync, { doc := sync.doc }, 0) (records_start sync.doc)
  -- the marked client that commits has the snapshot and the retirements of the one before
  have hm : CacheFresh norm { (batch.entries.foldl
      (VaultSync.renameInBatch norm now device ids) (sync, { doc := sync.doc }, 0)).1 with
        doc := sync.doc, pathIndexesDirty := true } := by
    refine ⟨?_, fun hc => (nomatch hc), ?_⟩
    · rw [hsnap]
      exact h.snapshot
    rw [hret]
    exact h.retirements
  exact fresh_commit hm hr false

theorem CacheFresh.flushRenameBatch (device : Option JsString) :
    CacheFresh norm (sync.flushRenameBatch norm now ids device) := by
  unfold VaultSync.flushRenameBatch
  split
  · exact h
  have hc : CacheFresh norm sync.clearPendingRenames := h.congr rfl rfl rfl rfl rfl
  exact hc.applyRenameBatch now ids _ device

theorem CacheFresh.applyReconcileRenameBatch (renames : OrderedMap JsString JsString)
    (device : Option JsString) :
    CacheFresh norm (sync.applyReconcileRenameBatch norm now ids renames device) := by
  unfold VaultSync.applyReconcileRenameBatch
  split
  · exact h
  · exact h.applyRenameBatch now ids renames device

theorem CacheFresh.promote (path : JsString) (device : Option JsString) :
    CacheFresh norm (sync.promotePendingRenameTarget norm now ids path device) := by
  unfold promotePendingRenameTarget
  dsimp only
  split
  · exact h
  · exact (h.deletePendingRename _).applyRenameBatch now ids _ device

end

theorem Txn.Records.legacy {txn' : Txn} (h : txn.Records doc) (h' : txn'.Records doc) (uses : Bool) :
    (if uses then txn else txn').Records doc := by
  cases uses
  · exact h'
  · exact h

section

variable (h : CacheFresh norm sync) (now : ℚ)
include h now

theorem CacheFresh.handleRename
    (operationId oldPath newPath : JsString) (device : Option JsString) :
    CacheFresh norm
      (sync.handleRename norm now operationId oldPath newPath device) := by
  unfold VaultSync.handleRename
  dsimp only
  split
  · exact h
  split
  · exact h.getFileId _
  refine CacheFresh.marked ((h.getFileId _).transact fun txn hr => ?_)
  apply putMeta
  apply clearTombstones
  apply setRetirement
  exact hr.legacy ((hr.deletePathToId _).setPathToId _ _) _

theorem CacheFresh.createFile (supply : Supply) (path content : JsString) (device : Option JsString)
    (tombstoneIds : List JsString) (retirement : Option MarkdownPathRetirement) :
    CacheFresh norm (sync.createFile norm now supply path content device tombstoneIds
      retirement).2 := by
  refine CacheFresh.marked (h.transact fun txn hr => ?_)
  have hc : (tombstoneIds.foldl (fun txn tombstoneId => txn.putMeta tombstoneId none)
      (((if txn.doc.usesV2PathModel then txn else txn.setPathToId path (supply.ids 0)).setText
        (supply.ids 0) { item := supply.items 0, content }).setMetaActive now (supply.ids 0)
          (norm path) device)).Records sync.doc := by
    apply foldl
    · intro txn tombstoneId h
      exact h.putMeta tombstoneId none
    apply putMeta
    apply setText
    exact hr.legacy (hr.setPathToId _ _) _
  cases retirement with
  | none => exact hc
  | some retirement => exact hc.deleteRetirement retirement.fileId

theorem CacheFresh.admitFile (supply : Supply)
    (path content : JsString) (device : Option JsString) (options : EnsureFileOptions) :
    CacheFresh norm
      (sync.admitFile norm now supply path content device options).2 := by
  have hasked := CacheFresh.deleteSnapshot h.ensureRetirementIndex path
  unfold VaultSync.admitFile
  dsimp only
  split
  · exact hasked
  split
  · exact hasked
  split
  · exact hasked
  split
  · split
    · exact hasked
    · exact hasked.createFile now supply path content device _ _
  · exact hasked

theorem CacheFresh.ensureFile (supply : Supply)
    (operationIds : ℕ → JsString) (configuredDevice : Option JsString) (path content : JsString)
    (device : Option JsString) (options : EnsureFileOptions) :
    CacheFresh norm (sync.ensureFile norm now supply operationIds configuredDevice path
      content device options).2 := by
  unfold VaultSync.ensureFile
  dsimp only
  split
  · exact h
  split
  · exact h
  have hprom := h.promote now operationIds (norm path) (device.or configuredDevice)
  split
  · exact hprom
  · exact hprom.admitFile now supply _ content device options

theorem CacheFresh.deleteBlobRef (path : JsString) (device : Option JsString) :
    CacheFresh norm (sync.deleteBlobRef norm now path device) := by
  unfold VaultSync.deleteBlobRef
  dsimp only
  split
  · exact h
  · exact h.transact fun txn hr => hr.tombstoneBlob _ _ _ _

theorem CacheFresh.handleDelete (path : JsString) (device : Option JsString) :
    CacheFresh norm (sync.handleDelete norm now path device) := by
  have hcan : CacheFresh norm (sync.cancelPendingRename (norm path)).1 := by
    unfold VaultSync.cancelPendingRename
    split <;> exact h.deletePendingRename _
  unfold VaultSync.handleDelete
  dsimp only
  split
  · split
    · exact (hcan.getFileId _).deleteBlobRef now _ device
    · exact hcan.getFileId _
  refine CacheFresh.marked ((hcan.getFileId _).transact fun txn hr => ?_)
  apply putMeta
  exact hr.legacy (hr.deletePathToId _) _

end

/-- Where the flag is assigned, what it was before must not have been needed. -/
def KeepsMark (normalizePath : JsString → JsString) (sync : VaultSync)
    (shouldTombstoneMarkdownPath shouldTombstoneBlobPath : JsString → Bool) : Prop :=
  sync.pathIndexesDirty = true →
    sync.excludedMarkdown normalizePath shouldTombstoneMarkdownPath = [] →
      sync.excludedBlobs normalizePath shouldTombstoneBlobPath = []

theorem CacheFresh.tombstoneExcluded (h : CacheFresh norm sync) (now : ℚ)
    {markdown blob : JsString → Bool} (device : Option JsString)
    (hk : KeepsMark norm sync markdown blob) :
    CacheFresh norm
      (sync.tombstoneIntrinsicExcludedEntries norm now markdown blob device) := by
  have hblobs : ∀ (entries : List (JsString × BlobRef)) (txn : Txn),
      (entries.foldl (fun txn entry => txn.tombstoneBlob now entry.1 device entry.2) txn).touched =
        txn.touched := by
    intro entries
    induction entries with
    | nil => exact fun _ => rfl
    | cons entry entries ih => exact fun txn => ih _
  have htran : CacheFresh norm (sync.transact fun txn =>
      (sync.excludedBlobs norm blob).foldl
        (fun txn entry => txn.tombstoneBlob now entry.1 device entry.2)
        ((sync.excludedMarkdown norm markdown).foldl (fun txn entry =>
          (if txn.doc.usesV2PathModel then txn else txn.deletePathToId entry.2).setMetaDeleted now
            entry.1 (norm entry.2)) txn)) := by
    refine h.transact fun txn hr => ?_
    refine foldl (fun txn entry h => h.tombstoneBlob _ _ _ _) ?_ _
    refine foldl (fun txn entry h => ?_) hr _
    exact (h.legacy (h.deletePathToId _) _).putMeta _ _
  unfold VaultSync.tombstoneIntrinsicExcludedEntries
  dsimp only
  split
  · exact h
  · next hs =>
    cases hmar : sync.excludedMarkdown norm markdown with
    | cons entry entries =>
      rw [hmar] at htran
      exact htran.marked
    | nil =>
      rw [hmar] at htran hs
      -- only attachments: the flag is cleared, and it was not set
      have hc : sync.pathIndexesDirty = false := by
        by_contra hdirty
        rw [Bool.not_eq_false] at hdirty
        exact hs ⟨rfl, List.length_eq_zero_iff.mpr (hk hdirty hmar)⟩
      refine htran.congr rfl rfl ?_ rfl rfl
      have hn : ((sync.excludedBlobs norm blob).foldl
          (fun (txn : Txn) entry => txn.tombstoneBlob now entry.1 device entry.2)
            { doc := sync.doc }).touched = [] := hblobs _ _
      simp [VaultSync.transact, VaultSync.commit, VaultSync.metaDeepObserver, hn, hc,
        computeIncrementalMetaChanges]

theorem CacheFresh.resolveCollision (h : CacheFresh norm sync) (path : JsString)
    (preferredDiskContent : Option JsString) :
    CacheFresh norm
      (sync.resolveActivePathCollision norm path preferredDiskContent).2 := by
  unfold resolveActivePathCollision
  dsimp only
  split
  · exact h.ensurePathIndexes
  split
  · exact h.ensurePathIndexes
  refine CacheFresh.ensurePathIndexes (CacheFresh.marked (h.ensurePathIndexes.transact
    fun txn hr => ?_))
  refine foldl (fun txn fileId hr => ?_) hr _
  exact (hr.putMeta fileId none).deleteText fileId

theorem CacheFresh.foldl {α β : Type} {step : VaultSync × β → α → VaultSync × β}
    (hs : ∀ acc a, CacheFresh norm acc.1 → CacheFresh norm (step acc a).1) (as : List α)
    (acc : VaultSync × β) (h : CacheFresh norm acc.1) : CacheFresh norm (as.foldl step acc).1 := by
  induction as generalizing acc with
  | nil => exact h
  | cons a as ih => exact ih (step acc a) (hs acc a h)

theorem CacheFresh.repairDuplicateIds (h : CacheFresh norm sync) (now : ℚ) (supply : Supply)
    (device : Option JsString) : CacheFresh norm (sync.repairDuplicateIds now supply device) := by
  unfold VaultSync.repairDuplicateIds
  split
  · exact h
  refine CacheFresh.foldl (fun acc shared hacc => ?_) _ _ h
  refine CacheFresh.foldl (fun acc dupPath hacc => ?_) _ _ hacc
  unfold VaultSync.giveOwnId
  dsimp only
  refine hacc.transact fun txn hr => ?_
  exact ((hr.setPathToId _ _).setText _ _).putMeta _ _

theorem CacheFresh.runIntegrityChecks (h : CacheFresh norm sync) (now : ℚ) (supply : Supply)
    (device : Option JsString) :
    CacheFresh norm (sync.runIntegrityChecks norm now supply device) := by
  have hrep := h.repairDuplicateIds now supply device
  unfold VaultSync.runIntegrityChecks VaultSync.cleanOrphans
  dsimp only
  split
  · refine hrep.ensurePathIndexes.transact fun txn hr => ?_
    refine Txn.Records.foldl (fun txn fileId hr => ?_) hr _
    exact (hr.deleteText fileId).putMeta fileId none
  · exact hrep.ensurePathIndexes

theorem Txn.Records.migrateMapped (now : ℚ) (device : Option JsString)
    (mapped : List (JsString × JsString)) (hr : txn.Records doc) :
    (Kaos.Sync.migrateMapped now device txn mapped).1.Records doc := by
  induction mapped generalizing txn with
  | nil => exact hr
  | cons entry mapped ih =>
    unfold Kaos.Sync.migrateMapped
    split
    · exact hr.putMeta _ _
    split
    · exact hr.putMeta _ _
    apply ih
    split
    · exact hr.putMeta _ _
    · exact hr

theorem Txn.Records.migrateTombstone (now : ℚ) (entry : JsString × MetaValue)
    (hr : txn.Records doc) : (Kaos.Sync.migrateTombstone norm now txn entry).Records doc := by
  unfold Kaos.Sync.migrateTombstone
  split
  · exact hr
  split
  · exact hr.putMeta _ _
  split
  · exact hr.putMeta _ _
  · exact hr

theorem Txn.Records.tombstoneLosers (now : ℚ) (ids : ℕ → JsString) (active losers : List JsString)
    (hr : txn.Records doc) : (Kaos.Sync.tombstoneLosers now ids active losers txn).Records doc := by
  have hfold : ∀ (losers : List JsString) (acc : Txn × ℕ), acc.1.Records doc →
      (losers.foldl (fun acc loser => (acc.1.putMeta (ids acc.2)
        (some (flatDeletedMeta loser now)), acc.2 + 1)) acc).1.Records doc := by
    intro losers
    induction losers with
    | nil => exact fun acc h => h
    | cons loser losers ih => exact fun acc h => ih _ (h.putMeta _ _)
  exact hfold _ _ hr

section

variable (h : CacheFresh norm sync)
include h

theorem CacheFresh.migrateSchemaToV2 (now : ℚ) (ids : ℕ → JsString) (device : Option JsString) :
    CacheFresh norm (sync.migrateSchemaToV2 norm now ids device).1 := by
  refine CacheFresh.marked (h.transact fun txn hr => ?_)
  have hm := hr.migrateMapped now device (canonicalPathById norm txn.doc)
  unfold migrateBody
  dsimp only
  split
  · refine Txn.Records.congr (Txn.Records.tombstoneLosers now ids _ _ ?_) rfl rfl
      fun hf => ⟨hf, rfl⟩
    exact Txn.Records.foldl (fun txn entry h => h.migrateTombstone now entry) hm _
  · exact hm

theorem CacheFresh.clearAllMaps : CacheFresh norm sync.clearAllMaps := by
  refine CacheFresh.marked (h.transact fun txn hr => ?_)
  have hdel := Txn.Records.foldl (fun txn fileId h => h.putMeta fileId none) hr
    (txn.doc.metaMap.entries.map Prod.fst)
  exact hdel.congr rfl rfl fun hf => nomatch hf

theorem CacheFresh.setSchemaVersion (version : ℕ) :
    CacheFresh norm (sync.setSchemaVersion version) :=
  h.transact fun _ hr => hr.congr rfl rfl fun hf => ⟨hf, rfl⟩

theorem CacheFresh.markCurrentSchema : CacheFresh norm sync.markCurrentSchema := by
  unfold VaultSync.markCurrentSchema
  split
  · exact h
  · exact h.setSchemaVersion _

theorem CacheFresh.markInitialized (initialized : Bool) :
    CacheFresh norm (sync.markInitialized initialized) := by
  unfold VaultSync.markInitialized
  split
  · exact h
  split
  · exact h.setSchemaVersion _
  · exact h

theorem CacheFresh.remote (writes : List (JsString × Option MetaValue))
    (others : VaultDoc) (ambiguous : Bool) :
    CacheFresh norm (sync.commit (remoteTxn sync.doc others writes) ambiguous) := by
  refine fresh_commit h ?_ ambiguous
  refine Txn.Records.foldl (fun txn write h => h.putMeta write.1 write.2) ?_ writes
  exact ⟨.refl _, fun _ _ => rfl, List.nodup_nil, fun hf => (nomatch hf)⟩

end

end Operations

section Answers

variable (paths : NormalizePath) (sync : VaultSync)

/-- Nothing is active at a path, and a tombstone, a move away or the server's history tells that
something has been. -/
def Removed (path : JsString) : Prop :=
  activeFileIds paths.normalize sync.doc.metaMap path = [] ∧
    (HasTombstone paths.normalize sync.doc.metaMap path ∨
      (computeRetirementIndex paths.normalize sync.doc.markdownPathRetirements).get? path ≠
        none ∨ sync.history path ≠ [])

/-- Every answer is the one that a scan of the document gives. -/
structure Answers : Prop where
  fileId : sync.doc.usesV2PathModel = true → ∀ path fileId,
    (sync.getFileId paths.normalize path).1 = some fileId ↔
      activeFileIds paths.normalize sync.doc.metaMap (paths.normalize path) = [fileId]
  fileIds : ∀ path, (sync.getActiveFileIdsForPath paths.normalize path).1 =
    (activeFileIds paths.normalize sync.doc.metaMap (paths.normalize path)).mergeSort JsString.le
  activePaths : ∀ path, path ∈ (sync.getActiveMarkdownPaths paths.normalize).1 ↔
    ∃ fileId, activeFileIds paths.normalize sync.doc.metaMap path = [fileId]
  collisionPaths : ∀ path, path ∈ (sync.getActivePathCollisionPaths paths.normalize).1 ↔
    1 < (activeFileIds paths.normalize sync.doc.metaMap path).length
  tombstoned : ∀ path, (sync.isPathTombstoned paths.normalize path).1 = true ↔
    Removed paths sync (paths.normalize path)
  disjoint : ∀ path, path ∈ (sync.getActiveMarkdownPaths paths.normalize).1 →
    path ∉ (sync.getActivePathCollisionPaths paths.normalize).1
  notActive : ∀ path, (sync.isPathTombstoned paths.normalize path).1 = true →
    paths.normalize path ∉ (sync.getActiveMarkdownPaths paths.normalize).1 ∧
      paths.normalize path ∉ (sync.getActivePathCollisionPaths paths.normalize).1
  deleteSnapshot : ∀ path, (sync.isPathTombstoned paths.normalize path).1 = true ↔
    (sync.getAuthoritativeMarkdownDeleteSnapshot paths.normalize path).1 ≠ none

end Answers

section Freshness

variable {paths : NormalizePath} {sync : VaultSync} {path fileId : JsString} {metaMap : SharedMeta}

theorem CacheFresh.indexed (h : CacheFresh paths.normalize sync) : Indexed paths.normalize sync.doc.metaMap
    (sync.ensurePathIndexes paths.normalize).indexes := by
  rw [h.indexes_ensured]
  exact indexed_computePathIndexes

theorem mem_keys_iff {ν : Type} {m : OrderedMap JsString ν} :
    path ∈ m.keys ↔ ∃ value, m.get? path = some value := by
  simp only [OrderedMap.mem_keys, OrderedMap.get?_eq_some]

theorem hasActiveEntry_iff : hasActiveEntry paths.normalize metaMap path = true ↔
    activeFileIds paths.normalize metaMap path ≠ [] := by
  unfold hasActiveEntry
  rw [List.any_eq_true, ne_eq, activeFileIds_eq, List.filterMap_eq_nil_iff]
  push Not
  refine exists_congr fun entry => and_congr_right fun _ => ?_
  unfold activeAt
  rw [pathState_eq]
  cases hd : decodeFileMeta entry.2 with
  | none => simp
  | some decoded => simp [(read_of_decodeFileMeta hd).2.1]

theorem tombstonesAt_eq_nil : tombstonesAt paths.normalize metaMap path = [] ↔
    ¬ HasTombstone paths.normalize metaMap path := by
  unfold tombstonesAt HasTombstone
  rw [← List.length_eq_zero_iff, List.length_mergeSort, List.length_eq_zero_iff,
    List.filterMap_eq_nil_iff]
  push Not
  refine forall₂_congr fun entry _ => ?_
  rw [pathState_eq]
  cases hd : decodeFileMeta entry.2 with
  | none => simp
  | some decoded => simp [(read_of_decodeFileMeta hd).2.1]

section

variable (h : CacheFresh paths.normalize sync)
include h

theorem CacheFresh.fileIds (path : JsString) :
    (sync.getActiveFileIdsForPath paths.normalize path).1 =
      (activeFileIds paths.normalize sync.doc.metaMap (paths.normalize path)).mergeSort
        JsString.le := by
  have hix := h.indexed
  unfold VaultSync.getActiveFileIdsForPath
  dsimp only
  split
  · next collision hcoll => exact ((hix.collided _ _).mp hcoll).2
  · next hn =>
    have hshort : ¬ 1 < (activeFileIds paths.normalize sync.doc.metaMap
        (paths.normalize path)).length := by
      intro hlong
      rw [(hix.collided _ _).mpr ⟨hlong, rfl⟩] at hn
      cases hn
    cases hget : (sync.ensurePathIndexes paths.normalize).indexes.pathIndex.get?
        (paths.normalize path) with
    | some fileId =>
      rw [(hix.single _ _).mp hget, List.mergeSort_singleton]
      rfl
    | none =>
      match hact : activeFileIds paths.normalize sync.doc.metaMap (paths.normalize path) with
      | [] => exact List.mergeSort_nil.symm
      | [fileId] =>
        rw [(hix.single _ _).mpr hact] at hget
        cases hget
      | fileId :: fileId' :: rest =>
        rw [hact] at hshort
        simp at hshort

theorem CacheFresh.activePaths (path : JsString) :
    path ∈ (sync.getActiveMarkdownPaths paths.normalize).1 ↔
      ∃ fileId, activeFileIds paths.normalize sync.doc.metaMap path = [fileId] :=
  mem_keys_iff.trans (exists_congr fun fileId => h.indexed.single path fileId)

theorem CacheFresh.collisionPaths (path : JsString) :
    path ∈ (sync.getActivePathCollisionPaths paths.normalize).1 ↔
      1 < (activeFileIds paths.normalize sync.doc.metaMap path).length := by
  refine mem_keys_iff.trans ?_
  constructor
  · rintro ⟨fileIds, hget⟩
    exact ((h.indexed.collided path fileIds).mp hget).1
  intro hlong
  exact ⟨_, (h.indexed.collided path _).mpr ⟨hlong, rfl⟩⟩

theorem CacheFresh.tombstoned (path : JsString) :
    (sync.isPathTombstoned paths.normalize path).1 = true ↔
      Removed paths sync (paths.normalize path) := by
  have hret : ((sync.ensurePathIndexes paths.normalize).getMarkdownPathRetirement
      paths.normalize (paths.normalize path)).1 = (VaultSync.computeRetirementIndex paths.normalize
        sync.doc.markdownPathRetirements).get? (paths.normalize path) := by
    unfold VaultSync.getMarkdownPathRetirement
    dsimp only
    rw [h.ensurePathIndexes.retirements_ensured, doc_ensurePathIndexes, paths.normalize_normalize]
  unfold VaultSync.isPathTombstoned Removed
  dsimp only
  rw [hret, history_ensurePathIndexes]
  split
  · next hdel =>
    obtain ⟨hact, htom⟩ := (h.indexed.deleted _).mp hdel
    exact ⟨fun _ => ⟨hact, .inl htom⟩, fun _ => rfl⟩
  · next hdel =>
    have htom : activeFileIds paths.normalize sync.doc.metaMap (paths.normalize path) = [] →
        ¬ HasTombstone paths.normalize sync.doc.metaMap (paths.normalize path) :=
      fun hact htom => hdel ((h.indexed.deleted _).mpr ⟨hact, htom⟩)
    split
    · next hk =>
      have hfil := h.ensurePathIndexes.ensureRetirementIndex.fileIds (paths.normalize path)
      rw [doc_ensureRetirementIndex, doc_ensurePathIndexes, paths.normalize_normalize] at hfil
      unfold VaultSync.getMarkdownPathRetirement
      rw [hfil, decide_eq_true_eq, ← List.length_eq_zero_iff, List.length_mergeSort,
        List.length_eq_zero_iff]
      refine ⟨fun hact => ⟨hact, .inr ?_⟩, fun hrem => hrem.1⟩
      rwa [← isSome_iff_ne_none]
    · next hunk =>
      rw [not_or, not_isSome_iff_eq_none, not_not] at hunk
      constructor
      · rintro ⟨⟩
      rintro ⟨hact, hf | hretired | hhis⟩
      · exact absurd hf (htom hact)
      · exact absurd hunk.1 hretired
      · exact absurd hunk.2 hhis

theorem CacheFresh.deleteSnapshot_ne_none (path : JsString) :
    (sync.getAuthoritativeMarkdownDeleteSnapshot paths.normalize path).1 ≠ none ↔
      Removed paths sync (paths.normalize path) := by
  have hret : (sync.getMarkdownPathRetirement paths.normalize (paths.normalize path)).1 =
      (computeRetirementIndex paths.normalize sync.doc.markdownPathRetirements).get?
        (paths.normalize path) := by
    unfold getMarkdownPathRetirement
    dsimp only
    rw [h.retirements_ensured, paths.normalize_normalize]
  unfold getAuthoritativeMarkdownDeleteSnapshot Removed
  dsimp only
  rw [hret]
  split
  · next hn =>
    rw [tombstonesAt_eq_nil, hasActiveEntry_iff] at hn
    refine ⟨fun hne => absurd rfl hne, ?_⟩
    rintro ⟨hact, hrem⟩
    rcases hn with he | ⟨htom, hretired, hhis⟩
    · exact absurd hact he
    rcases hrem with hf | hm | hk
    · exact absurd hf htom
    · exact absurd hretired hm
    · exact absurd hhis hk
  · next hs =>
    rw [tombstonesAt_eq_nil, hasActiveEntry_iff, not_or, not_not] at hs
    refine ⟨fun _ => ⟨hs.1, ?_⟩, fun _ => some_ne_none _⟩
    by_contra hnot
    rw [not_or, not_or, not_not, not_not] at hnot
    exact hs.2 hnot

/-- A client whose caches are fresh answers as a scan would. -/
theorem CacheFresh.answers : Answers paths sync := by
  refine ⟨?_, h.fileIds, h.activePaths, h.collisionPaths, h.tombstoned, ?_, ?_, ?_⟩
  · intro huses path fileId
    unfold VaultSync.getFileId
    rw [if_pos huses]
    exact h.indexed.single _ _
  · intro path hact hcoll
    obtain ⟨fileId, hone⟩ := (h.activePaths path).mp hact
    have hlong := (h.collisionPaths path).mp hcoll
    rw [hone] at hlong
    exact absurd hlong (Nat.lt_irrefl 1)
  · intro path htomb
    have hn := ((h.tombstoned path).mp htomb).1
    constructor
    · intro hact
      obtain ⟨fileId, hone⟩ := (h.activePaths _).mp hact
      rw [hn] at hone
      cases hone
    intro hcoll
    have hlong := (h.collisionPaths _).mp hcoll
    rw [hn] at hlong
    exact absurd hlong (Nat.not_lt_zero 1)
  · intro path
    rw [h.tombstoned, h.deleteSnapshot_ne_none]

end

/-- An event after which the flag of the indexes can still be trusted. -/
def StepKeepsMark (paths : NormalizePath) (sync : VaultSync) : VaultEvent → Prop
  | .tombstoneIntrinsicExcludedEntries _ shouldTombstoneMarkdownPath shouldTombstoneBlobPath _ =>
    KeepsMark paths.normalize sync shouldTombstoneMarkdownPath shouldTombstoneBlobPath
  | _ => True

theorem CacheFresh.next (h : CacheFresh paths.normalize sync) {event : VaultEvent}
    (hkeeps : StepKeepsMark paths sync event) : CacheFresh paths.normalize (sync.next paths event) := by
  cases event with
  | getFileId path => exact h.getFileId path
  | getTextForPath path => exact h.getFileId _
  | getActiveFileIdsForPath path => exact h.getActiveFileIdsForPath path
  | getActiveMarkdownPaths | getActivePathCollisionPaths => exact h.ensurePathIndexes
  | isPathTombstoned path => exact h.isPathTombstoned path
  | getMarkdownPathRetirement path => exact h.ensureRetirementIndex
  | getAuthoritativeMarkdownDeleteSnapshot path => exact h.deleteSnapshot path
  | ensureFile now supply operationIds configuredDevice path content device options =>
    exact h.ensureFile now supply operationIds configuredDevice path content device options
  | queueRename oldPath newPath => exact h.queueRename oldPath newPath
  | flushRenameBatch now ids device => exact h.flushRenameBatch now ids device
  | applyReconcileRenameBatch now ids renames device =>
    exact h.applyReconcileRenameBatch now ids renames device
  | handleRename now operationId oldPath newPath device =>
    exact h.handleRename now operationId oldPath newPath device
  | handleDelete now path device => exact h.handleDelete now path device
  | tombstoneIntrinsicExcludedEntries now markdown blob device =>
    exact h.tombstoneExcluded now device hkeeps
  | resolveActivePathCollision path preferredDiskContent =>
    exact h.resolveCollision path preferredDiskContent
  | runIntegrityChecks now supply device => exact h.runIntegrityChecks now supply device
  | migrateSchemaToV2 now ids device => exact h.migrateSchemaToV2 now ids device
  | clearAllMaps => exact h.clearAllMaps
  | markCurrentSchema => exact h.markCurrentSchema
  | markInitialized initialized => exact h.markInitialized initialized
  | localPersistenceReady => exact h.marked
  | remote writes others ambiguous => exact h.remote writes others ambiguous
  | historyKnown history => exact h.congr rfl rfl rfl rfl rfl

theorem fresh_load (paths : NormalizePath) (doc : VaultDoc) :
    CacheFresh paths.normalize (load doc) :=
  ⟨fun _ => rfl, fun hc => (nomatch hc), fun _ hix => (nomatch hix)⟩

/-- In a run in which the flag is never cleared while it is needed, every answer is the one that a
scan of the document gives. -/
theorem answers_current (paths : NormalizePath) (doc : VaultDoc) (events : List VaultEvent)
    (hkeeps : ∀ n event, events[n]? = some event →
      StepKeepsMark paths (stateAt (next paths) (.load doc) events n) event) (n : ℕ) :
    Answers paths (stateAt (next paths) (.load doc) events n) := by
  apply CacheFresh.answers
  exact stateAt_from (Nat.zero_le n) (fresh_load paths doc) fun k event _ hev h =>
    h.next (hkeeps k event hev)

/-- A vault of schema 2 with one attachment. -/
def attachmentDoc : VaultDoc where
  schemaVersion := .num (some 2)
  pathToBlob := YMap.empty.set (js "x") { hash := js "h", size := 1 }

def noteArrives : VaultEvent :=
  .remote [(js "f", some (createNestedActiveMeta (js "a") 1 none))] attachmentDoc false

def excludeAttachments : VaultEvent :=
  .tombstoneIntrinsicExcludedEntries 2 (fun _ => false) (fun _ => true) none

/-- A note comes in, is looked up, and only then are the attachments cleaned up. -/
theorem answers_current_note :
    Answers .plain (stateAt (next .plain) (.load attachmentDoc)
      [noteArrives, .getFileId (js "a"), excludeAttachments] 3) := by
  refine answers_current .plain attachmentDoc _ ?_ 3
  intro n event hev
  match n with
  | 0 =>
    cases hev
    trivial
  | 1 =>
    cases hev
    trivial
  | 2 =>
    cases hev
    exact nofun
  | n + 3 => cases hev

/-- If the attachments are cleaned up before the note is looked up, it is not found any more. -/
theorem stale_after_cleanup : ¬ Answers .plain (stateAt (next .plain)
    (.load attachmentDoc) [.getFileId (js "a"), noteArrives, excludeAttachments] 3) := by
  intro h
  have hscan := (h.fileId rfl (js "a") (js "f")).mpr rfl
  cases hscan

end Freshness

end Kaos.Sync
