import Mathlib
import Kaos.Sync.RenameBatch

/-! What the files of a disk become in the document, when each operation on them is reported. -/
namespace Kaos.Sync

open Kaos.Lib Kaos.Paths Kaos.Yjs VaultSync Option OrderedMap Function
open Option (bind_some eq_none_iff_forall_ne_some getD_none getD_some some_ne_none)

section Model

/-- A client and its disk. At a path of the disk there is nothing, or a file of the document by its
id, or a file that the document has not taken. `texts` is what the text of each id should be. -/
structure LocalVault where
  sync : VaultSync
  files : JsString → Option (Option JsString)
  texts : JsString → Option YText

/-- What happens on the disk, as it is reported, and the timer of the renames. -/
inductive LocalOperation
  | rename (oldPath newPath : JsString)
  | delete (now : ℚ) (path : JsString) (device : Option JsString)
  | create (now : ℚ) (supply : Supply) (operationIds : ℕ → JsString)
      (configuredDevice : Option JsString) (path content : JsString) (device : Option JsString)
      (options : EnsureFileOptions)
  | flushRenameBatch (now : ℚ) (ids : ℕ → JsString) (device : Option JsString)

variable (paths : NormalizePath)

def LocalVault.next (vault : LocalVault) : LocalOperation → LocalVault
  | .rename oldPath newPath => { vault with
      sync := vault.sync.queueRename paths.normalize oldPath newPath
      files := fun path =>
        if path = paths.normalize newPath then vault.files (paths.normalize oldPath)
        else if path = paths.normalize oldPath then none
        else vault.files path }
  | .delete now path device => { vault with
      sync := vault.sync.handleDelete paths.normalize now path device
      files := Function.update vault.files (paths.normalize path) none }
  | .create now supply operationIds configuredDevice path content device options =>
    let ensured := vault.sync.ensureFile paths.normalize now supply operationIds configuredDevice
      path content device options
    match ensured.1 with
    | .created fileId ytext =>
      { sync := ensured.2
        files := Function.update vault.files (paths.normalize path) (some (some fileId))
        texts := Function.update vault.texts fileId (some { ytext with content }) }
    | _ =>
      { vault with
        sync := ensured.2
        files := Function.update vault.files (paths.normalize path) (some none) }
  | .flushRenameBatch now ids device => { vault with
      sync := vault.sync.flushRenameBatch paths.normalize now ids device }

def LocalVault.run (vault : LocalVault) (operations : List LocalOperation) : LocalVault :=
  operations.foldl (LocalVault.next paths) vault

/-- A file is there to be renamed or deleted, and nothing is where one is to be; a random id is not
in use. -/
def LocalVault.Possible (vault : LocalVault) : LocalOperation → Prop
  | .rename oldPath newPath => vault.files (paths.normalize oldPath) ≠ none ∧
      vault.files (paths.normalize newPath) = none
  | .delete _ path _ => vault.files (paths.normalize path) ≠ none
  | .create _ supply _ _ path _ _ _ => vault.files (paths.normalize path) = none ∧
      vault.sync.doc.metaMap.get? (supply.ids 0) = none ∧
      vault.sync.doc.idToText.get? (supply.ids 0) = none
  | .flushRenameBatch .. => True

/-- No file is made where another is still to be renamed from, and none that has come there by a
pending rename is renamed again. -/
def LocalVault.Unshadowed (vault : LocalVault) : LocalOperation → Prop
  | .rename oldPath _ => vault.sync.renameBatchNewToOld.get? (paths.normalize oldPath) ≠ none →
      vault.sync.renameBatch.get? (paths.normalize oldPath) = none
  | .create _ _ _ _ path _ _ _ => vault.sync.renameBatch.get? (paths.normalize path) = none
  | _ => True

def LocalVault.Goes (vault : LocalVault) : List LocalOperation → Prop
  | [] => True
  | operation :: operations => vault.Possible paths operation ∧ vault.Unshadowed paths operation ∧
      (vault.next paths operation).Goes operations

/-- A vault of which nothing has been reported yet: each path of the disk has the file that is
active there, or one that the document does not have. -/
structure LocalVault.Opened (vault : LocalVault) : Prop where
  model : vault.sync.doc.usesV2PathModel = true
  fresh : CacheFresh paths.normalize vault.sync
  settled : vault.sync.renameBatch = .empty ∧ vault.sync.renameBatchNewToOld = .empty
  files : ∀ path fileId, vault.files path = some (some fileId) ↔
    stateOf paths.normalize vault.sync.doc.metaMap fileId = some (path, false)
  normalized : ∀ path, vault.files path ≠ none → paths.normalize path = path
  texts : ∀ fileId, vault.texts fileId = vault.sync.doc.idToText.get? fileId

/-- A creation that `ensureFile` has no reason to refuse. -/
structure Admitted (sync : VaultSync) (path : JsString) (options : EnsureFileOptions) : Prop where
  tombstone : options.reviveTombstone = false →
    ¬ Removed paths sync (paths.normalize path) ∧ options.historyVerified = true
  policy : options.canCreate = true
  removal : options.expectedRemoval ≠ none →
    (sync.getAuthoritativeMarkdownDeleteSnapshot paths.normalize path).1 = options.expectedRemoval

/-- A creation makes a new file with the text of the disk, unless there is a reason to refuse it. -/
def LocalVault.CreatesAdmitted (vault : LocalVault) : LocalOperation → Prop
  | .create now supply operationIds configuredDevice path content device options =>
    let ensured := vault.sync.ensureFile paths.normalize now supply operationIds configuredDevice
      path content device options
    (Admitted paths vault.sync (paths.normalize path) options →
        ensured.1 = .created (supply.ids 0) { item := supply.items 0, content }) ∧
      (¬ Admitted paths vault.sync (paths.normalize path) options →
        ∀ fileId ytext, ensured.1 ≠ .created fileId ytext)
  | _ => True

/-- The active entries are the files of the disk that the document has taken, with their texts. -/
structure LocalNetEffect (vault : LocalVault) : Prop where
  active : ∀ path fileId, stateOf paths.normalize vault.sync.doc.metaMap fileId =
    some (path, false) ↔ vault.files path = some (some fileId)
  texts : ∀ fileId, vault.sync.doc.idToText.get? fileId = vault.texts fileId

end Model

section Pending

variable {sync : VaultSync} {oldPath newPath path : JsString}

/-- The two maps of pending renames say the same. -/
def Mirrored (sync : VaultSync) : Prop := ∀ oldPath newPath,
  sync.renameBatch.get? oldPath = some newPath ↔
    sync.renameBatchNewToOld.get? newPath = some oldPath

/-- Where the file of a path still is in the document. -/
def VaultSync.rootOf (sync : VaultSync) (path : JsString) : JsString :=
  (sync.renameBatchNewToOld.get? path).getD path

theorem deletePending_none (h : sync.renameBatch.get? oldPath = none) :
    sync.deletePendingRenameByOldPath oldPath = sync := by
  unfold deletePendingRenameByOldPath
  rw [h]

theorem deletePending_some (h : sync.renameBatch.get? oldPath = some newPath) :
    sync.deletePendingRenameByOldPath oldPath = { sync with
      renameBatch := sync.renameBatch.delete oldPath
      renameBatchNewToOld := sync.renameBatchNewToOld.delete newPath } := by
  unfold deletePendingRenameByOldPath
  rw [h]

/-- Without a pending rename, the mirror forgets it too. -/
theorem Mirrored.delete (h : Mirrored sync)
    (hpending : sync.renameBatch.get? oldPath = some newPath) :
    Mirrored (sync.deletePendingRenameByOldPath oldPath) := by
  rw [deletePending_some hpending]
  intro old new
  rw [get?_delete, get?_delete]
  by_cases hold : old = oldPath
  · subst hold
    rw [if_pos rfl]
    constructor
    · exact nofun
    intro hnew
    split at hnew
    · cases hnew
    · next hne =>
      have hb := (h old new).mpr hnew
      rw [hpending, Option.some.injEq] at hb
      exact absurd hb.symm hne
  rw [if_neg hold, h old new]
  by_cases hnew : new = newPath
  · subst hnew
    rw [if_pos rfl]
    constructor
    · intro hb
      rw [(h oldPath new).mp hpending, Option.some.injEq] at hb
      exact absurd hb.symm hold
    · exact nofun
  · rw [if_neg hnew]

theorem setPendingRename_eq (hne : oldPath ≠ newPath)
    (hnew : sync.renameBatchNewToOld.get? newPath = none) :
    sync.setPendingRename oldPath newPath = { sync with
      renameBatch := sync.renameBatch.set oldPath newPath
      renameBatchNewToOld := ((sync.renameBatch.get? oldPath).elim sync.renameBatchNewToOld
        sync.renameBatchNewToOld.delete).set newPath oldPath } := by
  unfold setPendingRename
  rw [if_neg hne]
  cases hpending : sync.renameBatch.get? oldPath with
  | none | some previousTarget => simp [hnew, hpending]

/-- A rename of a file is remembered from where the file still is. -/
structure Requeued (oldPath newPath : JsString) (sync sync' : VaultSync) : Prop where
  doc : sync'.doc = sync.doc
  mirrored : Mirrored sync'
  targets : ∀ path, sync'.renameBatchNewToOld.get? path =
    if path = newPath then if sync.rootOf oldPath = newPath then none
      else some (sync.rootOf oldPath)
    else if path = oldPath then none
    else sync.renameBatchNewToOld.get? path

theorem Requeued.rootOf_new {sync' : VaultSync} (h : Requeued oldPath newPath sync sync') :
    sync'.rootOf newPath = sync.rootOf oldPath := by
  rw [rootOf, h.targets, if_pos rfl]
  split
  · next heq => exact heq.symm
  · rfl

theorem Requeued.rootOf_of_ne {sync' : VaultSync} {path : JsString}
    (h : Requeued oldPath newPath sync sync') (hnew : path ≠ newPath) (hold : path ≠ oldPath) :
    sync'.rootOf path = sync.rootOf path := by
  rw [rootOf, h.targets, if_neg hnew, if_neg hold, rootOf]

variable (hmirrored : Mirrored sync) (hnew : sync.renameBatchNewToOld.get? newPath = none)
  (hold : sync.renameBatch.get? oldPath = none)

include hmirrored hnew in
/-- The file comes back to where it is in the document. -/
theorem requeued_back (hb : sync.renameBatchNewToOld.get? oldPath = some newPath) :
    Requeued oldPath newPath sync (sync.deletePendingRenameByOldPath newPath) := by
  have hpending := (hmirrored newPath oldPath).mpr hb
  have hr : sync.rootOf oldPath = newPath := by rw [rootOf, hb, getD_some]
  refine ⟨?_, hmirrored.delete hpending, ?_⟩
  · rw [deletePending_some hpending]
  intro path
  rw [deletePending_some hpending, hr, if_pos rfl, get?_delete]
  by_cases heq : path = newPath
  · rw [if_pos heq, heq, hnew, ite_self]
  · rw [if_neg heq]

include hmirrored hnew hold in
/-- The file goes on, or goes for the first time. -/
theorem requeued_on (hne : oldPath ≠ newPath) (hr : sync.rootOf oldPath ≠ newPath) :
    Requeued oldPath newPath sync (sync.setPendingRename (sync.rootOf oldPath) newPath) := by
  rw [setPendingRename_eq hr hnew]
  have ht : ∀ path, (((sync.renameBatch.get? (sync.rootOf oldPath)).elim
      sync.renameBatchNewToOld sync.renameBatchNewToOld.delete).set newPath
        (sync.rootOf oldPath)).get? path =
        if path = newPath then some (sync.rootOf oldPath)
        else if path = oldPath then none
        else sync.renameBatchNewToOld.get? path := by
    intro path
    rw [get?_set]
    by_cases heq : path = newPath
    · rw [if_pos heq, if_pos heq]
    rw [if_neg heq, if_neg heq]
    cases hb : sync.renameBatchNewToOld.get? oldPath with
    | some root =>
      rw [rootOf, hb, getD_some, (hmirrored root oldPath).mpr hb]
      exact get?_delete
    | none =>
      rw [rootOf, hb, getD_none, hold]
      by_cases hs : path = oldPath
      · rw [if_pos hs, hs]
        exact hb
      rw [if_neg hs]
      rfl
  refine ⟨rfl, ?_, ?_⟩
  · intro old new
    rw [ht, get?_set]
    by_cases holdRoot : old = sync.rootOf oldPath
    · subst holdRoot
      rw [if_pos rfl, Option.some.injEq]
      constructor
      · rintro rfl
        exact if_pos rfl
      intro hb
      split at hb
      · next heq => exact heq.symm
      split at hb
      · cases hb
      · next ho =>
        have hforth := (hmirrored _ new).mpr hb
        cases hroots : sync.renameBatchNewToOld.get? oldPath with
        | some root =>
          rw [rootOf, hroots, getD_some, (hmirrored root oldPath).mpr hroots,
            Option.some.injEq] at hforth
          exact absurd hforth.symm ho
        | none =>
          rw [rootOf, hroots, getD_none, hold] at hforth
          cases hforth
    rw [if_neg holdRoot, hmirrored old new]
    split
    · next heq =>
      subst heq
      rw [hnew, Option.some.injEq]
      exact ⟨fun hf => (by cases hf), fun hf => absurd hf.symm holdRoot⟩
    split
    · next heq =>
      subst heq
      constructor
      · intro hb
        rw [rootOf, hb, getD_some] at holdRoot
        exact absurd rfl holdRoot
      · rintro ⟨⟩
    · exact Iff.rfl
  · intro path
    rw [ht, if_neg hr]

include hmirrored hnew hold in
/-- What a rename of a file changes in what is pending. -/
theorem requeued_queueRename {norm : JsString → JsString} {rawOld rawNew : JsString}
    (hne : oldPath ≠ newPath) (hrawOld : norm rawOld = oldPath) (hraw : norm rawNew = newPath) :
    Requeued oldPath newPath sync (sync.queueRename norm rawOld rawNew) := by
  have hg : ∀ sync', Requeued oldPath newPath sync sync' →
      sync.rootOf oldPath ≠ oldPath → sync'.renameBatch.get? oldPath = none := by
    intro sync' hreq hr
    rw [eq_none_iff_forall_ne_some]
    intro target hpending
    have hb := (hreq.mirrored oldPath target).mp hpending
    rw [hreq.targets] at hb
    split at hb
    · split at hb
      · cases hb
      · exact hr (some.inj hb)
    split at hb
    · cases hb
    rw [← hmirrored, hold] at hb
    cases hb
  have hreq : Requeued oldPath newPath sync (if sync.rootOf oldPath = newPath then
      sync.deletePendingRenameByOldPath (sync.rootOf oldPath)
      else sync.setPendingRename (sync.rootOf oldPath) newPath) := by
    split
    · next hr =>
      rw [hr]
      refine requeued_back hmirrored hnew ?_
      cases hb : sync.renameBatchNewToOld.get? oldPath with
      | none =>
        rw [rootOf, hb, getD_none] at hr
        exact absurd hr hne
      | some root =>
        rw [rootOf, hb, getD_some] at hr
        rw [hr]
    · next hr => exact requeued_on hmirrored hnew hold hne hr
  unfold queueRename
  dsimp only
  rw [hrawOld, hraw, ← rootOf]
  split
  · next hr =>
    rw [deletePending_none (hg _ hreq hr)]
    exact hreq
  · exact hreq

/-- A deleted file is looked for where it still is. -/
structure Cancelled (path : JsString) (sync sync' : VaultSync) : Prop where
  doc : sync'.doc = sync.doc
  mirrored : Mirrored sync'
  targets : ∀ other, sync'.renameBatchNewToOld.get? other =
    if other = path then none else sync.renameBatchNewToOld.get? other

include hmirrored in
theorem cancelled_cancelPendingRename (hset : sync.renameBatchNewToOld.get? path = none →
    sync.renameBatch.get? path = none) :
    Cancelled path sync (sync.cancelPendingRename path).1 ∧
      (sync.cancelPendingRename path).2 = sync.rootOf path := by
  unfold cancelPendingRename rootOf
  cases hb : sync.renameBatchNewToOld.get? path with
  | some root =>
    have hpending := (hmirrored root path).mpr hb
    refine ⟨⟨?_, hmirrored.delete hpending, ?_⟩, rfl⟩
    · dsimp only
      rw [deletePending_some hpending]
    intro other
    dsimp only
    rw [deletePending_some hpending]
    exact get?_delete
  | none =>
    dsimp only
    rw [deletePending_none (hset hb)]
    refine ⟨⟨rfl, hmirrored, ?_⟩, rfl⟩
    intro other
    split
    · next heq => rw [heq, hb]
    · rfl

end Pending

section Reports

variable {norm : JsString → JsString} {sync sync' : VaultSync} {now : ℚ}
  {path fileId : JsString} {device : Option JsString}

/-- The pending renames are those of another client. -/
def SameRenames (sync sync' : VaultSync) : Prop :=
  sync'.renameBatch = sync.renameBatch ∧ sync'.renameBatchNewToOld = sync.renameBatchNewToOld

theorem SameRenames.mirrored (h : SameRenames sync sync') (hmirrored : Mirrored sync) :
    Mirrored sync' := by
  intro old new
  rw [h.1, h.2]
  exact hmirrored old new

theorem SameRenames.rootOf (h : SameRenames sync sync') (path : JsString) :
    sync'.rootOf path = sync.rootOf path := by
  rw [VaultSync.rootOf, VaultSync.rootOf, h.2]

theorem sameRenames_getFileId : SameRenames sync (sync.getFileId norm path).2 := by
  rcases getFileId_snd norm sync path with heq | heq
  · rw [heq]
    exact ⟨rfl, rfl⟩
  rw [heq, ensurePathIndexes]
  split <;> exact ⟨rfl, rfl⟩

/-- What a report of a deleted file does to the document. -/
structure Reported (sync sync' : VaultSync) : Prop where
  renames : SameRenames sync sync'
  version : sync'.doc.schemaVersion = sync.doc.schemaVersion
  texts : sync'.doc.idToText = sync.doc.idToText

theorem reported_deleteBlobRef : Reported sync (sync.deleteBlobRef norm now path device) ∧
    (sync.deleteBlobRef norm now path device).doc.metaMap = sync.doc.metaMap := by
  unfold deleteBlobRef
  dsimp only
  split <;> exact ⟨⟨⟨rfl, rfl⟩, rfl, rfl⟩, rfl⟩

/-- The file that is found where the deleted one still is becomes a tombstone. -/
theorem reported_handleDelete :
    Reported (sync.cancelPendingRename (norm path)).1
        (sync.handleDelete norm now path device) ∧
      (sync.handleDelete norm now path device).doc.metaMap =
        match ((sync.cancelPendingRename (norm path)).1.getFileId norm
          (sync.cancelPendingRename (norm path)).2).1 with
        | none => (sync.cancelPendingRename (norm path)).1.doc.metaMap
        | some fileId => (sync.cancelPendingRename (norm path)).1.doc.metaMap.put fileId
            (some (deletedEntry now (sync.cancelPendingRename (norm path)).1.doc.metaMap
              fileId (norm (sync.cancelPendingRename (norm path)).2))) := by
  unfold handleDelete
  dsimp only
  generalize (sync.cancelPendingRename (norm path)).2 = root
  generalize (sync.cancelPendingRename (norm path)).1 = cancelled
  have hren := @sameRenames_getFileId norm cancelled root
  have hdoc := @doc_getFileId norm cancelled root
  cases (cancelled.getFileId norm root).1 with dsimp only
  | none =>
    generalize (cancelled.getFileId norm root).2 = found at hren hdoc
    split
    · obtain ⟨⟨hs, hver, htexts⟩, hm⟩ :=
        @reported_deleteBlobRef norm found now root device
      refine ⟨⟨⟨hs.1.trans hren.1, hs.2.trans hren.2⟩, ?_, ?_⟩, ?_⟩
      · rw [hver, hdoc]
      · rw [htexts, hdoc]
      · rw [hm, hdoc]
    · exact ⟨⟨hren, by rw [hdoc], by rw [hdoc]⟩, by rw [hdoc]⟩
  | some fileId =>
    generalize (cancelled.getFileId norm root).2 = found at hren hdoc
    rw [← hdoc]
    have hbody : ∀ txn : Txn, ((if txn.doc.usesV2PathModel then txn
        else txn.deletePathToId root).setMetaDeleted now fileId (norm root)).doc =
          { txn.doc with
            pathToId := if txn.doc.usesV2PathModel then txn.doc.pathToId
              else txn.doc.pathToId.delete root
            metaMap := txn.doc.metaMap.put fileId
              (some (deletedEntry now txn.doc.metaMap fileId (norm root))) } := by
      intro txn
      split <;> rfl
    have hver := congrArg VaultDoc.schemaVersion (hbody { doc := found.doc })
    have htexts := congrArg VaultDoc.idToText (hbody { doc := found.doc })
    have hm := congrArg VaultDoc.metaMap (hbody { doc := found.doc })
    refine ⟨⟨hren, ?_, ?_⟩, hm⟩ <;> rw [← hdoc]
    · exact hver
    · exact htexts

theorem activeFileIds_eq_nil {metaMap : SharedMeta}
    (h : ∀ fileId, stateOf norm metaMap fileId ≠ some (path, false)) :
    activeFileIds norm metaMap path = [] := by
  rw [List.eq_nil_iff_forall_not_mem]
  exact fun fileId hmem => h fileId (mem_activeFileIds.mp hmem)

theorem classifyActivePath_empty (hp : norm path = path)
    (hmodel : sync.doc.usesV2PathModel = true)
    (h : ∀ fileId, stateOf norm sync.doc.metaMap fileId ≠ some (path, false)) :
    sync.classifyActivePath norm path = .empty := by
  unfold classifyActivePath
  dsimp only
  rw [hmodel, if_pos rfl, hp, activeFileIds_eq_nil h]
  rw [List.mergeSort_nil]

variable {supply : Supply} {content : JsString} {tombstoneIds : List JsString}
  {retirement : Option MarkdownPathRetirement}

/-- A new file in the document. -/
structure Created (normalizePath : JsString → JsString) (now : ℚ) (supply : Supply)
    (path content : JsString) (device : Option JsString) (tombstoneIds : List JsString)
    (sync sync' : VaultSync) : Prop where
  renames : SameRenames sync sync'
  version : sync'.doc.schemaVersion = sync.doc.schemaVersion
  texts : sync'.doc.idToText =
    sync.doc.idToText.set (supply.ids 0) { item := supply.items 0, content }
  metas : sync'.doc.metaMap = tombstoneIds.foldl YMap.delete (sync.doc.metaMap.put (supply.ids 0)
    (some (activeEntry now sync.doc.metaMap (supply.ids 0) (normalizePath path) device)))

theorem created_createFile : Created norm now supply path content device tombstoneIds sync
    (sync.createFile norm now supply path content device tombstoneIds retirement).2 := by
  let body : Txn → Txn := fun txn =>
    tombstoneIds.foldl (fun txn tombstoneId => txn.putMeta tombstoneId none)
      (((if txn.doc.usesV2PathModel then txn
        else txn.setPathToId path (supply.ids 0)).setText (supply.ids 0)
          { item := supply.items 0, content }).setMetaActive now (supply.ids 0) (norm path) device)
  have hbody : (body { doc := sync.doc }).doc = { sync.doc with
      pathToId := if sync.doc.usesV2PathModel then sync.doc.pathToId
        else sync.doc.pathToId.set path (supply.ids 0)
      idToText := sync.doc.idToText.set (supply.ids 0) { item := supply.items 0, content }
      metaMap := tombstoneIds.foldl YMap.delete (sync.doc.metaMap.put (supply.ids 0) (some
        (activeEntry now sync.doc.metaMap (supply.ids 0) (norm path) device))) } := by
    refine (foldl_deleteMeta tombstoneIds _).trans ?_
    split <;> rfl
  have hver := congrArg VaultDoc.schemaVersion hbody
  have htexts := congrArg VaultDoc.idToText hbody
  have hmetas := congrArg VaultDoc.metaMap hbody
  cases retirement with
  | none | some retirement => exact ⟨⟨rfl, rfl⟩, hver, htexts, hmetas⟩

theorem SameRenames.trans {sync'' : VaultSync} (h : SameRenames sync sync')
    (h' : SameRenames sync' sync'') : SameRenames sync sync'' :=
  ⟨h'.1.trans h.1, h'.2.trans h.2⟩

theorem Created.congr {made : VaultSync} (h : Created norm now supply path content device
    tombstoneIds sync' made) (hdoc : sync'.doc = sync.doc) (hs : SameRenames sync sync') :
    Created norm now supply path content device tombstoneIds sync made := by
  obtain ⟨hren, hver, htexts, hmetas⟩ := h
  rw [hdoc] at hver htexts hmetas
  exact ⟨hs.trans hren, hver, htexts, hmetas⟩

/-- What the client remembers of a document does not change what it answers. -/
theorem deleteSnapshot_congr (hfr : CacheFresh norm sync) (hfr' : CacheFresh norm sync')
    (hdoc : sync'.doc = sync.doc) (hhis : sync'.history = sync.history) :
    (sync'.getAuthoritativeMarkdownDeleteSnapshot norm path).1 =
      (sync.getAuthoritativeMarkdownDeleteSnapshot norm path).1 := by
  unfold getAuthoritativeMarkdownDeleteSnapshot getMarkdownPathRetirement
  dsimp only
  rw [hfr.retirements_ensured, hfr'.retirements_ensured, hdoc, hhis]
  split <;> rfl

theorem ensured_retirementIndex :
    SameRenames sync (sync.ensureRetirementIndex norm).2 ∧
      (sync.ensureRetirementIndex norm).2.history = sync.history := by
  unfold ensureRetirementIndex
  split <;> exact ⟨⟨rfl, rfl⟩, rfl⟩

/-- A creation that is refused changes nothing, any other makes the file. -/
inductive Ensured (paths : NormalizePath) (now : ℚ) (supply : Supply) (path content : JsString)
    (device : Option JsString) (options : EnsureFileOptions) (sync : VaultSync) :
    EnsureFileResult × VaultSync → Prop
  | refused {result : EnsureFileResult} {sync' : VaultSync}
      (hreason : ¬ Admitted paths sync path options)
      (hresult : ∀ fileId ytext, result ≠ .created fileId ytext)
      (hdoc : sync'.doc = sync.doc) (hrenames : SameRenames sync sync') :
      Ensured paths now supply path content device options sync (result, sync')
  | created {sync' : VaultSync} (hadmitted : Admitted paths sync path options)
      (hcreated : Created paths.normalize now supply path content device
        (getMarkdownTombstoneIds paths.normalize sync.doc.metaMap path) sync sync') :
      Ensured paths now supply path content device options sync
        (.created (supply.ids 0) { item := supply.items 0, content }, sync')

theorem deleteSnapshot_snd : (sync.getAuthoritativeMarkdownDeleteSnapshot norm path).2 =
    (sync.ensureRetirementIndex norm).2 := by
  unfold getAuthoritativeMarkdownDeleteSnapshot
  dsimp only
  split <;> rfl

theorem ensured_admitFile {paths : NormalizePath} {options : EnsureFileOptions}
    (hfr : CacheFresh paths.normalize sync) (he : ∀ sync' : VaultSync, sync'.doc = sync.doc →
      sync'.classifyActivePath paths.normalize path = .empty) :
    Ensured paths now supply path content device options sync
      (sync.admitFile paths.normalize now supply path content device options) := by
  obtain ⟨hren, hhis⟩ := @ensured_retirementIndex paths.normalize sync
  have hf := hfr.ensureRetirementIndex
  have hfir := @doc_ensureRetirementIndex paths.normalize sync
  unfold admitFile getMarkdownPathRetirement
  dsimp only
  generalize (sync.ensureRetirementIndex paths.normalize).1.get? (paths.normalize path) = retirement
  generalize (sync.ensureRetirementIndex paths.normalize).2 = first at *
  have hremoval : (first.getAuthoritativeMarkdownDeleteSnapshot paths.normalize path).1.isSome =
      true ↔ Removed paths sync (paths.normalize path) := by
    rw [isSome_iff_ne_none, hf.deleteSnapshot_ne_none path, Removed, hfir, hhis, ← Removed]
  have hasked := hf.deleteSnapshot path
  obtain ⟨hren', hhis'⟩ := @ensured_retirementIndex paths.normalize first
  have hask := @doc_ensureRetirementIndex paths.normalize first
  rw [deleteSnapshot_snd] at hasked ⊢
  generalize (first.ensureRetirementIndex paths.normalize).2 = asked at *
  have hdoc : asked.doc = sync.doc := hask.trans hfir
  have hs := hren.trans hren'
  have hsnap := @deleteSnapshot_congr paths.normalize sync asked path hfr hasked hdoc
    (hhis'.trans hhis)
  split
  · next hrem =>
    refine .refused ?_ (fun _ _ => by simp) hdoc hs
    intro hadm
    have hrev : options.reviveTombstone = false := by simpa using hrem.2
    exact (hadm.tombstone hrev).1 (hremoval.mp hrem.1)
  · next hk =>
    split
    · next hunv =>
      refine .refused ?_ (fun _ _ => by simp) hdoc hs
      intro hadm
      have hrev : options.reviveTombstone = false := by simpa using hunv.1
      have hv := (hadm.tombstone hrev).2
      rw [hv] at hunv
      exact absurd hunv.2 (by simp)
    · next hv =>
      split
      · next hpol =>
        refine .refused ?_ (fun _ _ => by simp) hdoc hs
        intro hadm
        rw [hadm.policy] at hpol
        cases hpol
      · next hpol =>
        rw [he asked hdoc]
        dsimp only
        split
        · next hch =>
          refine .refused ?_ (fun _ _ => by simp) hdoc hs
          intro hadm
          rw [hsnap] at hch
          exact hch.2 (hadm.removal (isSome_iff_ne_none.mp hch.1))
        · next hunc =>
          have hcreated := @created_createFile paths.normalize asked now path device supply content
            (getMarkdownTombstoneIds paths.normalize sync.doc.metaMap path) retirement
          refine .created ⟨?_, ?_, ?_⟩ (hcreated.congr hdoc hs)
          · intro hrev
            constructor
            · intro hrem
              exact hk ⟨hremoval.mpr hrem, by simpa using hrev⟩
            by_contra hunv
            exact hv ⟨by simpa using hrev, by simpa using hunv⟩
          · simpa using hpol
          intro hexp
          rw [← hsnap]
          by_contra hdif
          exact hunc ⟨isSome_iff_ne_none.mpr hexp, hdif⟩

variable {ids : ℕ → JsString}

theorem sameRenames_renameInBatch {acc : VaultSync × Txn × ℕ} {rename : JsString × JsString} :
    SameRenames acc.1 (renameInBatch norm now device ids acc rename).1 := by
  have hf := @sameRenames_getFileId norm { acc.1 with doc := acc.2.1.doc } rename.1
  unfold renameInBatch
  dsimp only
  split <;> exact hf

theorem sameRenames_applyRenameBatch {batch : OrderedMap JsString JsString} :
    SameRenames sync (sync.applyRenameBatch norm now ids batch device) := by
  have hren : ∀ (renames : List (JsString × JsString)) (acc : VaultSync × Txn × ℕ),
      SameRenames acc.1 (renames.foldl (renameInBatch norm now device ids) acc).1 := by
    intro renames
    induction renames with
    | nil => exact fun _ => ⟨rfl, rfl⟩
    | cons rename renames ih => exact fun acc => sameRenames_renameInBatch.trans (ih _)
  unfold applyRenameBatch
  split
  · exact ⟨rfl, rfl⟩
  · exact hren batch.entries (sync, { doc := sync.doc }, 0)

end Reports

section Steps

variable {paths : NormalizePath} {vault : LocalVault} {path oldPath newPath fileId : JsString}

/-- Every file of the disk that the document has is active where it was before its pending rename,
and nothing else is active. -/
structure InStep (paths : NormalizePath) (vault : LocalVault) : Prop where
  model : vault.sync.doc.usesV2PathModel = true
  fresh : CacheFresh paths.normalize vault.sync
  mirrored : Mirrored vault.sync
  active : ∀ fileId root, stateOf paths.normalize vault.sync.doc.metaMap fileId =
    some (root, false) ↔
      ∃ path, vault.files path = some (some fileId) ∧ vault.sync.rootOf path = root
  single : ∀ path other fileId, vault.files path = some (some fileId) →
    vault.files other = some (some fileId) → path = other
  arrived : ∀ path root, vault.sync.renameBatchNewToOld.get? path = some root →
    vault.files path ≠ none
  settled : ∀ path, vault.files path ≠ none → vault.sync.renameBatchNewToOld.get? path = none →
    vault.sync.renameBatch.get? path = none
  normalized : ∀ path, vault.files path ≠ none → paths.normalize path = path
  roots : ∀ path root, vault.sync.renameBatchNewToOld.get? path = some root →
    paths.normalize root = root
  texts : ∀ fileId, vault.sync.doc.idToText.get? fileId = vault.texts fileId

/-- A vault that has just been opened. -/
theorem LocalVault.Opened.inStep (h : vault.Opened paths) : InStep paths vault := by
  obtain ⟨hb, hm⟩ := h.settled
  have hr : ∀ path, vault.sync.rootOf path = path := by
    intro path
    rw [rootOf, hm]
    rfl
  refine ⟨h.model, h.fresh, ?_, ?_, ?_, ?_, ?_, h.normalized, ?_,
    fun fileId => (h.texts fileId).symm⟩
  · intro old new
    rw [hb, hm]
    exact ⟨fun hf => (by cases hf), fun hf => (by cases hf)⟩
  · intro fileId root
    constructor
    · intro hst
      exact ⟨root, (h.files root fileId).mpr hst, hr root⟩
    rintro ⟨path, hfi, rfl⟩
    rw [hr]
    exact (h.files path fileId).mp hfi
  · intro path other fileId hfi ho
    rw [h.files] at hfi ho
    rw [hfi, Option.some.injEq, Prod.mk.injEq] at ho
    exact ho.1
  · intro path root hpending
    rw [hm] at hpending
    cases hpending
  · intro path _ _
    rw [hb]
    rfl
  intro path root hpending
  rw [hm] at hpending
  cases hpending

variable (h : InStep paths vault)

include h in
/-- Two files have not been at one path. -/
theorem InStep.rootOf_inj {other : JsString} (hp : vault.files path ≠ none)
    (ho : vault.files other ≠ none) (hr : vault.sync.rootOf path = vault.sync.rootOf other) :
    path = other := by
  have hclash : ∀ {path other : JsString}, vault.files other ≠ none →
      vault.sync.renameBatchNewToOld.get? other = none →
        vault.sync.renameBatchNewToOld.get? path ≠ some other := by
    intro path other ho hset hpending
    have hn := h.settled other ho hset
    rw [(h.mirrored other path).mpr hpending] at hn
    cases hn
  unfold rootOf at hr
  cases hpending : vault.sync.renameBatchNewToOld.get? path with
  | some root =>
    cases hpending' : vault.sync.renameBatchNewToOld.get? other with
    | some root' =>
      rw [hpending, hpending', getD_some, getD_some] at hr
      subst hr
      have hforth := (h.mirrored root path).mpr hpending
      rw [(h.mirrored root other).mpr hpending', Option.some.injEq] at hforth
      exact hforth.symm
    | none =>
      rw [hpending, hpending', getD_some, getD_none] at hr
      exact absurd (hr ▸ hpending) (hclash ho hpending')
  | none =>
    cases hpending' : vault.sync.renameBatchNewToOld.get? other with
    | some root' =>
      rw [hpending, hpending', getD_some, getD_none] at hr
      exact absurd (hr ▸ hpending') (hclash hp hpending)
    | none =>
      rw [hpending, hpending', getD_none, getD_none] at hr
      exact hr

include h in
/-- What the document has at the root of a path is the file of the path. -/
theorem InStep.foundAt_root (hp : vault.files path ≠ none) :
    FoundAt paths vault.sync.doc (vault.sync.rootOf path) fileId ↔
      vault.files path = some (some fileId) := by
  rw [foundAt_of_none (legacyId_of_v2 h.model), h.active]
  constructor
  · rintro ⟨other, hf, hr⟩
    have ho : vault.files other ≠ none := by
      rw [hf]
      exact some_ne_none _
    rw [← h.rootOf_inj ho hp hr]
    exact hf
  · intro hf
    exact ⟨path, hf, rfl⟩

include h in
theorem InStep.fileAt_root (hp : vault.files path ≠ none) :
    FileAt paths vault.sync.doc (vault.sync.rootOf path) fileId ↔
      vault.files path = some (some fileId) := by
  rw [fileAt_iff, h.foundAt_root hp]
  constructor
  · exact fun hf => hf.1
  intro hf
  refine ⟨hf, fun other ho => ?_⟩
  rw [h.foundAt_root hp, hf] at ho
  exact (some.inj (some.inj ho)).symm

include h in
theorem InStep.normalize_rootOf (hp : vault.files path ≠ none) :
    paths.normalize (vault.sync.rootOf path) = vault.sync.rootOf path := by
  unfold rootOf
  cases hpending : vault.sync.renameBatchNewToOld.get? path with
  | none => exact h.normalized path hp
  | some root => exact h.roots path root hpending

/-- The file of one path has gone to another. -/
def Carried (oldPath newPath : JsString) (files files' : JsString → Option (Option JsString)) :
    Prop :=
  ∀ path file, files' path = some file ↔ path = newPath ∧ files oldPath = some file ∨
    path ≠ newPath ∧ path ≠ oldPath ∧ files path = some file

theorem carried_rename {files : JsString → Option (Option JsString)} :
    Carried oldPath newPath files fun path =>
      if path = newPath then files oldPath else if path = oldPath then none else files path := by
  intro path file
  dsimp only
  split
  · next heq => simp [heq]
  · next hne =>
    split
    · next heq =>
      subst heq
      simp [hne]
    · next ho => simp [hne, ho]

section Rename

variable {sync' : VaultSync} {files' : JsString → Option (Option JsString)}
  (hq : Requeued oldPath newPath vault.sync sync') (hc : Carried oldPath newPath vault.files files')
  (hold : vault.files oldPath ≠ none)

include h hq hc in
theorem InStep.active_rename (hnew : vault.files newPath = none) (root : JsString) :
    stateOf paths.normalize vault.sync.doc.metaMap fileId = some (root, false) ↔
      ∃ path, files' path = some (some fileId) ∧ sync'.rootOf path = root := by
  rw [h.active]
  constructor <;> rintro ⟨path, hf, rfl⟩
  · by_cases heq : path = oldPath
    · subst heq
      exact ⟨newPath, (hc _ _).mpr (.inl ⟨rfl, hf⟩), hq.rootOf_new⟩
    have hne : path ≠ newPath := by
      rintro rfl
      rw [hnew] at hf
      cases hf
    exact ⟨path, (hc _ _).mpr (.inr ⟨hne, heq, hf⟩), hq.rootOf_of_ne hne heq⟩
  · rcases (hc _ _).mp hf with ⟨rfl, hb⟩ | ⟨hne, heq, hb⟩
    · exact ⟨oldPath, hb, hq.rootOf_new.symm⟩
    · exact ⟨path, hb, (hq.rootOf_of_ne hne heq).symm⟩

include h hc in
theorem InStep.single_rename {other : JsString} (hp : files' path = some (some fileId))
    (ho : files' other = some (some fileId)) : path = other := by
  rcases (hc _ _).mp hp with ⟨rfl, hf⟩ | ⟨hne, heq, hf⟩
  · rcases (hc _ _).mp ho with ⟨rfl, -⟩ | ⟨-, heq', hf'⟩
    · rfl
    · exact absurd (h.single oldPath other fileId hf hf').symm heq'
  rcases (hc _ _).mp ho with ⟨rfl, hf'⟩ | ⟨-, -, hf'⟩
  · exact absurd (h.single path oldPath fileId hf hf') heq
  · exact h.single path other fileId hf hf'

include h hq hc hold in
theorem InStep.arrived_rename {root : JsString}
    (hpending : sync'.renameBatchNewToOld.get? path = some root) : files' path ≠ none := by
  rw [hq.targets] at hpending
  rw [← isSome_iff_ne_none, isSome_iff_exists] at hold ⊢
  split at hpending
  · next heq =>
    obtain ⟨file, hf⟩ := hold
    exact ⟨file, (hc _ _).mpr (.inl ⟨heq, hf⟩)⟩
  · next hne =>
    split at hpending
    · cases hpending
    · next heq =>
      obtain ⟨file, hf⟩ := ne_none_iff_exists'.mp (h.arrived path root hpending)
      exact ⟨file, (hc _ _).mpr (.inr ⟨hne, heq, hf⟩)⟩

include h hq hc hold in
/-- Only a file that has come back is where another one could still be. -/
theorem InStep.settled_rename (hp : files' path ≠ none)
    (hset : sync'.renameBatchNewToOld.get? path = none) :
    sync'.renameBatch.get? path = none := by
  rw [eq_none_iff_forall_ne_some]
  intro target hpending
  obtain ⟨file, hf⟩ := ne_none_iff_exists'.mp hp
  rw [hq.mirrored, hq.targets] at hpending
  rw [hq.targets] at hset
  rcases (hc _ _).mp hf with ⟨rfl, -⟩ | ⟨hne, heq, hb⟩
  · split at hpending
    · split at hpending
      · cases hpending
      · next ho => exact ho (some.inj hpending)
    split at hpending
    · cases hpending
    · next ho =>
      rw [if_pos rfl] at hset
      split at hset
      · next hbk =>
        have htgt : vault.sync.rootOf target = path := by
          rw [rootOf, hpending, getD_some]
        exact ho (h.rootOf_inj (h.arrived target path hpending) hold (htgt.trans hbk.symm))
      · cases hset
  have hth : vault.files path ≠ none := by
    rw [hb]
    exact some_ne_none _
  rw [if_neg hne, if_neg heq] at hset
  have hn := h.settled path hth hset
  split at hpending
  · split at hpending
    · cases hpending
    have hs : vault.sync.rootOf path = vault.sync.rootOf oldPath := by
      rw [some.inj hpending, rootOf, hset, getD_none]
    exact heq (h.rootOf_inj hth hold hs)
  split at hpending
  · cases hpending
  rw [← h.mirrored, hn] at hpending
  cases hpending

include h hq hold in
theorem InStep.roots_rename {root : JsString}
    (hpending : sync'.renameBatchNewToOld.get? path = some root) :
    paths.normalize root = root := by
  rw [hq.targets] at hpending
  split at hpending
  · split at hpending
    · cases hpending
    rw [Option.some.injEq] at hpending
    subst hpending
    exact h.normalize_rootOf hold
  · split at hpending
    · cases hpending
    · exact h.roots path root hpending

end Rename

include h in
/-- A rename on the disk. -/
theorem InStep.rename (hold : vault.files (paths.normalize oldPath) ≠ none)
    (hnew : vault.files (paths.normalize newPath) = none)
    (huns : vault.sync.renameBatchNewToOld.get? (paths.normalize oldPath) ≠ none →
      vault.sync.renameBatch.get? (paths.normalize oldPath) = none) :
    InStep paths (vault.next paths (.rename oldPath newPath)) := by
  have hq : Requeued (paths.normalize oldPath) (paths.normalize newPath) vault.sync
      (vault.sync.queueRename paths.normalize oldPath newPath) := by
    refine requeued_queueRename h.mirrored ?_ ?_ ?_ rfl rfl
    · rw [eq_none_iff_forall_ne_some]
      exact fun root hpending => h.arrived _ root hpending hnew
    · by_cases hset : vault.sync.renameBatchNewToOld.get? (paths.normalize oldPath) = none
      · exact h.settled _ hold hset
      · exact huns hset
    rintro heq
    exact hold (heq ▸ hnew)
  have hc : Carried (paths.normalize oldPath) (paths.normalize newPath) vault.files
      (vault.next paths (.rename oldPath newPath)).files := carried_rename
  refine ⟨?_, h.fresh.queueRename oldPath newPath, hq.mirrored, ?_,
    fun path other fileId => h.single_rename hc, fun path root => h.arrived_rename hq hc hold,
    fun path => h.settled_rename hq hc hold, ?_, fun path root => h.roots_rename hq hold, ?_⟩
  · rw [LocalVault.next, hq.doc]
    exact h.model
  · intro fileId root
    rw [LocalVault.next, hq.doc]
    exact h.active_rename hq hc hnew root
  · intro path hp
    obtain ⟨file, hf⟩ := ne_none_iff_exists'.mp hp
    rcases (hc _ _).mp hf with ⟨rfl, -⟩ | ⟨-, -, hf⟩
    · exact paths.normalize_normalize newPath
    refine h.normalized path ?_
    rw [hf]
    exact some_ne_none _
  · intro fileId
    rw [LocalVault.next, hq.doc]
    exact h.texts fileId

variable {metaMap : SharedMeta} {now : ℚ}

theorem stateOf_deletedEntry {root : JsString}
    (hr : paths.normalize root = root) : stateOf paths.normalize
      (metaMap.put fileId (some (deletedEntry now metaMap fileId (paths.normalize root)))) fileId =
        some (root, true) := by
  rw [stateOf, YMap.get?_put_self, bind_some, pathState_eq,
    decodeFileMeta_deletedEntry (paths.normalize_ne_nil root), hr]
  simp [DecodedFileMeta.isDeleted, hr]

theorem stateOf_put_of_ne {other : JsString} {value : Option MetaValue}
    (hne : other ≠ fileId) : stateOf paths.normalize (metaMap.put fileId value) other =
      stateOf paths.normalize metaMap other := by
  rw [stateOf, YMap.get?_put_of_ne hne, ← stateOf]

include h in
/-- A deletion on the disk. -/
theorem InStep.delete {device : Option JsString}
    (hth : vault.files (paths.normalize path) ≠ none) :
    InStep paths (vault.next paths (.delete now path device)) := by
  obtain ⟨hcan, hres⟩ := cancelled_cancelPendingRename h.mirrored
    (h.settled (paths.normalize path) hth)
  obtain ⟨hrep, hm⟩ := @reported_handleDelete paths.normalize vault.sync now path device
  have hfr := h.fresh.handleDelete now path device
  have hcancelledFresh : CacheFresh paths.normalize
      (vault.sync.cancelPendingRename (paths.normalize path)).1 := by
    unfold cancelPendingRename
    split <;> exact h.fresh.deletePendingRename _
  have hnor := h.normalize_rootOf hth
  rw [hres] at hm
  have hfd : ∀ fileId, ((vault.sync.cancelPendingRename (paths.normalize path)).1.getFileId
      paths.normalize (vault.sync.rootOf (paths.normalize path))).1 = some fileId ↔
        vault.files (paths.normalize path) = some (some fileId) := by
    intro fileId
    rw [getFileId_iff hcancelledFresh, hnor, hcan.doc]
    exact h.fileAt_root hth
  unfold LocalVault.next
  dsimp only
  generalize vault.sync.handleDelete paths.normalize now path device = sync' at *
  generalize (vault.sync.cancelPendingRename (paths.normalize path)).1 = cancelled at *
  generalize paths.normalize path = deleted at *
  generalize (cancelled.getFileId paths.normalize (vault.sync.rootOf deleted)).1 = found at *
  have hst : ∀ fileId root, stateOf paths.normalize sync'.doc.metaMap fileId =
      some (root, false) ↔ stateOf paths.normalize vault.sync.doc.metaMap fileId =
        some (root, false) ∧ vault.files deleted ≠ some (some fileId) := by
    intro fileId root
    rw [hm, ne_eq, ← hfd, hcan.doc]
    cases found with
    | none => exact ⟨fun hst => ⟨hst, fun hf => (nomatch hf)⟩, And.left⟩
    | some goneId =>
      by_cases heq : fileId = goneId
      · subst heq
        rw [stateOf_deletedEntry hnor]
        exact ⟨fun hf => (nomatch hf), fun hf => absurd rfl hf.2⟩
      rw [stateOf_put_of_ne heq]
      refine ⟨fun hst => ⟨hst, ?_⟩, And.left⟩
      intro hs
      exact heq (some.inj hs).symm
  have ht : ∀ path, sync'.renameBatchNewToOld.get? path =
      if path = deleted then none else vault.sync.renameBatchNewToOld.get? path := by
    intro path
    rw [hrep.renames.2, hcan.targets]
  have hroots : ∀ path, path ≠ deleted → sync'.rootOf path = vault.sync.rootOf path := by
    intro path hne
    rw [rootOf, ht, if_neg hne, rootOf]
  have hfs : ∀ path file, Function.update vault.files deleted none path = some file ↔
      path ≠ deleted ∧ vault.files path = some file := by
    intro path file
    rw [update_apply]
    split
    · next heq => exact ⟨fun hf => (nomatch hf), fun hf => absurd heq hf.1⟩
    · next hne => exact ⟨fun hfi => ⟨hne, hfi⟩, And.right⟩
  have hther : ∀ path, Function.update vault.files deleted none path ≠ none →
      path ≠ deleted ∧ vault.files path ≠ none := by
    intro path hp
    obtain ⟨file, hfi⟩ := ne_none_iff_exists'.mp hp
    rw [hfs] at hfi
    exact ⟨hfi.1, by rw [hfi.2]; exact some_ne_none _⟩
  have hpending : ∀ path target, sync'.renameBatch.get? path = some target →
      vault.sync.renameBatch.get? path = some target := by
    intro path target hbt
    rw [hrep.renames.1, hcan.mirrored, hcan.targets] at hbt
    split at hbt
    · cases hbt
    · exact (h.mirrored path target).mpr hbt
  refine ⟨?_, hfr, hrep.renames.mirrored hcan.mirrored, ?_, ?_, ?_, ?_, ?_, ?_, ?_⟩
  · rw [usesV2_of_version hrep.version, hcan.doc]
    exact h.model
  · intro fileId root
    rw [hst, h.active]
    constructor
    · rintro ⟨⟨path, hfi, rfl⟩, hk⟩
      have hne : path ≠ deleted := by
        rintro rfl
        exact hk hfi
      exact ⟨path, (hfs _ _).mpr ⟨hne, hfi⟩, hroots path hne⟩
    rintro ⟨path, hfi, rfl⟩
    obtain ⟨hne, hb⟩ := (hfs _ _).mp hfi
    refine ⟨⟨path, hb, (hroots path hne).symm⟩, fun hg => ?_⟩
    exact hne (h.single path deleted fileId hb hg)
  · intro path other fileId hp ho
    exact h.single path other fileId ((hfs _ _).mp hp).2 ((hfs _ _).mp ho).2
  · intro path root hbt
    rw [ht] at hbt
    split at hbt
    · cases hbt
    · next hne =>
      dsimp only
      rw [update_of_ne hne]
      exact h.arrived path root hbt
  · intro path hp hset
    obtain ⟨hne, hb⟩ := hther path hp
    rw [ht, if_neg hne] at hset
    rw [eq_none_iff_forall_ne_some]
    intro target hbt
    have hn := h.settled path hb hset
    rw [hpending path target hbt] at hn
    cases hn
  · exact fun path hp => h.normalized path (hther path hp).2
  · intro path root hbt
    rw [ht] at hbt
    split at hbt
    · cases hbt
    · exact h.roots path root hbt
  · intro fileId
    rw [hrep.texts, hcan.doc]
    exact h.texts fileId

section Create

variable {now : ℚ} {supply : Supply} {operationIds : ℕ → JsString}
  {configuredDevice device : Option JsString} {content : JsString} {options : EnsureFileOptions}
  (hfree : vault.files (paths.normalize path) = none)
  (hpending : vault.sync.renameBatch.get? (paths.normalize path) = none)

include h hfree hpending in
/-- Nothing is active where a file is to be made. -/
theorem InStep.not_active (fileId : JsString) :
    stateOf paths.normalize vault.sync.doc.metaMap fileId ≠ some (paths.normalize path, false) := by
  intro hst
  obtain ⟨other, hf, hr⟩ := (h.active _ _).mp hst
  unfold rootOf at hr
  cases hb : vault.sync.renameBatchNewToOld.get? other with
  | some root =>
    rw [hb, getD_some] at hr
    subst hr
    rw [(h.mirrored _ other).mpr hb] at hpending
    cases hpending
  | none =>
    rw [hb, getD_none] at hr
    rw [hr, hfree] at hf
    cases hf

include h hfree hpending in
theorem InStep.ensured : Ensured paths now supply (paths.normalize path) content device options
    vault.sync (vault.sync.ensureFile paths.normalize now supply operationIds configuredDevice path
      content device options) := by
  have hnor := paths.normalize_normalize path
  have htgt : vault.sync.renameBatchNewToOld.get? (paths.normalize path) = none := by
    rw [eq_none_iff_forall_ne_some]
    exact fun root hb => h.arrived _ root hb hfree
  have he : ∀ sync' : VaultSync, sync'.doc = vault.sync.doc →
      sync'.classifyActivePath paths.normalize (paths.normalize path) = .empty := by
    intro sync' hdoc
    refine classifyActivePath_empty hnor ?_ ?_ <;> rw [hdoc]
    · exact h.model
    · exact h.not_active hfree hpending
  have hprom : vault.sync.promotePendingRenameTarget paths.normalize now operationIds
      (paths.normalize path) (device.or configuredDevice) = vault.sync := by
    unfold promotePendingRenameTarget
    dsimp only
    rw [hnor, htgt]
  unfold ensureFile resolvePendingSource
  dsimp only
  rw [he _ rfl, htgt]
  dsimp only [resolveClassification]
  rw [hprom, he _ rfl]
  exact ensured_admitFile h.fresh he

section Entries

variable {sync sync' : VaultSync}
  (hcreated : Created paths.normalize now supply path content device
    (getMarkdownTombstoneIds paths.normalize sync.doc.metaMap path) sync sync')
  (hunused : sync.doc.metaMap.get? (supply.ids 0) = none)

include hcreated hunused in
theorem Created.stateOf_new (hp : paths.normalize path = path) :
    stateOf paths.normalize sync'.doc.metaMap (supply.ids 0) = some (path, false) := by
  have hne : path ≠ [] := by
    rw [← hp]
    exact paths.normalize_ne_nil path
  rw [stateOf, hcreated.metas, YMap.get?_foldl_delete, if_neg, YMap.get?_put_self, bind_some,
    pathState_eq, hp, decodeFileMeta_activeEntry hne]
  · simp [DecodedFileMeta.isDeleted, hp]
  rw [mem_getMarkdownTombstoneIds, stateOf, hunused]
  rintro ⟨⟩

include hcreated in
theorem Created.stateOf_other (hne : fileId ≠ supply.ids 0) (root : JsString) :
    stateOf paths.normalize sync'.doc.metaMap fileId = some (root, false) ↔
      stateOf paths.normalize sync.doc.metaMap fileId = some (root, false) := by
  rw [stateOf, hcreated.metas, YMap.get?_foldl_delete, YMap.get?_put_of_ne hne]
  split
  · next hdel =>
    rw [mem_getMarkdownTombstoneIds.mp hdel, Option.some.injEq, Prod.mk.injEq]
    exact ⟨fun hf => (by cases hf), fun hf => (by cases hf.2)⟩
  · rw [← stateOf]

end Entries

include h hfree in
/-- A new file on the disk is pending nowhere. -/
theorem InStep.update {sync' : VaultSync} {file : Option JsString} {texts : JsString → Option YText}
    (hfresh : CacheFresh paths.normalize sync') (hsame : SameRenames vault.sync sync')
    (hpending : vault.sync.renameBatch.get? (paths.normalize path) = none)
    (hmodel : sync'.doc.usesV2PathModel = true)
    (hunused : ∀ fileId, file = some fileId → ∀ other, vault.files other ≠ some (some fileId))
    (hactive : ∀ fileId root,
      stateOf paths.normalize sync'.doc.metaMap fileId = some (root, false) ↔
        stateOf paths.normalize vault.sync.doc.metaMap fileId = some (root, false) ∨
          file = some fileId ∧ root = paths.normalize path)
    (htexts : ∀ fileId, sync'.doc.idToText.get? fileId = texts fileId) :
    InStep paths { sync := sync', texts,
                   files := Function.update vault.files (paths.normalize path) (some file) } := by
  have hf : ∀ {other : JsString} {found : Option JsString},
      Function.update vault.files (paths.normalize path) (some file) other = some found ↔
        other = paths.normalize path ∧ file = found ∨ vault.files other = some found := by
    intro other found
    rw [update_apply]
    split
    · next heq =>
      rw [heq, hfree, Option.some.injEq]
      simp
    · next hne => simp [hne]
  have hr : sync'.rootOf (paths.normalize path) = paths.normalize path := by
    rw [hsame.rootOf, rootOf]
    cases hb : vault.sync.renameBatchNewToOld.get? (paths.normalize path) with
    | none => rfl
    | some root => exact absurd hfree (h.arrived _ root hb)
  have hbef : ∀ other, Function.update vault.files (paths.normalize path) (some file) other ≠
      none → other = paths.normalize path ∨ vault.files other ≠ none := by
    intro other ho
    rw [update_apply] at ho
    split at ho
    · next heq => exact .inl heq
    · exact .inr ho
  refine ⟨hmodel, hfresh, hsame.mirrored h.mirrored, ?_, ?_, ?_, ?_, ?_, ?_, htexts⟩
  · intro fileId root
    rw [hactive, h.active]
    constructor
    · rintro (⟨other, hfi, rfl⟩ | ⟨rfl, rfl⟩)
      · exact ⟨other, hf.mpr (.inr hfi), hsame.rootOf other⟩
      · exact ⟨paths.normalize path, hf.mpr (.inl ⟨rfl, rfl⟩), hr⟩
    rintro ⟨other, hfi, rfl⟩
    rcases hf.mp hfi with ⟨rfl, hnew⟩ | hold
    · exact .inr ⟨hnew, hr⟩
    · exact .inl ⟨other, hold, (hsame.rootOf other).symm⟩
  · intro one other fileId hone ho
    rcases hf.mp hone with ⟨rfl, hnew⟩ | hold
    · rcases hf.mp ho with ⟨rfl, -⟩ | hold'
      · rfl
      · exact absurd hold' (hunused fileId hnew other)
    rcases hf.mp ho with ⟨-, hnew⟩ | hold'
    · exact absurd hold (hunused fileId hnew one)
    · exact h.single one other fileId hold hold'
  · intro other root hb
    rw [hsame.2] at hb
    obtain ⟨found, hfd⟩ := ne_none_iff_exists'.mp (h.arrived other root hb)
    dsimp only
    rw [hf.mpr (.inr hfd)]
    exact some_ne_none _
  · intro other ho hset
    rw [hsame.2] at hset
    rw [hsame.1]
    rcases hbef other ho with rfl | hold
    · exact hpending
    · exact h.settled other hold hset
  · intro other ho
    rcases hbef other ho with rfl | hold
    · exact paths.normalize_normalize path
    · exact h.normalized other hold
  intro other root hb
  rw [hsame.2] at hb
  exact h.roots other root hb

include h in
/-- A file is made on the disk. -/
theorem InStep.create (hpos : vault.Possible paths (.create now supply operationIds
      configuredDevice path content device options))
    (hpending : vault.sync.renameBatch.get? (paths.normalize path) = none) :
    InStep paths (vault.next paths (.create now supply operationIds configuredDevice path content
      device options)) := by
  obtain ⟨hfree, hunus, hunusedText⟩ := hpos
  have hens := @InStep.ensured paths vault path h now supply operationIds configuredDevice
    device content options hfree hpending
  have hfr := h.fresh.ensureFile now supply operationIds configuredDevice path content device
    options
  have hnor := paths.normalize_normalize path
  unfold LocalVault.next
  dsimp only
  generalize vault.sync.ensureFile paths.normalize now supply operationIds configuredDevice path
    content device options = ensured at *
  cases hens with
  | @refused result sync' hreason hr hdoc hren =>
    have href : InStep paths { vault with
        sync := sync'
        files := Function.update vault.files (paths.normalize path) (some none) } := by
      refine h.update hfree hfr hren hpending (hdoc ▸ h.model) ?_ ?_ (hdoc ▸ h.texts)
      · exact nofun
      intro fileId root
      rw [hdoc]
      simp
    cases result with
    | created fileId ytext => exact absurd rfl (hr fileId ytext)
    | existing fileId ytext | replan | blocked reason => exact href
  | @created sync' hadm hcreated =>
    refine h.update hfree hfr hcreated.renames hpending ?_ ?_ ?_ ?_
    · rw [usesV2_of_version hcreated.version]
      exact h.model
    · intro fileId hnew other hf
      have hst := (h.active fileId _).mpr ⟨other, hf, rfl⟩
      rw [← some.inj hnew, stateOf, hunus] at hst
      cases hst
    · intro fileId root
      by_cases hne : fileId = supply.ids 0
      · subst hne
        rw [hcreated.stateOf_new hunus hnor, stateOf, hunus, Option.some.injEq, Prod.mk.injEq]
        simp [eq_comm]
      rw [hcreated.stateOf_other hne root]
      simp [Ne.symm hne]
    · intro fileId
      rw [hcreated.texts, YMap.get?_set, update_apply, h.texts]

end Create

section Flush

variable {now : ℚ} {ids : ℕ → JsString} {device : Option JsString}

include h in
/-- What is pending is a list of renames of different files. -/
theorem InStep.distinct : Distinct paths vault.sync.renameBatch.entries := by
  have hb : ∀ rename ∈ vault.sync.renameBatch.entries,
      vault.sync.renameBatchNewToOld.get? rename.2 = some rename.1 :=
    fun rename hmem => (h.mirrored rename.1 rename.2).mp (get?_eq_some.mpr hmem)
  refine ⟨?_, vault.sync.renameBatch.nodup, ?_⟩
  · intro rename hmem
    have ht := h.arrived rename.2 rename.1 (hb rename hmem)
    exact ⟨h.roots rename.2 rename.1 (hb rename hmem), h.normalized rename.2 ht⟩
  refine List.Nodup.map_on ?_ (List.Nodup.of_map Prod.fst vault.sync.renameBatch.nodup)
  intro rename hmem other ho heq
  have hs := hb rename hmem
  rw [heq, hb other ho, Option.some.injEq] at hs
  exact Prod.ext hs.symm heq

include h in
theorem InStep.fileAt_source {rename : JsString × JsString}
    (hmem : rename ∈ vault.sync.renameBatch.entries) :
    FileAt paths vault.sync.doc rename.1 fileId ↔ vault.files rename.2 = some (some fileId) := by
  have hb := (h.mirrored rename.1 rename.2).mp (get?_eq_some.mpr hmem)
  rw [← h.fileAt_root (h.arrived rename.2 rename.1 hb), rootOf, hb, getD_some]

include h in
/-- After the pending renames every file is active where it is. -/
theorem InStep.active_applied {doc' : VaultDoc}
    (hap : Applied paths vault.sync.doc vault.sync.renameBatch.entries doc')
    (root : JsString) :
    stateOf paths.normalize doc'.metaMap fileId = some (root, false) ↔
      vault.files root = some (some fileId) := by
  constructor
  · intro hst
    by_cases hm : ∃ rename ∈ vault.sync.renameBatch.entries,
        FileAt paths vault.sync.doc rename.1 fileId
    · obtain ⟨rename, hmem, hf⟩ := hm
      rw [hap.moved rename hmem fileId hf, Option.some.injEq, Prod.mk.injEq] at hst
      rw [← hst.1]
      exact (h.fileAt_source hmem).mp hf
    push Not at hm
    obtain ⟨path, hf, hr⟩ := (h.active fileId root).mp
      ((stateOf_still hap hm).mp hst)
    unfold rootOf at hr
    cases hb : vault.sync.renameBatchNewToOld.get? path with
    | none =>
      rw [hb, getD_none] at hr
      rw [← hr]
      exact hf
    | some old =>
      have hmem := get?_eq_some.mp ((h.mirrored old path).mpr hb)
      exact absurd ((h.fileAt_source hmem).mpr hf) (hm _ hmem)
  intro hf
  cases hb : vault.sync.renameBatchNewToOld.get? root with
  | some old =>
    have hmem := get?_eq_some.mp ((h.mirrored old root).mpr hb)
    exact hap.moved _ hmem fileId ((h.fileAt_source hmem).mpr hf)
  | none =>
    rw [stateOf_still hap]
    · refine (h.active fileId root).mpr ⟨root, hf, ?_⟩
      rw [rootOf, hb, getD_none]
    intro rename hmem hm
    have hs := h.single _ _ _ ((h.fileAt_source hmem).mp hm) hf
    have hpending := (h.mirrored rename.1 rename.2).mp (get?_eq_some.mpr hmem)
    rw [hs, hb] at hpending
    cases hpending

include h in
/-- The timer of the renames. -/
theorem InStep.flush : InStep paths (vault.next paths (.flushRenameBatch now ids device)) ∧
    LocalNetEffect paths (vault.next paths (.flushRenameBatch now ids device)) := by
  have hclear : CacheFresh paths.normalize vault.sync.clearPendingRenames :=
    h.fresh.congr rfl rfl rfl rfl rfl
  have hfr := h.fresh.flushRenameBatch now ids device
  have hflus : Applied paths vault.sync.doc vault.sync.renameBatch.entries
      (vault.sync.flushRenameBatch paths.normalize now ids device).doc ∧ ∀ path,
        (vault.sync.flushRenameBatch paths.normalize now ids device).renameBatch.get? path = none ∧
        (vault.sync.flushRenameBatch paths.normalize now ids
          device).renameBatchNewToOld.get? path = none := by
    unfold flushRenameBatch
    split
    · next hs =>
      have he := List.eq_nil_of_length_eq_zero hs
      have hbt : ∀ path, vault.sync.renameBatch.get? path = none := by
        intro path
        rw [eq_none_iff_forall_ne_some]
        intro target hpending
        rw [get?_eq_some, he] at hpending
        cases hpending
      rw [he]
      refine ⟨applied_nil _, fun path => ⟨hbt path, ?_⟩⟩
      rw [eq_none_iff_forall_ne_some]
      intro root hb
      rw [← h.mirrored, hbt] at hb
      cases hb
    obtain ⟨hbt, ht⟩ := @sameRenames_applyRenameBatch paths.normalize
      vault.sync.clearPendingRenames now device ids vault.sync.renameBatch
    constructor
    · rw [applyRenameBatch_doc]
      exact (@applied_run paths now device ids _ hclear _ h.distinct (own_of_v2 h.model)
        (legacyOrder_of_v2 h.model)).1
    intro path
    rw [hbt, ht]
    exact ⟨rfl, rfl⟩
  unfold LocalVault.next
  dsimp only
  generalize vault.sync.flushRenameBatch paths.normalize now ids device = sync' at *
  obtain ⟨hap, hc⟩ := hflus
  have htexts : ∀ fileId, sync'.doc.idToText.get? fileId = vault.texts fileId := by
    intro fileId
    rw [hap.texts]
    exact h.texts fileId
  have hact := @InStep.active_applied paths vault
  refine ⟨?_, fun path fileId => hact h hap path, htexts⟩
  have hr : ∀ path, sync'.rootOf path = path := by
    intro path
    rw [rootOf, (hc path).2, getD_none]
  refine ⟨hap.usesV2.trans h.model, hfr, ?_, ?_, h.single, ?_, ?_, h.normalized, ?_, htexts⟩
  · intro old new
    rw [(hc old).1, (hc new).2]
    exact ⟨fun hf => (by cases hf), fun hf => (by cases hf)⟩
  · intro fileId root
    rw [hact h hap root]
    constructor
    · exact fun hfi => ⟨root, hfi, hr root⟩
    rintro ⟨path, hfi, hsa⟩
    rw [← hsa, hr]
    exact hfi
  · intro path root hb
    rw [(hc path).2] at hb
    cases hb
  · exact fun path _ _ => (hc path).1
  intro path root hb
  rw [(hc path).2] at hb
  cases hb

end Flush

variable {operation : LocalOperation}

/-- Every operation of a run keeps the disk and the document in step. -/
theorem InStep.next (h : InStep paths vault)
    (hpossible : vault.Possible paths operation) (hunshadowed : vault.Unshadowed paths operation) :
    InStep paths (vault.next paths operation) := by
  cases operation with
  | rename oldPath newPath => exact h.rename hpossible.1 hpossible.2 hunshadowed
  | delete now path device => exact h.delete hpossible
  | create now supply operationIds configuredDevice path content device options =>
    exact h.create hpossible hunshadowed
  | flushRenameBatch now ids device => exact h.flush.1

variable {operations : List LocalOperation}

theorem InStep.run (h : InStep paths vault)
    (hg : vault.Goes paths operations) : InStep paths (vault.run paths operations) := by
  induction operations generalizing vault with
  | nil => exact h
  | cons operation operations ih =>
    obtain ⟨hpos, huns, hr⟩ := hg
    exact ih (h.next hpos huns) hr

/-- A text that is known stays what it is. -/
theorem InStep.texts_next {text : YText} (h : InStep paths vault)
    (hpos : vault.Possible paths operation) (huns : vault.Unshadowed paths operation)
    (ht : vault.texts fileId = some text) :
    (vault.next paths operation).texts fileId = some text := by
  cases operation with
  | rename oldPath newPath | delete now path device | flushRenameBatch now ids device => exact ht
  | create now supply operationIds configuredDevice path content device options =>
    obtain ⟨hfree, -, hunused⟩ := hpos
    have hens := @InStep.ensured paths vault path h now supply operationIds configuredDevice
      device content options hfree huns
    unfold LocalVault.next
    dsimp only
    generalize vault.sync.ensureFile paths.normalize now supply operationIds configuredDevice path
      content device options = ensured at *
    cases hens with
    | @refused result sync' hreason hr hdoc hren =>
      cases result with
      | created fileId ytext => exact absurd rfl (hr fileId ytext)
      | existing fileId ytext | replan | blocked reason => exact ht
    | created hadm hcreated =>
      have hne : fileId ≠ supply.ids 0 := by
        rintro rfl
        rw [h.texts, ht] at hunused
        cases hunused
      exact (update_of_ne hne _ _).trans ht

theorem InStep.texts_run {text : YText} (h : InStep paths vault)
    (hg : vault.Goes paths operations) (ht : vault.texts fileId = some text) :
    (vault.run paths operations).texts fileId = some text := by
  induction operations generalizing vault with
  | nil => exact ht
  | cons operation operations ih =>
    obtain ⟨hpos, huns, hr⟩ := hg
    exact ih (h.next hpos huns) hr (h.texts_next hpos huns ht)

theorem InStep.createsAdmitted (h : InStep paths vault) (hpos : vault.Possible paths operation)
    (huns : vault.Unshadowed paths operation) : vault.CreatesAdmitted paths operation := by
  cases operation with
  | rename oldPath newPath | delete now path device | flushRenameBatch now ids device => trivial
  | create now supply operationIds configuredDevice path content device options =>
    have hens := @InStep.ensured paths vault path h now supply operationIds configuredDevice
      device content options hpos.1 huns
    unfold LocalVault.CreatesAdmitted
    dsimp only
    generalize vault.sync.ensureFile paths.normalize now supply operationIds configuredDevice path
      content device options = ensured at *
    cases hens with
    | refused hreason hr hdoc hren =>
      exact ⟨fun hadm => absurd hadm hreason, fun _ => hr⟩
    | created hadm hcreated => exact ⟨fun _ => rfl, fun href => absurd hadm href⟩

theorem goes_append {before after : List LocalOperation}
    (hg : vault.Goes paths (before ++ after)) :
    vault.Goes paths before ∧ (vault.run paths before).Goes paths after := by
  induction before generalizing vault with
  | nil => exact ⟨trivial, hg⟩
  | cons operation before ih =>
    obtain ⟨hpos, huns, hr⟩ := hg
    obtain ⟨hb, ha⟩ := ih hr
    exact ⟨⟨hpos, huns, hb⟩, ha⟩

end Steps

section Effect

/-- Local operations have their net effect: after a last flush the active entries are the files of
the disk that the document has taken, each under its own id and with its own text, and every
creation has been taken that there was no reason to refuse. -/
theorem net_effect (paths : NormalizePath) (vault : LocalVault) (operations : List LocalOperation)
    (now : ℚ) (ids : ℕ → JsString) (device : Option JsString) (hopened : vault.Opened paths)
    (hgoes : vault.Goes paths operations) :
    let final := (vault.run paths operations).next paths (.flushRenameBatch now ids device)
    LocalNetEffect paths final ∧
    (∀ fileId text, vault.sync.doc.idToText.get? fileId = some text →
      final.sync.doc.idToText.get? fileId = some text) ∧
    ∀ before operation after, operations = before ++ operation :: after →
      (vault.run paths before).CreatesAdmitted paths operation := by
  have hinS := hopened.inStep
  have hef := (@InStep.flush paths _ (hinS.run hgoes) now ids device).2
  refine ⟨hef, ?_, ?_⟩
  · intro fileId text ht
    rw [hef.texts]
    rw [hinS.texts] at ht
    exact hinS.texts_run hgoes ht
  intro before operation after heq
  subst heq
  obtain ⟨hb, hpos, huns, -⟩ := goes_append hgoes
  exact (hinS.run hb).createsAdmitted hpos huns

/-- A vault of two files. -/
def pairVault : LocalVault where
  sync := .load swapDoc
  files path := if path = js "a" then some (some (js "f"))
    else if path = js "b" then some (some (js "g"))
    else none
  texts _ := none

theorem stateOf_swapDoc (fileId : JsString) :
    stateOf NormalizePath.plain.normalize swapDoc.metaMap fileId =
      if fileId = js "g" then some (js "b", false)
      else if fileId = js "f" then some (js "a", false)
      else none := by
  rw [stateOf, swapDoc, YMap.get?_set, YMap.get?_set]
  split
  · rfl
  · split <;> rfl

theorem opened_pairVault : pairVault.Opened .plain := by
  refine ⟨rfl, fresh_load _ _, ⟨rfl, rfl⟩, ?_, ?_, fun _ => rfl⟩
  · intro path fileId
    have hst := congrArg (· = some (path, false)) (stateOf_swapDoc fileId)
    refine Iff.trans ?_ (Eq.to_iff hst.symm)
    have hf : pairVault.files path = if path = js "a" then some (some (js "f"))
        else if path = js "b" then some (some (js "g")) else none := rfl
    have hps : js "a" ≠ js "b" := by decide
    have hids : js "f" ≠ js "g" := by decide
    rw [hf]
    clear hf
    split_ifs <;> simp_all [eq_comm]
  intro path hp
  have hcases : path = js "a" ∨ path = js "b" := by
    by_contra hneit
    rw [not_or] at hneit
    exact hp (by simp only [pairVault, if_neg hneit.1, if_neg hneit.2])
  rcases hcases with rfl | rfl <;> rfl

/-- They change places by way of a third path. -/
theorem net_effect_exchange :
    let final := (pairVault.run .plain [.rename (js "a") (js "t"), .rename (js "b") (js "a"),
      .rename (js "t") (js "b")]).next .plain (.flushRenameBatch 5 (fun _ => js "id") none)
    LocalNetEffect .plain final ∧
    (∀ fileId text, pairVault.sync.doc.idToText.get? fileId = some text →
      final.sync.doc.idToText.get? fileId = some text) ∧
    ∀ before operation after, [.rename (js "a") (js "t"), .rename (js "b") (js "a"),
      .rename (js "t") (js "b")] = before ++ operation :: after →
        (pairVault.run .plain before).CreatesAdmitted .plain operation :=
  net_effect .plain pairVault _ 5 (fun _ => js "id") none opened_pairVault
    ⟨⟨by decide, by decide⟩, fun _ => by decide, ⟨by decide, by decide⟩, fun _ => by decide,
      ⟨by decide, by decide⟩, fun _ => by decide, trivial⟩

def recreation : LocalOperation :=
  .create 2 { ids := fun _ => js "h", items := fun _ => 7 } (fun _ => js "id") none (js "a")
    (js "new") none {}

/-- A file that is made where one has been deleted stays on the disk alone. -/
theorem recreated_not_taken :
    pairVault.Opened .plain ∧ pairVault.Possible .plain (.delete 1 (js "a") none) ∧
    (pairVault.next .plain (.delete 1 (js "a") none)).Possible .plain recreation ∧
    let final := (pairVault.run .plain [.delete 1 (js "a") none, recreation]).next .plain
      (.flushRenameBatch 5 (fun _ => js "id") none)
    ¬ ∀ path, final.files path ≠ none →
      ∃ fileId, stateOf NormalizePath.plain.normalize final.sync.doc.metaMap fileId =
        some (path, false) := by
  refine ⟨opened_pairVault, some_ne_none _, ⟨rfl, ?_⟩, ?_⟩
  · decide_cbv
  intro final h
  obtain ⟨fileId, hst⟩ := h (js "a") (by decide_cbv)
  rw [← mem_activeFileIds] at hst
  revert hst
  have hn : activeFileIds NormalizePath.plain.normalize final.sync.doc.metaMap (js "a") = [] := by
    decide_cbv
  rw [hn]
  exact List.not_mem_nil

end Effect

end Kaos.Sync
