import Kaos.Sync.VaultOperations

/-! What a transaction leaves of the caches: the snapshot is that of the document, and the indexes
are marked if an entry has come to another path. -/
namespace Kaos.Sync

open Kaos.Lib Kaos.Yjs List Option YMap

/-- The caches of a client are those of its document, or are marked to be built anew. -/
structure CacheFresh (normalizePath : JsString → JsString) (sync : VaultSync) : Prop where
  snapshot : ∀ fileId, sync.metaSnapshot.get? fileId =
    (buildMetaSnapshot sync.doc.metaMap.live).get? fileId
  indexes : sync.pathIndexesDirty = false →
    sync.indexes = computePathIndexes normalizePath sync.doc.metaMap
  retirements : ∀ index, sync.markdownRetirementIndex = some index →
    index = VaultSync.computeRetirementIndex normalizePath sync.doc.markdownPathRetirements

/-- What a transaction has not touched is as it was in the document before. -/
structure Txn.Records (doc : VaultDoc) (txn : Txn) : Prop where
  keys : doc.metaMap.Extends txn.doc.metaMap
  untouched : ∀ fileId, fileId ∉ txn.touched → txn.doc.metaMap.get? fileId = doc.metaMap.get? fileId
  nodup : txn.touched.Nodup
  retirements : txn.retirementsTouched = false →
    txn.doc.markdownPathRetirements = doc.markdownPathRetirements

section Records

variable {doc : VaultDoc} {txn txn' : Txn} {fileId path : JsString} {value : Option MetaValue}

theorem records_start (doc : VaultDoc) : Txn.Records doc { doc } :=
  ⟨.refl _, fun _ _ => rfl, nodup_nil, fun _ => rfl⟩

section

variable (h : txn.Records doc)
include h

theorem Txn.Records.putMeta (fileId : JsString) (value : Option MetaValue) :
    (txn.putMeta fileId value).Records doc := by
  refine ⟨h.keys.trans (extends_put _ _ _), ?_, h.nodup.insert, h.retirements⟩
  intro other hnot
  rw [Txn.putMeta, mem_insert_iff, not_or] at hnot
  rw [Txn.putMeta, get?_put_of_ne hnot.1]
  exact h.untouched other hnot.2

/-- Writes to the other maps leave the record as it is. -/
theorem Txn.Records.congr (hm : txn'.doc.metaMap = txn.doc.metaMap)
    (htouc : txn'.touched = txn.touched)
    (hret : txn'.retirementsTouched = false → txn.retirementsTouched = false ∧
      txn'.doc.markdownPathRetirements = txn.doc.markdownPathRetirements) :
    txn'.Records doc := by
  refine ⟨hm ▸ h.keys, ?_, htouc ▸ h.nodup, ?_⟩
  · intro fileId hnot
    rw [htouc] at hnot
    rw [hm, h.untouched fileId hnot]
  intro hf
  obtain ⟨hb, heq⟩ := hret hf
  rw [heq, h.retirements hb]

theorem Txn.Records.setPathToId (path fileId : JsString) :
    (txn.setPathToId path fileId).Records doc := h.congr rfl rfl fun hf => ⟨hf, rfl⟩

theorem Txn.Records.deletePathToId (path : JsString) :
    (txn.deletePathToId path).Records doc := h.congr rfl rfl fun hf => ⟨hf, rfl⟩

theorem Txn.Records.setText (fileId : JsString) (text : YText) :
    (txn.setText fileId text).Records doc := h.congr rfl rfl fun hf => ⟨hf, rfl⟩

theorem Txn.Records.deleteText (fileId : JsString) :
    (txn.deleteText fileId).Records doc := h.congr rfl rfl fun hf => ⟨hf, rfl⟩

theorem Txn.Records.setRetirement (retirement : MarkdownPathRetirement) :
    (txn.setRetirement retirement).Records doc :=
  h.congr rfl rfl fun hf => nomatch hf

theorem Txn.Records.deleteRetirement (fileId : JsString) :
    (txn.deleteRetirement fileId).Records doc :=
  h.congr rfl rfl fun hf => nomatch hf

theorem Txn.Records.tombstoneBlob (now : ℚ) (path : JsString)
    (device : Option JsString) (ref : BlobRef) : (txn.tombstoneBlob now path device ref).Records doc :=
  h.congr rfl rfl fun hf => ⟨hf, rfl⟩

theorem Txn.Records.placeBlob (path : JsString) (ref : BlobRef) :
    (txn.placeBlob path ref).Records doc := h.congr rfl rfl fun hf => ⟨hf, rfl⟩

end

theorem Txn.Records.foldl {α : Type} {step : Txn → α → Txn}
    (hs : ∀ txn a, txn.Records doc → (step txn a).Records doc) (h : txn.Records doc)
    (as : List α) : (as.foldl step txn).Records doc := by
  induction as generalizing txn with
  | nil => exact h
  | cons a as ih => exact ih (hs txn a h)

theorem Txn.Records.clearTombstones (h : txn.Records doc) (norm : JsString → JsString)
    (path keepFileId : JsString) :
    (txn.clearMarkdownTombstonesForPath norm path keepFileId).Records doc := by
  apply Txn.Records.foldl
  · intro txn fileId h
    exact h.putMeta fileId none
  apply Txn.Records.foldl
  · intro txn entry h
    exact h.deleteRetirement entry.1
  · exact h

theorem Txn.Records.renameFile (h : txn.Records doc) (norm : JsString → JsString) (now : ℚ)
    (device : Option JsString) (fileId oldPath newPath operationId : JsString) :
    (txn.renameFile norm now device fileId oldPath newPath operationId).Records doc := by
  apply Txn.Records.putMeta
  apply Txn.Records.clearTombstones
  have hret : (if oldPath ≠ newPath then
      txn.setRetirement { fileId, oldPath, operationId, movedTo := newPath, movedAt := now }
    else txn).Records doc := by
    split
    · exact h.setRetirement _
    · exact h
  have hleg : ∀ txn : Txn, txn.Records doc → (if txn.doc.usesV2PathModel then txn
      else (txn.deletePathToId oldPath).setPathToId newPath fileId).Records doc := by
    intro txn h
    split
    · exact h
    · exact (h.deletePathToId _).setPathToId _ _
  exact hleg _ hret

theorem Txn.Records.renameBlob (h : txn.Records doc) (now : ℚ) (device : Option JsString)
    (oldPath newPath : JsString) : (txn.renameBlob now device oldPath newPath).Records doc := by
  unfold Txn.renameBlob
  split
  · exact h
  · next blobRef _ =>
    dsimp only
    split
    · exact h.tombstoneBlob now oldPath device blobRef
    · exact (h.tombstoneBlob now oldPath device blobRef).placeBlob newPath blobRef

/-- Texts and entries are deleted one file after another. -/
theorem foldl_deleteFile (fileIds : List JsString) (txn : Txn) :
    let after := fileIds.foldl (fun txn fileId => (txn.deleteText fileId).putMeta fileId none) txn
    after.doc.pathToId = txn.doc.pathToId ∧ after.doc.schemaVersion = txn.doc.schemaVersion ∧
      ∀ fileId, (after.doc.metaMap.get? fileId =
          if fileId ∈ fileIds then none else txn.doc.metaMap.get? fileId) ∧
        after.doc.idToText.get? fileId =
          if fileId ∈ fileIds then none else txn.doc.idToText.get? fileId := by
  induction fileIds generalizing txn with
  | nil => simp
  | cons first fileIds ih =>
    obtain ⟨hp, hver, hf⟩ := ih ((txn.deleteText first).putMeta first none)
    refine ⟨hp, hver, ?_⟩
    intro fileId
    obtain ⟨hm, ht⟩ := hf fileId
    have hput : ((txn.deleteText first).putMeta first none).doc.metaMap.get? fileId =
        if fileId = first then none else txn.doc.metaMap.get? fileId := get?_put
    have hputText : ((txn.deleteText first).putMeta first none).doc.idToText.get? fileId =
        if fileId = first then none else txn.doc.idToText.get? fileId := get?_put
    rw [foldl_cons, hm, ht, hput, hputText]
    by_cases hfst : fileId = first <;> by_cases hr : fileId ∈ fileIds <;> simp [hfst, hr]

end Records

section Commit

variable {norm : JsString → JsString} {sync : VaultSync} {txn : Txn}
  {fileId : JsString} {prev curr : Option DecodedFileMeta} {change : MetaSemanticChange}

/-- Where no change moves a file, it is where it was. -/
theorem state_eq_of_expectedChanges
    (h : ∀ change ∈ expectedChanges fileId prev curr, change.isPathChange = false) :
    prev.map (fun decoded => (decoded.path, decoded.isDeleted)) =
      curr.map fun decoded => (decoded.path, decoded.isDeleted) := by
  cases curr with
  | none =>
    cases prev with
    | none => rfl
    | some prev =>
      have hrem := h (.removed fileId prev) (mem_singleton_self _)
      cases hrem
  | some curr =>
    cases prev with
    | none =>
      have hadded := h (.added fileId curr) (mem_singleton_self _)
      cases hadded
    | some prev =>
      simp only [expectedChanges, addedOrModifiedChanges, modifiedChanges] at h
      simp only [map_some, Option.some.injEq, Prod.mk.injEq]
      split_ifs at h with hrev hdel hpa
      · cases h _ (mem_singleton_self _)
      · cases h _ (mem_singleton_self _)
      · cases h _ (mem_singleton_self _)
      all_goals
        refine ⟨not_not.mp hpa, ?_⟩
        cases hp : prev.isDeleted <;> cases hc : curr.isDeleted <;> simp_all

/-- The path states of a file, as a snapshot holds them. -/
theorem bind_pathState (metaMap : SharedMeta) (fileId : JsString) :
    (metaMap.get? fileId).bind (pathState norm) =
      ((buildMetaSnapshot metaMap.live).get? fileId).map fun decoded =>
        (norm decoded.path, decoded.isDeleted) := by
  rw [get?_buildMetaSnapshot, get?_live]
  cases metaMap.get? fileId with
  | none => rfl
  | some value => exact pathState_eq

/-- The files that the observer is told of are among those touched, and the others are as they
were. -/
theorem not_affected (hr : txn.Records sync.doc)
    (hnot : fileId ∉ txn.touched.filter fun fileId =>
      (sync.doc.metaMap.get? fileId).isSome || (txn.doc.metaMap.get? fileId).isSome) :
    txn.doc.metaMap.get? fileId = sync.doc.metaMap.get? fileId := by
  by_cases htouc : fileId ∈ txn.touched
  · have ha : ((sync.doc.metaMap.get? fileId).isSome ||
        (txn.doc.metaMap.get? fileId).isSome) = false := by
      by_contra hpres
      exact hnot (mem_filter.mpr ⟨htouc, Bool.eq_true_of_not_eq_false hpres⟩)
    rw [Bool.or_eq_false_iff, isSome_eq_false_iff, isSome_eq_false_iff,
      isNone_iff_eq_none, isNone_iff_eq_none] at ha
    rw [ha.1, ha.2]
  · exact hr.untouched fileId htouc

/-- Where the indexes are not marked, no file has come to another path. -/
theorem pathState_eq_of_commit (hfr : CacheFresh norm sync) (hr : txn.Records sync.doc)
    {ambiguous : Bool} (hc : (sync.commit txn ambiguous).pathIndexesDirty = false)
    (fileId : JsString) :
    (txn.doc.metaMap.get? fileId).bind (pathState norm) =
      (sync.doc.metaMap.get? fileId).bind (pathState norm) := by
  rw [bind_pathState, bind_pathState, ← hfr.snapshot fileId]
  -- it is enough that no expected change moves the file
  have hexp : (∀ change ∈ expectedChanges fileId (sync.metaSnapshot.get? fileId)
      ((buildMetaSnapshot txn.doc.metaMap.live).get? fileId), change.isPathChange = false) →
      ((buildMetaSnapshot txn.doc.metaMap.live).get? fileId).map (fun decoded =>
          (norm decoded.path, decoded.isDeleted)) =
        (sync.metaSnapshot.get? fileId).map fun decoded =>
          (norm decoded.path, decoded.isDeleted) := by
    intro h
    have hst := congrArg (Option.map fun state : JsString × Bool =>
      (norm state.1, state.2)) (state_eq_of_expectedChanges h)
    rw [Option.map_map, Option.map_map] at hst
    exact hst.symm
  have hany := (Bool.or_eq_false_iff.mp hc).2
  rw [List.any_eq_false] at hany
  cases ambiguous with
  | true =>
    apply hexp
    intro change hmem
    rw [← filter_computeMetaSemanticChanges] at hmem
    exact Bool.eq_false_iff.mpr (hany change (List.mem_of_mem_filter hmem))
  | false =>
    by_cases hmem : fileId ∈ txn.touched.filter fun fileId =>
        (sync.doc.metaMap.get? fileId).isSome || (txn.doc.metaMap.get? fileId).isSome
    · have hfil := @filter_computeIncremental txn.doc.metaMap.live sync.metaSnapshot fileId _
        (hr.nodup.filter fun fileId =>
          (sync.doc.metaMap.get? fileId).isSome || (txn.doc.metaMap.get? fileId).isSome)
      rw [if_neg (not_not.mpr hmem)] at hfil
      by_cases hn : sync.metaSnapshot.get? fileId = none ∧
          (buildMetaSnapshot txn.doc.metaMap.live).get? fileId = none
      · rw [hn.1, hn.2]
      rw [if_neg hn] at hfil
      apply hexp
      intro change hch
      rw [← hfil] at hch
      exact Bool.eq_false_iff.mpr (hany change (List.mem_of_mem_filter hch))
    · rw [hfr.snapshot, get?_buildMetaSnapshot, get?_buildMetaSnapshot, get?_live,
        get?_live, not_affected hr hmem]

/-- After a transaction the caches are those of the document, or are marked. -/
theorem fresh_commit (hfr : CacheFresh norm sync) (hr : txn.Records sync.doc)
    (ambiguous : Bool) : CacheFresh norm (sync.commit txn ambiguous) := by
  constructor
  · intro fileId
    cases ambiguous with
    | true => rfl
    | false =>
      apply get?_computeIncremental
      intro hnot
      rw [hfr.snapshot, get?_buildMetaSnapshot, get?_buildMetaSnapshot, get?_live,
        get?_live, not_affected hr hnot]
  · intro hc
    have hb : sync.indexes = computePathIndexes norm sync.doc.metaMap :=
      hfr.indexes (Bool.or_eq_false_iff.mp hc).1
    have hs : (sync.commit txn ambiguous).indexes = sync.indexes := rfl
    rw [hs, hb]
    apply computePathIndexes_congr
    refine (@YMap.filterMap_entries_congr _ _ _ _ txn.doc.metaMap _ (fun fileId value =>
      (pathState norm value).map (fileId, ·)) hr.keys ?_).symm
    intro fileId
    have hst := congrArg (Option.map fun state : JsString × Bool => (fileId, state))
      (pathState_eq_of_commit hfr hr hc fileId)
    rw [map_bind, map_bind] at hst
    exact hst
  intro index hix
  have hdoc : (sync.commit txn ambiguous).doc = txn.doc := rfl
  have hcache : (sync.commit txn ambiguous).markdownRetirementIndex =
      if txn.retirementsTouched then none else sync.markdownRetirementIndex := rfl
  rw [hcache] at hix
  split at hix
  · cases hix
  · next hunt =>
    rw [hdoc, hr.retirements (Bool.eq_false_iff.mpr hunt)]
    exact hfr.retirements index hix

end Commit

end Kaos.Sync
