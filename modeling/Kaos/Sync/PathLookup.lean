import Kaos.Sync.PathIndexFreshness

/-! The files that a client finds at a path of its document. -/
namespace Kaos.Sync

open Kaos.Lib Kaos.Paths Kaos.Yjs List

section Lookup

variable {paths : NormalizePath} {sync : VaultSync} {doc : VaultDoc} {path fileId : JsString}
  {metaMap : SharedMeta}

/-- The legacy map of a document that is looked up before its metadata. -/
def VaultDoc.legacyId (doc : VaultDoc) (path : JsString) : Option JsString :=
  if doc.usesV2PathModel then none else doc.pathToId.get? path

/-- The file that `getFileId` finds at a normalized path. -/
def FileAt (paths : NormalizePath) (doc : VaultDoc) (path fileId : JsString) : Prop :=
  match doc.legacyId path with
  | some legacy => fileId = legacy
  | none => activeFileIds paths.normalize doc.metaMap path = [fileId]

theorem getFileId_iff (hfr : CacheFresh paths.normalize sync) :
    (sync.getFileId paths.normalize path).1 = some fileId ↔
      FileAt paths sync.doc (paths.normalize path) fileId := by
  have hix := hfr.indexed
  unfold VaultSync.getFileId FileAt VaultDoc.legacyId
  dsimp only
  cases sync.doc.usesV2PathModel with
  | true => exact hix.single _ _
  | false =>
    simp only [Bool.false_eq_true, if_false]
    cases sync.doc.pathToId.get? (paths.normalize path) with
    | some legacy => exact ⟨fun h => (Option.some.inj h).symm, fun h => congrArg some h.symm⟩
    | none => exact hix.single _ _

/-- A file that is active at a normalized path: the one of the legacy map, or else all those of the
metadata. -/
def FoundAt (paths : NormalizePath) (doc : VaultDoc) (path fileId : JsString) : Prop :=
  match doc.legacyId path with
  | some legacy => fileId = legacy
  | none => fileId ∈ activeFileIds paths.normalize doc.metaMap path

theorem eq_singleton_iff {fileIds : List JsString} (hnd : fileIds.Nodup) :
    fileIds = [fileId] ↔ ∀ other, other ∈ fileIds ↔ other = fileId := by
  constructor
  · rintro rfl other
    exact mem_singleton
  intro h
  rw [← perm_singleton, perm_ext_iff_of_nodup hnd (nodup_singleton _)]
  exact fun other => (h other).trans mem_singleton.symm

theorem normalize_of_mem (h : fileId ∈ activeFileIds paths.normalize metaMap path) :
    paths.normalize path = path := by
  obtain ⟨value, -, hst⟩ := stateOf_eq_some.mp (mem_activeFileIds.mp h)
  obtain ⟨stored, -, heq⟩ := Option.map_eq_some_iff.mp hst
  obtain ⟨rfl, -⟩ := Prod.mk.inj heq
  exact paths.normalize_normalize stored

theorem fileAt_of_legacy {legacy : JsString} (h : doc.legacyId path = some legacy) :
    FileAt paths doc path fileId ↔ fileId = legacy := by
  rw [FileAt, h]

theorem fileAt_of_none (h : doc.legacyId path = none) : FileAt paths doc path fileId ↔
    activeFileIds paths.normalize doc.metaMap path = [fileId] := by
  rw [FileAt, h]

theorem foundAt_of_legacy {legacy : JsString} (h : doc.legacyId path = some legacy) :
    FoundAt paths doc path fileId ↔ fileId = legacy := by
  rw [FoundAt, h]

theorem foundAt_of_none (h : doc.legacyId path = none) : FoundAt paths doc path fileId ↔
    stateOf paths.normalize doc.metaMap fileId = some (path, false) := by
  rw [FoundAt, h]
  exact mem_activeFileIds

/-- `getFileId` finds a file exactly if it is the only one. -/
theorem fileAt_iff : FileAt paths doc path fileId ↔
    FoundAt paths doc path fileId ∧ ∀ other, FoundAt paths doc path other → other = fileId := by
  cases hleg : doc.legacyId path with
  | some legacy =>
    simp only [fileAt_of_legacy hleg, foundAt_of_legacy hleg]
    exact ⟨fun h => ⟨h, fun other ho => ho.trans h.symm⟩, fun h => h.1⟩
  | none =>
    simp only [fileAt_of_none hleg, foundAt_of_none hleg]
    rw [eq_singleton_iff nodup_activeFileIds]
    simp only [mem_activeFileIds]
    constructor
    · intro h
      exact ⟨(h fileId).mpr rfl, fun other ho => (h other).mp ho⟩
    rintro ⟨hmem, honly⟩ other
    exact ⟨honly other, fun heq => heq ▸ hmem⟩

theorem FileAt.foundAt (h : FileAt paths doc path fileId) : FoundAt paths doc path fileId :=
  (fileAt_iff.mp h).1

end Lookup

end Kaos.Sync
