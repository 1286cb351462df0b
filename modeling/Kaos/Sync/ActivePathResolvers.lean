import Kaos.Paths.CanonicalPath
import Kaos.Sync.PathLookup

/-! The file of a path, as the sync engine, the snapshots and the file history look it up. -/
namespace Kaos.Sync

open Kaos.Lib Kaos.Paths Kaos.Yjs VaultSync OrderedMap Option
open List (foldl_cons mem_cons_of_mem mem_cons_self ne_nil_of_mem)

/-- The normalization of the snapshots and of the file history. -/
def normalizeVaultPath (path : JsString) : JsString :=
  let slashed := collapseSlashes (forwardSlashes path)
  let relative := if (js "./").isPrefixOf slashed then slashed.drop 2 else slashed
  relative.dropWhile (· = 47)

/-- The later time, or at the same time the greater id. -/
def isCandidateMetaNewer (candidateId : JsString) (candidateMeta : DecodedFileMeta)
    (existingId : JsString) (existingMeta : Option DecodedFileMeta) : Bool :=
  let candidateMtime := candidateMeta.mtime.getD 0
  let existingMtime := (existingMeta.bind DecodedFileMeta.mtime).getD 0
  if candidateMtime ≠ existingMtime then candidateMtime > existingMtime
  else !JsString.le candidateId existingId

/-- An active entry comes to its path if the path is free, or if it takes the path from the file
that has it. -/
def resolveEntry (takes : JsString → DecodedFileMeta → JsString → Bool)
    (resolved : OrderedMap JsString JsString) (entry : JsString × MetaValue) :
    OrderedMap JsString JsString :=
  match decodeFileMeta entry.2 with
  | none => resolved
  | some decoded =>
    if isFileMetaDeletedValue entry.2 then resolved
    else
      let path := normalizeVaultPath decoded.path
      if path = [] then resolved
      else match resolved.get? path with
      | none => resolved.set path entry.1
      | some existingId =>
        if takes entry.1 decoded existingId then resolved.set path entry.1 else resolved

/-- An entry of the legacy map whose file is not deleted. -/
def resolveLegacyEntry (metaMap : SharedMeta) (resolved : OrderedMap JsString JsString)
    (entry : JsString × JsString) : OrderedMap JsString JsString :=
  let path := normalizeVaultPath entry.1
  if path = [] then resolved
  else if (metaMap.get? entry.2).any isFileMetaDeletedValue then resolved
  else resolved.set path entry.2

/-- The legacy map, and then the paths that only the metadata has. -/
def collectLegacyMarkdownPaths (doc : VaultDoc) : OrderedMap JsString JsString :=
  doc.metaMap.entries.foldl (resolveEntry fun _ _ _ => false)
    (doc.pathToId.entries.foldl (resolveLegacyEntry doc.metaMap) .empty)

/-- `collectActiveMarkdownPaths` of the snapshots: the newest entry of a path. -/
def collectActiveMarkdownPaths (doc : VaultDoc) : OrderedMap JsString JsString :=
  if doc.usesV2PathModel then
    doc.metaMap.entries.foldl (resolveEntry fun fileId decoded existingId =>
      isCandidateMetaNewer fileId decoded existingId
        ((doc.metaMap.get? existingId).bind decodeFileMeta)) .empty
  else collectLegacyMarkdownPaths doc

/-- `collectActiveMarkdownPaths` of the file history: the last entry of a path. -/
def collectHistoryMarkdownPaths (doc : VaultDoc) : OrderedMap JsString JsString :=
  if doc.usesV2PathModel then
    doc.metaMap.entries.foldl (resolveEntry fun _ _ _ => true) .empty
  else collectLegacyMarkdownPaths doc

/-- The files that the sync engine finds at a path: the one that `getFileId` names, otherwise those
of `getActiveFileIdsForPath`. -/
def VaultSync.lookup (normalizePath : JsString → JsString) (sync : VaultSync) (path : JsString) :
    List JsString :=
  match (sync.getFileId normalizePath path).1 with
  | some fileId => [fileId]
  | none => (sync.getActiveFileIdsForPath normalizePath path).1

section Agreement

variable (paths : NormalizePath) (doc : VaultDoc)

/-- A path that no normalization changes. -/
def Normalized (path : JsString) : Prop :=
  paths.normalize path = path ∧ normalizeVaultPath path = path

structure StoredNormalized : Prop where
  metadata : ∀ fileId value path, doc.metaMap.get? fileId = some value →
    getMetaPath value = some path → Normalized paths path
  legacy : ∀ path fileId, doc.pathToId.get? path = some fileId → Normalized paths path

/-- The three lookups have the same paths, and the two resolvers name one file, which is among those
that the sync engine finds. -/
structure ResolversAgree : Prop where
  snapshotPaths : ∀ path, paths.normalize path = path →
    (path ∈ (collectActiveMarkdownPaths doc).keys ↔ (load doc).lookup paths.normalize path ≠ [])
  historyPaths : ∀ path, paths.normalize path = path →
    (path ∈ (collectHistoryMarkdownPaths doc).keys ↔ (load doc).lookup paths.normalize path ≠ [])
  snapshotActive : ∀ path fileId, (collectActiveMarkdownPaths doc).get? path = some fileId →
    fileId ∈ (load doc).lookup paths.normalize path
  historyActive : ∀ path fileId, (collectHistoryMarkdownPaths doc).get? path = some fileId →
    fileId ∈ (load doc).lookup paths.normalize path
  same : ∀ path, (collectActiveMarkdownPaths doc).get? path =
    (collectHistoryMarkdownPaths doc).get? path

/-- The entry of a file is newer than that of another. -/
def newerEntry (metaMap : SharedMeta) (fileId otherId : JsString) : Bool :=
  if entryMtime metaMap fileId ≠ entryMtime metaMap otherId then
    entryMtime metaMap fileId > entryMtime metaMap otherId
  else !JsString.le fileId otherId

/-- Of several files at a path, the last one in the metadata is the newest. -/
def LastIsNewest : Prop := ∀ path lastId otherId,
  (activeFileIds paths.normalize doc.metaMap path).getLast? = some lastId →
    otherId ∈ activeFileIds paths.normalize doc.metaMap path → otherId ≠ lastId →
      newerEntry doc.metaMap lastId otherId = true

/-- No path of the legacy map leads to a file that is deleted. -/
def LegacyLive : Prop := ∀ path fileId, doc.pathToId.get? path = some fileId →
  (doc.metaMap.get? fileId).any isFileMetaDeletedValue = false

end Agreement

section Resolvers

variable {metaMap : SharedMeta} {resolved : OrderedMap JsString JsString}
  {takes : JsString → DecodedFileMeta → JsString → Bool} {takesId : JsString → JsString → Bool}
  {entry : JsString × MetaValue} {entries : List (JsString × MetaValue)} {path fileId : JsString}
  {fileIds : List JsString}

/-- The file of a path when one more comes. -/
def takeOver (takesId : JsString → JsString → Bool) : Option JsString → JsString → Option JsString
  | none, fileId => some fileId
  | some existingId, fileId => if takesId fileId existingId then some fileId else some existingId

/-- An entry concerns its own path. -/
theorem get?_resolveEntry
    (htakes : ∀ decoded, decodeFileMeta entry.2 = some decoded →
      (normalizeVaultPath decoded.path = [] → path ≠ []) ∧
        ∀ other, takes entry.1 decoded other = takesId entry.1 other) :
    (resolveEntry takes resolved entry).get? path =
      match activeAt normalizeVaultPath path entry with
      | none => resolved.get? path
      | some fileId => takeOver takesId (resolved.get? path) fileId := by
  unfold resolveEntry activeAt
  rw [pathState_eq]
  cases hd : decodeFileMeta entry.2 with
  | none => simp
  | some decoded =>
    obtain ⟨he, htake⟩ := htakes decoded hd
    simp only [map_some, (read_of_decodeFileMeta hd).2.1]
    by_cases hdel : decoded.isDeleted = true
    · simp [hdel]
    rw [Bool.not_eq_true] at hdel
    simp only [hdel, Bool.false_eq_true, if_false, Option.some.injEq, Prod.mk.injEq, and_true]
    by_cases hne : normalizeVaultPath decoded.path = []
    · have ho : normalizeVaultPath decoded.path ≠ path := fun heq => he hne (heq ▸ hne)
      rw [if_pos hne, if_neg ho]
    rw [if_neg hne]
    by_cases hp : normalizeVaultPath decoded.path = path
    · subst hp
      cases hget : resolved.get? (normalizeVaultPath decoded.path) with
      | none => simp [takeOver, get?_set_self]
      | some existingId =>
        simp only [htake]
        cases htaken : takesId entry.1 existingId with
        | true => simp [takeOver, htaken, get?_set_self]
        | false => simp [takeOver, htaken, hget]
    rw [if_neg hp]
    have ho := @OrderedMap.get?_set_of_ne _ _ _ resolved _ _ entry.1 (Ne.symm hp)
    cases resolved.get? (normalizeVaultPath decoded.path) with
    | none => exact ho
    | some existingId =>
      dsimp only
      split
      · exact ho
      · rfl

theorem get?_foldl_resolveEntry (entries : List (JsString × MetaValue))
    (resolved : OrderedMap JsString JsString) (path : JsString)
    (htakes : ∀ entry ∈ entries, ∀ decoded, decodeFileMeta entry.2 = some decoded →
      (normalizeVaultPath decoded.path = [] → path ≠ []) ∧
        ∀ other, takes entry.1 decoded other = takesId entry.1 other) :
    (entries.foldl (resolveEntry takes) resolved).get? path =
      (entries.filterMap (activeAt normalizeVaultPath path)).foldl (takeOver takesId)
        (resolved.get? path) := by
  induction entries generalizing resolved with
  | nil => rfl
  | cons entry entries ih =>
    rw [foldl_cons, ih _ fun other hmem => htakes other (mem_cons_of_mem _ hmem),
      get?_resolveEntry (htakes entry mem_cons_self), List.filterMap_cons]
    cases activeAt normalizeVaultPath path entry <;> rfl

/-- If the path is always taken, the last file has it. -/
theorem foldl_takeOver_always (fileIds : List JsString) (best : Option JsString) :
    fileIds.foldl (takeOver fun _ _ => true) best = fileIds.getLast?.or best := by
  induction fileIds generalizing best with
  | nil => rfl
  | cons fileId fileIds ih =>
    have hs : takeOver (fun _ _ => true) best fileId = some fileId := by
      cases best <;> rfl
    rw [foldl_cons, ih, hs, List.getLast?_cons]
    cases fileIds.getLast? <;> rfl

/-- If it is never taken, the first has it. -/
theorem foldl_takeOver_never (fileIds : List JsString) (best : Option JsString) :
    fileIds.foldl (takeOver fun _ _ => false) best = best.or fileIds.head? := by
  induction fileIds generalizing best with
  | nil => exact or_none.symm
  | cons fileId fileIds ih =>
    rw [foldl_cons, ih]
    cases best <;> rfl

/-- If a file takes the path from those it beats, nobody beats the one that has it in the end. -/
theorem foldl_takeOver_best (hirr : ∀ fileId, takesId fileId fileId = false)
    (ht : ∀ a b c, takesId b a = false → takesId c b = false → takesId c a = false)
    (hasymm : ∀ a b, takesId a b = true → takesId b a = false)
    (fileIds : List JsString) (first : JsString) :
    ∃ winner ∈ first :: fileIds, fileIds.foldl (takeOver takesId) (some first) = some winner ∧
      ∀ other ∈ first :: fileIds, takesId other winner = false := by
  induction fileIds generalizing first with
  | nil => exact ⟨first, List.mem_singleton_self _, rfl, by simp [hirr]⟩
  | cons fileId fileIds ih =>
    cases htake : takesId fileId first with
    | true =>
      obtain ⟨winner, hmem, hfold, hbest⟩ := ih fileId
      refine ⟨winner, mem_cons_of_mem _ hmem, ?_, ?_⟩
      · rw [foldl_cons, takeOver, if_pos htake, hfold]
      intro other ho
      rcases List.mem_cons.mp ho with rfl | ho
      · exact ht winner fileId other (hbest fileId mem_cons_self) (hasymm _ _ htake)
      · exact hbest other ho
    | false =>
      obtain ⟨winner, hmem, hfold, hbest⟩ := ih first
      refine ⟨winner, ?_, ?_, ?_⟩
      · rcases List.mem_cons.mp hmem with rfl | hmem
        · exact mem_cons_self
        · exact mem_cons_of_mem _ (mem_cons_of_mem _ hmem)
      · rw [foldl_cons, takeOver, htake]
        exact hfold
      intro other ho
      rcases List.mem_cons.mp ho with rfl | ho
      · exact hbest other mem_cons_self
      rcases List.mem_cons.mp ho with rfl | ho
      · exact ht winner first other (hbest first mem_cons_self) htake
      · exact hbest other (mem_cons_of_mem _ ho)

theorem newerEntry_self : newerEntry metaMap fileId fileId = false := by
  have hle := JsString.le_total fileId fileId
  simp_all [newerEntry]

theorem newerEntry_asymm {otherId : JsString} (h : newerEntry metaMap fileId otherId = true) :
    newerEntry metaMap otherId fileId = false := by
  unfold newerEntry at h ⊢
  by_cases hmtime : entryMtime metaMap fileId = entryMtime metaMap otherId
  · have hle := JsString.le_total fileId otherId
    simp_all
  simp only [ne_eq, hmtime, not_false_eq_true, if_true, gt_iff_lt, decide_eq_true_eq,
    Ne.symm hmtime, decide_eq_false_iff_not, not_lt] at h ⊢
  exact le_of_lt h

theorem newerEntry_total {otherId : JsString} (hne : fileId ≠ otherId)
    (h : newerEntry metaMap fileId otherId = false) : newerEntry metaMap otherId fileId = true := by
  unfold newerEntry at h ⊢
  by_cases hmtime : entryMtime metaMap fileId = entryMtime metaMap otherId
  · simp only [ne_eq, hmtime, not_true_eq_false, if_false, Bool.not_eq_false', Bool.not_eq_true']
      at h ⊢
    by_contra hle
    rw [Bool.not_eq_false] at hle
    exact hne (JsString.le_antisymm h hle)
  · simp only [ne_eq, hmtime, not_false_eq_true, if_true, gt_iff_lt, decide_eq_false_iff_not,
      not_lt, Ne.symm hmtime, decide_eq_true_eq] at h ⊢
    exact lt_of_le_of_ne h hmtime

theorem newerEntry_trans {a b c : JsString} (hba : newerEntry metaMap b a = false)
    (hcb : newerEntry metaMap c b = false) : newerEntry metaMap c a = false := by
  unfold newerEntry at hba hcb ⊢
  by_cases hb : entryMtime metaMap b = entryMtime metaMap a
  · by_cases hc : entryMtime metaMap c = entryMtime metaMap b
    · simp only [ne_eq, hb, hc, not_true_eq_false, if_false, Bool.not_eq_false'] at hba hcb ⊢
      exact JsString.le_trans hcb hba
    · simpa [hb ▸ hc, ← hb, hc] using hcb
  by_cases hc : entryMtime metaMap c = entryMtime metaMap b
  · simpa [hc, hb] using hba
  simp only [ne_eq, hb, hc, not_false_eq_true, if_true, gt_iff_lt, decide_eq_false_iff_not,
    not_lt] at hba hcb
  have hlt : entryMtime metaMap c < entryMtime metaMap a :=
    lt_of_lt_of_le (lt_of_le_of_ne hcb hc) hba
  simp [ne_of_lt hlt, le_of_lt hlt]

end Resolvers

section Documents

variable {paths : NormalizePath} {doc : VaultDoc} {path fileId : JsString}

section

variable (h : StoredNormalized paths doc)
include h

/-- The two normalizations find the same files at a path. -/
theorem StoredNormalized.activeAt_eq (path : JsString) :
    doc.metaMap.entries.filterMap (activeAt normalizeVaultPath path) =
      activeFileIds paths.normalize doc.metaMap path := by
  apply List.filterMap_congr
  intro entry hmem
  unfold activeAt pathState
  cases hp : getMetaPath entry.2 with
  | none => rfl
  | some stored =>
    obtain ⟨hhost, hv⟩ := h.metadata entry.1 entry.2 stored (YMap.mem_entries.mp hmem) hp
    rw [map_some, map_some, hhost, hv]

theorem StoredNormalized.path_ne_nil
    {entry : JsString × MetaValue} (hmem : entry ∈ doc.metaMap.entries) {decoded : DecodedFileMeta}
    (hd : decodeFileMeta entry.2 = some decoded) : normalizeVaultPath decoded.path ≠ [] := by
  obtain ⟨hhost, hv⟩ := h.metadata entry.1 entry.2 decoded.path (YMap.mem_entries.mp hmem)
    (read_of_decodeFileMeta hd).1
  rw [hv, ← hhost]
  exact paths.normalize_ne_nil _

/-- What the snapshots find at a path in a document of schema 2 or later. -/
theorem get?_collectActiveMarkdownPaths (hv2 : doc.usesV2PathModel = true) (path : JsString) :
    (collectActiveMarkdownPaths doc).get? path =
      (activeFileIds paths.normalize doc.metaMap path).foldl (takeOver (newerEntry doc.metaMap))
        none := by
  rw [collectActiveMarkdownPaths, if_pos hv2, get?_foldl_resolveEntry, h.activeAt_eq]
  · rfl
  intro entry hmem decoded hd
  refine ⟨fun he => absurd he (h.path_ne_nil hmem hd), ?_⟩
  intro other
  have hen : (doc.metaMap.get? entry.1).bind decodeFileMeta = some decoded := by
    rw [YMap.mem_entries.mp hmem, bind_some, hd]
  unfold isCandidateMetaNewer newerEntry entryMtime
  rw [hen]
  rfl

/-- What the file history finds. -/
theorem get?_collectHistoryMarkdownPaths (hv2 : doc.usesV2PathModel = true) (path : JsString) :
    (collectHistoryMarkdownPaths doc).get? path =
      (activeFileIds paths.normalize doc.metaMap path).getLast? := by
  rw [collectHistoryMarkdownPaths, if_pos hv2, @get?_foldl_resolveEntry _ fun _ _ => true,
    h.activeAt_eq, foldl_takeOver_always]
  · exact or_none
  exact fun entry hmem decoded hd =>
    ⟨fun he => absurd he (h.path_ne_nil hmem hd), fun _ => rfl⟩

theorem get?_resolveLegacy (path : JsString) :
    (doc.pathToId.entries.foldl (resolveLegacyEntry doc.metaMap) .empty).get? path =
      (doc.pathToId.get? path).filter fun fileId =>
        !(doc.metaMap.get? fileId).any isFileMetaDeletedValue := by
  have hframe : ∀ resolved entry,
      decide (normalizeVaultPath entry.1 = path) = false →
        (resolveLegacyEntry doc.metaMap resolved entry).get? path = resolved.get? path := by
    intro resolved entry hown
    unfold resolveLegacyEntry
    dsimp only
    split_ifs
    · rfl
    · rfl
    · exact get?_set_of_ne (Ne.symm (of_decide_eq_false hown))
  have hcongr : ∀ resolved resolved'
      (entry : JsString × JsString), resolved.get? path = resolved'.get? path →
        (resolveLegacyEntry doc.metaMap resolved entry).get? path =
          (resolveLegacyEntry doc.metaMap resolved' entry).get? path := by
    intro resolved resolved' entry hs
    unfold resolveLegacyEntry
    dsimp only
    split_ifs
    · exact hs
    · exact hs
    · rw [get?_set, get?_set, hs]
  have hown : doc.pathToId.entries.filter
      (fun entry => decide (normalizeVaultPath entry.1 = path)) =
        doc.pathToId.live.entries.filter fun entry => entry.1 = path := by
    apply List.filter_congr
    intro entry hmem
    rw [(h.legacy entry.1 entry.2 (YMap.mem_entries.mp hmem)).2]
  rw [foldl_view hframe hcongr rfl, hown, filter_entries_key, YMap.get?_live]
  cases hget : doc.pathToId.get? path with
  | none => rfl
  | some fileId =>
    obtain ⟨hhost, hv⟩ := h.legacy path fileId hget
    have hne : path ≠ [] := by
      rw [← hhost]
      exact paths.normalize_ne_nil path
    simp only [map_some, toList_some, foldl_cons, List.foldl_nil,
      resolveLegacyEntry, hv, if_neg hne, filter_some]
    cases (doc.metaMap.get? fileId).any isFileMetaDeletedValue with
    | true => rfl
    | false => exact get?_set_self

/-- What both find in a legacy document. -/
theorem get?_collectLegacyMarkdownPaths (path : JsString) :
    (collectLegacyMarkdownPaths doc).get? path =
      ((doc.pathToId.get? path).filter fun fileId =>
        !(doc.metaMap.get? fileId).any isFileMetaDeletedValue).or
          (activeFileIds paths.normalize doc.metaMap path).head? := by
  rw [collectLegacyMarkdownPaths, @get?_foldl_resolveEntry _ fun _ _ => false, h.activeAt_eq,
    foldl_takeOver_never, get?_resolveLegacy h]
  exact fun entry hmem decoded hd =>
    ⟨fun he => absurd he (h.path_ne_nil hmem hd), fun _ => rfl⟩

end

/-- What the sync engine finds in a document of schema 2 or later. -/
theorem mem_lookup_of_v2 (hv2 : doc.usesV2PathModel = true) (hp : paths.normalize path = path) :
    fileId ∈ (load doc).lookup paths.normalize path ↔
      fileId ∈ activeFileIds paths.normalize doc.metaMap path := by
  have ha := (fresh_load paths doc).answers
  unfold lookup
  cases hget : ((load doc).getFileId paths.normalize path).1 with
  | some found =>
    have hs := (ha.fileId hv2 path found).mp hget
    rw [hp] at hs
    have hdoc : (load doc).doc = doc := rfl
    rw [hdoc] at hs
    rw [hs]
  | none =>
    rw [ha.fileIds, hp]
    exact List.mem_mergeSort

/-- In a legacy document the path map comes first. -/
theorem mem_lookup_of_legacy (hleg : doc.usesV2PathModel = false)
    (hp : paths.normalize path = path) :
    fileId ∈ (load doc).lookup paths.normalize path ↔
      match doc.pathToId.get? path with
      | some legacy => fileId = legacy
      | none => fileId ∈ activeFileIds paths.normalize doc.metaMap path := by
  have hfr := fresh_load paths doc
  have hmodel : (load doc).doc.usesV2PathModel = false := hleg
  have hdoc : (load doc).doc = doc := rfl
  unfold lookup getFileId
  dsimp only
  rw [hmodel, hp, hdoc]
  cases doc.pathToId.get? path with
  | some legacy => simp
  | none =>
    simp only [Bool.false_eq_true, if_false]
    cases hget : ((load doc).ensurePathIndexes paths.normalize).indexes.pathIndex.get? path with
    | some found =>
      have hs := (hfr.indexed.single path found).mp hget
      rw [hdoc] at hs
      rw [hs]
    | none =>
      rw [hfr.fileIds, hp]
      exact List.mem_mergeSort

/-- The snapshots find the newest of the files at a path. -/
theorem newest_spec (hst : StoredNormalized paths doc) (hv2 : doc.usesV2PathModel = true)
    (hne : activeFileIds paths.normalize doc.metaMap path ≠ []) :
    ∃ newest ∈ activeFileIds paths.normalize doc.metaMap path,
      (collectActiveMarkdownPaths doc).get? path = some newest ∧
        ∀ other ∈ activeFileIds paths.normalize doc.metaMap path,
          newerEntry doc.metaMap other newest = false := by
  rw [get?_collectActiveMarkdownPaths hst hv2]
  cases hact : activeFileIds paths.normalize doc.metaMap path with
  | nil => exact absurd hact hne
  | cons first rest =>
    exact foldl_takeOver_best (fun _ => newerEntry_self) (fun _ _ _ => newerEntry_trans)
      (fun _ _ => newerEntry_asymm) rest first

/-- The two resolvers name one file exactly if the last file is the newest. -/
theorem same_iff_of_v2 (hst : StoredNormalized paths doc) (hv2 : doc.usesV2PathModel = true) :
    (∀ path, (collectActiveMarkdownPaths doc).get? path =
      (collectHistoryMarkdownPaths doc).get? path) ↔ LastIsNewest paths doc := by
  constructor
  · intro hs path lastId otherId hl hmem ho
    obtain ⟨newest, -, hget, hbest⟩ := newest_spec hst hv2 (ne_nil_of_mem hmem)
    have heq := hs path
    rw [hget, get?_collectHistoryMarkdownPaths hst hv2, hl, Option.some.injEq] at heq
    exact newerEntry_total ho (heq ▸ hbest otherId hmem)
  intro hlat path
  rw [get?_collectHistoryMarkdownPaths hst hv2]
  by_cases hne : activeFileIds paths.normalize doc.metaMap path = []
  · rw [get?_collectActiveMarkdownPaths hst hv2, hne]
    rfl
  obtain ⟨newest, hmem, hget, hbest⟩ := newest_spec hst hv2 hne
  obtain ⟨lastId, hl⟩ := ne_none_iff_exists'.mp (mt List.getLast?_eq_none_iff.mp hne)
  rw [hget, hl]
  by_contra hdif
  have hnewer := hlat path lastId newest hl hmem fun h => hdif (congrArg some h)
  rw [hbest lastId (List.mem_of_getLast? hl)] at hnewer
  cases hnewer

theorem keys_iff_of_some {resolved : OrderedMap JsString JsString} {fileIds : List JsString}
    (hmem : ∀ fileId, resolved.get? path = some fileId → fileId ∈ fileIds)
    (hs : fileIds ≠ [] → resolved.get? path ≠ none) : path ∈ resolved.keys ↔ fileIds ≠ [] := by
  rw [mem_keys_iff]
  constructor
  · rintro ⟨fileId, hget⟩
    exact ne_nil_of_mem (hmem fileId hget)
  intro hne
  exact ne_none_iff_exists'.mp (hs hne)

/-- In a document of schema 2 or later the lookups differ only in which file they prefer. -/
theorem agree_iff_of_v2 (hst : StoredNormalized paths doc) (hv2 : doc.usesV2PathModel = true) :
    ResolversAgree paths doc ↔ LastIsNewest paths doc := by
  have hsnap : ∀ path fileId, (collectActiveMarkdownPaths doc).get? path = some fileId →
      fileId ∈ activeFileIds paths.normalize doc.metaMap path := by
    intro path fileId hget
    by_cases hne : activeFileIds paths.normalize doc.metaMap path = []
    · rw [get?_collectActiveMarkdownPaths hst hv2, hne] at hget
      cases hget
    obtain ⟨newest, hmem, hnew, -⟩ := newest_spec hst hv2 hne
    rw [hnew, Option.some.injEq] at hget
    exact hget ▸ hmem
  have hhis : ∀ path fileId, (collectHistoryMarkdownPaths doc).get? path = some fileId →
      fileId ∈ activeFileIds paths.normalize doc.metaMap path := by
    intro path fileId hget
    rw [get?_collectHistoryMarkdownPaths hst hv2] at hget
    exact List.mem_of_getLast? hget
  have hl : ∀ path fileId, fileId ∈ activeFileIds paths.normalize doc.metaMap path →
      fileId ∈ (load doc).lookup paths.normalize path :=
    fun path fileId hmem => (mem_lookup_of_v2 hv2 (normalize_of_mem hmem)).mpr hmem
  constructor <;> intro h
  · exact (same_iff_of_v2 hst hv2).mp h.same
  refine ⟨?_, ?_, fun path fileId hget => hl path fileId (hsnap path fileId hget),
    fun path fileId hget => hl path fileId (hhis path fileId hget),
    (same_iff_of_v2 hst hv2).mpr h⟩
  · intro path hp
    refine keys_iff_of_some (fun fileId hget => hl path fileId (hsnap path fileId hget)) ?_
    intro hne
    obtain ⟨fileId, hmem⟩ := List.exists_mem_of_ne_nil _ hne
    obtain ⟨newest, -, hnew, -⟩ := newest_spec hst hv2
      (ne_nil_of_mem ((mem_lookup_of_v2 hv2 hp).mp hmem))
    rw [hnew]
    exact some_ne_none _
  intro path hp
  refine keys_iff_of_some (fun fileId hget => hl path fileId (hhis path fileId hget)) ?_
  intro hne
  obtain ⟨fileId, hmem⟩ := List.exists_mem_of_ne_nil _ hne
  rw [get?_collectHistoryMarkdownPaths hst hv2, ne_eq, List.getLast?_eq_none_iff]
  exact ne_nil_of_mem ((mem_lookup_of_v2 hv2 hp).mp hmem)

/-- In a legacy document they differ where the path map leads to a file that is deleted. -/
theorem agree_iff_of_legacy (hsto : StoredNormalized paths doc)
    (hlegacy : doc.usesV2PathModel = false) : ResolversAgree paths doc ↔ LegacyLive doc := by
  have hsnap : collectActiveMarkdownPaths doc = collectLegacyMarkdownPaths doc := by
    rw [collectActiveMarkdownPaths, hlegacy]
    rfl
  have hhis : collectHistoryMarkdownPaths doc = collectLegacyMarkdownPaths doc := by
    rw [collectHistoryMarkdownPaths, hlegacy]
    rfl
  constructor
  · intro h path fileId hget
    by_contra hdel
    rw [Bool.not_eq_false] at hdel
    have hp := (hsto.legacy path fileId hget).1
    have hf : fileId ∈ (load doc).lookup paths.normalize path := by
      rw [mem_lookup_of_legacy hlegacy hp, hget]
    have hkey := (h.snapshotPaths path hp).mpr (ne_nil_of_mem hf)
    obtain ⟨other, ho⟩ := mem_keys_iff.mp hkey
    have hs := h.snapshotActive path other ho
    rw [mem_lookup_of_legacy hlegacy hp, hget] at hs
    rw [hsnap, get?_collectLegacyMarkdownPaths hsto, hget, filter_some, hdel, hs] at ho
    -- the deleted file would have to be active at the path
    obtain ⟨value, hv, hst⟩ := stateOf_eq_some.mp
      (mem_activeFileIds.mp (List.mem_of_head? ho))
    obtain ⟨stored, -, heq⟩ := map_eq_some_iff.mp hst
    rw [hv, any_some, (Prod.mk.inj heq).2] at hdel
    cases hdel
  intro h
  have hres : ∀ path fileId, (collectLegacyMarkdownPaths doc).get? path = some fileId →
      fileId ∈ (load doc).lookup paths.normalize path := by
    intro path fileId hget
    rw [get?_collectLegacyMarkdownPaths hsto] at hget
    cases hleg : doc.pathToId.get? path with
    | some legacy =>
      rw [mem_lookup_of_legacy hlegacy (hsto.legacy path legacy hleg).1, hleg]
      rw [hleg, filter_some, h path legacy hleg] at hget
      exact (some.inj hget).symm
    | none =>
      rw [hleg] at hget
      have hmem := List.mem_of_head? hget
      rw [mem_lookup_of_legacy hlegacy (normalize_of_mem hmem), hleg]
      exact hmem
  have hk : ∀ path, paths.normalize path = path → (path ∈
      (collectLegacyMarkdownPaths doc).keys ↔ (load doc).lookup paths.normalize path ≠ []) := by
    intro path hp
    refine keys_iff_of_some (hres path) ?_
    intro hne
    obtain ⟨fileId, hmem⟩ := List.exists_mem_of_ne_nil _ hne
    rw [mem_lookup_of_legacy hlegacy hp] at hmem
    rw [get?_collectLegacyMarkdownPaths hsto]
    cases hleg : doc.pathToId.get? path with
    | some legacy => simp [h path legacy hleg]
    | none =>
      rw [hleg] at hmem
      simpa using ne_nil_of_mem hmem
  exact ⟨hsnap ▸ hk, hhis ▸ hk, hsnap ▸ hres, hhis ▸ hres,
    fun path => by rw [hsnap, hhis]⟩

/-- When the three lookups agree. -/
theorem resolvers_agree_iff (paths : NormalizePath) (doc : VaultDoc)
    (hstored : StoredNormalized paths doc) : ResolversAgree paths doc ↔
      if doc.usesV2PathModel then LastIsNewest paths doc else LegacyLive doc := by
  cases hv2 : doc.usesV2PathModel with
  | true => exact agree_iff_of_v2 hstored hv2
  | false => exact agree_iff_of_legacy hstored hv2

end Documents

section Notes

/-- Two files at one path, the later entry the newer one or the older one. -/
def twinDoc (mtime mtime' : ℚ) : VaultDoc where
  schemaVersion := .num (some 2)
  metaMap := (YMap.empty.set (js "f") (createNestedActiveMeta (js "a") mtime none)).set (js "g")
    (createNestedActiveMeta (js "a") mtime' none)

/-- Every entry of it is at the one path. -/
theorem metaPath_twinDoc {mtime mtime' : ℚ} {fileId path : JsString} {value : MetaValue}
    (hget : (twinDoc mtime mtime').metaMap.get? fileId = some value)
    (hp : getMetaPath value = some path) : path = js "a" := by
  have hv : value = createNestedActiveMeta (js "a") mtime' none ∨
      value = createNestedActiveMeta (js "a") mtime none := by
    rw [twinDoc, YMap.get?_set, YMap.get?_set] at hget
    split_ifs at hget
    · exact .inl (some.inj hget).symm
    · exact .inr (some.inj hget).symm
    · cases hget
  rcases hv with rfl | rfl <;> exact (some.inj hp).symm

theorem storedNormalized_twinDoc (mtime mtime' : ℚ) :
    StoredNormalized .plain (twinDoc mtime mtime') := by
  constructor
  · intro fileId value path hget hp
    rw [metaPath_twinDoc hget hp]
    exact ⟨by decide, by decide⟩
  · nofun

theorem lastIsNewest_twinDoc : LastIsNewest .plain (twinDoc 1 2) := by
  intro path lastId otherId hl hmem ho
  obtain ⟨value, hget, hst⟩ := stateOf_eq_some.mp (mem_activeFileIds.mp hmem)
  obtain ⟨stored, hsto, heq⟩ := map_eq_some_iff.mp hst
  rw [metaPath_twinDoc hget hsto] at heq
  obtain ⟨rfl, -⟩ := Prod.mk.inj heq
  have hact : activeFileIds NormalizePath.plain.normalize (twinDoc 1 2).metaMap
      (NormalizePath.plain.normalize (js "a")) = [js "f", js "g"] := by decide
  cases hl
  rcases List.mem_cons.mp hmem with rfl | hmem
  · decide
  · exact absurd (List.mem_singleton.mp hmem) ho

theorem resolvers_agree_twins : ResolversAgree .plain (twinDoc 1 2) :=
  (resolvers_agree_iff .plain (twinDoc 1 2) (storedNormalized_twinDoc 1 2)).mpr lastIsNewest_twinDoc

/-- The snapshots restore the newer of two files, the history compares with the later one. -/
theorem resolvers_differ : ¬ ResolversAgree .plain (twinDoc 2 1) := by
  intro h
  have hs := h.same (js "a")
  revert hs
  decide

end Notes

end Kaos.Sync
