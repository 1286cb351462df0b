import Kaos.Sync.PathLookup

/-! What the integrity checks keep of a vault. -/
namespace Kaos.Sync

open Kaos.Lib Kaos.Paths Kaos.Yjs VaultSync List Option OrderedMap YMap

/-- An entry that is deleted, active or competing for its path. -/
def Kept (metaMap : SharedMeta) (fileId : JsString) : Prop :=
  ∃ value, metaMap.get? fileId = some value ∧
    (getMetaPath value ≠ none ∨ isFileMetaDeletedValue value = true)

/-- The text that the client finds at a path. -/
def VaultSync.contentAt (normalizePath : JsString → JsString) (sync : VaultSync) (path : JsString) :
    Option JsString :=
  (sync.getTextForPath normalizePath path).1.map YText.content

/-- A path of the legacy map after the first of its file. -/
def Duplicate (doc : VaultDoc) (path : JsString) : Prop :=
  ∃ fileId mapped, (pathsByFileId doc.pathToId.entries).get? fileId = some mapped ∧
    path ∈ mapped.tail

/-- Ids that are nowhere in the document, and no two alike. -/
structure FreshSupply (doc : VaultDoc) (supply : Supply) : Prop where
  meta_absent : ∀ n, doc.metaMap.get? (supply.ids n) = none
  text_absent : ∀ n, doc.idToText.get? (supply.ids n) = none
  unmapped : ∀ n path, doc.pathToId.get? path ≠ some (supply.ids n)
  injective : Function.Injective supply.ids

section Safety

variable (paths : NormalizePath)

/-- Only garbage is removed. -/
structure IntegritySafe (sync sync' : VaultSync) : Prop where
  texts : ∀ path content, sync.contentAt paths.normalize path = some content →
    sync'.contentAt paths.normalize path = some content
  entries : ∀ fileId, Kept sync.doc.metaMap fileId →
    sync'.doc.metaMap.get? fileId = sync.doc.metaMap.get? fileId ∧
      sync'.doc.idToText.get? fileId = sync.doc.idToText.get? fileId
  ownIds : sync.doc.usesV2PathModel = false → ∀ path path' fileId,
    sync'.doc.pathToId.get? path = some fileId → sync'.doc.pathToId.get? path' = some fileId →
      path = path'
  stable : ∀ now supply device,
    (sync'.runIntegrityChecks paths.normalize now supply device).doc = sync'.doc

/-- Every file with a text that is the first at a path of its own has a path or is deleted in the
metadata, and no copy of a shared file comes to a path that only the metadata has. -/
structure LegacyCovered (doc : VaultDoc) : Prop where
  mapped : ∀ path fileId text, paths.normalize path = path →
    doc.pathToId.get? path = some fileId → doc.idToText.get? fileId = some text →
      ¬ Duplicate doc path → Kept doc.metaMap fileId
  unmapped : ∀ path fileId text, doc.pathToId.get? path = none →
    activeFileIds paths.normalize doc.metaMap path = [fileId] →
      doc.idToText.get? fileId = some text →
        ∀ duplicate, Duplicate doc duplicate → duplicate ≠ [] → paths.normalize duplicate ≠ path

end Safety

section Repair

variable {now : ℚ} {supply : Supply} {device : Option JsString} {doc doc' doc'' : VaultDoc} {n : ℕ}
  {items items' : List (JsString × JsString)}

/-- Every path of a list has an id of its own with a text of the given content; nothing else is
changed. -/
structure Granted (now : ℚ) (supply : Supply) (device : Option JsString)
    (items : List (JsString × JsString)) (n : ℕ) (doc doc' : VaultDoc) : Prop where
  version : doc'.schemaVersion = doc.schemaVersion
  hit : ∀ k content path, items[k]? = some (content, path) →
    doc'.pathToId.get? path = some (supply.ids (n + k)) ∧
      doc'.metaMap.get? (supply.ids (n + k)) = some (createNestedActiveMeta path now device) ∧
      doc'.idToText.get? (supply.ids (n + k)) = some { item := supply.items (n + k), content }
  path : ∀ path, path ∉ items.map Prod.snd → doc'.pathToId.get? path = doc.pathToId.get? path
  file : ∀ fileId, (∀ k < items.length, fileId ≠ supply.ids (n + k)) →
    doc'.metaMap.get? fileId = doc.metaMap.get? fileId ∧
      doc'.idToText.get? fileId = doc.idToText.get? fileId

theorem granted_nil : Granted now supply device [] n doc doc :=
  ⟨rfl, fun _ _ _ h => (nomatch h), fun _ _ => rfl, fun _ _ => ⟨rfl, rfl⟩⟩

/-- One path is given an id of its own. -/
theorem granted_single (acc : VaultSync × ℕ) (sourceText : Option YText) (path : JsString) :
    Granted now supply device [((sourceText.map YText.content).getD [], path)] acc.2 acc.1.doc
      (giveOwnId now supply device acc sourceText path).1.doc := by
  refine ⟨rfl, ?_, ?_, ?_⟩
  · intro k content path' hget
    cases k with
    | succ k => cases hget
    | zero =>
      cases hget
      exact ⟨get?_put_self, get?_put_self, get?_put_self⟩
  · intro path' hnot
    exact get?_put_of_ne (by simpa using hnot)
  intro fileId hne
  have hf : fileId ≠ supply.ids acc.2 := hne 0 Nat.one_pos
  exact ⟨get?_put_of_ne hf, get?_put_of_ne hf⟩

theorem granted_append (hinj : Function.Injective supply.ids)
    (hnd : ((items ++ items').map Prod.snd).Nodup)
    (h : Granted now supply device items n doc doc')
    (h' : Granted now supply device items' (n + items.length) doc' doc'') :
    Granted now supply device (items ++ items') n doc doc'' := by
  rw [map_append, nodup_append] at hnd
  refine ⟨h'.version.trans h.version, ?_, ?_, ?_⟩
  · intro k content path hget
    by_cases hk : k < items.length
    · rw [getElem?_append_left hk] at hget
      obtain ⟨hp, hm, ht⟩ := h.hit k content path hget
      have hout : path ∉ items'.map Prod.snd := by
        intro hmem
        exact hnd.2.2 path (mem_map.mpr ⟨_, mem_of_getElem? hget, rfl⟩) path hmem rfl
      have hf := h'.file (supply.ids (n + k)) fun j _ heq => by
        have := hinj heq
        omega
      rw [h'.path path hout, hf.1, hf.2]
      exact ⟨hp, hm, ht⟩
    rw [getElem?_append_right (Nat.le_of_not_lt hk)] at hget
    have hl := h'.hit (k - items.length) content path hget
    have hix : n + items.length + (k - items.length) = n + k := by omega
    rwa [hix] at hl
  · intro path hnot
    rw [map_append, mem_append, not_or] at hnot
    rw [h'.path path hnot.2, h.path path hnot.1]
  intro fileId hne
  rw [length_append] at hne
  have hb := h.file fileId fun k hk => hne k (by omega)
  have ha := h'.file fileId fun k hk => by
    have := hne (items.length + k) (by omega)
    rwa [← Nat.add_assoc] at this
  exact ⟨ha.1.trans hb.1, ha.2.trans hb.2⟩

/-- All the paths of one file. -/
theorem granted_group (hinj : Function.Injective supply.ids) (sourceText : Option YText)
    (dupPaths : List JsString) (hnd : dupPaths.Nodup) (acc : VaultSync × ℕ) :
    let after := dupPaths.foldl
      (fun acc dupPath => giveOwnId now supply device acc sourceText dupPath) acc
    Granted now supply device
        (dupPaths.map fun path => ((sourceText.map YText.content).getD [], path)) acc.2 acc.1.doc
        after.1.doc ∧ after.2 = acc.2 + dupPaths.length := by
  induction dupPaths generalizing acc with
  | nil => exact ⟨granted_nil, rfl⟩
  | cons path dupPaths ih =>
    obtain ⟨hr, hc⟩ := ih (nodup_cons.mp hnd).2
      (giveOwnId now supply device acc sourceText path)
    constructor
    · have hnd' : (([((sourceText.map YText.content).getD [], path)] ++ dupPaths.map
          fun path => ((sourceText.map YText.content).getD [], path)).map Prod.snd).Nodup := by
        simpa [Function.comp_def] using hnd
      exact granted_append hinj hnd' (granted_single acc sourceText path) hr
    rw [foldl_cons, hc, length_cons]
    change acc.2 + 1 + dupPaths.length = _
    omega

/-- The content of a file's text, or nothing. -/
def contentOf (doc : VaultDoc) (fileId : JsString) : JsString :=
  ((doc.idToText.get? fileId).map YText.content).getD []

/-- The paths of a list of shared files that come to an id of their own, with their contents. -/
def sharedItems (doc : VaultDoc) (groups : List (JsString × List JsString)) :
    List (JsString × JsString) :=
  groups.flatMap fun group => group.2.tail.map fun path => (contentOf doc group.1, path)

theorem granted_groups (hinj : Function.Injective supply.ids)
    (groups : List (JsString × List JsString)) (acc : VaultSync × ℕ)
    (hold : ∀ group ∈ groups, ∀ n, group.1 ≠ supply.ids n)
    (hnd : (groups.flatMap fun group => group.2.tail).Nodup) :
    Granted now supply device (sharedItems acc.1.doc groups) acc.2 acc.1.doc
      (groups.foldl (splitSharedId now supply device) acc).1.doc := by
  induction groups generalizing acc with
  | nil => exact granted_nil
  | cons group groups ih =>
    rw [flatMap_cons, nodup_append] at hnd
    obtain ⟨hgroup, hc⟩ := @granted_group now supply device hinj
      (acc.1.doc.idToText.get? group.1) group.2.tail hnd.1 acc
    have hr := ih (splitSharedId now supply device acc group)
      (fun other hmem => hold other (mem_cons_of_mem _ hmem)) hnd.2.1
    have hitems : sharedItems (splitSharedId now supply device acc group).1.doc groups =
        sharedItems acc.1.doc groups := by
      apply flatMap_congr
      intro other hmem
      apply map_congr_left
      intro path _
      have ht := (hgroup.file other.1 fun k _ =>
        hold other (mem_cons_of_mem _ hmem) (acc.2 + k)).2
      unfold contentOf
      rw [← ht]
      rfl
    have hix : (splitSharedId now supply device acc group).2 = acc.2 +
        (group.2.tail.map fun path => (contentOf acc.1.doc group.1, path)).length := by
      rw [length_map]
      exact hc
    rw [hitems, hix] at hr
    have hsec : (sharedItems acc.1.doc groups).map Prod.snd =
        groups.flatMap fun group => group.2.tail := by
      rw [sharedItems, map_flatMap]
      simp [Function.comp_def]
    have hall : (((group.2.tail.map fun path => (contentOf acc.1.doc group.1, path)) ++
        sharedItems acc.1.doc groups).map Prod.snd).Nodup := by
      rw [map_append, hsec, nodup_append]
      simpa [Function.comp_def] using hnd
    exact granted_append hinj hall hgroup hr

/-- The paths that come to an id of their own. -/
def duplicateItems (doc : VaultDoc) : List (JsString × JsString) :=
  if doc.usesV2PathModel then [] else sharedItems doc (pathsByFileId doc.pathToId.entries).entries

/-- The paths of a file in the legacy map. -/
theorem group_spec {fileId : JsString} {mapped : List JsString}
    (h : (pathsByFileId doc.pathToId.entries).get? fileId = some mapped) :
    mapped ≠ [] ∧ mapped.Nodup ∧ ∀ path, path ∈ mapped ↔ doc.pathToId.get? path = some fileId := by
  obtain ⟨hne, rfl⟩ := mem_pathsByFileId.mp h
  refine ⟨hne, ?_, ?_⟩
  · refine doc.pathToId.nodup_keys.sublist ?_
    rw [← filterMap_eq_map]
    have hle : ∀ entries : List (JsString × JsString),
        (entries.filterMap fun entry => if entry.2 = fileId then some entry.1 else none).Sublist
          (entries.filterMap (some ∘ Prod.fst)) := by
      intro entries
      induction entries with
      | nil => exact .refl _
      | cons entry entries ih =>
        rw [filterMap_cons, filterMap_cons]
        by_cases hf : entry.2 = fileId
        · rw [if_pos hf]
          exact ih.cons_cons _
        rw [if_neg hf]
        exact ih.cons _
    exact hle _
  intro path
  rw [mem_filterMap, ← mem_entries]
  constructor
  · rintro ⟨entry, hmem, he⟩
    split at he
    · next hf =>
      cases he
      exact hf ▸ hmem
    · cases he
  · intro hmem
    exact ⟨(path, fileId), hmem, if_pos rfl⟩

/-- A mapped file has a group. -/
theorem exists_group {path fileId : JsString} (h : doc.pathToId.get? path = some fileId) :
    ∃ mapped, (pathsByFileId doc.pathToId.entries).get? fileId = some mapped := by
  refine ⟨_, mem_pathsByFileId.mpr ⟨?_, rfl⟩⟩
  apply ne_nil_of_mem
  exact mem_filterMap.mpr ⟨(path, fileId), mem_entries.mpr h, if_pos rfl⟩

theorem nodup_duplicates (doc : VaultDoc) :
    ((pathsByFileId doc.pathToId.entries).entries.flatMap fun group => group.2.tail).Nodup := by
  rw [nodup_flatMap]
  constructor
  · intro group hmem
    exact (group_spec (get?_eq_some.mpr hmem)).2.1.sublist (tail_sublist _)
  have hpair := (pathsByFileId doc.pathToId.entries).nodup
  rw [List.Nodup, pairwise_map] at hpair
  refine hpair.imp_of_mem ?_
  intro group group' hmem hmem' hne path hp hp'
  have hf := ((group_spec (get?_eq_some.mpr hmem)).2.2 path).mp (mem_of_mem_tail hp)
  have hsec := ((group_spec (get?_eq_some.mpr hmem')).2.2 path).mp (mem_of_mem_tail hp')
  rw [hf, Option.some.injEq] at hsec
  exact hne hsec

/-- The first step of the checks. -/
theorem granted_repair {sync : VaultSync} (hsupply : FreshSupply sync.doc supply) :
    Granted now supply device (duplicateItems sync.doc) 0 sync.doc
      (sync.repairDuplicateIds now supply device).doc := by
  unfold duplicateItems repairDuplicateIds
  split
  · exact granted_nil
  refine granted_groups hsupply.injective _ (sync, 0) ?_ (nodup_duplicates sync.doc)
  intro group hmem n heq
  obtain ⟨hne, -, hp⟩ := group_spec (get?_eq_some.mpr hmem)
  obtain ⟨path, hpa⟩ := exists_mem_of_ne_nil _ hne
  exact hsupply.unmapped n path (heq ▸ (hp path).mp hpa)

/-- A path that has lost its file to another one comes to a copy of it. -/
theorem mem_duplicateItems (hleg : doc.usesV2PathModel = false) {content path : JsString} :
    (content, path) ∈ duplicateItems doc ↔ Duplicate doc path ∧
      ∃ fileId, doc.pathToId.get? path = some fileId ∧ content = contentOf doc fileId := by
  have hmem : (content, path) ∈ duplicateItems doc ↔
      ∃ group ∈ (pathsByFileId doc.pathToId.entries).entries, path ∈ group.2.tail ∧
        content = contentOf doc group.1 := by
    rw [duplicateItems, hleg, if_neg Bool.false_ne_true, sharedItems, mem_flatMap]
    refine exists_congr fun group => and_congr_right fun _ => ?_
    rw [List.mem_map]
    constructor
    · rintro ⟨path', hp, heq⟩
      cases heq
      exact ⟨hp, rfl⟩
    rintro ⟨hp, rfl⟩
    exact ⟨path, hp, rfl⟩
  rw [hmem]
  constructor
  · rintro ⟨group, hgroup, htail, rfl⟩
    have hget : (pathsByFileId doc.pathToId.entries).get? group.1 = some group.2 :=
      get?_eq_some.mpr hgroup
    exact ⟨⟨group.1, group.2, hget, htail⟩, group.1,
      ((group_spec hget).2.2 path).mp (mem_of_mem_tail htail), rfl⟩
  rintro ⟨⟨fileId, mapped, hget, htail⟩, fileId', hf, rfl⟩
  have hs := ((group_spec hget).2.2 path).mp (mem_of_mem_tail htail)
  rw [hf, Option.some.injEq] at hs
  exact ⟨(fileId, mapped), get?_eq_some.mp hget, htail, by rw [hs]⟩

end Repair

section Cleanup

variable {paths : NormalizePath} {sync : VaultSync} {metaMap : SharedMeta} {fileId path : JsString}

theorem kept_of_stateOf {normalizePath : JsString → JsString} {state : JsString × Bool}
    (h : stateOf normalizePath metaMap fileId = some state) : Kept metaMap fileId := by
  obtain ⟨value, hget, hst⟩ := stateOf_eq_some.mp h
  obtain ⟨stored, hsto, -⟩ := map_eq_some_iff.mp hst
  refine ⟨value, hget, .inl ?_⟩
  rw [hsto]
  exact some_ne_none _

theorem kept_of_active (h : activeFileIds paths.normalize metaMap path = [fileId]) :
    Kept metaMap fileId := by
  have hmem : fileId ∈ activeFileIds paths.normalize metaMap path := by
    rw [h]
    exact mem_singleton_self _
  exact kept_of_stateOf (mem_activeFileIds.mp hmem)

/-- A file is referenced exactly if its entry has a path or is deleted. -/
theorem isReferenced_iff (hfr : CacheFresh paths.normalize sync) :
    (sync.ensurePathIndexes paths.normalize).isReferenced fileId = true ↔
      Kept sync.doc.metaMap fileId := by
  have hix := hfr.indexed
  unfold isReferenced
  rw [Bool.or_eq_true, Bool.or_eq_true, decide_eq_true_eq, List.any_eq_true, doc_ensurePathIndexes]
  constructor
  · rintro ((hv | ⟨fileIds, hv, hmem⟩) | hdel)
    · obtain ⟨entry, he, rfl⟩ := List.mem_map.mp hv
      have hs := (hix.single entry.1 entry.2).mp (get?_eq_some.mpr he)
      have hact : entry.2 ∈ activeFileIds paths.normalize sync.doc.metaMap entry.1 := by
        rw [hs]
        exact List.mem_singleton_self _
      exact kept_of_stateOf (mem_activeFileIds.mp hact)
    · obtain ⟨entry, he, rfl⟩ := List.mem_map.mp hv
      obtain ⟨-, heq⟩ := (hix.collided entry.1 entry.2).mp (get?_eq_some.mpr he)
      rw [decide_eq_true_eq, heq, List.mem_mergeSort] at hmem
      exact kept_of_stateOf (mem_activeFileIds.mp hmem)
    cases hget : sync.doc.metaMap.get? fileId with rw [hget] at hdel
    | none => cases hdel
    | some value => exact ⟨value, hget, .inr hdel⟩
  rintro ⟨value, hget, hk⟩
  by_cases hdel : isFileMetaDeletedValue value = true
  · right
    rw [hget]
    exact hdel
  left
  obtain ⟨stored, hst⟩ := ne_none_iff_exists'.mp (hk.resolve_right hdel)
  rw [Bool.not_eq_true] at hdel
  have hact : fileId ∈ activeFileIds paths.normalize sync.doc.metaMap
      (paths.normalize stored) := by
    rw [mem_activeFileIds, stateOf, hget, bind_some, pathState, hst, hdel]
    rfl
  by_cases hlong : 1 < (activeFileIds paths.normalize sync.doc.metaMap
      (paths.normalize stored)).length
  · right
    refine ⟨_, List.mem_map.mpr ⟨(paths.normalize stored, _), get?_eq_some.mp
      ((hix.collided _ _).mpr ⟨hlong, rfl⟩), rfl⟩, ?_⟩
    exact decide_eq_true (List.mem_mergeSort.mpr hact)
  left
  have hpos := List.length_pos_of_mem hact
  obtain ⟨single, hs⟩ := List.length_eq_one_iff.mp (by omega :
    (activeFileIds paths.normalize sync.doc.metaMap (paths.normalize stored)).length = 1)
  have heq : fileId = single := by
    rw [hs] at hact
    exact List.mem_singleton.mp hact
  rw [← heq] at hs
  exact List.mem_map.mpr ⟨(paths.normalize stored, fileId), get?_eq_some.mp
    ((hix.single _ _).mpr hs), rfl⟩

/-- What the cleanup leaves of a document. -/
structure Cleaned (doc doc' : VaultDoc) : Prop where
  pathToId : doc'.pathToId = doc.pathToId
  version : doc'.schemaVersion = doc.schemaVersion
  kept : ∀ fileId, Kept doc.metaMap fileId →
    doc'.metaMap.get? fileId = doc.metaMap.get? fileId ∧
      doc'.idToText.get? fileId = doc.idToText.get? fileId
  removed : ∀ fileId, ¬ Kept doc.metaMap fileId →
    doc'.metaMap.get? fileId = none ∧ doc'.idToText.get? fileId = none

theorem mem_orphanIds : fileId ∈ sync.orphanIds ↔ sync.isReferenced fileId = false ∧
    (sync.doc.idToText.get? fileId ≠ none ∨ sync.doc.metaMap.get? fileId ≠ none) := by
  have hk : ∀ {ν : Type} (m : YMap JsString ν), fileId ∈ m.entries.map Prod.fst ↔
      m.get? fileId ≠ none := by
    intro ν m
    rw [List.mem_map, ne_none_iff_exists']
    constructor
    · rintro ⟨entry, hmem, rfl⟩
      exact ⟨entry.2, mem_entries.mp hmem⟩
    rintro ⟨value, hget⟩
    exact ⟨(fileId, value), mem_entries.mpr hget, rfl⟩
  unfold orphanIds
  rw [mem_eraseDups, mem_filter, mem_append, hk, hk, Bool.not_eq_true', and_comm]

theorem cleanOrphans_spec (hfr : CacheFresh paths.normalize sync) :
    Cleaned sync.doc (sync.cleanOrphans paths.normalize).doc := by
  have horp : ∀ fileId, fileId ∈ (sync.ensurePathIndexes paths.normalize).orphanIds ↔
      ¬ Kept sync.doc.metaMap fileId ∧
        (sync.doc.idToText.get? fileId ≠ none ∨ sync.doc.metaMap.get? fileId ≠ none) := by
    intro fileId
    rw [mem_orphanIds, ← isReferenced_iff hfr, Bool.not_eq_true, doc_ensurePathIndexes]
  have hfold := foldl_deleteFile (sync.ensurePathIndexes paths.normalize).orphanIds
    { doc := sync.doc }
  have hdoc : (sync.cleanOrphans paths.normalize).doc =
      ((sync.ensurePathIndexes paths.normalize).orphanIds.foldl
        (fun txn fileId => (txn.deleteText fileId).putMeta fileId none)
        ({ doc := sync.doc } : Txn)).doc := by
    unfold cleanOrphans
    dsimp only
    split
    · rw [← @doc_ensurePathIndexes paths.normalize sync]
      rfl
    · next hshort =>
      have hnil := length_eq_zero_iff.mp (Nat.eq_zero_of_not_pos hshort)
      rw [hnil, doc_ensurePathIndexes]
      rfl
  rw [hdoc]
  refine ⟨hfold.1, hfold.2.1, ?_, ?_⟩ <;> intro fileId hk
  · obtain ⟨hm, ht⟩ := hfold.2.2 fileId
    have hnot : fileId ∉ (sync.ensurePathIndexes paths.normalize).orphanIds :=
      fun hmem => ((horp fileId).mp hmem).1 hk
    rw [hm, ht, if_neg hnot, if_neg hnot]
    exact ⟨rfl, rfl⟩
  obtain ⟨hm, ht⟩ := hfold.2.2 fileId
  rw [hm, ht]
  by_cases hmem : fileId ∈ (sync.ensurePathIndexes paths.normalize).orphanIds
  · rw [if_pos hmem, if_pos hmem]
    exact ⟨rfl, rfl⟩
  rw [if_neg hmem, if_neg hmem]
  rw [horp, not_and] at hmem
  have ha := hmem hk
  push Not at ha
  exact ⟨ha.2, ha.1⟩

end Cleanup

section Checks

variable {paths : NormalizePath} {now : ℚ} {supply : Supply} {device : Option JsString}
  {sync : VaultSync} {doc doc' doc'' : VaultDoc} {fileId path content : JsString}

theorem contentAt_iff (hfr : CacheFresh paths.normalize sync) :
    sync.contentAt paths.normalize path = some content ↔
      ∃ fileId text, FileAt paths sync.doc (paths.normalize path) fileId ∧
        sync.doc.idToText.get? fileId = some text ∧ text.content = content := by
  unfold contentAt getTextForPath
  dsimp only
  rw [doc_getFileId, map_eq_some_iff]
  constructor
  · rintro ⟨text, ht, hc⟩
    obtain ⟨fileId, hf, ht⟩ := bind_eq_some_iff.mp ht
    rw [getFileId_iff hfr, paths.normalize_normalize] at hf
    exact ⟨fileId, text, hf, ht, hc⟩
  rintro ⟨fileId, text, hf, ht, hc⟩
  rw [← paths.normalize_normalize, ← getFileId_iff hfr] at hf
  exact ⟨text, bind_eq_some_iff.mpr ⟨fileId, hf, ht⟩, hc⟩

theorem FreshSupply.not_kept (h : FreshSupply doc supply) (n : ℕ) :
    ¬ Kept doc.metaMap (supply.ids n) := by
  rintro ⟨value, hget, -⟩
  rw [h.meta_absent n] at hget
  cases hget

variable (hsupply : FreshSupply doc supply)
  (hgranted : Granted now supply device (duplicateItems doc) 0 doc doc')
  (hcleaned : Cleaned doc' doc'')

include hsupply hgranted in
theorem kept_granted (h : Kept doc.metaMap fileId) : Kept doc'.metaMap fileId := by
  have hold := hgranted.file fileId fun k _ heq => hsupply.not_kept _ (heq ▸ h)
  obtain ⟨value, hget, hv⟩ := h
  exact ⟨value, hold.1.trans hget, hv⟩

include hsupply hgranted hcleaned in
/-- What is not garbage stays. -/
theorem entries_checked (h : Kept doc.metaMap fileId) :
    doc''.metaMap.get? fileId = doc.metaMap.get? fileId ∧
      doc''.idToText.get? fileId = doc.idToText.get? fileId := by
  have hold := hgranted.file fileId fun k _ heq => hsupply.not_kept _ (heq ▸ h)
  have hk := hcleaned.kept fileId (kept_granted hsupply hgranted h)
  exact ⟨hk.1.trans hold.1, hk.2.trans hold.2⟩

include hcleaned in
theorem stateOf_cleaned : stateOf paths.normalize doc''.metaMap fileId =
    stateOf paths.normalize doc'.metaMap fileId := by
  by_cases hk : Kept doc'.metaMap fileId
  · rw [stateOf, stateOf, (hcleaned.kept fileId hk).1]
  have hn : stateOf paths.normalize doc'.metaMap fileId = none := by
    by_contra hs
    obtain ⟨state, hst⟩ := ne_none_iff_exists'.mp hs
    exact hk (kept_of_stateOf hst)
  rw [hn, stateOf, (hcleaned.removed fileId hk).1]
  rfl

include hgranted in
/-- The files that are active somewhere are those of before and the copies. -/
theorem stateOf_granted (hleg : doc.usesV2PathModel = false) {state : JsString × Bool}
    (h : stateOf paths.normalize doc'.metaMap fileId = some state) :
    stateOf paths.normalize doc.metaMap fileId = some state ∨
      ∃ duplicate n, fileId = supply.ids n ∧ Duplicate doc duplicate ∧ duplicate ≠ [] ∧
        state = (paths.normalize duplicate, false) := by
  by_cases hcopy : ∃ k < (duplicateItems doc).length, fileId = supply.ids (0 + k)
  · obtain ⟨k, hk, rfl⟩ := hcopy
    right
    have hget := getElem?_eq_getElem hk
    generalize (duplicateItems doc)[k] = item at hget
    obtain ⟨content, duplicate⟩ := item
    obtain ⟨-, hm, -⟩ := hgranted.hit k content duplicate hget
    have hdup := ((mem_duplicateItems hleg).mp (mem_of_getElem? hget)).1
    have hne : duplicate ≠ [] := by
      rintro rfl
      rw [stateOf, hm, bind_some, pathState_eq] at h
      cases h
    refine ⟨duplicate, 0 + k, rfl, hdup, hne, ?_⟩
    rw [stateOf, hm, bind_some, pathState_eq, decodeFileMeta_createNestedActiveMeta hne] at h
    exact (some.inj h).symm
  left
  rw [not_exists] at hcopy
  rw [stateOf, (hgranted.file fileId fun k hk heq => hcopy k ⟨hk, heq⟩).1] at h
  exact h

include hgranted in
/-- A path whose file has gone to another one has a copy. -/
theorem copy_granted (hleg : doc.usesV2PathModel = false) (hdup : Duplicate doc path)
    (hf : doc.pathToId.get? path = some fileId) :
    ∃ n, doc'.pathToId.get? path = some (supply.ids n) ∧
      doc'.metaMap.get? (supply.ids n) = some (createNestedActiveMeta path now device) ∧
      ∃ text, doc'.idToText.get? (supply.ids n) = some text ∧
        text.content = contentOf doc fileId := by
  have hmem := (mem_duplicateItems hleg).mpr ⟨hdup, fileId, hf, rfl⟩
  obtain ⟨k, hk⟩ := mem_iff_getElem?.mp hmem
  obtain ⟨hp, hm, ht⟩ := hgranted.hit k _ _ hk
  exact ⟨0 + k, hp, hm, _, ht, rfl⟩

theorem not_mem_duplicateItems (h : ¬ Duplicate doc path) :
    path ∉ (duplicateItems doc).map Prod.snd := by
  intro hmem
  obtain ⟨item, hi, rfl⟩ := mem_map.mp hmem
  cases hv2 : doc.usesV2PathModel with
  | true =>
    rw [duplicateItems, hv2] at hi
    cases hi
  | false => exact h ((mem_duplicateItems hv2).mp hi).1

include hgranted in
theorem usesV2_granted (hcleaned : Cleaned doc' doc'') :
    doc''.usesV2PathModel = doc.usesV2PathModel := by
  unfold VaultDoc.usesV2PathModel VaultDoc.storedSchemaVersion
  rw [hcleaned.version, hgranted.version]

include hsupply hgranted hcleaned in
/-- Where no copy has come to a path, the files that are active there are those of before. -/
theorem activeFileIds_checked (hcop : doc.usesV2PathModel = false →
      ∀ duplicate, Duplicate doc duplicate → duplicate ≠ [] → paths.normalize duplicate ≠ path) :
    activeFileIds paths.normalize doc''.metaMap path = [fileId] ↔
      activeFileIds paths.normalize doc.metaMap path = [fileId] := by
  rw [eq_singleton_iff nodup_activeFileIds, eq_singleton_iff nodup_activeFileIds]
  refine forall_congr' fun other => ?_
  rw [mem_activeFileIds, mem_activeFileIds, stateOf_cleaned hcleaned]
  have hs : stateOf paths.normalize doc'.metaMap other = some (path, false) ↔
      stateOf paths.normalize doc.metaMap other = some (path, false) := by
    constructor <;> intro h
    · cases hv2 : doc.usesV2PathModel with
      | true =>
        rw [duplicateItems, hv2] at hgranted
        rwa [stateOf, (hgranted.file other fun k hk => nomatch hk).1] at h
      | false =>
        rcases stateOf_granted hgranted hv2 h with hb | ⟨duplicate, n, -, hdup, hne, heq⟩
        · exact hb
        · exact absurd (Prod.mk.inj heq).1.symm (hcop hv2 duplicate hdup hne)
    · rw [stateOf, (hgranted.file other fun k _ heq => hsupply.not_kept _
        (heq ▸ kept_of_stateOf h)).1]
      exact h
  rw [hs]

include hsupply hgranted hcleaned in
/-- A file with a text at a path is there afterwards, or a copy of it. -/
theorem fileAt_checked (hp : paths.normalize path = path)
    (hcovered : doc.usesV2PathModel = false → LegacyCovered paths doc) {text : YText}
    (hf : FileAt paths doc path fileId) (ht : doc.idToText.get? fileId = some text) :
    ∃ fileId' text', FileAt paths doc'' path fileId' ∧
      doc''.idToText.get? fileId' = some text' ∧ text'.content = text.content := by
  have hmodel := usesV2_granted hgranted hcleaned
  unfold FileAt VaultDoc.legacyId at hf ⊢
  rw [hmodel]
  cases hleg : doc.usesV2PathModel with
  | true =>
    rw [hleg] at hf
    have hk := kept_of_active hf
    refine ⟨fileId, text, ?_, ?_, rfl⟩
    · rw [activeFileIds_checked hsupply hgranted hcleaned fun hv1 => ?_]
      · exact hf
      rw [hleg] at hv1
      cases hv1
    · rw [(entries_checked hsupply hgranted hcleaned hk).2, ht]
  | false =>
    have hcov := hcovered hleg
    rw [hleg] at hf
    simp only [Bool.false_eq_true, if_false, hcleaned.pathToId] at hf ⊢
    cases hm : doc.pathToId.get? path with rw [hm] at hf
    | none =>
      have hnot : ¬ Duplicate doc path := by
        rintro ⟨other, mapped, hget, htail⟩
        rw [((group_spec hget).2.2 path).mp (mem_of_mem_tail htail)] at hm
        cases hm
      rw [hgranted.path path (not_mem_duplicateItems hnot), hm]
      have hk := kept_of_active hf
      refine ⟨fileId, text, ?_, ?_, rfl⟩
      · exact (activeFileIds_checked hsupply hgranted hcleaned fun _ =>
          hcov.unmapped path fileId text hm hf ht).mpr hf
      · rw [(entries_checked hsupply hgranted hcleaned hk).2, ht]
    | some legacy =>
      subst hf
      by_cases hdup : Duplicate doc path
      · obtain ⟨n, hcopy, hmeta, copy, hcop, hc⟩ :=
          copy_granted hgranted hleg hdup hm
        have hne : path ≠ [] := by
          rw [← hp]
          exact paths.normalize_ne_nil path
        have hk : Kept doc'.metaMap (supply.ids n) := by
          refine ⟨_, hmeta, .inl ?_⟩
          rw [(read_of_decodeFileMeta (decodeFileMeta_createNestedActiveMeta hne)).1]
          exact some_ne_none _
        rw [hcopy]
        refine ⟨supply.ids n, copy, rfl, ?_, ?_⟩
        · rw [(hcleaned.kept _ hk).2, hcop]
        rw [hc, contentOf, ht]
        rfl
      have hk := hcov.mapped path fileId text hp hm ht hdup
      rw [hgranted.path path (not_mem_duplicateItems hdup), hm]
      exact ⟨fileId, text, rfl, by rw [(entries_checked hsupply hgranted hcleaned hk).2, ht],
        rfl⟩

include hsupply hgranted hcleaned in
/-- If every text is found afterwards, the legacy map was covered by the metadata. -/
theorem covered_of_texts (hleg : doc.usesV2PathModel = false)
    (htexts : ∀ path fileId text, paths.normalize path = path → FileAt paths doc path fileId →
      doc.idToText.get? fileId = some text → ∃ fileId' text', FileAt paths doc'' path fileId' ∧
        doc''.idToText.get? fileId' = some text') : LegacyCovered paths doc := by
  have hmodel : doc''.usesV2PathModel = false := by
    rw [usesV2_granted hgranted hcleaned, hleg]
  constructor
  · intro path fileId text hp hm ht hnot
    obtain ⟨fileId', text', hf', ht'⟩ := htexts path fileId text hp
      (by simp [FileAt, VaultDoc.legacyId, hleg, hm]) ht
    have hm' : doc''.pathToId.get? path = some fileId := by
      rw [hcleaned.pathToId, hgranted.path path (not_mem_duplicateItems hnot), hm]
    simp only [FileAt, VaultDoc.legacyId, hmodel, Bool.false_eq_true, if_false, hm'] at hf'
    subst hf'
    by_contra hgar
    have hold := hgranted.file fileId' fun k _ heq =>
      hsupply.unmapped _ path (heq ▸ hm)
    have hrem : ¬ Kept doc'.metaMap fileId' := by
      unfold Kept
      rw [hold.1]
      exact hgar
    rw [(hcleaned.removed fileId' hrem).2] at ht'
    cases ht'
  intro path fileId text hunm hact ht duplicate hdup hne heq
  have hp : paths.normalize path = path := by
    rw [← heq]
    exact paths.normalize_normalize duplicate
  obtain ⟨fileId', text', hf', -⟩ := htexts path fileId text hp
    (by simp [FileAt, VaultDoc.legacyId, hleg, hunm, hact]) ht
  have hnot : ¬ Duplicate doc path := by
    rintro ⟨other, mapped, hget, htail⟩
    rw [((group_spec hget).2.2 path).mp (mem_of_mem_tail htail)] at hunm
    cases hunm
  have hunm' : doc''.pathToId.get? path = none := by
    rw [hcleaned.pathToId, hgranted.path path (not_mem_duplicateItems hnot), hunm]
  simp only [FileAt, VaultDoc.legacyId, hmodel, Bool.false_eq_true, if_false, hunm'] at hf'
  -- both the file and the copy are active at the path
  obtain ⟨other, mapped, hget, htail⟩ := id hdup
  obtain ⟨n, -, hmeta, -⟩ := copy_granted hgranted hleg hdup
    (((group_spec hget).2.2 duplicate).mp (mem_of_mem_tail htail))
  have hcopy : supply.ids n ∈ activeFileIds paths.normalize doc''.metaMap path := by
    rw [mem_activeFileIds, stateOf_cleaned hcleaned, stateOf, hmeta, bind_some,
      pathState_eq, decodeFileMeta_createNestedActiveMeta hne, ← heq]
    rfl
  have hb : fileId ∈ activeFileIds paths.normalize doc.metaMap path := by
    rw [hact]
    exact mem_singleton_self _
  have hk := kept_of_stateOf (mem_activeFileIds.mp hb)
  have hf : fileId ∈ activeFileIds paths.normalize doc''.metaMap path := by
    rw [mem_activeFileIds, stateOf, (entries_checked hsupply hgranted hcleaned hk).1]
    exact mem_activeFileIds.mp hb
  rw [hf', mem_singleton] at hcopy hf
  rw [hf, ← hcopy] at hk
  exact hsupply.not_kept n hk

end Checks

section Safety

variable {paths : NormalizePath} {now : ℚ} {supply : Supply} {device : Option JsString}
  {sync : VaultSync} {doc doc' doc'' : VaultDoc}

/-- After the checks every path of the legacy map has a file of its own. -/
theorem ownIds_checked (hsupply : FreshSupply doc supply)
    (hgranted : Granted now supply device (duplicateItems doc) 0 doc doc')
    (hleg : doc.usesV2PathModel = false) {path path' fileId : JsString}
    (h : doc'.pathToId.get? path = some fileId) (h' : doc'.pathToId.get? path' = some fileId) :
    path = path' := by
  have hs : ∀ path, doc'.pathToId.get? path = some fileId →
      (∃ k content, (duplicateItems doc)[k]? = some (content, path) ∧
        fileId = supply.ids (0 + k)) ∨
        ¬ Duplicate doc path ∧ doc.pathToId.get? path = some fileId := by
    intro path hget
    by_cases hmem : path ∈ (duplicateItems doc).map Prod.snd
    · obtain ⟨⟨content, path⟩, hi, rfl⟩ := mem_map.mp hmem
      obtain ⟨k, hk⟩ := mem_iff_getElem?.mp hi
      have hcopy := (hgranted.hit k content path hk).1
      rw [hget, Option.some.injEq] at hcopy
      exact .inl ⟨k, content, hk, hcopy⟩
    rw [hgranted.path path hmem] at hget
    refine .inr ⟨?_, hget⟩
    intro hdup
    exact hmem (mem_map.mpr ⟨_, (mem_duplicateItems hleg).mpr ⟨hdup, fileId, hget, rfl⟩, rfl⟩)
  rcases hs path h with ⟨k, content, hk, rfl⟩ | ⟨hf, hm⟩
  · rcases hs path' h' with ⟨k', content', hk', hsa⟩ | ⟨-, hm'⟩
    · have hix := hsupply.injective hsa
      have heq : k = k' := by omega
      rw [← heq, hk, Option.some.injEq] at hk'
      exact (Prod.mk.inj hk').2
    · exact absurd hm' (hsupply.unmapped _ path')
  rcases hs path' h' with ⟨k', content', -, rfl⟩ | ⟨hf', hm'⟩
  · exact absurd hm (hsupply.unmapped _ path)
  · -- both are the first path of the file
    obtain ⟨mapped, hget⟩ := exists_group hm
    obtain ⟨-, -, hp⟩ := group_spec hget
    have hhead : ∀ path, path ∈ mapped → ¬ Duplicate doc path → mapped.head? = some path := by
      intro path hmem hnot
      cases mapped with
      | nil => cases hmem
      | cons first rest =>
        rcases mem_cons.mp hmem with rfl | hmem
        · rfl
        · exact absurd ⟨fileId, _, hget, hmem⟩ hnot
    have hboth := hhead path ((hp path).mpr hm) hf
    rw [hhead path' ((hp path').mpr hm') hf', Option.some.injEq] at hboth
    exact hboth.symm

/-- Once every path has a file of its own, no path is given one. -/
theorem repair_of_ownIds (hown : sync.doc.usesV2PathModel = false → ∀ path path' fileId,
      sync.doc.pathToId.get? path = some fileId → sync.doc.pathToId.get? path' = some fileId →
        path = path') : sync.repairDuplicateIds now supply device = sync := by
  unfold repairDuplicateIds
  cases hleg : sync.doc.usesV2PathModel with
  | true => rfl
  | false =>
    rw [if_neg Bool.false_ne_true]
    have hgroups : ∀ group ∈ (pathsByFileId sync.doc.pathToId.entries).entries,
        group.2.tail = [] := by
      intro group hmem
      obtain ⟨-, hnd, hp⟩ := group_spec (get?_eq_some.mpr hmem)
      cases hm : group.2 with
      | nil => rfl
      | cons first rest =>
        rw [hm] at hnd hp
        rw [tail_cons, eq_nil_iff_forall_not_mem]
        intro path hr
        have hs := hown hleg first path group.1 ((hp first).mp mem_cons_self)
          ((hp path).mp (mem_cons_of_mem _ hr))
        exact (nodup_cons.mp hnd).1 (hs ▸ hr)
    have hfold : ∀ (groups : List (JsString × List JsString)) (acc : VaultSync × ℕ),
        (∀ group ∈ groups, group.2.tail = []) →
          groups.foldl (splitSharedId now supply device) acc = acc := by
      intro groups
      induction groups with
      | nil =>
        intro acc _
        rfl
      | cons group groups ih =>
        intro acc hgroups
        rw [foldl_cons, splitSharedId, hgroups group mem_cons_self]
        exact ih acc fun other hmem => hgroups other (mem_cons_of_mem _ hmem)
    rw [hfold _ _ hgroups]

/-- Where nothing is garbage, nothing is removed. -/
theorem cleanOrphans_of_kept (hfr : CacheFresh paths.normalize sync)
    (hk : ∀ fileId, sync.doc.metaMap.get? fileId ≠ none ∨
      sync.doc.idToText.get? fileId ≠ none → Kept sync.doc.metaMap fileId) :
    (sync.cleanOrphans paths.normalize).doc = sync.doc := by
  have hnil : (sync.ensurePathIndexes paths.normalize).orphanIds = [] := by
    rw [eq_nil_iff_forall_not_mem]
    intro fileId hmem
    obtain ⟨hnot, hpres⟩ := mem_orphanIds.mp hmem
    rw [doc_ensurePathIndexes] at hpres
    rw [(isReferenced_iff hfr).mpr (hk fileId hpres.symm)] at hnot
    cases hnot
  unfold cleanOrphans
  dsimp only
  rw [hnil]
  exact doc_ensurePathIndexes

/-- The checks are safe exactly if the legacy map is covered by the metadata. -/
theorem integrity_safe_iff (paths : NormalizePath) (sync : VaultSync) (now : ℚ) (supply : Supply)
    (device : Option JsString) (hfresh : CacheFresh paths.normalize sync)
    (hsupply : FreshSupply sync.doc supply) :
    IntegritySafe paths sync (sync.runIntegrityChecks paths.normalize now supply device) ↔
      (sync.doc.usesV2PathModel = false → LegacyCovered paths sync.doc) := by
  have hfresh' := hfresh.runIntegrityChecks now supply device
  have hgranted := @granted_repair now supply device sync hsupply
  have hcleaned := cleanOrphans_spec (hfresh.repairDuplicateIds now supply device)
  have hdoc : ((sync.repairDuplicateIds now supply device).cleanOrphans paths.normalize).doc =
      (sync.runIntegrityChecks paths.normalize now supply device).doc := rfl
  rw [hdoc] at hcleaned
  have hown : sync.doc.usesV2PathModel = false → ∀ path path' fileId,
      (sync.runIntegrityChecks paths.normalize now supply device).doc.pathToId.get? path =
        some fileId →
      (sync.runIntegrityChecks paths.normalize now supply device).doc.pathToId.get? path' =
        some fileId → path = path' := by
    intro hleg path path' fileId
    rw [hcleaned.pathToId]
    exact ownIds_checked hsupply hgranted hleg
  constructor
  · intro h hleg
    refine covered_of_texts hsupply hgranted hcleaned hleg ?_
    intro path fileId text hp hf ht
    have hb := (@contentAt_iff paths sync path text.content hfresh).mpr
      ⟨fileId, text, hp.symm ▸ hf, ht, rfl⟩
    obtain ⟨fileId', text', hf', ht', -⟩ :=
      (contentAt_iff hfresh').mp (h.texts path text.content hb)
    rw [hp] at hf'
    exact ⟨fileId', text', hf', ht'⟩
  intro hcov
  refine ⟨?_, ?_, hown, ?_⟩
  · intro path content hcon
    obtain ⟨fileId, text, hf, ht, rfl⟩ := (contentAt_iff hfresh).mp hcon
    obtain ⟨fileId', text', hf', ht', hs⟩ := fileAt_checked hsupply hgranted hcleaned
      (paths.normalize_normalize path) hcov hf ht
    exact (contentAt_iff hfresh').mpr ⟨fileId', text', hf', ht', hs⟩
  · intro fileId hk
    exact entries_checked hsupply hgranted hcleaned hk
  intro now' supply' device'
  have hmodel := usesV2_granted hgranted hcleaned
  unfold runIntegrityChecks at hown hfresh' hcleaned hdoc hmodel ⊢
  rw [repair_of_ownIds fun hleg => hown (hmodel ▸ hleg)]
  apply cleanOrphans_of_kept hfresh'
  intro fileId hpres
  by_cases hk : Kept (sync.repairDuplicateIds now supply device).doc.metaMap fileId
  · unfold Kept
    rw [(hcleaned.kept fileId hk).1]
    exact hk
  obtain ⟨hm, ht⟩ := hcleaned.removed fileId hk
  rw [hm, ht] at hpres
  rcases hpres with hpres | hpres <;> exact absurd rfl hpres

/-- One file under two paths, with metadata for the first. -/
def sharedDoc : VaultDoc where
  pathToId := (YMap.empty.set (js "a") (js "f")).set (js "b") (js "f")
  idToText := YMap.empty.set (js "f") { item := 0, content := js "text" }
  metaMap := YMap.empty.set (js "f") (createNestedActiveMeta (js "a") 1 none)

/-- Ids that are longer than those of a small vault. -/
def longSupply : Supply where
  ids n := List.replicate (n + 2) 0
  items n := n + 1

theorem longSupply_ne (n : ℕ) : longSupply.ids n ≠ js "f" := by
  intro h
  have hlen := congrArg List.length h
  cases hlen

theorem freshSupply_sharedDoc : FreshSupply sharedDoc longSupply := by
  constructor
  · intro n
    rfl
  · intro n
    rfl
  · intro n path h
    rw [sharedDoc, YMap.get?_set, YMap.get?_set] at h
    split_ifs at h
    · exact longSupply_ne n (some.inj h).symm
    · exact longSupply_ne n (some.inj h).symm
    · cases h
  intro n m h
  have hlen := congrArg List.length h
  simp only [longSupply, length_replicate] at hlen
  omega

theorem legacyCovered_sharedDoc : LegacyCovered .plain sharedDoc := by
  have hm : ∀ path fileId, sharedDoc.pathToId.get? path = some fileId → fileId = js "f" := by
    intro path fileId h
    rw [sharedDoc, YMap.get?_set, YMap.get?_set] at h
    split_ifs at h
    · exact (some.inj h).symm
    · exact (some.inj h).symm
    · cases h
  constructor
  · intro path fileId text _ h _ _
    rw [hm path fileId h]
    exact ⟨_, rfl, .inl (by decide)⟩
  intro path fileId text hunm hact _ _ _ _ _
  obtain ⟨value, hget, hst⟩ := stateOf_eq_some.mp (mem_activeFileIds.mp
    (hact ▸ mem_singleton_self fileId))
  rw [sharedDoc, YMap.get?_set] at hget
  split_ifs at hget
  · cases hget
    cases hst
    revert hunm
    decide
  · cases hget

theorem integrity_safe_shared : IntegritySafe .plain (.load sharedDoc)
    ((load sharedDoc).runIntegrityChecks NormalizePath.plain.normalize 5 longSupply none) :=
  (integrity_safe_iff .plain (.load sharedDoc) 5 longSupply none (fresh_load _ _)
    freshSupply_sharedDoc).mpr fun _ => legacyCovered_sharedDoc

/-- A path of the legacy map whose file has a text and no metadata. -/
def unlistedDoc : VaultDoc where
  pathToId := YMap.empty.set (js "a") (js "f")
  idToText := YMap.empty.set (js "f") { item := 0, content := js "text" }

/-- The text is deleted. -/
theorem integrity_deletes_unlisted : ¬ IntegritySafe .plain (.load unlistedDoc)
    ((load unlistedDoc).runIntegrityChecks NormalizePath.plain.normalize 5 longSupply none) := by
  intro h
  have ht := h.texts (js "a") (js "text") rfl
  revert ht
  decide

end Safety

end Kaos.Sync
