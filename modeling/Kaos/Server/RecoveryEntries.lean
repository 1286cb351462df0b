import Kaos.Server.RecoverySnapshot

/-! What a recovery state holds of each file. -/
namespace Kaos.Server

open Kaos.Lib Kaos.Yjs List Option OrderedMap

variable {doc : FileDoc} {text : JsString → Option JsString} {x : JsString}
  {fileIds : Option (List JsString)} {entries : EntryMap} {e : RecoveryStateEntry}

/-- Whether a selection is about a file; without ids it is about all. -/
def selects (fileIds : Option (List JsString)) (fileId : JsString) : Bool :=
  fileIds.all (·.contains fileId)

theorem fileId_of_metaEntry {raw : MetaValue} (h : metaEntry x raw = some e) : e.fileId = x := by
  obtain ⟨decoded, -, h⟩ := bind_eq_some_iff.mp h
  obtain ⟨rawPath, -, h⟩ := bind_eq_some_iff.mp h
  dsimp only at h
  split at h
  · cases h
  · exact (some.inj h) ▸ rfl

variable {rawPath : JsString} {existing : Option RecoveryStateEntry}

theorem fileId_of_pathEntry (hold : ∀ e, existing = some e → e.fileId = x)
    (h : pathEntry x rawPath existing = some e) : e.fileId = x := by
  unfold pathEntry at h
  dsimp only at h
  split_ifs at h with hp
  · exact hold e h
  cases existing with
  | none => exact (some.inj h) ▸ rfl
  | some old =>
    dsimp only at h
    split_ifs at h
    · exact (some.inj h) ▸ hold old rfl
    · exact (some.inj h) ▸ hold old rfl

theorem fileId_of_docEntry (h : docEntry doc x = some e) : e.fileId = x := by
  have hm : ∀ e, (doc.fileMeta.get? x).bind (metaEntry x) = some e → e.fileId = x := by
    intro e h
    obtain ⟨raw, -, h⟩ := bind_eq_some_iff.mp h
    exact fileId_of_metaEntry h
  unfold docEntry at h
  split at h
  · exact hm e h
  revert h
  generalize (doc.fileMeta.get? x).bind (metaEntry x) = existing at hm
  induction doc.pathToId.entries generalizing existing with
  | nil => exact hm e
  | cons mapping mappings ih =>
    refine ih _ fun e h => ?_
    dsimp only at h
    split at h
    · exact fileId_of_pathEntry hm h
    · exact hm e h

theorem get?_addMetaEntry {fileId : JsString} {raw : Option MetaValue} :
    (addMetaEntry entries fileId raw).get? x =
      if x = fileId then (raw.bind (metaEntry x)).or (entries.get? x) else entries.get? x := by
  unfold addMetaEntry
  by_cases hx : x = fileId
  · subst hx
    cases hraw : raw.bind (metaEntry x) <;> simp [get?_set_self]
  · cases hraw : raw.bind (metaEntry fileId) <;> simp [hx, get?_set_of_ne]

/-- The dirty files are looked up one by one. -/
theorem get?_foldl_addMetaEntry (ids : List JsString) :
    (ids.foldl (fun entries id => addMetaEntry entries id (doc.fileMeta.get? id)) entries).get? x =
      if x ∈ ids then ((doc.fileMeta.get? x).bind (metaEntry x)).or (entries.get? x)
      else entries.get? x := by
  induction ids generalizing entries with
  | nil => simp
  | cons id ids ih =>
    rw [foldl_cons, ih, get?_addMetaEntry]
    by_cases hid : x = id
    · subst hid
      cases (doc.fileMeta.get? x).bind (metaEntry x) <;> by_cases hids : x ∈ ids <;> simp [hids]
    · by_cases hids : x ∈ ids <;> simp [hid, hids]

/-- A scan of all metadata meets each file once. -/
theorem get?_scanMeta {metas : List (JsString × MetaValue)} (hnd : (metas.map Prod.fst).Nodup) :
    (metas.foldl (fun entries entry => addMetaEntry entries entry.1 (some entry.2)) entries).get? x =
      (((metas.find? fun entry => entry.1 = x).map Prod.snd).bind (metaEntry x)).or
        (entries.get? x) := by
  induction metas generalizing entries with
  | nil => simp
  | cons entry metas ih =>
    obtain ⟨id, raw⟩ := entry
    rw [map_cons, nodup_cons] at hnd
    rw [foldl_cons, ih hnd.2, get?_addMetaEntry]
    by_cases hid : id = x
    · subst hid
      have hn : metas.find? (fun entry => decide (entry.1 = id)) = none := by
        rw [find?_eq_none]
        intro entry hmem heq
        exact hnd.1 (mem_map.mpr ⟨entry, hmem, by simpa using heq⟩)
      simp [hn]
    · simp [hid, Ne.symm hid]

theorem pathEntry_eq_none (h : pathEntry x rawPath existing = none) : existing = none := by
  unfold pathEntry at h
  cases existing with
  | none => rfl
  | some old =>
    dsimp only at h
    split_ifs at h

theorem get?_addPathEntry {mapping : JsString × JsString} :
    (addPathEntry fileIds entries mapping).get? x =
      if mapping.2 = x ∧ selects fileIds x then pathEntry x mapping.1 (entries.get? x)
      else entries.get? x := by
  obtain ⟨rawPath, fileId⟩ := mapping
  have hskip : fileIds.any (fun ids => ¬ ids.contains fileId) = !selects fileIds fileId := by
    cases fileIds <;> simp [selects]
  unfold addPathEntry
  rw [hskip]
  cases hall : selects fileIds fileId with
  | false =>
    have hne : ¬ (fileId = x ∧ selects fileIds x = true) := by
      rintro ⟨rfl, h⟩
      rw [h] at hall
      cases hall
    rw [if_neg hne]
    rfl
  | true =>
    by_cases hx : fileId = x
    · subst hx
      cases hp : pathEntry fileId rawPath (entries.get? fileId) with
      | some e => simp [hall, get?_set_self]
      | none => simp [hall, pathEntry_eq_none hp]
    cases pathEntry fileId rawPath (entries.get? fileId) with
    | some e => simp [hx, get?_set_of_ne (Ne.symm hx)]
    | none => simp [hx]

theorem get?_foldl_addPathEntry (mappings : List (JsString × JsString)) :
    (mappings.foldl (addPathEntry fileIds) entries).get? x =
      if selects fileIds x then
        mappings.foldl (fun existing mapping =>
          if mapping.2 = x then pathEntry x mapping.1 existing else existing) (entries.get? x)
      else entries.get? x := by
  induction mappings generalizing entries with
  | nil => simp
  | cons mapping mappings ih =>
    rw [foldl_cons, ih, get?_addPathEntry]
    cases selects fileIds x <;> by_cases hx : mapping.2 = x <;> simp [hx]

theorem get?_selectMeta : (selectMeta doc fileIds).get? x =
    if selects fileIds x then (doc.fileMeta.get? x).bind (metaEntry x) else none := by
  unfold selectMeta
  cases fileIds with
  | some ids => simp [get?_foldl_addMetaEntry, selects]
  | none =>
    have hget : (doc.fileMeta.entries.find? fun entry => entry.1 = x).map Prod.snd =
        doc.fileMeta.get? x := by
      refine Option.ext fun raw => ?_
      rw [← YMap.mem_entries]
      exact get?_eq_some (m := ⟨doc.fileMeta.entries, doc.fileMeta.nodup_keys⟩)
    rw [get?_scanMeta doc.fileMeta.nodup_keys, hget]
    simp [selects]

/-- A selection holds the entries of the files it is about. -/
theorem get?_selectEntries : (selectEntries doc fileIds).get? x =
    if selects fileIds x then docEntry doc x else none := by
  unfold selectEntries docEntry
  split
  · exact get?_selectMeta
  rw [get?_foldl_addPathEntry, get?_selectMeta]
  cases selects fileIds x <;> simp

/-- Every entry stands under its own id. -/
def KeyedById (entries : EntryMap) : Prop := ∀ x e, entries.get? x = some e → e.fileId = x

theorem KeyedById.mem_values (h : KeyedById entries) :
    e ∈ entries.values ↔ entries.get? e.fileId = some e := by
  rw [get?_eq_some, OrderedMap.values, List.mem_map]
  constructor
  · rintro ⟨⟨x, e'⟩, hmem, rfl⟩
    obtain rfl := h x e' (get?_eq_some.mpr hmem)
    exact hmem
  · exact fun hmem => ⟨(e.fileId, e), hmem, rfl⟩

theorem KeyedById.nodup (h : KeyedById entries) : (entries.values.map (·.fileId)).Nodup := by
  have hk : entries.values.map (·.fileId) = entries.keys := by
    rw [OrderedMap.values, List.map_map, OrderedMap.keys]
    exact map_congr_left fun entry hmem => h _ _ (get?_eq_some.mpr hmem)
  rw [hk]
  exact entries.nodup

theorem keyedById_selectEntries : KeyedById (selectEntries doc fileIds) := by
  intro x e h
  rw [get?_selectEntries] at h
  split at h
  · exact fileId_of_docEntry h
  · cases h

theorem mem_values_selectEntries : e ∈ (selectEntries doc fileIds).values ↔
    selects fileIds e.fileId = true ∧ docEntry doc e.fileId = some e := by
  rw [keyedById_selectEntries.mem_values, get?_selectEntries]
  split
  · next h => simp [h]
  · next h => simp [h]

section Keyed

variable {α : Type*} {fileId : α → JsString} {l : List α} {a : α}

/-- Entries of different files keep their order and lose nothing. -/
theorem entries_entriesByFileId (hnd : (l.map fileId).Nodup) :
    (entriesByFileId fileId l).entries = l.map fun a => (fileId a, a) := by
  have hset : (OrderedMap.empty.setAll (l.map fun a => (fileId a, a))).entries =
      [] ++ l.map fun a => (fileId a, a) :=
    entries_setAll (fun _ _ => List.not_mem_nil) (by rwa [List.map_map])
  rw [OrderedMap.setAll, List.foldl_map] at hset
  exact hset

theorem values_entriesByFileId (hnd : (l.map fileId).Nodup) :
    (entriesByFileId fileId l).values = l := by
  rw [OrderedMap.values, entries_entriesByFileId hnd, List.map_map]
  exact List.map_id l

theorem get?_entriesByFileId (hnd : (l.map fileId).Nodup) :
    (entriesByFileId fileId l).get? x = some a ↔ a ∈ l ∧ fileId a = x := by
  rw [get?_eq_some, entries_entriesByFileId hnd]
  constructor
  · intro hmem
    obtain ⟨b, hb, heq⟩ := mem_map.mp hmem
    obtain ⟨rfl, rfl⟩ := Prod.mk.inj heq
    exact ⟨hb, rfl⟩
  rintro ⟨hmem, rfl⟩
  exact mem_map.mpr ⟨a, hmem, rfl⟩

end Keyed

section Sorted

variable {platform : RecoveryPlatform}

variable {α : Type*} {fileId : α → JsString} {l l' : List α}

theorem perm_sortByFileId : (sortByFileId platform fileId l).Perm l := perm_insertionSort _ _

theorem sorted_sortByFileId (hle : platform.TotalOrder) :
    (sortByFileId platform fileId l).Pairwise
      fun a b => platform.localeLe (fileId a) (fileId b) = true := by
  have : Std.Total fun a b : α => platform.localeLe (fileId a) (fileId b) = true :=
    ⟨fun a b => hle.total _ _⟩
  have : IsTrans α fun a b => platform.localeLe (fileId a) (fileId b) = true :=
    ⟨fun a b c => hle.trans _ _ _⟩
  exact pairwise_insertionSort _ l

/-- Two sorted lists of the same entries, one for each file, are one list. -/
theorem eq_of_sorted (hle : platform.TotalOrder) (hnd : (l.map fileId).Nodup)
    (hnd' : (l'.map fileId).Nodup) (hmem : ∀ a, a ∈ l ↔ a ∈ l')
    (hl : l.Pairwise fun a b => platform.localeLe (fileId a) (fileId b) = true)
    (hl' : l'.Pairwise fun a b => platform.localeLe (fileId a) (fileId b) = true) : l = l' := by
  have hperm : l.Perm l' := (perm_ext_iff_of_nodup hnd.of_map hnd'.of_map).mpr hmem
  refine hperm.eq_of_pairwise (fun a b ha hb hab hba => ?_) hl hl'
  exact inj_on_of_nodup_map hnd ha ((hmem b).mpr hb) (hle.antisymm _ _ hab hba)

end Sorted

section Build

variable {platform : RecoveryPlatform} {entry : InternalStateEntry}

theorem fileId_completeEntry (content : Option JsString) :
    (completeEntry platform content e).fileId = e.fileId := by
  cases content <;> rfl

theorem fileId_of_fileEntry (h : fileEntry platform doc text x = some entry) :
    entry.fileId = x := by
  obtain ⟨e, he, rfl⟩ := map_eq_some_iff.mp h
  rw [fileId_completeEntry]
  exact fileId_of_docEntry he

theorem mem_buildRecoveryStateSelection :
    entry ∈ buildRecoveryStateSelection platform doc text fileIds ↔
      selects fileIds entry.fileId = true ∧
        fileEntry platform doc text entry.fileId = some entry := by
  rw [buildRecoveryStateSelection, perm_sortByFileId.mem_iff, List.mem_map]
  constructor
  · rintro ⟨e, hmem, rfl⟩
    obtain ⟨hall, hdoc⟩ := mem_values_selectEntries.mp hmem
    rw [fileId_completeEntry]
    exact ⟨hall, by rw [fileEntry, hdoc, Option.map_some]⟩
  rintro ⟨hall, hen⟩
  obtain ⟨e, he, heq⟩ := Option.map_eq_some_iff.mp hen
  have hid := fileId_of_docEntry he
  rw [← hid] at hall he heq
  exact ⟨e, mem_values_selectEntries.mpr ⟨hall, he⟩, heq⟩

theorem nodup_buildRecoveryStateSelection :
    ((buildRecoveryStateSelection platform doc text fileIds).map (·.fileId)).Nodup := by
  rw [buildRecoveryStateSelection, (perm_sortByFileId.map _).nodup_iff, List.map_map]
  have hcongr : (selectEntries doc fileIds).values.map
      ((fun entry : InternalStateEntry => entry.fileId) ∘
        fun e => completeEntry platform (text e.fileId) e) =
      (selectEntries doc fileIds).values.map (·.fileId) :=
    List.map_congr_left fun e _ => fileId_completeEntry _
  rw [hcongr]
  exact keyedById_selectEntries.nodup

end Build

end Kaos.Server
