import Kaos.Sync.SchemaMigration

/-! What the migration keeps of a vault, and when it does. -/
namespace Kaos.Sync

open Kaos.Lib Kaos.Paths Kaos.Yjs List Option OrderedMap YMap
open Option (bind_some getD_some map_some)

section Entries

variable {now mtime deletedAt : ℚ} {device : Option JsString} {path fileId : JsString}
  {value : MetaValue} {current : DecodedFileMeta} {norm : JsString → JsString}

theorem decode_flatDeletedMeta (hp : path ≠ []) :
    decodeFileMeta (flatDeletedMeta path deletedAt) =
      some { shape := .flat, path, deletedAt := some deletedAt } := by
  have hlen : path.length ≠ 0 := fun h => hp (length_eq_zero_iff.mp h)
  simp [flatDeletedMeta, decodeFileMeta, asRecord, decodeFields, hlen, readFinite, emptyRecord]

theorem pathState_flatDeletedMeta (hp : path ≠ []) :
    pathState norm (flatDeletedMeta path deletedAt) = some (norm path, true) := by
  rw [pathState_eq, decode_flatDeletedMeta hp]
  rfl

/-- An active entry that is moved is active at its new path. -/
theorem pathState_movedEntry (hd : decodeFileMeta value = some current)
    (hact : current.isDeleted = false) (hp : path ≠ []) :
    pathState norm (movedEntry now device path current value) = some (norm path, false) := by
  have hlen : path.length ≠ 0 := fun h => hp (length_eq_zero_iff.mp h)
  obtain ⟨-, hdel, -⟩ := read_of_decodeFileMeta hd
  rw [hact] at hdel
  cases value with
  | nested fields =>
    have hfields : isDeletedRecord fields = false := hdel
    simp only [isDeletedRecord] at hfields
    simp [pathState, movedEntry, getMetaPath, isFileMetaDeletedValue, MetaValue.fields, readPath,
      isDeletedRecord, hlen, hfields]
  | plain value =>
    simp [pathState, movedEntry, getMetaPath, isFileMetaDeletedValue, MetaValue.fields, readPath,
      isDeletedRecord, hlen, asRecord, emptyRecord, readFinite]

/-- What the loop over the mapped files makes of an entry. -/
def mappedValue (now : ℚ) (device : Option JsString) (path : JsString) (value : MetaValue) :
    MetaValue :=
  match decodeFileMeta value with
  | some current =>
    if !current.isDeleted ∧ current.path ≠ path then movedEntry now device path current value
    else value
  | none => value

/-- What the loop over the metadata makes of an entry. -/
def tombstoneValue (normalizePath : JsString → JsString) (now : ℚ) (value : MetaValue) :
    MetaValue :=
  match decodeFileMeta value with
  | none => value
  | some decoded =>
    if decoded.deleted ∧ decoded.deletedAt = none then
      flatDeletedMeta (normalizePath decoded.path) (decoded.mtime.getD now)
    else if decoded.isDeleted ∧
        (decoded.deleted ∨ decoded.mtime.isSome ∨ decoded.device.isSome) then
      flatDeletedMeta (normalizePath decoded.path) (decoded.deletedAt.getD now)
    else value

theorem mappedValue_of_deleted (hd : decodeFileMeta value = some current)
    (hdel : current.isDeleted = true) : mappedValue now device path value = value := by
  simp [mappedValue, hd, hdel]

/-- A mapped file that is active comes to its path. -/
theorem pathState_mappedValue (hd : decodeFileMeta value = some current)
    (hact : current.isDeleted = false) (hp : path ≠ []) :
    pathState norm (mappedValue now device path value) = some (norm path, false) := by
  unfold mappedValue
  rw [hd]
  dsimp only
  split
  · exact pathState_movedEntry hd hact hp
  · next hs =>
    rw [hact, Bool.not_false, eq_self_iff_true, true_and, not_not] at hs
    rw [pathState_eq, hd, map_some, hs, hact]

/-- An entry that is not deleted is not touched. -/
theorem tombstoneValue_of_active (h : ∀ path, pathState norm value ≠ some (path, true)) :
    tombstoneValue norm now value = value := by
  unfold tombstoneValue
  cases hd : decodeFileMeta value with
  | none => rfl
  | some decoded =>
    have hact : decoded.isDeleted = false := by
      by_contra hdel
      rw [Bool.not_eq_false] at hdel
      apply h (norm decoded.path)
      rw [pathState_eq, hd, map_some, hdel]
    have hflag : decoded.deleted = false := (Bool.or_eq_false_iff.mp hact).1
    simp [hact, hflag]

/-- A tombstone stays one of its path, and has a date. -/
theorem pathState_tombstoneValue (paths : NormalizePath)
    (h : pathState paths.normalize value = some (path, true)) :
    pathState paths.normalize (tombstoneValue paths.normalize now value) = some (path, true) ∧
      (getMetaDeletedAt (tombstoneValue paths.normalize now value)).isSome = true := by
  rw [pathState_eq, map_eq_some_iff] at h
  obtain ⟨decoded, hd, hst⟩ := h
  obtain ⟨rfl, hdel⟩ := Prod.mk.injEq .. ▸ hst
  have hflat : ∀ deletedAt, pathState paths.normalize (flatDeletedMeta
        (paths.normalize decoded.path) deletedAt) = some (paths.normalize decoded.path, true) ∧
      (getMetaDeletedAt (flatDeletedMeta (paths.normalize decoded.path) deletedAt)).isSome = true := by
    intro deletedAt
    have hp := paths.normalize_ne_nil decoded.path
    rw [pathState_flatDeletedMeta hp, paths.normalize_normalize,
      (read_of_decodeFileMeta (decode_flatDeletedMeta hp)).2.2]
    exact ⟨rfl, rfl⟩
  unfold tombstoneValue
  rw [hd]
  dsimp only
  split
  · exact hflat _
  · next hdated =>
    split
    · exact hflat _
    · next hbare =>
      rw [pathState_eq, hd, (read_of_decodeFileMeta hd).2.2, map_some, hdel]
      refine ⟨rfl, ?_⟩
      cases hflag : decoded.deleted with
      | true => exact absurd ⟨hdel, .inl hflag⟩ hbare
      | false =>
        rw [DecodedFileMeta.isDeleted, hflag, Bool.false_or] at hdel
        exact hdel

end Entries

section Loops

variable {now : ℚ} {device : Option JsString} {norm : JsString → JsString} {txn : Txn}
  {fileId : JsString} {mapped : List (JsString × JsString)}

/-- Nothing but the metadata differs. -/
def SameButMeta (doc doc' : VaultDoc) : Prop := doc' = { doc with metaMap := doc'.metaMap }

theorem SameButMeta.trans {doc doc' doc'' : VaultDoc} (h : SameButMeta doc doc')
    (h' : SameButMeta doc' doc'') : SameButMeta doc doc'' := by
  unfold SameButMeta at h h' ⊢
  rw [h', h]

theorem sameButMeta_putMeta (txn : Txn) (fileId : JsString) (value : Option MetaValue) :
    SameButMeta txn.doc (txn.putMeta fileId value).doc := rfl

theorem get?_putMeta (txn : Txn) (fileId other : JsString) (value : Option MetaValue) :
    (txn.putMeta fileId value).doc.metaMap.get? other =
      if other = fileId then value else txn.doc.metaMap.get? other := get?_put

/-- Whether the loop comes to its end, and what it then has made of each file. -/
structure Mapped (now : ℚ) (device : Option JsString) (mapped : List (JsString × JsString))
    (txn : Txn) (after : Txn × Bool) : Prop where
  ends : after.2 = true ↔ ∀ entry ∈ mapped,
    ((txn.doc.metaMap.get? entry.1).bind decodeFileMeta).isSome = true
  same : SameButMeta txn.doc after.1.doc
  others : ∀ fileId, fileId ∉ mapped.map Prod.fst →
    after.1.doc.metaMap.get? fileId = txn.doc.metaMap.get? fileId
  own : after.2 = true → ∀ entry ∈ mapped, after.1.doc.metaMap.get? entry.1 =
    (txn.doc.metaMap.get? entry.1).map (mappedValue now device entry.2)

theorem mapped_migrateMapped (hnd : (mapped.map Prod.fst).Nodup) :
    Mapped now device mapped txn (migrateMapped now device txn mapped) := by
  induction mapped generalizing txn with
  | nil => exact ⟨by simp [migrateMapped], rfl, fun _ _ => rfl, fun _ _ h => nomatch h⟩
  | cons entry mapped ih =>
    obtain ⟨fileId, path⟩ := entry
    rw [map_cons, nodup_cons] at hnd
    have hstop : ((txn.doc.metaMap.get? fileId).bind decodeFileMeta).isSome = false →
        Mapped now device ((fileId, path) :: mapped) txn
          (txn.putMeta fileId (some (flatActiveMeta path now device)), false) := by
      intro hn
      refine ⟨?_, sameButMeta_putMeta _ _ _, ?_, fun h => nomatch h⟩
      · refine ⟨fun h => (nomatch h), fun h => ?_⟩
        have hs := h (fileId, path) mem_cons_self
        rw [hn] at hs
        cases hs
      intro other hnot
      rw [map_cons, mem_cons, not_or] at hnot
      rw [get?_putMeta, if_neg hnot.1]
    unfold migrateMapped
    cases hget : txn.doc.metaMap.get? fileId with
    | none => exact hstop (by rw [hget]; rfl)
    | some value =>
      cases hd : decodeFileMeta value with simp only [hd]
      | none => exact hstop (by rw [hget, bind_some, hd]; rfl)
      | some current =>
        -- the step writes what `mappedValue` says, or leaves it
        have hst : ∀ other, (if !current.isDeleted ∧ current.path ≠ path then
              txn.putMeta fileId (some (movedEntry now device path current value))
            else txn).doc.metaMap.get? other =
            if other = fileId then some (mappedValue now device path value)
            else txn.doc.metaMap.get? other := by
          intro other
          unfold mappedValue
          rw [hd]
          dsimp only
          split
          · exact get?_putMeta _ _ _ _
          split
          · next heq => rw [heq, hget]
          · rfl
        have hsa : SameButMeta txn.doc (if !current.isDeleted ∧ current.path ≠ path then
              txn.putMeta fileId (some (movedEntry now device path current value))
            else txn).doc := by
          split
          · exact sameButMeta_putMeta _ _ _
          · rfl
        have hot : ∀ entry ∈ mapped, entry.1 ≠ fileId := by
          intro entry hmem heq
          exact hnd.1 (mem_map.mpr ⟨entry, hmem, heq⟩)
        obtain ⟨hends, hsa', ho, hown⟩ := @ih (if !current.isDeleted ∧ current.path ≠ path then
              txn.putMeta fileId (some (movedEntry now device path current value))
            else txn) hnd.2
        refine ⟨?_, hsa.trans hsa', ?_, ?_⟩
        · rw [hends, forall_mem_cons, hget, bind_some, hd]
          refine Iff.trans ?_ (and_iff_right rfl).symm
          refine forall₂_congr fun entry hmem => ?_
          rw [hst, if_neg (hot entry hmem)]
        · intro other hnot
          rw [map_cons, mem_cons, not_or] at hnot
          rw [ho other hnot.2, hst, if_neg hnot.1]
        intro htrue
        rw [forall_mem_cons]
        constructor
        · rw [ho fileId hnd.1, hst, if_pos rfl, hget]
          rfl
        intro entry hmem
        rw [hown htrue entry hmem, hst, if_neg (hot entry hmem)]

theorem migrateTombstone_spec (txn : Txn) (entry : JsString × MetaValue)
    (hget : txn.doc.metaMap.get? entry.1 = some entry.2) :
    SameButMeta txn.doc (migrateTombstone norm now txn entry).doc ∧
      ∀ other, (migrateTombstone norm now txn entry).doc.metaMap.get? other =
        if other = entry.1 then some (tombstoneValue norm now entry.2)
        else txn.doc.metaMap.get? other := by
  have hleave : ∀ other, txn.doc.metaMap.get? other =
      if other = entry.1 then some entry.2 else txn.doc.metaMap.get? other := by
    intro other
    split
    · next heq => rw [heq, hget]
    · rfl
  unfold migrateTombstone tombstoneValue
  cases decodeFileMeta entry.2 with
  | none => exact ⟨rfl, hleave⟩
  | some decoded =>
    dsimp only
    split
    · exact ⟨rfl, fun other => get?_putMeta _ _ _ _⟩
    split
    · exact ⟨rfl, fun other => get?_putMeta _ _ _ _⟩
    · exact ⟨rfl, hleave⟩

/-- The loop over the metadata goes once over every entry. -/
theorem migrateTombstones_spec (entries : List (JsString × MetaValue)) (txn : Txn)
    (hnd : (entries.map Prod.fst).Nodup)
    (hget : ∀ entry ∈ entries, txn.doc.metaMap.get? entry.1 = some entry.2) :
    SameButMeta txn.doc (entries.foldl (migrateTombstone norm now) txn).doc ∧
      (∀ entry ∈ entries, (entries.foldl (migrateTombstone norm now) txn).doc.metaMap.get?
        entry.1 = some (tombstoneValue norm now entry.2)) ∧
      ∀ other, other ∉ entries.map Prod.fst →
        (entries.foldl (migrateTombstone norm now) txn).doc.metaMap.get? other =
          txn.doc.metaMap.get? other := by
  induction entries generalizing txn with
  | nil => exact ⟨rfl, fun _ h => (nomatch h), fun _ _ => rfl⟩
  | cons entry entries ih =>
    rw [map_cons, nodup_cons] at hnd
    obtain ⟨hs, hst⟩ := @migrateTombstone_spec now norm txn entry
      (hget entry mem_cons_self)
    have hot : ∀ rest ∈ entries, rest.1 ≠ entry.1 :=
      fun rest hmem heq => hnd.1 (heq ▸ mem_map_of_mem hmem)
    obtain ⟨hs', hown, ho⟩ := ih (migrateTombstone norm now txn entry) hnd.2
      fun rest hmem => by
        rw [hst, if_neg (hot rest hmem)]
        exact hget rest (mem_cons_of_mem _ hmem)
    rw [foldl_cons]
    refine ⟨hs.trans hs', ?_, ?_⟩
    · rw [forall_mem_cons]
      refine ⟨?_, hown⟩
      rw [ho _ hnd.1, hst, if_pos rfl]
    intro other hnot
    rw [map_cons, mem_cons, not_or] at hnot
    rw [ho other hnot.2, hst, if_neg hnot.1]

/-- Every entry of the metadata is rewritten by itself. -/
theorem get?_migrateTombstones (txn : Txn) (fileId : JsString) :
    (txn.doc.metaMap.entries.foldl (migrateTombstone norm now) txn).doc.metaMap.get? fileId =
      (txn.doc.metaMap.get? fileId).map (tombstoneValue norm now) := by
  obtain ⟨-, hown, ho⟩ := @migrateTombstones_spec now norm txn.doc.metaMap.entries txn
    txn.doc.metaMap.nodup_keys fun entry hmem => mem_entries.mp hmem
  cases hget : txn.doc.metaMap.get? fileId with
  | some value => exact hown (fileId, value) (mem_entries.mpr hget)
  | none =>
    rw [ho, hget]
    · rfl
    intro hmem
    obtain ⟨entry, he, rfl⟩ := mem_map.mp hmem
    rw [mem_entries.mp he] at hget
    cases hget

/-- Ids that have not been in the document, and no two alike. -/
structure FreshIds (doc : VaultDoc) (ids : ℕ → JsString) : Prop where
  absent : ∀ n, doc.metaMap.get? (ids n) = none
  injective : Function.Injective ids

/-- The tombstones of the dropped paths come under new ids; nothing else is written. -/
theorem tombstoneLosers_spec (ids : ℕ → JsString) (hinj : Function.Injective ids)
    (losers : List JsString) (acc : Txn × ℕ) :
    let after := (losers.foldl (fun acc loser =>
      (acc.1.putMeta (ids acc.2) (some (flatDeletedMeta loser now)), acc.2 + 1)) acc).1
    SameButMeta acc.1.doc after.doc ∧
      (∀ fileId, (∀ n, acc.2 ≤ n → ids n ≠ fileId) →
        after.doc.metaMap.get? fileId = acc.1.doc.metaMap.get? fileId) ∧
      (∀ loser ∈ losers, ∃ n, after.doc.metaMap.get? (ids n) = some (flatDeletedMeta loser now)) ∧
      ∀ n, acc.2 ≤ n → after.doc.metaMap.get? (ids n) = acc.1.doc.metaMap.get? (ids n) ∨
        ∃ loser ∈ losers, after.doc.metaMap.get? (ids n) = some (flatDeletedMeta loser now) := by
  induction losers generalizing acc with
  | nil => exact ⟨rfl, fun _ _ => rfl, fun _ h => (nomatch h), fun _ _ => .inl rfl⟩
  | cons loser losers ih =>
    obtain ⟨hs, ho, hown, hnew⟩ :=
      ih (acc.1.putMeta (ids acc.2) (some (flatDeletedMeta loser now)), acc.2 + 1)
    have hf : (losers.foldl (fun acc loser => (acc.1.putMeta (ids acc.2)
        (some (flatDeletedMeta loser now)), acc.2 + 1))
          (acc.1.putMeta (ids acc.2) (some (flatDeletedMeta loser now)), acc.2 + 1)).1.doc.metaMap.get?
            (ids acc.2) = some (flatDeletedMeta loser now) := by
      rw [ho, get?_putMeta, if_pos rfl]
      intro n hle heq
      have := hinj heq
      omega
    refine ⟨hs, ?_, ?_, ?_⟩
    · intro fileId hne
      rw [foldl_cons, ho fileId fun n hle => hne n (Nat.le_of_succ_le hle), get?_putMeta,
        if_neg (Ne.symm (hne acc.2 le_rfl))]
    · rw [forall_mem_cons]
      exact ⟨⟨acc.2, hf⟩, hown⟩
    intro n hle
    rcases Nat.eq_or_lt_of_le hle with rfl | hlt
    · exact .inr ⟨loser, mem_cons_self, hf⟩
    rcases hnew n hlt with hold | ⟨loser', hmem, hget⟩
    · refine .inl (hold.trans ?_)
      rw [get?_putMeta, if_neg]
      intro heq
      have := hinj heq
      omega
    · exact .inr ⟨loser', mem_cons_of_mem _ hmem, hget⟩

end Loops

section Preservation

variable (paths : NormalizePath) (doc doc' : VaultDoc)

/-- Its entry is deleted. -/
def Tombstoned (fileId : JsString) : Prop :=
  ((doc.metaMap.get? fileId).map isFileMetaDeletedValue).getD false = true

/-- What a migration keeps: every mapped file that is not deleted is active at its one path, every
tombstone stays, and what is dropped is deleted unless something else is active there. -/
structure MigrationPreserves (losers : List JsString) : Prop where
  version : doc'.storedSchemaVersion = some 2
  active : ∀ fileId mapped, (mappedPaths paths.normalize doc).get? fileId = some mapped →
    ¬ Tombstoned doc fileId → stateOf paths.normalize doc'.metaMap fileId =
      some (canonicalPath paths.normalize doc.metaMap fileId mapped, false)
  texts : doc'.idToText = doc.idToText
  tombstones : ∀ fileId path, stateOf paths.normalize doc.metaMap fileId = some (path, true) →
    ∃ value, doc'.metaMap.get? fileId = some value ∧
      pathState paths.normalize value = some (path, true) ∧ (getMetaDeletedAt value).isSome = true
  dropped : ∀ fileId mapped, (mappedPaths paths.normalize doc).get? fileId = some mapped →
    ∀ path ∈ mapped, path ≠ canonicalPath paths.normalize doc.metaMap fileId mapped →
      (∀ other ∈ (mappedPaths paths.normalize doc).keys,
        stateOf paths.normalize doc'.metaMap other ≠ some (path, false)) ∧
      (HasTombstone paths.normalize doc'.metaMap path ∨
        activeFileIds paths.normalize doc'.metaMap path ≠ [])
  trashed : ∀ path ∈ losers, activeFileIds paths.normalize doc'.metaMap path = []

/-- Every mapped file has metadata, and no dropped path is one at which another file is active: an
unmapped one, or a mapped one whose canonical path it is. -/
structure Migratable : Prop where
  withMeta : ∀ fileId ∈ (mappedPaths paths.normalize doc).keys,
    ((doc.metaMap.get? fileId).bind decodeFileMeta).isSome = true
  unmapped : ∀ path ∈ loserPaths paths.normalize doc,
    ∀ fileId, fileId ∉ (mappedPaths paths.normalize doc).keys →
      stateOf paths.normalize doc.metaMap fileId ≠ some (path, false)
  mapped : ∀ path ∈ loserPaths paths.normalize doc,
    ∀ fileId mapped, (mappedPaths paths.normalize doc).get? fileId = some mapped →
      ¬ Tombstoned doc fileId → canonicalPath paths.normalize doc.metaMap fileId mapped ≠ path

end Preservation

section Migrated

variable {paths : NormalizePath} {doc doc' : VaultDoc} {now : ℚ} {ids : ℕ → JsString}
  {device : Option JsString} {fileId path : JsString} {mapped : List JsString}

theorem mem_loserPaths : path ∈ loserPaths paths.normalize doc ↔
    ∃ fileId mapped, (mappedPaths paths.normalize doc).get? fileId = some mapped ∧
      path ∈ mapped ∧ path ≠ canonicalPath paths.normalize doc.metaMap fileId mapped := by
  simp only [loserPaths, mem_flatMap, mem_filter, decide_eq_true_eq, get?_eq_some]
  constructor
  · rintro ⟨entry, hmem, hp, hne⟩
    exact ⟨entry.1, entry.2, hmem, hp, hne⟩
  rintro ⟨fileId, mapped, hmem, hp, hne⟩
  exact ⟨(fileId, mapped), hmem, hp, hne⟩

/-- Every path of a file of the legacy map is normalized, and it has one. -/
theorem mappedPaths_spec (h : (mappedPaths paths.normalize doc).get? fileId = some mapped) :
    mapped ≠ [] ∧ ∀ path ∈ mapped, path ≠ [] ∧ paths.normalize path = path := by
  obtain ⟨hne, heq⟩ := mem_pathsByFileId.mp h
  refine ⟨hne, ?_⟩
  intro path hmem
  rw [heq, mem_filterMap] at hmem
  obtain ⟨entry, he, hp⟩ := hmem
  obtain ⟨entry', -, rfl⟩ := mem_map.mp he
  split at hp
  · cases hp
    exact ⟨paths.normalize_ne_nil _, paths.normalize_normalize _⟩
  · cases hp

theorem canonicalPath_mem (hne : mapped ≠ []) :
    canonicalPath paths.normalize doc.metaMap fileId mapped ∈ mapped := by
  have hleast : (mapped.mergeSort JsString.le).headD [] ∈ mapped := by
    cases hsort : mapped.mergeSort JsString.le with
    | nil =>
      have hlen := congrArg List.length hsort
      rw [length_mergeSort] at hlen
      exact absurd (length_eq_zero_iff.mp hlen) hne
    | cons least rest =>
      rw [headD_cons, ← @List.mem_mergeSort _ JsString.le, hsort]
      exact mem_cons_self
  unfold canonicalPath
  split
  · split
    · assumption
    · exact hleast
  · exact hleast

theorem mem_existingActivePaths {metaMap : SharedMeta} :
    path ∈ existingActivePaths paths.normalize metaMap ↔
      activeFileIds paths.normalize metaMap path ≠ [] := by
  rw [ne_eq, eq_nil_iff_forall_not_mem]
  push Not
  simp only [mem_activeFileIds, stateOf_eq_some, existingActivePaths, mem_filterMap, pathState]
  constructor
  · rintro ⟨entry, hmem, he⟩
    split at he
    · cases he
    · next hact =>
      refine ⟨entry.1, entry.2, mem_entries.mp hmem, ?_⟩
      obtain ⟨metaPath, hp, rfl⟩ := map_eq_some_iff.mp he
      rw [hp, map_some, Bool.eq_false_iff.mpr hact]
  rintro ⟨fileId, value, hget, hst⟩
  refine ⟨(fileId, value), mem_entries.mpr hget, ?_⟩
  obtain ⟨metaPath, hp, heq⟩ := map_eq_some_iff.mp hst
  obtain ⟨rfl, hact⟩ := Prod.mk.injEq .. ▸ heq
  rw [if_neg (by rw [hact]; exact Bool.false_ne_true), hp, map_some]

/-- What the migration makes of the entry of a file, before any tombstone is added. -/
def migratedValue (paths : NormalizePath) (doc : VaultDoc) (now : ℚ) (device : Option JsString)
    (fileId : JsString) (value : MetaValue) : MetaValue :=
  tombstoneValue paths.normalize now (match (mappedPaths paths.normalize doc).get? fileId with
    | some mapped =>
      mappedValue now device (canonicalPath paths.normalize doc.metaMap fileId mapped) value
    | none => value)

theorem canonicalPathById_fst :
    (canonicalPathById paths.normalize doc).map Prod.fst = (mappedPaths paths.normalize doc).keys := by
  rw [canonicalPathById, List.map_map]
  rfl

/-- The document after a migration that has come to its end. -/
structure Migrated (paths : NormalizePath) (doc : VaultDoc) (now : ℚ) (ids : ℕ → JsString)
    (device : Option JsString) (doc' : VaultDoc) : Prop where
  version : doc'.schemaVersion = .num (some 2)
  texts : doc'.idToText = doc.idToText
  old : ∀ fileId, (∀ n, ids n ≠ fileId) → doc'.metaMap.get? fileId =
    (doc.metaMap.get? fileId).map (migratedValue paths doc now device fileId)
  new : ∀ n, doc'.metaMap.get? (ids n) = none ∨
    ∃ loser ∈ loserPaths paths.normalize doc,
      doc'.metaMap.get? (ids n) = some (flatDeletedMeta loser now)
  dropped : ∀ path ∈ loserPaths paths.normalize doc,
    (∀ fileId, (∀ n, ids n ≠ fileId) →
      stateOf paths.normalize doc'.metaMap fileId ≠ some (path, false)) →
    ∃ n, doc'.metaMap.get? (ids n) = some (flatDeletedMeta path now)

/-- The last loop, once every entry has been rewritten. -/
theorem migrated_of_rewritten {txn : Txn} (hfr : FreshIds doc ids)
    (hs : SameButMeta doc txn.doc) (hrew : ∀ fileId, txn.doc.metaMap.get? fileId =
      (doc.metaMap.get? fileId).map (migratedValue paths doc now device fileId)) :
    Migrated paths doc now ids device
      { (tombstoneLosers now ids (existingActivePaths paths.normalize txn.doc.metaMap)
        (loserPaths paths.normalize doc) txn).doc with schemaVersion := .num (some 2) } := by
  obtain ⟨hs', ho, hown, hnew⟩ := @tombstoneLosers_spec now ids hfr.injective
    ((loserPaths paths.normalize doc).filter
      (· ∉ existingActivePaths paths.normalize txn.doc.metaMap)) (txn, 0)
  have hold : ∀ fileId, (∀ n, ids n ≠ fileId) → (tombstoneLosers now ids
      (existingActivePaths paths.normalize txn.doc.metaMap) (loserPaths paths.normalize doc)
        txn).doc.metaMap.get? fileId = txn.doc.metaMap.get? fileId :=
    fun fileId hne => ho fileId fun n _ => hne n
  refine ⟨rfl, ?_, ?_, ?_, ?_⟩
  · have htexts := congrArg VaultDoc.idToText (hs.trans hs')
    exact htexts
  · intro fileId hne
    exact (hold fileId hne).trans (hrew fileId)
  · intro n
    rcases hnew n (Nat.zero_le n) with hsam | ⟨loser, hmem, hget⟩
    · left
      refine hsam.trans ?_
      rw [hrew, hfr.absent]
      rfl
    · exact .inr ⟨loser, mem_of_mem_filter hmem, hget⟩
  intro path hloser hvac
  apply hown
  rw [mem_filter, decide_eq_true_eq, mem_existingActivePaths, not_not, eq_nil_iff_forall_not_mem]
  refine ⟨hloser, ?_⟩
  intro fileId hmem
  rw [mem_activeFileIds] at hmem
  by_cases hnewId : ∃ n, ids n = fileId
  · obtain ⟨n, rfl⟩ := hnewId
    rw [stateOf, hrew, hfr.absent] at hmem
    cases hmem
  rw [not_exists] at hnewId
  apply hvac fileId hnewId
  rw [← hmem, stateOf, stateOf]
  exact congrArg (fun value : Option MetaValue => value.bind (pathState paths.normalize))
    (hold fileId hnewId)

theorem migrated_of_mapped (hfr : FreshIds doc ids)
    (hmeta : ∀ fileId ∈ (mappedPaths paths.normalize doc).keys,
      ((doc.metaMap.get? fileId).bind decodeFileMeta).isSome = true) :
    Migrated paths doc now ids device (migrateBody paths.normalize now ids device { doc }).doc := by
  have hm := @mapped_migrateMapped now device { doc } (canonicalPathById paths.normalize doc)
    (by rw [canonicalPathById_fst]; exact (mappedPaths paths.normalize doc).nodup)
  have hends : (migrateMapped now device { doc } (canonicalPathById paths.normalize doc)).2 = true := by
    rw [hm.ends]
    intro entry hmem
    apply hmeta
    rw [← canonicalPathById_fst]
    exact mem_map_of_mem hmem
  have hf : ∀ fileId, (migrateMapped now device { doc }
      (canonicalPathById paths.normalize doc)).1.doc.metaMap.get? fileId =
      (doc.metaMap.get? fileId).map fun value =>
        match (mappedPaths paths.normalize doc).get? fileId with
        | some mapped =>
          mappedValue now device (canonicalPath paths.normalize doc.metaMap fileId mapped) value
        | none => value := by
    intro fileId
    cases hget : (mappedPaths paths.normalize doc).get? fileId with
    | none =>
      rw [hm.others, Option.map_id']
      rw [canonicalPathById_fst]
      exact get?_eq_none.mp hget
    | some mapped =>
      exact hm.own hends (fileId, canonicalPath paths.normalize doc.metaMap fileId mapped)
        (mem_map.mpr ⟨(fileId, mapped), get?_eq_some.mp hget, rfl⟩)
  unfold migrateBody
  rw [if_pos hends]
  refine migrated_of_rewritten hfr ?_ ?_
  · exact hm.same.trans (migrateTombstones_spec _ _ (nodup_keys _)
      fun entry hmem => mem_entries.mp hmem).1
  intro fileId
  rw [get?_migrateTombstones, hf, Option.map_map]
  rfl

section

variable (h : Migrated paths doc now ids device doc')
include h

/-- A mapped file that is not deleted comes to its canonical path. -/
theorem stateOf_migrated_mapped (hfr : FreshIds doc ids)
    (hd : ((doc.metaMap.get? fileId).bind decodeFileMeta).isSome = true)
    (hget : (mappedPaths paths.normalize doc).get? fileId = some mapped)
    (hact : ¬ Tombstoned doc fileId) : stateOf paths.normalize doc'.metaMap fileId =
      some (canonicalPath paths.normalize doc.metaMap fileId mapped, false) := by
  obtain ⟨current, hcur⟩ := isSome_iff_exists.mp hd
  obtain ⟨value, hv, hval⟩ := bind_eq_some_iff.mp hcur
  obtain ⟨hne, hp⟩ := mappedPaths_spec hget
  obtain ⟨hpat, hnor⟩ := hp _ (@canonicalPath_mem paths doc fileId mapped hne)
  have hl : current.isDeleted = false := by
    by_contra hdel
    rw [Bool.not_eq_false] at hdel
    apply hact
    rw [Tombstoned, hv, map_some, getD_some, (read_of_decodeFileMeta hval).2.1, hdel]
  have hst := @pathState_mappedValue now device _ value current paths.normalize hval hl
    hpat
  rw [hnor] at hst
  have hold : ∀ n, ids n ≠ fileId := by
    intro n heq
    have ha := hfr.absent n
    rw [heq, hv] at ha
    cases ha
  rw [stateOf, h.old fileId hold, hv, map_some, bind_some, migratedValue, hget]
  rw [tombstoneValue_of_active, hst]
  intro path heq
  rw [hst] at heq
  cases heq

/-- Any other file is where it was. -/
theorem stateOf_migrated_unmapped
    (hold : ∀ n, ids n ≠ fileId) (hget : fileId ∉ (mappedPaths paths.normalize doc).keys) :
    stateOf paths.normalize doc'.metaMap fileId = stateOf paths.normalize doc.metaMap fileId := by
  rw [stateOf, stateOf, h.old fileId hold]
  cases hv : doc.metaMap.get? fileId with
  | none => rfl
  | some value =>
    rw [map_some, bind_some, bind_some, migratedValue, get?_eq_none.mpr hget]
    by_cases hdel : ∃ path, pathState paths.normalize value = some (path, true)
    · obtain ⟨path, hst⟩ := hdel
      rw [hst, (pathState_tombstoneValue paths hst).1]
    rw [not_exists] at hdel
    rw [tombstoneValue_of_active hdel]

/-- A tombstone of any file stays. -/
theorem migrated_tombstone (hfr : FreshIds doc ids)
    (hst : stateOf paths.normalize doc.metaMap fileId = some (path, true)) :
    ∃ value, doc'.metaMap.get? fileId = some value ∧
      pathState paths.normalize value = some (path, true) ∧
        (getMetaDeletedAt value).isSome = true := by
  obtain ⟨value, hv, hval⟩ := stateOf_eq_some.mp hst
  have hold : ∀ n, ids n ≠ fileId := by
    intro n heq
    have ha := hfr.absent n
    rw [heq, hv] at ha
    cases ha
  refine ⟨_, by rw [h.old fileId hold, hv, map_some], ?_⟩
  have hs : migratedValue paths doc now device fileId value =
      tombstoneValue paths.normalize now value := by
    unfold migratedValue
    cases hget : (mappedPaths paths.normalize doc).get? fileId with
    | none => rfl
    | some mapped =>
      dsimp only
      rw [pathState_eq, map_eq_some_iff] at hval
      obtain ⟨current, hd, heq⟩ := hval
      rw [mappedValue_of_deleted hd (congrArg Prod.snd heq)]
  rw [hs]
  exact pathState_tombstoneValue paths hval

/-- The files that are active after the migration. -/
theorem stateOf_migrated_active (hfr : FreshIds doc ids) (hmig : Migratable paths doc)
    (hst : stateOf paths.normalize doc'.metaMap fileId = some (path, false)) :
    path ∉ loserPaths paths.normalize doc := by
  intro hloser
  by_cases hnew : ∃ n, ids n = fileId
  · obtain ⟨n, rfl⟩ := hnew
    rcases h.new n with hn | ⟨loser, hmem, hget⟩
    · rw [stateOf, hn] at hst
      cases hst
    obtain ⟨owner, mapped, ho, hp, -⟩ := mem_loserPaths.mp hmem
    rw [stateOf, hget, bind_some, pathState_flatDeletedMeta ((mappedPaths_spec ho).2 _ hp).1] at hst
    cases hst
  rw [not_exists] at hnew
  cases hget : (mappedPaths paths.normalize doc).get? fileId with
  | none =>
    have hunm := get?_eq_none.mp hget
    rw [stateOf_migrated_unmapped h hnew hunm] at hst
    exact hmig.unmapped path hloser fileId hunm hst
  | some mapped =>
    have hkey : fileId ∈ (mappedPaths paths.normalize doc).keys :=
      mem_keys.mpr ⟨mapped, get?_eq_some.mp hget⟩
    by_cases htomb : Tombstoned doc fileId
    · obtain ⟨current, hcur⟩ := isSome_iff_exists.mp (hmig.withMeta fileId hkey)
      obtain ⟨value, hv, hd⟩ := bind_eq_some_iff.mp hcur
      rw [Tombstoned, hv, map_some, getD_some, (read_of_decodeFileMeta hd).2.1] at htomb
      have hdead : stateOf paths.normalize doc.metaMap fileId =
          some (paths.normalize current.path, true) := by
        rw [stateOf, hv, bind_some, pathState_eq, hd, map_some, htomb]
      obtain ⟨value', hv', hst', -⟩ := migrated_tombstone h hfr hdead
      rw [stateOf, hv', bind_some, hst'] at hst
      cases hst
    rw [stateOf_migrated_mapped h hfr (hmig.withMeta fileId hkey) hget htomb]
      at hst
    exact hmig.mapped path hloser fileId mapped hget htomb
      (congrArg Prod.fst (some.inj hst))

end

end Migrated

/-- A migration that stops at a file without metadata leaves the version as it was. -/
theorem withMeta_of_version {paths : NormalizePath} {doc : VaultDoc} {now : ℚ} {ids : ℕ → JsString}
    {device : Option JsString} (hleg : doc.usesV2PathModel = false)
    (hver : (migrateBody paths.normalize now ids device { doc }).doc.storedSchemaVersion =
      some 2) : ∀ fileId ∈ (mappedPaths paths.normalize doc).keys,
        ((doc.metaMap.get? fileId).bind decodeFileMeta).isSome = true := by
  have hm := @mapped_migrateMapped now device { doc } (canonicalPathById paths.normalize doc)
    (by rw [canonicalPathById_fst]; exact (mappedPaths paths.normalize doc).nodup)
  have hends : (migrateMapped now device { doc } (canonicalPathById paths.normalize doc)).2 = true := by
    by_contra hstop
    unfold migrateBody at hver
    rw [if_neg hstop] at hver
    have hs : (migrateMapped now device { doc }
        (canonicalPathById paths.normalize doc)).1.doc.schemaVersion = doc.schemaVersion := by
      have hsch := congrArg VaultDoc.schemaVersion hm.same
      exact hsch
    rw [VaultDoc.storedSchemaVersion, hs, ← VaultDoc.storedSchemaVersion] at hver
    rw [VaultDoc.usesV2PathModel, hver] at hleg
    cases hleg
  intro fileId hkey
  rw [← canonicalPathById_fst] at hkey
  obtain ⟨entry, hmem, rfl⟩ := mem_map.mp hkey
  exact hm.ends.mp hends entry hmem

/-- The migration keeps the vault exactly if every mapped file has metadata and no dropped path is
one at which another file is active. -/
theorem migration_preserves_iff (paths : NormalizePath) (sync : VaultSync) (now : ℚ)
    (ids : ℕ → JsString) (device : Option JsString) (hlegacy : sync.doc.usesV2PathModel = false)
    (hfresh : FreshIds sync.doc ids) :
    MigrationPreserves paths sync.doc
        (sync.migrateSchemaToV2 paths.normalize now ids device).1.doc
        (sync.migrateSchemaToV2 paths.normalize now ids device).2 ↔
      Migratable paths sync.doc := by
  have hdoc : (sync.migrateSchemaToV2 paths.normalize now ids device).1.doc =
      (migrateBody paths.normalize now ids device { doc := sync.doc }).doc := rfl
  have hlos : (sync.migrateSchemaToV2 paths.normalize now ids device).2 =
      loserPaths paths.normalize sync.doc := rfl
  rw [hdoc, hlos]
  constructor <;> intro h
  · have hm := withMeta_of_version hlegacy h.version
    have hmig := @migrated_of_mapped paths sync.doc now ids device hfresh hm
    have hvac : ∀ path ∈ loserPaths paths.normalize sync.doc, ∀ fileId, stateOf paths.normalize
        (migrateBody paths.normalize now ids device { doc := sync.doc }).doc.metaMap fileId ≠
          some (path, false) := by
      intro path hloser fileId hst
      have hn := h.trashed path hloser
      rw [List.eq_nil_iff_forall_not_mem] at hn
      exact hn fileId (mem_activeFileIds.mpr hst)
    refine ⟨hm, ?_, ?_⟩
    · intro path hloser fileId hunm hst
      refine hvac path hloser fileId ?_
      rw [stateOf_migrated_unmapped hmig ?_ hunm, hst]
      intro n heq
      rw [← heq, stateOf, hfresh.absent] at hst
      cases hst
    intro path hloser fileId mapped hget hact heq
    refine hvac path hloser fileId ?_
    have hkey : fileId ∈ (mappedPaths paths.normalize sync.doc).keys :=
      OrderedMap.mem_keys.mpr ⟨mapped, OrderedMap.get?_eq_some.mp hget⟩
    rw [stateOf_migrated_mapped hmig hfresh (hm fileId hkey) hget hact, heq]
  have hmig := @migrated_of_mapped paths sync.doc now ids device hfresh h.withMeta
  have hvac : ∀ path ∈ loserPaths paths.normalize sync.doc, ∀ fileId, stateOf paths.normalize
      (migrateBody paths.normalize now ids device { doc := sync.doc }).doc.metaMap fileId ≠
        some (path, false) :=
    fun path hloser fileId hst => stateOf_migrated_active hmig hfresh h hst hloser
  refine ⟨?_, ?_, hmig.texts, fun _ _ hst => migrated_tombstone hmig hfresh hst, ?_, ?_⟩
  · rw [VaultDoc.storedSchemaVersion, hmig.version]
    rfl
  · intro fileId mapped hget hact
    have hkey : fileId ∈ (mappedPaths paths.normalize sync.doc).keys :=
      OrderedMap.mem_keys.mpr ⟨mapped, OrderedMap.get?_eq_some.mp hget⟩
    exact stateOf_migrated_mapped hmig hfresh (h.withMeta fileId hkey) hget hact
  · intro fileId mapped hget path hmem hne
    have hloser := mem_loserPaths.mpr ⟨fileId, mapped, hget, hmem, hne⟩
    refine ⟨fun other _ => hvac path hloser other, .inl ?_⟩
    obtain ⟨n, htom⟩ := hmig.dropped path hloser fun other _ => hvac path hloser other
    obtain ⟨hpat, hnor⟩ := (mappedPaths_spec hget).2 path hmem
    refine hasTombstone_iff.mpr ⟨ids n, ?_⟩
    rw [stateOf, htom, bind_some, pathState_flatDeletedMeta hpat, hnor]
  intro path hloser
  rw [List.eq_nil_iff_forall_not_mem]
  intro fileId hmem
  exact hvac path hloser fileId (mem_activeFileIds.mp hmem)

/-- One file under two paths. -/
def aliasDoc : VaultDoc where
  pathToId := (YMap.empty.set (js "a") (js "f")).set (js "b") (js "f")
  idToText := YMap.empty.set (js "f") { item := 0, content := js "text" }
  metaMap := YMap.empty.set (js "f") (createNestedActiveMeta (js "b") 1 none)

/-- Ids that are new to every small vault. -/
def longIds (n : ℕ) : JsString := List.replicate (n + 2) 0

theorem freshIds_aliasDoc : FreshIds aliasDoc longIds := by
  constructor
  · intro n
    have hne : longIds n ≠ js "f" := by
      intro h
      have hlen := congrArg List.length h
      cases hlen
    rfl
  intro n m h
  have hlen := congrArg List.length h
  rw [longIds, longIds, length_replicate, length_replicate] at hlen
  omega

theorem migratable_aliasDoc : Migratable .plain aliasDoc := by
  have hk : (mappedPaths NormalizePath.plain.normalize aliasDoc).keys = [js "f"] := by decide
  have hm : (mappedPaths NormalizePath.plain.normalize aliasDoc).get? (js "f") =
      some [js "a", js "b"] := by decide
  have hlos : loserPaths NormalizePath.plain.normalize aliasDoc = [js "a"] := by decide
  have hcan : canonicalPath NormalizePath.plain.normalize aliasDoc.metaMap (js "f")
      [js "a", js "b"] = js "b" := by decide
  constructor
  · intro fileId hkey
    rw [hk, mem_singleton] at hkey
    rw [hkey]
    rfl
  · intro path hloser fileId hunm
    rw [hk, mem_singleton] at hunm
    rw [stateOf, aliasDoc, YMap.get?_set, if_neg hunm]
    exact nofun
  intro path hloser fileId mapped hget hact heq
  have hkey : fileId ∈ (mappedPaths NormalizePath.plain.normalize aliasDoc).keys :=
    mem_keys.mpr ⟨mapped, get?_eq_some.mp hget⟩
  rw [hk, mem_singleton] at hkey
  rw [hkey, hm, Option.some.injEq] at hget
  rw [hlos, mem_singleton] at hloser
  rw [hkey, ← hget, hcan, hloser] at heq
  revert heq
  decide

theorem migration_preserves_alias :
    MigrationPreserves .plain aliasDoc
      ((VaultSync.load aliasDoc).migrateSchemaToV2 NormalizePath.plain.normalize 5 longIds none).1.doc
      ((VaultSync.load aliasDoc).migrateSchemaToV2 NormalizePath.plain.normalize 5 longIds none).2 :=
  (migration_preserves_iff .plain (.load aliasDoc) 5 longIds none rfl freshIds_aliasDoc).mpr
    migratable_aliasDoc

/-- A path whose file has no metadata. -/
def bareDoc : VaultDoc where
  pathToId := YMap.empty.set (js "a") (js "f")
  idToText := YMap.empty.set (js "f") { item := 0, content := js "text" }

/-- The file gets an entry, and the version stays. -/
theorem migration_stops_without_meta :
    ¬ MigrationPreserves .plain bareDoc
      ((VaultSync.load bareDoc).migrateSchemaToV2 NormalizePath.plain.normalize 5 longIds none).1.doc
      ((VaultSync.load bareDoc).migrateSchemaToV2 NormalizePath.plain.normalize 5 longIds none).2 := by
  intro h
  have hver := h.version
  revert hver
  decide

end Kaos.Sync
