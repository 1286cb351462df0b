import Kaos.Sync.MarkdownCreationHistoryGate

/-! The incremental comparison of metadata against the full one, and the snapshot of an observer
over any run of transactions. -/
namespace Kaos.Sync

open Kaos.Lib List

/-- A deep event: of the metadata map itself, with the keys that changed, or of something inside
it, with the path there. -/
inductive MetaEvent
  | ofMap (changedKeys : List JsString)
  | inside (path : List (JsString ⊕ ℕ))

/-- An element of a set keeps its place; a new one goes last. -/
def addAffected (affected : List JsString) (fileId : JsString) : List JsString :=
  if fileId ∈ affected then affected else affected ++ [fileId]

/-- The loop over the events, from the files found so far; an event that does not say its file
ends it. -/
def collectAffected : List JsString → List MetaEvent → Option (List JsString)
  | affected, [] => some affected
  | affected, .ofMap changedKeys :: events =>
    collectAffected (changedKeys.foldl addAffected affected) events
  | affected, .inside (.inl fileId :: _) :: events =>
    collectAffected (addAffected affected fileId) events
  | _, .inside _ :: _ => none

def extractAffectedFileIds (events : List MetaEvent) : Option (List JsString) :=
  collectAffected [] events

/-- The file that an event is about. -/
def MetaEvent.IsAbout (fileId : JsString) : MetaEvent → Prop
  | .ofMap changedKeys => fileId ∈ changedKeys
  | .inside path => path.head? = some (.inl fileId)

/-- The metadata map and what an observer has last seen of it. -/
structure ObservedMeta where
  metaMap : MetaMap
  snapshot : MetaSnapshot

/-- The map after a transaction, and its events. -/
structure MetaTransaction where
  metaMap : MetaMap
  events : List MetaEvent

/-- The changes that the observer makes of a transaction, and its snapshot with them. -/
def ObservedMeta.observe (observed : ObservedMeta) (transaction : MetaTransaction) :
    List MetaSemanticChange × ObservedMeta :=
  match extractAffectedFileIds transaction.events with
  | some affected =>
    let seen := computeIncrementalMetaChanges transaction.metaMap observed.snapshot affected
    (seen.1, ⟨transaction.metaMap, seen.2⟩)
  | none =>
    let next := buildMetaSnapshot transaction.metaMap
    (computeMetaSemanticChanges observed.snapshot next, ⟨transaction.metaMap, next⟩)

/-- Every value that a transaction changes has an event about it. -/
def MetaTransaction.Reported (before : MetaMap) (transaction : MetaTransaction) : Prop :=
  ∀ fileId, before.get? fileId ≠ transaction.metaMap.get? fileId →
    ∃ event ∈ transaction.events, event.IsAbout fileId

/-- The states of an observer: it begins with the snapshot of its map. -/
inductive Observed : ObservedMeta → Prop
  | start (metaMap : MetaMap) : Observed ⟨metaMap, buildMetaSnapshot metaMap⟩
  | transact {observed : ObservedMeta} {transaction : MetaTransaction} (h : Observed observed)
      (hreported : transaction.Reported observed.metaMap) :
      Observed (observed.observe transaction).2

def MetaSemanticChange.isInvalid : MetaSemanticChange → Bool
  | .invalid _ => true
  | .added _ _ | .removed _ _ | .pathChanged _ _ _ _ _ | .deleted _ _ _ | .revived _ _
  | .mtimeChanged _ _ | .deviceChanged _ _ => false

/-- The changes, up to order and but for the invalid entries, are those of the full comparison,
and the snapshot holds the entries of the map. -/
def AgreesWithFull (before after : MetaMap)
    (seen : List MetaSemanticChange × MetaSnapshot) : Prop :=
  (seen.1.filter fun change => !change.isInvalid).Perm
      (computeMetaSemanticChanges (buildMetaSnapshot before) (buildMetaSnapshot after)) ∧
    seen.2.entries.Perm (buildMetaSnapshot after).entries

section Affected

variable {affected result : List JsString} {fileId other : JsString} {events : List MetaEvent}

theorem mem_addAffected : fileId ∈ addAffected affected other ↔
    fileId ∈ affected ∨ fileId = other := by
  unfold addAffected
  by_cases h : other ∈ affected
  · rw [if_pos h]
    constructor
    · exact .inl
    rintro (hmem | rfl)
    · exact hmem
    · exact h
  · rw [if_neg h, mem_append, mem_singleton]

theorem nodup_addAffected (h : affected.Nodup) : (addAffected affected other).Nodup := by
  unfold addAffected
  by_cases hmem : other ∈ affected
  · rw [if_pos hmem]
    exact h
  rw [if_neg hmem, nodup_append_comm]
  exact nodup_cons.mpr ⟨hmem, h⟩

theorem mem_foldl_addAffected {keys : List JsString} :
    fileId ∈ keys.foldl addAffected affected ↔ fileId ∈ affected ∨ fileId ∈ keys := by
  induction keys generalizing affected with
  | nil => simp
  | cons key keys ih => rw [foldl_cons, ih, mem_addAffected, mem_cons, or_assoc]

theorem nodup_foldl_addAffected {keys : List JsString} (h : affected.Nodup) :
    (keys.foldl addAffected affected).Nodup := by
  induction keys generalizing affected with
  | nil => exact h
  | cons key keys ih => exact ih (nodup_addAffected h)

/-- The loop keeps what it has, adds the file of each event, and names none twice. -/
theorem collectAffected_spec (h : collectAffected affected events = some result)
    (hnd : affected.Nodup) :
    result.Nodup ∧ (∀ fileId ∈ affected, fileId ∈ result) ∧
      ∀ event ∈ events, ∀ fileId, event.IsAbout fileId → fileId ∈ result := by
  induction events generalizing affected with
  | nil =>
    cases h
    exact ⟨hnd, fun _ hmem => hmem, fun event hev => (not_mem_nil hev).elim⟩
  | cons event events ih =>
    cases event with
    | ofMap changedKeys =>
      obtain ⟨hr, hk, hevents⟩ := ih h (nodup_foldl_addAffected hnd)
      refine ⟨hr, ?_, ?_⟩
      · intro fileId hmem
        exact hk fileId (mem_foldl_addAffected.mpr (.inl hmem))
      intro event hev fileId habout
      rcases mem_cons.mp hev with rfl | hev
      · exact hk fileId (mem_foldl_addAffected.mpr (.inr habout))
      · exact hevents event hev fileId habout
    | inside path =>
      cases path with
      | nil => cases h
      | cons segment path =>
        cases segment with
        | inr index => cases h
        | inl changed =>
          obtain ⟨hr, hk, hevents⟩ := ih h (nodup_addAffected hnd)
          refine ⟨hr, ?_, ?_⟩
          · intro fileId hmem
            exact hk fileId (mem_addAffected.mpr (.inl hmem))
          intro event hev fileId habout
          rcases mem_cons.mp hev with rfl | hev
          · cases habout
            exact hk changed (mem_addAffected.mpr (.inr rfl))
          · exact hevents event hev fileId habout

end Affected

section Lemmas

variable {metaMap before after : MetaMap} {previous previous' current current' : MetaSnapshot}
  {fileId : JsString} {affected : List JsString} {change : MetaSemanticChange}
  {prev curr : DecodedFileMeta} {observed : ObservedMeta} {transaction : MetaTransaction}

/-- Lists with the same changes of each file hold the same changes. -/
theorem perm_of_filter_fileId {changes changes' : List MetaSemanticChange}
    (h : ∀ fileId, changes.filter (fun change => change.fileId = fileId) =
      changes'.filter fun change => change.fileId = fileId) : changes.Perm changes' := by
  rw [perm_iff_count]
  intro change
  have hown : decide (change.fileId = change.fileId) = true := decide_eq_true rfl
  calc changes.count change
      = (changes.filter fun other => other.fileId = change.fileId).count change :=
        (count_filter (p := fun other : MetaSemanticChange =>
          other.fileId = change.fileId) hown).symm
    _ = (changes'.filter fun other => other.fileId = change.fileId).count change := by
        rw [h change.fileId]
    _ = changes'.count change :=
        count_filter (p := fun other : MetaSemanticChange => other.fileId = change.fileId) hown

/-- Snapshots with the same lookups have the same entries. -/
theorem entries_perm (h : ∀ fileId, previous.get? fileId = current.get? fileId) :
    previous.entries.Perm current.entries := by
  rw [perm_ext_iff_of_nodup previous.nodup.of_map current.nodup.of_map]
  rintro ⟨fileId, decoded⟩
  rw [← OrderedMap.get?_eq_some, ← OrderedMap.get?_eq_some, h]

/-- The full comparison sees only what each file decodes to. -/
theorem computeMetaSemanticChanges_perm
    (hp : ∀ fileId, previous.get? fileId = previous'.get? fileId)
    (hcur : ∀ fileId, current.get? fileId = current'.get? fileId) :
    (computeMetaSemanticChanges previous current).Perm
      (computeMetaSemanticChanges previous' current') := by
  apply perm_of_filter_fileId
  intro fileId
  rw [filter_computeMetaSemanticChanges, filter_computeMetaSemanticChanges, hp, hcur]

theorem not_invalid_of_mem_modified (h : change ∈ modifiedChanges fileId prev curr) :
    change.isInvalid = false := by
  unfold modifiedChanges at h
  split_ifs at h <;> simp_all [MetaSemanticChange.isInvalid]

theorem not_invalid_of_mem_expected {prev curr : Option DecodedFileMeta}
    (h : change ∈ expectedChanges fileId prev curr) : change.isInvalid = false := by
  cases curr with
  | some curr =>
    cases prev with
    | some prev => exact not_invalid_of_mem_modified h
    | none =>
      cases mem_singleton.mp h
      rfl
  | none =>
    cases prev with
    | some prev =>
      cases mem_singleton.mp h
      rfl
    | none => cases h

theorem filter_valid_expected {prev curr : Option DecodedFileMeta} :
    (expectedChanges fileId prev curr).filter (fun change => !change.isInvalid) =
      expectedChanges fileId prev curr := by
  rw [filter_eq_self]
  intro change hmem
  rw [not_invalid_of_mem_expected hmem]
  rfl

theorem expectedChanges_self (fileId : JsString) (decoded : Option DecodedFileMeta) :
    expectedChanges fileId decoded decoded = [] := by
  cases decoded with
  | none => rfl
  | some decoded => exact modifiedChanges_self fileId decoded

/-- No comparison of two snapshots finds an invalid entry. -/
theorem filter_valid_full :
    (computeMetaSemanticChanges previous current).filter (fun change => !change.isInvalid) =
      computeMetaSemanticChanges previous current := by
  rw [filter_eq_self]
  intro change hmem
  have hown : change ∈ expectedChanges change.fileId (previous.get? change.fileId)
      (current.get? change.fileId) := by
    rw [← filter_computeMetaSemanticChanges]
    exact mem_filter.mpr ⟨hmem, decide_eq_true rfl⟩
  rw [not_invalid_of_mem_expected hown]
  rfl

/-- The incremental comparison, from any snapshot that differs from the map in affected files
only. -/
theorem incremental_perm (hnd : affected.Nodup)
    (hs : ∀ fileId, fileId ∉ affected →
      previous.get? fileId = (buildMetaSnapshot metaMap).get? fileId) :
    ((computeIncrementalMetaChanges metaMap previous affected).1.filter
        fun change => !change.isInvalid).Perm
      (computeMetaSemanticChanges previous (buildMetaSnapshot metaMap)) := by
  apply perm_of_filter_fileId
  intro fileId
  have hswap : ((computeIncrementalMetaChanges metaMap previous affected).1.filter
        fun change => !change.isInvalid).filter (fun change => change.fileId = fileId) =
      ((computeIncrementalMetaChanges metaMap previous affected).1.filter
        fun change => change.fileId = fileId).filter fun change => !change.isInvalid := by
    rw [filter_filter, filter_filter]
    apply filter_congr
    intro change _
    exact Bool.and_comm _ _
  rw [hswap, filter_computeIncremental hnd, filter_computeMetaSemanticChanges]
  by_cases hmem : fileId ∈ affected
  · rw [if_neg (not_not.mpr hmem)]
    by_cases hn : previous.get? fileId = none ∧ (buildMetaSnapshot metaMap).get? fileId = none
    · -- an entry that was and is undecodable is no change of the snapshots
      rw [if_pos hn, hn.1, hn.2]
      rfl
    · rw [if_neg hn, filter_valid_expected]
  · rw [if_pos hmem, hs fileId hmem, expectedChanges_self]
    rfl

theorem get?_buildMetaSnapshot_congr (h : before.get? fileId = after.get? fileId) :
    (buildMetaSnapshot before).get? fileId = (buildMetaSnapshot after).get? fileId := by
  rw [get?_buildMetaSnapshot, get?_buildMetaSnapshot, h]

/-- A file that no event is about is as it was. -/
theorem same_of_not_affected (hrep : transaction.Reported before)
    (hevents : ∀ event ∈ transaction.events, ∀ fileId, event.IsAbout fileId → fileId ∈ affected)
    (hmem : fileId ∉ affected) : before.get? fileId = transaction.metaMap.get? fileId := by
  by_contra hch
  obtain ⟨event, hev, habout⟩ := hrep fileId hch
  exact hmem (hevents event hev fileId habout)

/-- A snapshot that has not drifted sees what the full comparison sees, and does not drift. -/
theorem observe_spec
    (hsnap : ∀ fileId, observed.snapshot.get? fileId =
      (buildMetaSnapshot observed.metaMap).get? fileId)
    (hrep : transaction.Reported observed.metaMap) :
    ((observed.observe transaction).1.filter fun change => !change.isInvalid).Perm
        (computeMetaSemanticChanges (buildMetaSnapshot observed.metaMap)
          (buildMetaSnapshot transaction.metaMap)) ∧
      ∀ fileId, (observed.observe transaction).2.snapshot.get? fileId =
        (buildMetaSnapshot transaction.metaMap).get? fileId := by
  have hfull : (computeMetaSemanticChanges observed.snapshot
      (buildMetaSnapshot transaction.metaMap)).Perm
      (computeMetaSemanticChanges (buildMetaSnapshot observed.metaMap)
        (buildMetaSnapshot transaction.metaMap)) :=
    computeMetaSemanticChanges_perm hsnap fun _ => rfl
  cases haff : extractAffectedFileIds transaction.events with
  | none =>
    simp only [ObservedMeta.observe, haff]
    rw [filter_valid_full]
    exact ⟨hfull, fun _ => trivial⟩
  | some affected =>
    simp only [ObservedMeta.observe, haff]
    obtain ⟨hnd, -, hevents⟩ := collectAffected_spec haff nodup_nil
    have hs : ∀ fileId, fileId ∉ affected →
        observed.snapshot.get? fileId = (buildMetaSnapshot transaction.metaMap).get? fileId := by
      intro fileId hmem
      rw [hsnap]
      exact get?_buildMetaSnapshot_congr (same_of_not_affected hrep hevents hmem)
    exact ⟨(incremental_perm hnd hs).trans hfull,
      fun fileId => get?_computeIncremental (hs fileId)⟩

theorem observe_metaMap : (observed.observe transaction).2.metaMap = transaction.metaMap := by
  unfold ObservedMeta.observe
  cases extractAffectedFileIds transaction.events <;> rfl

/-- The snapshot never drifts. -/
theorem Observed.get?_snapshot (h : Observed observed) (fileId : JsString) :
    observed.snapshot.get? fileId = (buildMetaSnapshot observed.metaMap).get? fileId := by
  induction h generalizing fileId with
  | start metaMap => rfl
  | transact h hrep ih =>
    rw [observe_metaMap]
    exact (observe_spec ih hrep).2 fileId

/-- The gate of the creations is such an observer. -/
theorem MarkdownCreationHistoryGate.changes_eq_observe (gate : MarkdownCreationHistoryGate)
    (metaMap : MetaMap) (events : List MetaEvent) :
    gate.changes metaMap (extractAffectedFileIds events) =
      (((⟨before, gate.snapshot⟩ : ObservedMeta).observe ⟨metaMap, events⟩).1,
        ((⟨before, gate.snapshot⟩ : ObservedMeta).observe ⟨metaMap, events⟩).2.snapshot) := by
  unfold MarkdownCreationHistoryGate.changes ObservedMeta.observe
  cases extractAffectedFileIds events <;> rfl

end Lemmas

section Drift

/-- The comparison of the affected files agrees with the full one, from the snapshot of the map
and, in any run of an observer, from the one it keeps. -/
theorem incremental_agrees_with_full :
    (∀ (before after : MetaMap) (affected : List JsString), affected.Nodup →
      (∀ fileId, before.get? fileId ≠ after.get? fileId → fileId ∈ affected) →
      AgreesWithFull before after
        (computeIncrementalMetaChanges after (buildMetaSnapshot before) affected)) ∧
    ∀ observed, Observed observed →
      observed.snapshot.entries.Perm (buildMetaSnapshot observed.metaMap).entries ∧
      ∀ transaction : MetaTransaction, transaction.Reported observed.metaMap →
        AgreesWithFull observed.metaMap transaction.metaMap
          ((observed.observe transaction).1, (observed.observe transaction).2.snapshot) := by
  constructor
  · intro before after affected hnd hch
    have hs : ∀ fileId, fileId ∉ affected →
        (buildMetaSnapshot before).get? fileId = (buildMetaSnapshot after).get? fileId := by
      intro fileId hmem
      apply get?_buildMetaSnapshot_congr
      by_contra hne
      exact hmem (hch fileId hne)
    exact ⟨incremental_perm hnd hs, entries_perm fun fileId => get?_computeIncremental (hs fileId)⟩
  intro observed h
  refine ⟨entries_perm h.get?_snapshot, ?_⟩
  intro transaction hrep
  obtain ⟨hchan, hsnap⟩ := observe_spec h.get?_snapshot hrep
  exact ⟨hchan, entries_perm hsnap⟩

/-- A nested entry comes to a map with an entry that cannot be decoded. -/
def createdTransaction : MetaTransaction where
  metaMap := ⟨[(js "x", .plain (.num none)),
    (js "f", .nested fun key => if key = "path" then .str (js "a") else .undefined)], by decide⟩
  events := [.ofMap [js "f"]]

/-- The map before it. -/
def uncreatedMap : MetaMap := ⟨[(js "x", .plain (.num none))], by decide⟩

theorem created_reported {fileId : JsString}
    (hch : uncreatedMap.get? fileId ≠ createdTransaction.metaMap.get? fileId) :
    fileId = js "f" := by
  by_contra hf
  apply hch
  by_cases ho : fileId = js "x"
  · subst ho
    rfl
  have hb : uncreatedMap.get? fileId = none := by
    simp [OrderedMap.get?_eq_none, OrderedMap.keys, uncreatedMap, ho]
  have ha : createdTransaction.metaMap.get? fileId = none := by
    simp [OrderedMap.get?_eq_none, OrderedMap.keys, createdTransaction, hf, ho]
  rw [hb, ha]

theorem incremental_agrees_with_full_created :
    AgreesWithFull uncreatedMap createdTransaction.metaMap
      (computeIncrementalMetaChanges createdTransaction.metaMap
        (buildMetaSnapshot uncreatedMap) [js "f", js "x"]) ∧
    ((ObservedMeta.mk uncreatedMap (buildMetaSnapshot uncreatedMap)).observe
        createdTransaction).2.snapshot.entries.Perm
      (buildMetaSnapshot createdTransaction.metaMap).entries := by
  constructor
  · refine incremental_agrees_with_full.1 _ _ _ (by decide) ?_
    intro fileId hch
    rw [created_reported hch]
    exact List.mem_cons_self
  refine (incremental_agrees_with_full.2 _ (.start uncreatedMap)).2 createdTransaction ?_ |>.2
  intro fileId hch
  rw [created_reported hch]
  exact ⟨_, List.mem_singleton_self _, List.mem_singleton_self _⟩

end Drift

end Kaos.Sync
