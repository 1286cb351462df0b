import Kaos.Sync.MarkdownCreationHistoryGate

/-! Why the gate takes no path with history for new. -/
namespace Kaos.Sync

open Kaos.Lib Kaos.Paths MarkdownCreationHistoryGate HistoryLoader PrepareCall MetaSemanticChange

namespace MarkdownCreationHistoryGate

variable {nfc : Nfc} {gate : MarkdownCreationHistoryGate} {path key : JsString} {isLocal : Bool}
  {entries : List MarkdownPathHistoryEntry} {change : MetaSemanticChange}
  {changes : List MetaSemanticChange} {token current : CreationToken}
  {result : MarkdownCreationHistory} {paths : List JsString}

/-- A file is known at a key. -/
def Knows (gate : MarkdownCreationHistoryGate) (key : JsString) : Prop :=
  (gate.known.get? key).isSome = true

theorem canCreate_of_knows {generation : ℕ} (h : gate.Knows (pathKey nfc path)) :
    gate.canCreate nfc generation path = false := by
  have hs : (gate.known.get? (pathKey nfc path)).isNone = false := by
    rw [Option.isNone_eq_false_iff]
    exact h
  rw [canCreate, hs, Bool.false_and]

theorem pushEntry_ne_nil (found : List MarkdownPathHistoryEntry)
    (entry : MarkdownPathHistoryEntry) : pushEntry found entry ≠ [] := by
  obtain ⟨other, ho, -⟩ := exists_mem_pushEntry.mpr (.inr rfl)
  exact List.ne_nil_of_mem ho

theorem foldl_pushEntry_ne_nil {found : List MarkdownPathHistoryEntry}
    (h : found ≠ [] ∨ entries ≠ []) : entries.foldl pushEntry found ≠ [] := by
  induction entries generalizing found with
  | nil => exact h.resolve_right (not_not.mpr rfl)
  | cons entry entries ih => exact ih (.inl (pushEntry_ne_nil found entry))

theorem remember_eq : gate.remember nfc path entries = gate ∨
    gate.remember nfc path entries = { gate with
      known := gate.known.set (pathKey nfc path)
        (entries.foldl pushEntry ((gate.known.get? (pathKey nfc path)).getD [])) } := by
  simp only [remember]
  split
  · exact .inr rfl
  · exact .inl rfl

@[simp] theorem checkedNew_remember :
    (gate.remember nfc path entries).checkedNew = gate.checkedNew := by
  rcases remember_eq with h | h <;> rw [h]

@[simp] theorem revision_remember : (gate.remember nfc path entries).revision = gate.revision := by
  rcases remember_eq with h | h <;> rw [h]

@[simp] theorem snapshot_remember : (gate.remember nfc path entries).snapshot = gate.snapshot := by
  rcases remember_eq with h | h <;> rw [h]

theorem knows_remember (h : gate.Knows key) : (gate.remember nfc path entries).Knows key := by
  rcases remember_eq with heq | heq
  · rw [heq]
    exact h
  rw [heq, Knows, OrderedMap.get?_set]
  split
  · rfl
  · exact h

theorem knows_remember_self (h : entries ≠ []) :
    (gate.remember nfc path entries).Knows (pathKey nfc path) := by
  have hlen : (entries.foldl pushEntry ((gate.known.get? (pathKey nfc path)).getD [])).length > 0 :=
    List.length_pos_of_ne_nil (foldl_pushEntry_ne_nil (.inr h))
  rw [remember, if_pos hlen, Knows, OrderedMap.get?_set_self]
  rfl

theorem observeChange_eq : ∃ between : MarkdownCreationHistoryGate,
    (∀ key, gate.Knows key → between.Knows key) ∧
    (∀ path, change.leftPath = some path → between.Knows (pathKey nfc path)) ∧
    between.checkedNew = gate.checkedNew ∧ between.revision = gate.revision ∧
    between.snapshot = gate.snapshot ∧
    gate.observeChange nfc isLocal change = if change.isStructural isLocal then
      { between with revision := between.revision + 1, checkedNew := .empty } else between := by
  cases hl : change.leftPath with
  | none =>
    refine ⟨gate, fun _ h => h, ?_, rfl, rfl, rfl, ?_⟩
    · nofun
    · rw [observeChange, hl]
  | some path =>
    refine ⟨gate.remember nfc path [⟨change.fileId, js "observed:" ++ change.fileId ++ js ":" ++
      path⟩], fun _ => knows_remember, ?_, checkedNew_remember, revision_remember,
      snapshot_remember, ?_⟩
    · intro other h
      cases h
      exact knows_remember_self (List.cons_ne_nil _ _)
    · rw [observeChange, hl]

theorem knows_observeChange (h : gate.Knows key) :
    (gate.observeChange nfc isLocal change).Knows key := by
  obtain ⟨between, hk, -, -, -, -, heq⟩ := observeChange_eq
  rw [heq]
  split <;> exact hk key h

theorem knows_left (h : change.leftPath = some path) :
    (gate.observeChange nfc isLocal change).Knows (pathKey nfc path) := by
  obtain ⟨between, -, hl, -, -, -, heq⟩ := observeChange_eq
  rw [heq]
  split <;> exact hl path h

theorem checkedNew_observeChange
    (h : (gate.observeChange nfc isLocal change).checkedNew.get? key = some token) :
    gate.checkedNew.get? key = some token := by
  obtain ⟨between, -, -, hc, -, -, heq⟩ := observeChange_eq
  rw [heq] at h
  split at h
  · cases h
  rw [← hc]
  exact h

theorem revision_observeChange (nfc : Nfc) (gate : MarkdownCreationHistoryGate)
    (isLocal : Bool) (change : MetaSemanticChange) :
    gate.revision ≤ (gate.observeChange nfc isLocal change).revision ∧
      (change.isStructural isLocal = true →
        gate.revision < (gate.observeChange nfc isLocal change).revision) := by
  obtain ⟨between, -, -, -, hrev, -, heq⟩ := observeChange_eq
  rw [heq, ← hrev]
  split
  · exact ⟨Nat.le_succ _, fun _ => Nat.lt_succ_self _⟩
  · next hnot => exact ⟨le_rfl, fun h => absurd h hnot⟩

theorem snapshot_observeChange :
    (gate.observeChange nfc isLocal change).snapshot = gate.snapshot := by
  obtain ⟨between, -, -, -, -, hsnapshot, heq⟩ := observeChange_eq
  rw [heq, ← hsnapshot]
  split <;> rfl

/-- What the loop over the changes does to the gate. -/
theorem foldl_observeChange (gate : MarkdownCreationHistoryGate)
    (changes : List MetaSemanticChange) : ∃ after : MarkdownCreationHistoryGate,
    changes.foldl (fun gate change => gate.observeChange nfc isLocal change) gate = after ∧
    (∀ key, gate.Knows key → after.Knows key) ∧
    (∀ change ∈ changes, ∀ path, change.leftPath = some path → after.Knows (pathKey nfc path)) ∧
    (∀ key token, after.checkedNew.get? key = some token → gate.checkedNew.get? key = some token) ∧
    gate.revision ≤ after.revision ∧
    (∀ change ∈ changes, change.isStructural isLocal = true → gate.revision < after.revision) ∧
    after.snapshot = gate.snapshot := by
  induction changes generalizing gate with
  | nil => exact ⟨gate, rfl, by simp, by simp, by simp, le_rfl, by simp, rfl⟩
  | cons change changes ih =>
    obtain ⟨after, heq, hknows, hl, hc, hrev, hstr, hsnapshot⟩ :=
      ih (gate.observeChange nfc isLocal change)
    have hf := revision_observeChange nfc gate isLocal change
    refine ⟨after, heq, ?_, ?_, ?_, ?_, ?_, ?_⟩
    · intro key h
      exact hknows key (knows_observeChange h)
    · intro other ho path hp
      rcases List.mem_cons.mp ho with rfl | ho
      · exact hknows _ (knows_left hp)
      · exact hl other ho path hp
    · intro key token h
      exact checkedNew_observeChange (hc key token h)
    · omega
    · intro other ho hch
      rcases List.mem_cons.mp ho with rfl | ho
      · have := hf.2 hch
        omega
      have := hstr other ho hch
      omega
    · rw [hsnapshot, snapshot_observeChange]

theorem observe_spec (nfc : Nfc) (gate : MarkdownCreationHistoryGate) (isLocal : Bool)
    (metaMap : MetaMap) (affected : Option (List JsString)) :
    ∃ after : MarkdownCreationHistoryGate,
    gate.observe nfc isLocal metaMap affected = after ∧
    (∀ key, gate.Knows key → after.Knows key) ∧
    (∀ change ∈ (gate.changes metaMap affected).1, ∀ path, change.leftPath = some path →
      after.Knows (pathKey nfc path)) ∧
    (∀ key token, after.checkedNew.get? key = some token → gate.checkedNew.get? key = some token) ∧
    gate.revision ≤ after.revision ∧
    (∀ change ∈ (gate.changes metaMap affected).1, change.isStructural isLocal = true →
      gate.revision < after.revision) ∧
    after.snapshot = (gate.changes metaMap affected).2 :=
  foldl_observeChange { gate with snapshot := (gate.changes metaMap affected).2 } _

section

variable {before metaMap : MetaMap} {affected : Option (List JsString)}
  (hsnapshot : ∀ fileId, gate.snapshot.get? fileId = (buildMetaSnapshot before).get? fileId)
  (hreports : ∀ ids, affected = some ids → ids.Nodup ∧
    ∀ fileId ∉ ids, before.get? fileId = metaMap.get? fileId)
include hsnapshot hreports

/-- The changes of a transaction are those that the metadata before and after call for. -/
theorem mem_changes {fileId : JsString}
    (h : change ∈ expectedChanges fileId ((buildMetaSnapshot before).get? fileId)
      ((buildMetaSnapshot metaMap).get? fileId)) :
    change ∈ (gate.changes metaMap affected).1 := by
  rw [← hsnapshot] at h
  cases affected with
  | none =>
    rw [← filter_computeMetaSemanticChanges] at h
    exact List.mem_of_mem_filter h
  | some ids =>
    obtain ⟨hnd, ho⟩ := hreports ids rfl
    by_cases hmem : fileId ∈ ids
    · by_cases hn : gate.snapshot.get? fileId = none ∧
        (buildMetaSnapshot metaMap).get? fileId = none
      · rw [hn.1, hn.2] at h
        cases h
      have hfil : (gate.changes metaMap (some ids)).1.filter
          (fun change => change.fileId = fileId) = _ := filter_computeIncremental hnd
      rw [if_neg (not_not.mpr hmem), if_neg hn] at hfil
      rw [← hfil] at h
      exact List.mem_of_mem_filter h
    · -- what is not reported has not changed
      have hs : gate.snapshot.get? fileId = (buildMetaSnapshot metaMap).get? fileId := by
        rw [hsnapshot, get?_buildMetaSnapshot, get?_buildMetaSnapshot, ho fileId hmem]
      rw [hs] at h
      cases hcurr : (buildMetaSnapshot metaMap).get? fileId with
      | none =>
        rw [hcurr] at h
        cases h
      | some curr =>
        rw [hcurr, expectedChanges, addedOrModifiedChanges, modifiedChanges_self] at h
        cases h

theorem get?_changes (fileId : JsString) :
    (gate.changes metaMap affected).2.get? fileId = (buildMetaSnapshot metaMap).get? fileId := by
  cases affected with
  | none => rfl
  | some ids =>
    apply get?_computeIncremental
    intro hnot
    rw [hsnapshot, get?_buildMetaSnapshot, get?_buildMetaSnapshot, (hreports ids rfl).2 fileId hnot]

end

/-- A file that leaves a path without being moved and deleted at once leaves it visibly. -/
theorem exists_leftPath {prev : DecodedFileMeta} {curr : Option DecodedFileMeta}
    {fileId : JsString} (hact : prev.isDeleted = false) (hp : pathKey nfc prev.path = key)
    (hk : ∀ decoded, curr = some decoded → decoded.isDeleted = true →
      pathKey nfc prev.path = pathKey nfc decoded.path)
    (hg : ∀ decoded, curr = some decoded → decoded.isDeleted = false →
      pathKey nfc decoded.path ≠ key) :
    ∃ change ∈ expectedChanges fileId (some prev) curr, ∃ path,
      change.leftPath = some path ∧ pathKey nfc path = key := by
  cases curr with
  | none => exact ⟨_, List.mem_singleton_self _, prev.path, rfl, hp⟩
  | some curr =>
    cases hdel : curr.isDeleted with
    | true =>
      have hch : expectedChanges fileId (some prev) (some curr) =
          [.deleted fileId curr.path curr.deletedAt] := by
        simp [expectedChanges, addedOrModifiedChanges, modifiedChanges, hact, hdel]
      rw [hch]
      refine ⟨_, List.mem_singleton_self _, curr.path, rfl, ?_⟩
      rw [← hk curr rfl hdel, hp]
    | false =>
      have hm : prev.path ≠ curr.path := by
        intro hs
        apply hg curr rfl hdel
        rw [← hs, hp]
      have hch : expectedChanges fileId (some prev) (some curr) =
          [.pathChanged fileId prev.path curr.path false false] := by
        simp [expectedChanges, addedOrModifiedChanges, modifiedChanges, hact, hdel, hm]
      rw [hch]
      exact ⟨_, List.mem_singleton_self _, prev.path, rfl, hp⟩

theorem exists_isStructural {prev curr : Option DecodedFileMeta} (fileId : JsString)
    (h : Restructured isLocal prev curr) :
    ∃ change ∈ expectedChanges fileId prev curr, change.isStructural isLocal = true := by
  cases prev with
  | none =>
    cases curr with
    | none => exact h.elim
    | some curr =>
      refine ⟨_, List.mem_singleton_self _, ?_⟩
      rw [isStructural, show isLocal = false from h]
      rfl
  | some prev =>
    cases curr with
    | none => exact ⟨_, List.mem_singleton_self _, rfl⟩
    | some curr =>
      have hor : prev.isDeleted ≠ curr.isDeleted ∨ prev.path ≠ curr.path := h
      simp only [expectedChanges, addedOrModifiedChanges, modifiedChanges]
      cases hp : prev.isDeleted <;> cases hcurr : curr.isDeleted
      · have hpa : prev.path ≠ curr.path := by simpa [hp, hcurr] using hor
        simp [hpa, isStructural]
      · simp [isStructural]
      · simp [isStructural]
      have hpa : prev.path ≠ curr.path := by simpa [hp, hcurr] using hor
      simp [hpa, isStructural]

theorem mem_pending {paths : List JsString} (h : key ∈ gate.pending nfc token paths) :
    key ∈ paths.map (pathKey nfc) := by
  exact List.mem_eraseDups.mp (List.mem_of_mem_filter h)

theorem get?_markChecked : (gate.markChecked token paths).checkedNew.get? key =
    if key ∈ paths then some token else gate.checkedNew.get? key :=
  OrderedMap.get?_setAll_map

/-- What the loop over a loaded history does to the gate. -/
theorem settle_spec (nfc : Nfc) (token current : CreationToken) (result : MarkdownCreationHistory)
    (gate : MarkdownCreationHistoryGate) (paths : List JsString) :
    ∃ after ok, settle nfc token current result gate paths = (after, ok) ∧
      (∀ key, gate.Knows key → after.Knows key) ∧
      (∀ key checked, after.checkedNew.get? key = some checked →
        gate.checkedNew.get? key = some checked ∨
          (checked = token ∧ key ∈ paths ∧ result.get? key = some [])) ∧
      (ok = true → ∀ path ∈ paths, ∃ entries, result.get? path = some entries ∧
        (entries ≠ [] → after.Knows (pathKey nfc path))) ∧
      after.revision = gate.revision ∧ after.snapshot = gate.snapshot := by
  induction paths generalizing gate with
  | nil => exact ⟨gate, true, rfl, by simp, by simp, by simp, rfl, rfl⟩
  | cons path paths ih =>
    cases hr : result.get? path with
    | none =>
      refine ⟨gate, false, ?_, by simp, ?_, by simp, rfl, rfl⟩
      · rw [settle, hr]
      intro key checked h
      exact .inl h
    | some entries =>
      obtain ⟨after, ok, heq, hknows, hc, hok, hrev, hsnapshot⟩ :=
        ih (if entries.length = 0 ∧ token = current then
          (gate.remember nfc path entries).markChecked token [path]
          else gate.remember nfc path entries)
      refine ⟨after, ok, ?_, ?_, ?_, ?_, ?_, ?_⟩
      · rw [settle, hr]
        exact heq
      · intro key h
        apply hknows
        split <;> exact knows_remember h
      · intro key checked h
        rcases hc key checked h with hb | ⟨ht, hmem, hn⟩
        · split at hb
          · next he =>
            rw [get?_markChecked] at hb
            split at hb
            · next hkey =>
              cases hb
              rw [List.mem_singleton] at hkey
              refine .inr ⟨rfl, hkey ▸ List.mem_cons_self, ?_⟩
              rw [hkey, hr, List.length_eq_zero_iff.mp he.1]
            · rw [checkedNew_remember] at hb
              exact .inl hb
          · rw [checkedNew_remember] at hb
            exact .inl hb
        · exact .inr ⟨ht, List.mem_cons_of_mem _ hmem, hn⟩
      · intro htrue other ho
        rcases List.mem_cons.mp ho with rfl | ho
        · refine ⟨entries, hr, ?_⟩
          intro hne
          apply hknows
          split <;> exact knows_remember_self hne
        · exact hok htrue other ho
      · rw [hrev]
        split <;> exact revision_remember
      rw [hsnapshot]
      split <;> exact snapshot_remember

end MarkdownCreationHistoryGate

namespace HistoryLoader

variable {loader : HistoryLoader} {token current : CreationToken} {reading : ℕ}
  {result : HistoryResult}

/-- Of the readings of one token all but the last have failed, and the last is the one kept. -/
structure Once (loader : HistoryLoader) (current : CreationToken) : Prop where
  kept : ∀ reading, loader.cached = some reading → reading + 1 = loader.readings.length ∧
    ∀ token result, loader.readings[reading]? = some (token, result) →
      loader.cachedToken = some token
  failed : loader.cached = none → ∀ reading token result,
    reading + 1 = loader.readings.length → loader.readings[reading]? = some (token, result) →
      result = .threw
  tokens : ∀ (i j : ℕ) (a b : CreationToken × HistoryResult), i < j →
    loader.readings[i]? = some a → loader.readings[j]? = some b →
      a.1 ≤ b.1 ∧ (a.1 = b.1 → a.2 = .threw)
  current : ∀ (i : ℕ) (a : CreationToken × HistoryResult), loader.readings[i]? = some a →
    a.1 ≤ current

theorem once_empty : ({} : HistoryLoader).Once current := by
  refine ⟨by simp, by simp, by simp, by simp⟩

theorem Once.mono {later : CreationToken} (h : loader.Once current) (hle : current ≤ later) :
    loader.Once later := by
  refine ⟨h.kept, h.failed, h.tokens, ?_⟩
  intro i a ha
  exact (h.current i a ha).trans hle

section

variable (h : loader.Once token)
  (hstart : ∀ reading, loader.cached = some reading → loader.cachedToken ≠ some token)
include h hstart

/-- A token for which a new reading starts has only failed ones. -/
theorem Once.threw_of_start {i : ℕ} {a : CreationToken × HistoryResult}
    (ha : loader.readings[i]? = some a) (ht : a.1 = token) : a.2 = .threw := by
  obtain ⟨hlt, -⟩ := List.getElem?_eq_some_iff.mp ha
  by_cases hl : i + 1 = loader.readings.length
  · cases hc : loader.cached with
    | none => exact h.failed hc i a.1 a.2 hl ha
    | some reading =>
      obtain ⟨hend, hk⟩ := h.kept reading hc
      have hs : reading = i := by omega
      rw [hs] at hk
      exact absurd (ht ▸ hk a.1 a.2 ha) (hstart reading hc)
  · -- the last reading lies between this one and the token
    have hend : loader.readings[loader.readings.length - 1]? =
        some (loader.readings[loader.readings.length - 1]) := List.getElem?_eq_getElem (by omega)
    obtain ⟨hle, hthrew⟩ := h.tokens i _ a _ (by omega) ha hend
    apply hthrew
    apply le_antisymm hle
    rw [ht]
    exact h.current _ _ hend

theorem once_start : (request.start loader token).1.Once token := by
  refine ⟨?_, ?_, ?_, ?_⟩
  · intro reading hr
    cases hr
    refine ⟨?_, ?_⟩
    · rw [request.start, List.length_append, List.length_singleton]
    intro other result ho
    rw [request.start, List.getElem?_concat_length] at ho
    cases ho
    rfl
  · nofun
  · intro i j a b hij ha hb
    rcases getElem?_append_one ha with ha | ⟨hi, rfl⟩
    · rcases getElem?_append_one hb with hb | ⟨-, rfl⟩
      · exact h.tokens i j a b hij ha hb
      · exact ⟨h.current i a ha, h.threw_of_start hstart ha⟩
    rcases getElem?_append_one hb with hb | ⟨hj, rfl⟩
    · obtain ⟨hlt, -⟩ := List.getElem?_eq_some_iff.mp hb
      omega
    · omega
  intro i a ha
  rcases getElem?_append_one ha with ha | ⟨-, rfl⟩
  · exact h.current i a ha
  · exact le_rfl

end

/-- A request keeps what was read, and gives a reading of its token. -/
theorem request_spec (h : loader.Once token) : ∃ after reading,
    loader.request token = (after, reading) ∧ after.Once token ∧
      (∀ (i : ℕ) (a : CreationToken × HistoryResult), loader.readings[i]? = some a →
        after.readings[i]? = some a) ∧
      (∀ i other all, after.Returned i other all → loader.Returned i other all) ∧
      ∃ result, after.readings[reading]? = some (token, result) := by
  by_cases hr : ∃ reading, loader.cached = some reading ∧ loader.cachedToken = some token
  · obtain ⟨reading, hc, ht⟩ := hr
    obtain ⟨hend, hk⟩ := h.kept reading hc
    have hget : loader.readings[reading]? = some loader.readings[reading] :=
      List.getElem?_eq_getElem (by omega)
    have hs := hk _ _ hget
    rw [ht, Option.some.injEq] at hs
    refine ⟨loader, reading, ?_, h, fun _ _ ha => ha, fun _ _ _ hall => hall,
      loader.readings[reading].2, ?_⟩
    · rw [request, hc]
      exact if_pos ht
    rw [hget, hs]
    rfl
  have hstart : ∀ reading, loader.cached = some reading → loader.cachedToken ≠ some token :=
    fun reading hc ht => hr ⟨reading, hc, ht⟩
  have heq : loader.request token = request.start loader token := by
    rw [request]
    split
    · next reading hc => exact if_neg (hstart reading hc)
    · rfl
  refine ⟨_, _, heq, once_start h hstart, ?_, ?_, .pending, List.getElem?_concat_length⟩
  · intro i a ha
    obtain ⟨hlt, -⟩ := List.getElem?_eq_some_iff.mp ha
    exact (List.getElem?_append_left hlt).trans ha
  intro i other all hall
  rcases Nat.lt_or_ge i loader.readings.length with hlt | hge
  · exact (List.getElem?_append_left hlt).symm.trans hall
  have hl := (List.getElem?_append_right hge).symm.trans hall
  rw [List.getElem?_singleton] at hl
  split at hl <;> cases hl

/-- An entry after a pending one was set, and where it comes from. -/
theorem get?_set_pending {readings : List (CreationToken × HistoryResult)}
    {a : CreationToken × HistoryResult} {i : ℕ} (hget : readings[reading]? = some (token, .pending))
    (ha : (readings.set reading (token, result))[i]? = some a) :
    (i ≠ reading ∧ readings[i]? = some a) ∨ (i = reading ∧ a = (token, result)) := by
  obtain ⟨hlt, -⟩ := List.getElem?_eq_some_iff.mp hget
  by_cases hi : i = reading
  · subst hi
    rw [List.getElem?_set_self hlt] at ha
    cases ha
    exact .inr ⟨rfl, rfl⟩
  rw [List.getElem?_set_ne (Ne.symm hi)] at ha
  exact .inl ⟨hi, ha⟩

/-- A pending reading ends; the one kept is let go only where it fails. -/
theorem Once.set (h : loader.Once current) {cached : Option ℕ}
    (hget : loader.readings[reading]? = some (token, .pending))
    (hc : cached = loader.cached ∨
      (cached = none ∧ loader.cached = some reading ∧ result = .threw)) :
    Once { loader with cached, readings := loader.readings.set reading (token, result) }
      current := by
  constructor
  · intro kept hk
    have hbef : loader.cached = some kept := by
      rcases hc with heq | ⟨heq, -, -⟩
      · exact heq ▸ hk
      · cases heq.symm.trans hk
    obtain ⟨hend, ht⟩ := h.kept kept hbef
    refine ⟨hend.trans List.length_set.symm, ?_⟩
    intro other r ho
    rcases get?_set_pending hget ho with ⟨-, hold⟩ | ⟨rfl, heq⟩
    · exact ht other r hold
    cases heq
    exact ht token .pending hget
  · intro hn last other r hend ho
    have hend' : last + 1 = loader.readings.length := hend.trans List.length_set
    rcases get?_set_pending hget ho with ⟨hne, hold⟩ | ⟨rfl, heq⟩
    · rcases hc with hs | ⟨-, hk, -⟩
      · exact h.failed (hs.symm.trans hn) last other r hend' hold
      obtain ⟨hl, -⟩ := h.kept reading hk
      omega
    cases heq
    rcases hc with hs | ⟨-, -, hthrew⟩
    · -- the last of the readings had already failed
      cases h.failed (hs.symm.trans hn) last token .pending hend' hget
    · exact hthrew
  · intro i j a b hij ha hb
    rcases get?_set_pending hget hb with ⟨-, hbold⟩ | ⟨hj, hbnew⟩
    · rcases get?_set_pending hget ha with ⟨-, haold⟩ | ⟨hi, hanew⟩
      · exact h.tokens i j a b hij haold hbold
      obtain ⟨hle, hthrew⟩ := h.tokens reading j _ b (hi ▸ hij) hget hbold
      rw [hanew]
      refine ⟨hle, ?_⟩
      intro hs
      cases hthrew hs
    rcases get?_set_pending hget ha with ⟨-, haold⟩ | ⟨hi, -⟩
    · rw [hbnew]
      exact h.tokens i reading a (token, .pending) (hj ▸ hij) haold hget
    · omega
  intro i a ha
  rcases get?_set_pending hget ha with ⟨-, haold⟩ | ⟨-, hanew⟩
  · exact h.current i a haold
  rw [hanew]
  exact h.current reading (token, .pending) hget

/-- A reading ends at most once, and with the result it came to. -/
theorem finish_spec (h : loader.Once current) (reading : ℕ) (result : HistoryResult) :
    (loader.finish reading result).Once current ∧
      (∀ i other all, loader.Returned i other all →
        (loader.finish reading result).Returned i other all) ∧
      (∀ i other all, (loader.finish reading result).Returned i other all →
        loader.Returned i other all ∨ (i = reading ∧ result = .returned all)) ∧
      ∀ (i : ℕ) (other : CreationToken) (r : HistoryResult),
        loader.readings[i]? = some (other, r) →
          ∃ r', (loader.finish reading result).readings[i]? = some (other, r') := by
  have hkeep : ∀ {token : CreationToken} (r : HistoryResult),
      loader.readings[reading]? = some (token, .pending) →
      (∀ i other all,
        loader.Returned i other all → (loader.readings.set reading (token, r))[i]? =
          some (other, HistoryResult.returned all)) ∧
      (∀ i other all,
        (loader.readings.set reading (token, r))[i]? = some (other, HistoryResult.returned all) →
          loader.Returned i other all ∨ (i = reading ∧ r = .returned all)) ∧
      ∀ (i : ℕ) (other : CreationToken) (s : HistoryResult),
        loader.readings[i]? = some (other, s) →
          ∃ s', (loader.readings.set reading (token, r))[i]? = some (other, s') := by
    intro token r hget
    obtain ⟨hlt, -⟩ := List.getElem?_eq_some_iff.mp hget
    refine ⟨?_, ?_, ?_⟩
    · intro i other all hall
      have hne : reading ≠ i := by
        rintro rfl
        cases hget.symm.trans hall
      rw [List.getElem?_set_ne hne]
      exact hall
    · intro i other all hall
      rcases get?_set_pending hget hall with ⟨-, hold⟩ | ⟨hi, heq⟩
      · exact .inl hold
      · exact .inr ⟨hi, (congrArg Prod.snd heq).symm⟩
    intro i other s hs
    by_cases hi : reading = i
    · subst hi
      cases hget.symm.trans hs
      exact ⟨r, List.getElem?_set_self hlt⟩
    · exact ⟨s, (List.getElem?_set_ne hi).trans hs⟩
  unfold finish
  split
  · next token history hget =>
    obtain ⟨hold, hnew, hstay⟩ := hkeep (.returned history) hget
    exact ⟨h.set hget (.inl rfl), hold, hnew, hstay⟩
  · next token hget =>
    obtain ⟨hold, hnew, hstay⟩ := hkeep .threw hget
    refine ⟨h.set hget ?_, hold, hnew, hstay⟩
    split
    · next hc => exact .inr ⟨rfl, hc, rfl⟩
    · exact .inl rfl
  · exact ⟨h, fun _ _ _ hall => hall, fun _ _ _ hall => .inl hall, fun _ _ r hr => ⟨r, hr⟩⟩

/-- Two readings of one token that have returned are the same. -/
theorem Once.eq_of_returned (h : loader.Once current) {i j : ℕ} {all all' : MarkdownCreationHistory}
    (hi : loader.Returned i token all) (hj : loader.Returned j token all') : all = all' := by
  rcases Nat.lt_trichotomy i j with hlt | rfl | hgt
  · cases (h.tokens i j _ _ hlt hi hj).2 rfl
  · cases hi.symm.trans hj
    rfl
  · cases (h.tokens j i _ _ hgt hj hi).2 rfl

end HistoryLoader

section World

variable {nfc : Nfc} {w : CreationWorld} {key : JsString} {token : CreationToken}
  {event : CreationEvent}

theorem get?_answer (all : MarkdownCreationHistory) (paths : List JsString) (key : JsString) :
    (answer nfc all paths).get? key =
      if key ∈ paths.map (pathKey nfc) then some (entriesAt all key) else none := by
  have hk : paths.map (fun path => (pathKey nfc path, (all.get? (pathKey nfc path)).getD [])) =
      (paths.map (pathKey nfc)).map fun key => (key, entriesAt all key) := by
    rw [List.map_map]
    rfl
  rw [answer, hk, OrderedMap.get?_setAll_map, OrderedMap.get?_empty]

/-- What holds between any two events. -/
structure CreationInvariant (nfc : Nfc) (w : CreationWorld) : Prop where
  snapshot : ∀ fileId, w.gate.snapshot.get? fileId = (buildMetaSnapshot w.metaMap).get? fileId
  once : w.loader.Once w.token
  waiting : ∀ (call : ℕ) (token : CreationToken) (unchecked : List JsString) (reading : ℕ),
    w.prepares[call]? = some (waiting token unchecked reading) →
      (∃ result, w.loader.readings[reading]? = some (token, result)) ∧
        ∀ key ∈ unchecked, ∃ path, pathKey nfc path = key

variable {isLocal : Bool} {metaMap : MetaMap} {affected : Option (List JsString)}

theorem reportsAffected_transaction
    (h : ReportsAffected w (.transaction isLocal metaMap affected)) : ∀ ids, affected = some ids →
      ids.Nodup ∧ ∀ fileId ∉ ids, w.metaMap.get? fileId = metaMap.get? fileId := by
  rintro ids rfl
  exact h

/-- A call that resumes waits on, fails, or takes what was loaded into the gate. -/
theorem resume_cases (nfc : Nfc) (w : CreationWorld) (call : ℕ) : w.resume nfc call = w ∨
    (∃ ok, w.resume nfc call = { w with prepares := w.prepares.set call (.ended ok) }) ∨
    ∃ token unchecked reading other all gate ok,
      w.prepares[call]? = some (waiting token unchecked reading) ∧
      w.loader.Returned reading other all ∧
      settle nfc token w.token (answer nfc all unchecked) w.gate unchecked = (gate, ok) ∧
      w.resume nfc call = { w with gate, prepares := w.prepares.set call (.ended ok) } := by
  unfold CreationWorld.resume
  split
  · next token unchecked reading hc =>
    split
    · next other all hall =>
      exact .inr (.inr ⟨token, unchecked, reading, other, all, _, _, hc, hall, rfl, rfl⟩)
    · exact .inr (.inl ⟨false, rfl⟩)
    · exact .inl rfl
    · exact .inl rfl
  · exact .inl rfl
  · exact .inl rfl

variable {call reading : ℕ} {unchecked : List JsString}

/-- A call that ends takes no other call's place. -/
theorem waiting_of_set {prepares : List PrepareCall} {other : ℕ} {ok : Bool}
    (h : (prepares.set call (.ended ok))[other]? = some (waiting token unchecked reading)) :
    prepares[other]? = some (waiting token unchecked reading) := by
  by_cases hc : call = other
  · subst hc
    rw [List.getElem?_set_self'] at h
    obtain ⟨before, -, heq⟩ := Option.map_eq_some_iff.mp h
    cases heq
  · rwa [List.getElem?_set_ne hc] at h

theorem creationInvariant_next (h : CreationInvariant nfc w) (hreports : ReportsAffected w event) :
    CreationInvariant nfc (creationNext nfc w event) := by
  cases event with
  | transaction isLocal metaMap affected =>
    have hids := reportsAffected_transaction hreports
    obtain ⟨after, heq, -, -, -, hrev, -, hsnapshot⟩ :=
      MarkdownCreationHistoryGate.observe_spec nfc w.gate isLocal metaMap affected
    refine ⟨?_, ?_, h.waiting⟩
    · intro fileId
      rw [creationNext, heq, hsnapshot]
      exact MarkdownCreationHistoryGate.get?_changes h.snapshot hids fileId
    rw [creationNext, heq]
    exact h.once.mono (Prod.mk_le_mk.mpr ⟨le_rfl, hrev⟩)
  | connected =>
    refine ⟨h.snapshot, ?_, h.waiting⟩
    exact h.once.mono (Prod.mk_le_mk.mpr ⟨Nat.le_succ _, le_rfl⟩)
  | prepare paths canSeedExplicitly =>
    rw [creationNext, CreationWorld.prepare]
    obtain ⟨after, reading, hreq, honce, hkeep, -, hr⟩ := request_spec h.once
    simp only [hreq]
    split
    · refine ⟨h.snapshot, h.once, ?_⟩
      intro call token unchecked reading hc
      rcases getElem?_append_one hc with hc | ⟨-, heq⟩
      · exact h.waiting call token unchecked reading hc
      · cases heq
    refine ⟨h.snapshot, honce, ?_⟩
    intro call token unchecked reading hc
    rcases getElem?_append_one hc with hc | ⟨-, heq⟩
    · obtain ⟨⟨result, hres⟩, hk⟩ := h.waiting call token unchecked reading hc
      exact ⟨⟨result, hkeep reading (token, result) hres⟩, hk⟩
    cases heq
    refine ⟨hr, ?_⟩
    intro key hkey
    obtain ⟨path, -, hp⟩ := List.mem_map.mp
      (MarkdownCreationHistoryGate.mem_pending (List.mem_of_mem_filter hkey))
    exact ⟨path, hp⟩
  | read reading pages =>
    obtain ⟨honce, -, -, hstay⟩ :=
      finish_spec h.once reading (readMarkdownCreationHistory nfc none pages)
    refine ⟨h.snapshot, honce, ?_⟩
    intro call token unchecked other hc
    obtain ⟨⟨result, hres⟩, hk⟩ := h.waiting call token unchecked other hc
    exact ⟨hstay other token result hres, hk⟩
  | resume call =>
    rw [creationNext]
    rcases resume_cases nfc w call with heq | ⟨ok, heq⟩ |
      ⟨token, unchecked, reading, other, all, gate, ok, -, -, hset, heq⟩
    · rw [heq]
      exact h
    · rw [heq]
      refine ⟨h.snapshot, h.once, ?_⟩
      intro other token unchecked reading ho
      exact h.waiting other token unchecked reading (waiting_of_set ho)
    obtain ⟨after, ok', hset', -, -, -, hrev, hsnapshot⟩ :=
      MarkdownCreationHistoryGate.settle_spec nfc token w.token (answer nfc all unchecked) w.gate
        unchecked
    cases hset.symm.trans hset'
    rw [heq]
    constructor
    · intro fileId
      rw [hsnapshot]
      exact h.snapshot fileId
    · have hs : gate.revision = w.gate.revision := hrev
      have honce := h.once
      rw [CreationWorld.token, MarkdownCreationHistoryGate.token, ← hs] at honce
      exact honce
    intro other token unchecked reading ho
    exact h.waiting other token unchecked reading (waiting_of_set ho)

theorem knows_next (h : w.gate.Knows key) : (creationNext nfc w event).gate.Knows key := by
  cases event with
  | transaction isLocal metaMap affected =>
    obtain ⟨after, heq, hknows, -⟩ :=
      MarkdownCreationHistoryGate.observe_spec nfc w.gate isLocal metaMap affected
    rw [creationNext, heq]
    exact hknows key h
  | connected | read reading pages => exact h
  | prepare paths canSeedExplicitly =>
    simp only [creationNext, CreationWorld.prepare]
    split <;> exact h
  | resume call =>
    rw [creationNext]
    rcases resume_cases nfc w call with heq | ⟨ok, heq⟩ |
      ⟨token, unchecked, reading, other, all, gate, ok, -, -, hset, heq⟩
    · rw [heq]
      exact h
    · rw [heq]
      exact h
    obtain ⟨after, ok', hset', hknows, -⟩ :=
      settle_spec nfc token w.token (answer nfc all unchecked) w.gate unchecked
    cases hset.symm.trans hset'
    rw [heq]
    exact hknows key h

variable {fileId : JsString}

/-- A file that was active at a key stays there or leaves its mark. -/
theorem active_next (h : CreationInvariant nfc w)
    (hreports : ReportsAffected w event) (hk : KeepsPath nfc w event)
    (hact : ActiveAt nfc w fileId key) : ActiveAt nfc (creationNext nfc w event) fileId key ∨
      (creationNext nfc w event).gate.Knows key := by
  cases event with
  | transaction isLocal metaMap affected =>
    by_contra hneit
    obtain ⟨hg, hunk⟩ := not_or.mp hneit
    obtain ⟨prev, hp, hprev, hpa⟩ := hact
    obtain ⟨change, hch, path, hl, hkey⟩ : ∃ change ∈ expectedChanges fileId
        ((buildMetaSnapshot w.metaMap).get? fileId) ((buildMetaSnapshot metaMap).get? fileId),
        ∃ path, change.leftPath = some path ∧ pathKey nfc path = key := by
      rw [hp]
      apply exists_leftPath hprev hpa
      · intro decoded hdec hdel
        exact hk fileId prev decoded hp hdec hprev hdel
      intro decoded hdec hs hsa
      exact hg ⟨decoded, hdec, hs, hsa⟩
    have hmem := mem_changes h.snapshot (reportsAffected_transaction hreports) hch
    obtain ⟨after, heq, -, hknows, -⟩ :=
      MarkdownCreationHistoryGate.observe_spec nfc w.gate isLocal metaMap affected
    apply hunk
    rw [creationNext, heq, ← hkey]
    exact hknows change hmem path hl
  | connected | read reading pages => exact .inl hact
  | prepare paths canSeedExplicitly =>
    left
    simp only [creationNext, CreationWorld.prepare]
    split <;> exact hact
  | resume call =>
    left
    rw [creationNext]
    rcases resume_cases nfc w call with heq | ⟨ok, heq⟩ |
      ⟨token, unchecked, reading, other, all, gate, ok, -, -, -, heq⟩
    all_goals
      rw [heq]
      exact hact

/-- A key becomes checked by the seed permission or by a load that finds nothing. -/
theorem checkedNew_next (h : CreationInvariant nfc w)
    (hc : (creationNext nfc w event).gate.checkedNew.get? key = some token) :
    w.gate.checkedNew.get? key = some token ∨
      (∃ paths canSeedExplicitly, event = .prepare paths canSeedExplicitly ∧ w.token = token ∧
        key ∈ paths.map (pathKey nfc) ∧ canSeedExplicitly key = true) ∨
      ∃ call unchecked reading all, event = .resume call ∧
        w.prepares[call]? = some (waiting token unchecked reading) ∧
        w.loader.Returned reading token all ∧ key ∈ unchecked ∧ entriesAt all key = [] := by
  cases event with
  | transaction isLocal metaMap affected =>
    obtain ⟨after, heq, -, -, hb, -⟩ :=
      MarkdownCreationHistoryGate.observe_spec nfc w.gate isLocal metaMap affected
    rw [creationNext, heq] at hc
    exact .inl (hb key token hc)
  | connected | read reading pages => exact .inl hc
  | prepare paths canSeedExplicitly =>
    have hm : (w.gate.markChecked w.token ((w.gate.pending nfc w.token paths).filter
        canSeedExplicitly)).checkedNew.get? key = some token := by
      simp only [creationNext, CreationWorld.prepare] at hc
      split at hc <;> exact hc
    rw [MarkdownCreationHistoryGate.get?_markChecked] at hm
    split at hm
    · next hmem =>
      obtain ⟨hp, hseed⟩ := List.mem_filter.mp hmem
      exact .inr (.inl ⟨paths, canSeedExplicitly, rfl, Option.some.inj hm, mem_pending hp, hseed⟩)
    · exact .inl hm
  | resume call =>
    rw [creationNext] at hc
    rcases resume_cases nfc w call with heq | ⟨ok, heq⟩ |
      ⟨began, unchecked, reading, other, all, gate, ok, hca, hall, hset, heq⟩
    · rw [heq] at hc
      exact .inl hc
    · rw [heq] at hc
      exact .inl hc
    obtain ⟨after, ok', hset', -, hs, -⟩ :=
      settle_spec nfc began w.token (answer nfc all unchecked) w.gate unchecked
    cases hset.symm.trans hset'
    rw [heq] at hc
    rcases hs key token hc with hb | ⟨rfl, hmem, hn⟩
    · exact .inl hb
    obtain ⟨⟨result, hr⟩, -⟩ := h.waiting call token unchecked reading hca
    have ht : other = token := congrArg Prod.fst (Option.some.inj (hall.symm.trans hr))
    rw [ht] at hall
    refine .inr (.inr ⟨call, unchecked, reading, all, rfl, hca, hall, hmem, ?_⟩)
    rw [get?_answer] at hn
    split at hn
    · exact Option.some.inj hn
    · cases hn

variable {all : MarkdownCreationHistory}

/-- A load that ends well leaves known whatever it has found. -/
theorem knows_of_ended (h : CreationInvariant nfc w)
    (hc : w.prepares[call]? = some (waiting token unchecked reading))
    (hall : w.loader.Returned reading token all)
    (hen : (w.resume nfc call).prepares[call]? = some (ended true)) (hmem : key ∈ unchecked)
    (hf : entriesAt all key ≠ []) : (w.resume nfc call).gate.Knows key := by
  obtain ⟨hlt, -⟩ := List.getElem?_eq_some_iff.mp hc
  obtain ⟨after, ok, hset, -, -, hok, -⟩ :=
    settle_spec nfc token w.token (answer nfc all unchecked) w.gate unchecked
  have heq : w.resume nfc call =
      { w with gate := after, prepares := w.prepares.set call (.ended ok) } := by
    have hr : w.loader.readings[reading]? = some (token, .returned all) := hall
    simp only [CreationWorld.resume, hc, hr, hset]
  rw [heq, List.getElem?_set_self hlt, Option.some.injEq, ended.injEq] at hen
  obtain ⟨entries, he, hknows⟩ := hok hen key hmem
  rw [get?_answer] at he
  split at he
  · next hkey =>
    cases he
    -- the key is that of a key, so it is its own key
    obtain ⟨inner, hinner, rfl⟩ := List.mem_map.mp hkey
    obtain ⟨path, rfl⟩ := (h.waiting call token unchecked reading hc).2 inner hinner
    have hs := hknows hf
    rw [pathKey_pathKey_pathKey] at hs
    rw [heq]
    exact hs
  · cases he

theorem returned_next (h : CreationInvariant nfc w)
    (hall : (creationNext nfc w event).loader.Returned reading token all) :
    w.loader.Returned reading token all ∨ ∃ pages, event = .read reading pages ∧
      readMarkdownCreationHistory nfc none pages = .returned all := by
  cases event with
  | transaction isLocal metaMap affected | connected => exact .inl hall
  | prepare paths canSeedExplicitly =>
    obtain ⟨after, reading', hreq, -, -, hold, -⟩ := request_spec h.once
    simp only [creationNext, CreationWorld.prepare, hreq] at hall
    split at hall
    · exact .inl hall
    · exact .inl (hold reading token all hall)
  | read other pages =>
    obtain ⟨-, -, hnew, -⟩ := finish_spec h.once other (readMarkdownCreationHistory nfc none pages)
    rcases hnew reading token all hall with hold | ⟨rfl, hr⟩
    · exact .inl hold
    · exact .inr ⟨pages, rfl, hr⟩
  | resume call =>
    rw [creationNext] at hall
    rcases resume_cases nfc w call with heq | ⟨ok, heq⟩ |
      ⟨began, unchecked, reading', other, all', gate, ok, -, -, -, heq⟩
    all_goals
      rw [heq] at hall
      exact .inl hall

/-- What has returned stays so. -/
theorem returned_stays (h : CreationInvariant nfc w) (hall : w.loader.Returned reading token all) :
    (creationNext nfc w event).loader.Returned reading token all := by
  cases event with
  | transaction isLocal metaMap affected | connected => exact hall
  | prepare paths canSeedExplicitly =>
    obtain ⟨after, reading', hreq, -, hkeep, -⟩ := request_spec h.once
    simp only [creationNext, CreationWorld.prepare, hreq]
    split
    · exact hall
    · exact hkeep reading _ hall
  | read other pages =>
    obtain ⟨-, hold, -⟩ := finish_spec h.once other (readMarkdownCreationHistory nfc none pages)
    exact hold reading token all hall
  | resume call =>
    rw [creationNext]
    rcases resume_cases nfc w call with heq | ⟨ok, heq⟩ |
      ⟨began, unchecked, reading', other, all', gate, ok, -, -, -, heq⟩
    all_goals
      rw [heq]
      exact hall

theorem revision_next (h : CreationInvariant nfc w)
    (hreports : ReportsAffected w (.transaction isLocal metaMap affected))
    (hm : Restructured isLocal ((buildMetaSnapshot w.metaMap).get? fileId)
      ((buildMetaSnapshot metaMap).get? fileId)) : w.gate.revision <
      (creationNext nfc w (.transaction isLocal metaMap affected)).gate.revision := by
  obtain ⟨change, hch, hstr⟩ := exists_isStructural fileId hm
  have hmem := mem_changes h.snapshot (reportsAffected_transaction hreports) hch
  obtain ⟨after, heq, -, -, -, -, hrev, -⟩ :=
    MarkdownCreationHistoryGate.observe_spec nfc w.gate isLocal metaMap affected
  rw [creationNext, heq]
  exact hrev change hmem hstr

end World

section Run

variable {nfc : Nfc} {generation : ℕ} {metaMap : MetaMap} {events : List CreationEvent}
  {n m : ℕ} {key : JsString} {token : CreationToken}

theorem creationAt_step (nfc : Nfc) (generation : ℕ) (metaMap : MetaMap)
    (events : List CreationEvent) (n : ℕ) :
    creationAt nfc generation metaMap events (n + 1) = creationAt nfc generation metaMap events n ∨
      ∃ event, events[n]? = some event ∧ creationAt nfc generation metaMap events (n + 1) =
        creationNext nfc (creationAt nfc generation metaMap events n) event := by
  rcases stateAt_step (creationNext nfc) (CreationWorld.start generation metaMap) events n with
    ⟨-, heq⟩ | hn
  · exact .inl heq
  · exact .inr hn

theorem creationInvariant_start (nfc : Nfc) (generation : ℕ) (metaMap : MetaMap) :
    CreationInvariant nfc (CreationWorld.start generation metaMap) := by
  refine ⟨fun _ => rfl, once_empty, ?_⟩
  exact nofun

theorem knows_mono (hnm : n ≤ m) (h : (creationAt nfc generation metaMap events n).gate.Knows key) :
    (creationAt nfc generation metaMap events m).gate.Knows key :=
  stateAt_from (P := fun w : CreationWorld => w.gate.Knows key) hnm h fun _ _ _ _ ih => knows_next ih

variable {reading : ℕ} {all : MarkdownCreationHistory}

section

variable (hreports : ∀ n event, events[n]? = some event →
  ReportsAffected (creationAt nfc generation metaMap events n) event)
include hreports

theorem creationInvariant_at (n : ℕ) :
    CreationInvariant nfc (creationAt nfc generation metaMap events n) := by
  exact stateAt_from (Nat.zero_le n) (creationInvariant_start nfc generation metaMap)
    fun k event _ hev h => creationInvariant_next h (hreports k event hev)

theorem returned_mono (hnm : n ≤ m)
    (h : (creationAt nfc generation metaMap events n).loader.Returned reading token all) :
    (creationAt nfc generation metaMap events m).loader.Returned reading token all := by
  induction m, hnm using Nat.le_induction with
  | base => exact h
  | succ m _ ih =>
    rcases creationAt_step nfc generation metaMap events m with heq | ⟨event, -, heq⟩ <;> rw [heq]
    · exact ih
    · exact returned_stays (creationInvariant_at hreports m) ih

/-- A file once active at a key is there still, or known. -/
theorem active_or_knows {fileId : JsString}
    (hk : ∀ n event, events[n]? = some event →
      KeepsPath nfc (creationAt nfc generation metaMap events n) event) (hnm : n ≤ m)
    (h : ActiveAt nfc (creationAt nfc generation metaMap events n) fileId key) :
    ActiveAt nfc (creationAt nfc generation metaMap events m) fileId key ∨
      (creationAt nfc generation metaMap events m).gate.Knows key := by
  induction m, hnm using Nat.le_induction with
  | base => exact .inl h
  | succ m _ ih =>
    rcases creationAt_step nfc generation metaMap events m with heq | ⟨event, hev, heq⟩
    · rw [heq]
      exact ih
    rw [heq]
    rcases ih with hact | hknows
    · exact active_next (creationInvariant_at hreports m) (hreports m event hev)
        (hk m event hev) hact
    · exact .inr (knows_next hknows)

/-- Each key that counts as checked was covered under the token it is kept with. -/
theorem checkedNew_covered (n : ℕ)
    (h : (creationAt nfc generation metaMap events n).gate.checkedNew.get? key = some token) :
    Seeded nfc generation metaMap events n token key ∨
      Loaded nfc generation metaMap events n token key := by
  induction n with
  | zero => cases h
  | succ n ih =>
    have hb : (creationAt nfc generation metaMap events n).gate.checkedNew.get? key =
          some token →
        Seeded nfc generation metaMap events (n + 1) token key ∨
          Loaded nfc generation metaMap events (n + 1) token key := by
      intro hold
      rcases ih hold with ⟨k, hk, hseeded⟩ | ⟨k, hk, hl⟩
      · exact .inl ⟨k, Nat.lt_succ_of_lt hk, hseeded⟩
      · exact .inr ⟨k, Nat.lt_succ_of_lt hk, hl⟩
    rcases creationAt_step nfc generation metaMap events n with heq | ⟨event, hev, heq⟩
    · rw [heq] at h
      exact hb h
    rw [heq] at h
    rcases checkedNew_next (creationInvariant_at hreports n) h with hold |
      ⟨paths, canSeedExplicitly, rfl, ht, hkey, hseed⟩ |
      ⟨call, unchecked, reading, all, rfl, hc, hall, hmem, hn⟩
    · exact hb hold
    · exact .inl ⟨n, Nat.lt_succ_self n, paths, canSeedExplicitly, hev, ht, hkey, hseed⟩
    exact .inr ⟨n, Nat.lt_succ_self n, call, unchecked, reading, all, hev, hc, hall, hmem, hn⟩

theorem returned_read (n : ℕ)
    (h : (creationAt nfc generation metaMap events n).loader.Returned reading token all) :
    ∃ k < n, ∃ pages, events[k]? = some (.read reading pages) ∧
      readMarkdownCreationHistory nfc none pages = .returned all := by
  induction n with
  | zero => cases h
  | succ n ih =>
    have hb : (creationAt nfc generation metaMap events n).loader.Returned reading token all →
        ∃ k < n + 1, ∃ pages, events[k]? = some (.read reading pages) ∧
          readMarkdownCreationHistory nfc none pages = .returned all := by
      intro hold
      obtain ⟨k, hk, hr⟩ := ih hold
      exact ⟨k, Nat.lt_succ_of_lt hk, hr⟩
    rcases creationAt_step nfc generation metaMap events n with heq | ⟨event, hev, heq⟩
    · rw [heq] at h
      exact hb h
    rw [heq] at h
    rcases returned_next (creationInvariant_at hreports n) h with hold | ⟨pages, rfl, hr⟩
    · exact hb hold
    · exact ⟨n, Nat.lt_succ_self n, pages, hev, hr⟩

end

variable {w : CreationWorld} {path : JsString}

theorem checkedNew_of_canCreate (h : w.canCreate nfc path = true) :
    w.gate.checkedNew.get? (pathKey nfc path) = some w.token := by
  rw [CreationWorld.canCreate, canCreate, Bool.and_eq_true, decide_eq_true_eq] at h
  exact h.2

theorem canCreate_of_knows (h : w.gate.Knows (pathKey nfc path)) : w.canCreate nfc path = false :=
  MarkdownCreationHistoryGate.canCreate_of_knows h

end Run

/-- In every run in which no file is moved and deleted at once the gate takes no path with history
for new; and whatever is read, is read in full. -/
theorem admits_only_new (nfc : Nfc) (generation : ℕ) (metaMap : MetaMap)
    (events : List CreationEvent)
    (hreports : ∀ n event, events[n]? = some event →
      ReportsAffected (creationAt nfc generation metaMap events n) event)
    (hkeeps : ∀ n event, events[n]? = some event →
      KeepsPath nfc (creationAt nfc generation metaMap events n) event) :
    AdmitsOnlyNew nfc generation metaMap events ∧
      ∀ paths pages history, readMarkdownCreationHistory nfc paths pages = .returned history →
        ReadInFull nfc paths pages history := by
  have hcov : ∀ n path,
      (creationAt nfc generation metaMap events n).canCreate nfc path = true →
        Seeded nfc generation metaMap events n
            (creationAt nfc generation metaMap events n).token (pathKey nfc path) ∨
          Loaded nfc generation metaMap events n
            (creationAt nfc generation metaMap events n).token (pathKey nfc path) := by
    intro n path h
    exact checkedNew_covered hreports n (checkedNew_of_canCreate h)
  refine ⟨⟨?_, ?_, ?_, hcov, ?_, ?_⟩, fun _ _ _ => readInFull⟩
  · intro n m fileId path hnm hact hg
    rcases active_or_knows hreports hkeeps hnm hact with hs | hknows
    · exact absurd hs hg
    · exact canCreate_of_knows hknows
  · intro n reading all path hall hf hseeded
    rw [Bool.eq_false_iff]
    intro hcreate
    rcases hcov n path hcreate with hseed |
      ⟨k, hk, call, unchecked, other, all', -, -, ho, -, hn⟩
    · exact hseeded hseed
    · -- the load that found nothing was answered by the same reading
      have hl := returned_mono hreports (Nat.le_of_lt hk) ho
      have hsa := (creationInvariant_at hreports n).once.eq_of_returned hall hl
      exact hf (hsa ▸ hn)
  · intro n m call token unchecked reading all path hnm hev hc hall he hmem hf
    have hnx : creationAt nfc generation metaMap events (n + 1) =
        (creationAt nfc generation metaMap events n).resume nfc call := stateAt_succ hev
    rw [hnx] at he
    have hknows := knows_of_ended (creationInvariant_at hreports n) hc hall he hmem hf
    rw [← hnx] at hknows
    exact canCreate_of_knows (knows_mono hnm hknows)
  · intro n isLocal next affected fileId hev hm
    have hnx : creationAt nfc generation metaMap events (n + 1) =
        creationNext nfc (creationAt nfc generation metaMap events n)
          (.transaction isLocal next affected) := stateAt_succ hev
    rw [hnx]
    exact revision_next (creationInvariant_at hreports n) (hreports n _ hev) hm
  · intro n reading token all hall
    obtain ⟨k, hk, pages, hev, hr⟩ := returned_read hreports n hall
    exact ⟨k, hk, pages, hev, readInFull hr⟩

/-- Paths whose characters have one normal form. -/
def plainNfc : Nfc := ⟨id, fun _ => rfl, fun _ => rfl⟩

def fileAt (path : String) (deletedAt : Json) : MetaMap :=
  ⟨[(js "f", .nested fun key => if key = "path" then .str (js path)
    else if key = "deletedAt" then deletedAt else .undefined)], List.nodup_singleton _⟩

def emptyPage : HistoryPage :=
  { manifests := some [], totalManifestKeys := some 0, limited := some false }

/-- A transaction, and then a path is checked against an empty history. -/
def checkAfter (metaMap : MetaMap) (path : String) : List CreationEvent :=
  [.transaction false metaMap (some [js "f"]), .prepare [js path] fun _ => false,
    .read 0 [some emptyPage], .resume 0]

theorem reports_checkAfter {before after : MetaMap} {path : String}
    (ho : ∀ fileId, fileId ≠ js "f" → before.get? fileId = after.get? fileId) (n : ℕ)
    (event : CreationEvent) (h : (checkAfter after path)[n]? = some event) :
    ReportsAffected (creationAt plainNfc 0 before (checkAfter after path) n) event := by
  have hn : n < 4 := (List.getElem?_eq_some_iff.mp h).1
  obtain rfl | rfl | rfl | rfl : n = 0 ∨ n = 1 ∨ n = 2 ∨ n = 3 := by omega
  all_goals cases h
  · refine ⟨List.nodup_singleton _, ?_⟩
    intro fileId hnot
    exact ho fileId (mt List.mem_singleton.mpr hnot)
  · trivial
  · trivial
  · trivial

theorem get?_fileAt_of_ne {path : String} {deletedAt : Json} {fileId : JsString}
    (h : fileId ≠ js "f") : (fileAt path deletedAt).get? fileId = none := by
  simp [OrderedMap.get?, fileAt, Ne.symm h]

/-- The file is renamed, and another path is checked. -/
theorem renamed_admits_only_new : AdmitsOnlyNew plainNfc 0 (fileAt "a" .undefined)
    (checkAfter (fileAt "b" .undefined) "c") := by
  refine (admits_only_new plainNfc 0 (fileAt "a" .undefined)
    (checkAfter (fileAt "b" .undefined) "c") ?_ ?_).1
  · apply reports_checkAfter
    intro fileId hne
    rw [get?_fileAt_of_ne hne, get?_fileAt_of_ne hne]
  intro n event h
  have hn : n < 4 := (List.getElem?_eq_some_iff.mp h).1
  obtain rfl | rfl | rfl | rfl : n = 0 ∨ n = 1 ∨ n = 2 ∨ n = 3 := by omega
  all_goals cases h
  · intro fileId prev curr _ hcurr _ hdel
    rw [OrderedMap.get?_eq_some] at hcurr
    have hent : (buildMetaSnapshot (fileAt "b" .undefined)).entries =
      [(js "f", { shape := .nested, path := js "b" })] := by decide
    rw [hent, List.mem_singleton] at hcurr
    cases hcurr
    cases hdel
  · trivial
  · trivial
  · trivial

/-- A file that is moved and deleted at once leaves a path that counts as new. -/
theorem moved_and_deleted_is_new :
    (∀ n event, (checkAfter (fileAt "b" (.num (some 7))) "a")[n]? = some event →
      ReportsAffected (creationAt plainNfc 0 (fileAt "a" .undefined)
        (checkAfter (fileAt "b" (.num (some 7))) "a") n) event) ∧
    ¬ AdmitsOnlyNew plainNfc 0 (fileAt "a" .undefined)
      (checkAfter (fileAt "b" (.num (some 7))) "a") := by
  constructor
  · apply reports_checkAfter
    intro fileId hne
    rw [get?_fileAt_of_ne hne, get?_fileAt_of_ne hne]
  intro h
  have hg := h.left 0 4 (js "f") (js "a") (by omega)
    ⟨{ shape := .nested, path := js "a" }, by decide, rfl, by decide⟩
  have hnot : ¬ ActiveAt plainNfc (creationAt plainNfc 0 (fileAt "a" .undefined)
      (checkAfter (fileAt "b" (.num (some 7))) "a") 4) (js "f") (pathKey plainNfc (js "a")) := by
    rintro ⟨decoded, hget, hact, -⟩
    have hdel : (buildMetaSnapshot (fileAt "b" (.num (some 7)))).get? (js "f") =
        some { shape := .nested, path := js "b", deletedAt := some 7 } := by decide
    cases hget.symm.trans hdel
    cases hact
  have hf := hg hnot
  revert hf
  decide

end Kaos.Sync
