import Kaos.Lib.OrderedMap
import Kaos.Paths.CanonicalPath

/-! The walk over the server's file history that tells which paths have been used before. -/
namespace Kaos.Sync

open Kaos.Lib Kaos.Paths List OrderedMap

structure MarkdownPathHistoryEntry where
  fileId : JsString
  historyId : JsString
  deriving DecidableEq

/-- A file is noted once at a path. -/
def pushEntry (found : List MarkdownPathHistoryEntry) (entry : MarkdownPathHistoryEntry) :
    List MarkdownPathHistoryEntry :=
  if found.any fun other => other.fileId = entry.fileId then found else found ++ [entry]

/-- The files that history knows at a path, by its key. -/
abbrev MarkdownCreationHistory := OrderedMap JsString (List MarkdownPathHistoryEntry)

/-- An optional path of an entry: missing, no string, or a path. -/
inductive HistoryPath
  | missing
  | invalid
  | path (path : JsString)

/-- A field is `none` where it does not have its type. -/
structure HistoryEntry where
  fileId : Option JsString
  path : Option JsString
  oldPath : HistoryPath := .missing
  newPath : HistoryPath := .missing

structure HistoryManifest where
  manifestId : Option JsString
  manifestHash : JsString
  stateHash : JsString
  changedEntries : Option (List HistoryEntry)

structure HistoryPage where
  manifests : Option (List HistoryManifest)
  totalManifestKeys : Option ℕ
  limited : Option Bool
  nextCursor : Option JsString := none

/-- What has been read so far; `paths` are those asked for, `none` for all. -/
structure HistoryReading where
  result : MarkdownCreationHistory
  cursors : List JsString := []
  manifests : List JsString := []
  total : Option ℕ := none

/-- The reading waits for a page, has thrown, or has returned. -/
inductive HistoryResult
  | pending
  | threw
  | returned (history : MarkdownCreationHistory)

/-- What a history says of a path: a file of a manifest had it. -/
structure Mention where
  path : JsString
  fileId : JsString
  manifestId : JsString

section Reading

variable (nfc : Nfc) (paths : Option (List JsString))

/-- A result with the paths asked for, none of which has a file yet. -/
def initialResult : MarkdownCreationHistory :=
  OrderedMap.empty.setAll ((paths.getD []).map fun path => (pathKey nfc path, []))

def addMention (result : MarkdownCreationHistory) (mention : Mention) : MarkdownCreationHistory :=
  let key := pathKey nfc mention.path
  let result := if paths.isNone && (result.get? key).isNone then result.set key [] else result
  match result.get? key with
  | none => result
  | some found => result.set key (pushEntry found ⟨mention.fileId, mention.manifestId⟩)

/-- The loop over an entry's paths. -/
def readCandidates (manifestId fileId : JsString) :
    MarkdownCreationHistory → List HistoryPath → Option MarkdownCreationHistory
  | result, [] => some result
  | result, .missing :: rest => readCandidates manifestId fileId result rest
  | _, .invalid :: _ => none
  | result, .path path :: rest =>
    readCandidates manifestId fileId (addMention nfc paths result ⟨path, fileId, manifestId⟩) rest

/-- The loop over a manifest's entries. -/
def readEntries (manifestId : JsString) :
    MarkdownCreationHistory → List HistoryEntry → Option MarkdownCreationHistory
  | result, [] => some result
  | result, entry :: rest =>
    match entry.fileId, entry.path with
    | some fileId, some path => do
      let result ← readCandidates nfc paths manifestId fileId result
        [.path path, entry.oldPath, entry.newPath]
      readEntries manifestId result rest
    | _, _ => none

/-- The loop over a page's manifests. -/
def readManifests : HistoryReading → List HistoryManifest → Option HistoryReading
  | reading, [] => some reading
  | reading, manifest :: rest =>
    match manifest.manifestId, manifest.changedEntries with
    | some manifestId, some changedEntries =>
      if manifest.manifestHash = [] ∨ manifest.stateHash = [] ∨ manifestId ∈ reading.manifests then
        none
      else do
        let result ← readEntries nfc paths manifestId reading.result changedEntries
        readManifests { reading with result, manifests := reading.manifests ++ [manifestId] } rest
    | _, _ => none

/-- One page: the reading after it and whether it was the last. -/
def readPage (reading : HistoryReading) (page : HistoryPage) : Option (HistoryReading × Bool) :=
  match page.manifests, page.limited, page.totalManifestKeys with
  | some manifests, some limited, some total =>
    if reading.total ≠ none ∧ reading.total ≠ some total then none
    else do
      let reading ← readManifests nfc paths { reading with total := some total } manifests
      if limited then
        match page.nextCursor with
        | some cursor =>
          if cursor = [] ∨ cursor ∈ reading.cursors then none
          else some ({ reading with cursors := reading.cursors ++ [cursor] }, false)
        | none => none
      else some (reading, true)
  | _, _, _ => none

/-- The walk over the pages that `list` gives, `none` where it rejects. -/
def readPages : HistoryReading → List (Option HistoryPage) → HistoryResult
  | _, [] => .pending
  | _, none :: _ => .threw
  | reading, some page :: rest =>
    match readPage nfc paths reading page with
    | none => .threw
    | some (reading, false) => readPages reading rest
    | some (reading, true) =>
      if reading.total = some reading.manifests.length then .returned reading.result else .threw

def readMarkdownCreationHistory (pages : List (Option HistoryPage)) : HistoryResult :=
  readPages nfc paths { result := initialResult nfc paths } pages

end Reading

def HistoryPath.toList : HistoryPath → List JsString
  | .path candidate => [candidate]
  | .missing | .invalid => []

def HistoryEntry.mentions (manifestId : JsString) (entry : HistoryEntry) : List Mention :=
  entry.fileId.toList.flatMap fun fileId =>
    (entry.path.toList ++ entry.oldPath.toList ++ entry.newPath.toList).map fun path =>
      ⟨path, fileId, manifestId⟩

def HistoryManifest.mentions (manifest : HistoryManifest) : List Mention :=
  manifest.manifestId.toList.flatMap fun manifestId =>
    (manifest.changedEntries.getD []).flatMap (HistoryEntry.mentions manifestId)

def HistoryPage.manifestList (page : HistoryPage) : List HistoryManifest := page.manifests.getD []

/-- The manifests of the pages that have been read. -/
def manifestsOf (pages : List HistoryPage) : List HistoryManifest :=
  pages.flatMap HistoryPage.manifestList

def mentionsOf (pages : List HistoryPage) : List Mention :=
  (manifestsOf pages).flatMap HistoryManifest.mentions

/-- The history knows, at each path asked for, exactly the files mentioned there, each once. -/
structure Reflects (nfc : Nfc) (paths : Option (List JsString)) (history : MarkdownCreationHistory)
    (mentions : List Mention) : Prop where
  asked : ∀ key, (history.get? key).isSome ↔
    paths.elim (∃ mention ∈ mentions, pathKey nfc mention.path = key)
      fun paths => key ∈ paths.map (pathKey nfc)
  files : ∀ key found, history.get? key = some found → ∀ fileId,
    (∃ entry ∈ found, entry.fileId = fileId) ↔
      ∃ mention ∈ mentions, pathKey nfc mention.path = key ∧ mention.fileId = fileId
  sources : ∀ key found, history.get? key = some found → ∀ entry ∈ found,
    ∃ mention ∈ mentions, pathKey nfc mention.path = key ∧ mention.fileId = entry.fileId ∧
      mention.manifestId = entry.historyId
  once : ∀ key found, history.get? key = some found → (found.map (·.fileId)).Nodup

/-- A history that was read is that of some first pages, in which every manifest comes once and
which have as many manifests as each page counts. -/
def ReadInFull (nfc : Nfc) (paths : Option (List JsString)) (pages : List (Option HistoryPage))
    (history : MarkdownCreationHistory) : Prop :=
  ∃ read rest, pages = read.map some ++ rest ∧
    (∃ ids : List JsString, (manifestsOf read).map (·.manifestId) = ids.map some ∧ ids.Nodup ∧
      ∀ page ∈ read, page.totalManifestKeys = some ids.length) ∧
    Reflects nfc paths history (mentionsOf read)

section Lemmas

variable {nfc : Nfc} {paths : Option (List JsString)} {history result : MarkdownCreationHistory}
  {mentions : List Mention} {mention : Mention} {manifestId fileId key : JsString}
  {found : List MarkdownPathHistoryEntry} {entry : MarkdownPathHistoryEntry}
  {pages : List (Option HistoryPage)}

theorem exists_mem_pushEntry : (∃ other ∈ pushEntry found entry, other.fileId = fileId) ↔
    (∃ other ∈ found, other.fileId = fileId) ∨ entry.fileId = fileId := by
  unfold pushEntry
  split
  · next h =>
    obtain ⟨other, ho, hs⟩ := any_eq_true.mp h
    rw [decide_eq_true_eq] at hs
    refine ⟨.inl, ?_⟩
    rintro (hex | rfl)
    · exact hex
    · exact ⟨other, ho, hs⟩
  · simp only [mem_append, mem_singleton, or_and_right, exists_or, exists_eq_left]

theorem mem_pushEntry {other : MarkdownPathHistoryEntry} (h : other ∈ pushEntry found entry) :
    other ∈ found ∨ other = entry := by
  unfold pushEntry at h
  split at h
  · exact .inl h
  · exact (mem_append.mp h).imp_right mem_singleton.mp

theorem nodup_pushEntry (h : (found.map (·.fileId)).Nodup) :
    ((pushEntry found entry).map (·.fileId)).Nodup := by
  unfold pushEntry
  split
  · exact h
  · next hnew =>
    rw [map_append, map_cons, map_nil, nodup_append_comm]
    refine nodup_cons.mpr ⟨?_, h⟩
    intro hmem
    obtain ⟨other, ho, hs⟩ := mem_map.mp hmem
    exact hnew (any_eq_true.mpr ⟨other, ho, by simpa using hs⟩)

theorem initialResult_get? (paths : Option (List JsString)) (key : JsString) :
    (initialResult nfc paths).get? key =
      if key ∈ (paths.getD []).map (pathKey nfc) then some [] else none := by
  have hk : (paths.getD []).map (fun path => (pathKey nfc path, [])) =
      ((paths.getD []).map (pathKey nfc)).map fun key =>
        (key, ([] : List MarkdownPathHistoryEntry)) := by
    rw [map_map]
    rfl
  rw [initialResult, hk, get?_setAll_map, get?_empty]

/-- Only the mention's own key changes, and only if it is asked for. -/
theorem get?_addMention : (addMention nfc paths history mention).get? key =
    if key = pathKey nfc mention.path ∧ (paths = none ∨ (history.get? key).isSome) then
      some (pushEntry ((history.get? key).getD []) ⟨mention.fileId, mention.manifestId⟩)
    else history.get? key := by
  by_cases hkey : key = pathKey nfc mention.path
  · subst hkey
    cases paths with
    | none =>
      cases hf : history.get? (pathKey nfc mention.path) with
      | none | some found => simp [addMention, hf, get?_set_self]
    | some paths =>
      cases hf : history.get? (pathKey nfc mention.path) with
      | none => simp [addMention, hf]
      | some found => simp [addMention, hf, get?_set_self]
  rw [if_neg fun hand => hkey hand.1]
  simp only [addMention]
  have ho : (if paths.isNone && (history.get? (pathKey nfc mention.path)).isNone then
      history.set (pathKey nfc mention.path) [] else history).get? key = history.get? key := by
    split
    · exact get?_set_of_ne hkey
    · rfl
  split
  · exact ho
  · rw [get?_set_of_ne hkey, ho]

theorem reflects_initial : Reflects nfc paths (initialResult nfc paths) [] := by
  constructor
  · intro key
    rw [initialResult_get?]
    cases paths with
    | none => simp
    | some paths =>
      split
      · next h => exact iff_of_true rfl h
      · next h => exact iff_of_false Bool.false_ne_true h
  all_goals
    intro key found hf
    rw [initialResult_get?] at hf
    split at hf
    · cases hf
      simp
    · cases hf

theorem exists_mem_concat {P : Mention → Prop} :
    (∃ other ∈ mentions ++ [mention], P other) ↔ (∃ other ∈ mentions, P other) ∨ P mention := by
  simp only [mem_append, mem_singleton, or_and_right, exists_or, exists_eq_left]

theorem reflects_addMention (h : Reflects nfc paths history mentions) :
    Reflects nfc paths (addMention nfc paths history mention) (mentions ++ [mention]) := by
  have hg : ∀ key, history.get? key = none → paths = none →
      ¬ ∃ other ∈ mentions, pathKey nfc other.path = key := by
    intro key hn hall hex
    have hs := (h.asked key).mpr (by rw [hall, Option.elim_none]; exact hex)
    rw [hn] at hs
    cases hs
  constructor
  · intro key
    rw [get?_addMention]
    cases paths with
    | none =>
      have hasked := h.asked key
      rw [Option.elim_none] at hasked ⊢
      rw [exists_mem_concat, ← hasked]
      by_cases hkey : key = pathKey nfc mention.path
      · simp [hkey]
      · simp [hkey, Ne.symm hkey]
    | some paths =>
      have hasked := h.asked key
      rw [Option.elim_some] at hasked ⊢
      rw [← hasked]
      split
      · next hand => simpa using hand.2
      · exact Iff.rfl
  · intro key found hf fileId
    rw [get?_addMention] at hf
    rw [exists_mem_concat]
    split at hf
    · next hand =>
      cases hf
      rw [exists_mem_pushEntry]
      apply or_congr
      · cases hold : history.get? key with
        | none =>
          simp only [Option.getD_none, not_mem_nil, false_and, exists_false, false_iff]
          rintro ⟨other, hmem, hp, -⟩
          have hall : paths = none := by simpa [hold] using hand.2
          exact hg key hold hall ⟨other, hmem, hp⟩
        | some old => exact h.files key old hold fileId
      · rw [hand.1]
        simp
    · next hnot =>
      have hs : (history.get? key).isSome := by rw [hf]; rfl
      rw [or_iff_left fun hand => hnot ⟨hand.1.symm, .inr hs⟩]
      exact h.files key found hf fileId
  · intro key found hf entry he
    rw [get?_addMention] at hf
    rw [exists_mem_concat]
    split at hf
    · next hand =>
      cases hf
      rcases mem_pushEntry he with hold | rfl
      · left
        cases hget : history.get? key with rw [hget] at hold
        | none => cases hold
        | some old => exact h.sources key old hget entry hold
      · exact .inr ⟨hand.1.symm, rfl, rfl⟩
    · exact .inl (h.sources key found hf entry he)
  intro key found hf
  rw [get?_addMention] at hf
  split at hf
  · cases hf
    apply nodup_pushEntry
    cases hget : history.get? key with
    | none => exact nodup_nil
    | some old => exact h.once key old hget
  · exact h.once key found hf

theorem reflects_foldl (h : Reflects nfc paths history mentions) (others : List Mention) :
    Reflects nfc paths (others.foldl (addMention nfc paths) history) (mentions ++ others) := by
  induction others generalizing history mentions with
  | nil =>
    rw [append_nil]
    exact h
  | cons mention others ih =>
    rw [append_cons]
    exact ih (reflects_addMention h)

theorem readCandidates_eq {candidates : List HistoryPath}
    (h : readCandidates nfc paths manifestId fileId history candidates = some result) :
    result = ((candidates.flatMap HistoryPath.toList).map fun path =>
      ⟨path, fileId, manifestId⟩).foldl (addMention nfc paths) history := by
  induction candidates generalizing history with
  | nil =>
    cases h
    rfl
  | cons candidate candidates ih =>
    cases candidate with
    | missing | path candidate => exact ih h
    | invalid => cases h

theorem readEntries_eq {entries : List HistoryEntry}
    (h : readEntries nfc paths manifestId history entries = some result) :
    result = (entries.flatMap (HistoryEntry.mentions manifestId)).foldl (addMention nfc paths)
      history := by
  induction entries generalizing history with
  | nil =>
    cases h
    rfl
  | cons entry entries ih =>
    rw [readEntries] at h
    split at h
    · next fileId path hid hp =>
      obtain ⟨between, hbet, hr⟩ := Option.bind_eq_some_iff.mp h
      rw [flatMap_cons, foldl_append, ih hr, readCandidates_eq hbet]
      congr 1
      simp [HistoryEntry.mentions, hid, hp, HistoryPath.toList]
    · cases h

theorem readManifests_eq {manifests : List HistoryManifest} {reading reading' : HistoryReading}
    (h : readManifests nfc paths reading manifests = some reading') :
    ∃ ids, manifests.map (·.manifestId) = ids.map some ∧
      (reading.manifests.Nodup → (reading.manifests ++ ids).Nodup) ∧
      reading' = { reading with
        result := (manifests.flatMap HistoryManifest.mentions).foldl (addMention nfc paths)
          reading.result
        manifests := reading.manifests ++ ids } := by
  induction manifests generalizing reading with
  | nil =>
    cases h
    exact ⟨[], rfl, by simp, by simp⟩
  | cons manifest manifests ih =>
    rw [readManifests] at h
    split at h
    · next manifestId changedEntries hid he =>
      split at h
      · cases h
      · next hv =>
        simp only [not_or] at hv
        obtain ⟨between, hbet, hr⟩ := Option.bind_eq_some_iff.mp h
        obtain ⟨ids, hids, hnd, rfl⟩ := ih hr
        refine ⟨manifestId :: ids, ?_, ?_, ?_⟩
        · rw [map_cons, map_cons, hid, hids]
        · intro hb
          rw [append_cons]
          apply hnd
          rw [nodup_append_comm]
          exact nodup_cons.mpr ⟨hv.2.2, hb⟩
        · rw [readEntries_eq hbet, flatMap_cons, foldl_append]
          simp [HistoryManifest.mentions, hid, he]
    · cases h

/-- A page read: its manifests come to those read before, and its count is the first page's. -/
theorem readPage_eq {page : HistoryPage} {reading reading' : HistoryReading} {last : Bool}
    (h : readPage nfc paths reading page = some (reading', last)) :
    ∃ ids, page.manifestList.map (·.manifestId) = ids.map some ∧
      (reading.manifests.Nodup → reading'.manifests.Nodup) ∧
      reading'.manifests = reading.manifests ++ ids ∧
      reading'.result = (page.manifestList.flatMap HistoryManifest.mentions).foldl
        (addMention nfc paths) reading.result ∧
      reading'.total = page.totalManifestKeys ∧ reading'.total ≠ none ∧
      (reading.total ≠ none → reading'.total = reading.total) := by
  rw [readPage] at h
  split at h
  · next manifests limited total hman hlim htotal =>
    split at h
    · cases h
    · next hc =>
      obtain ⟨between, hbet, hr⟩ := Option.bind_eq_some_iff.mp h
      obtain ⟨ids, hids, hnd, rfl⟩ := readManifests_eq hbet
      have hlist : page.manifestList = manifests := by rw [HistoryPage.manifestList, hman]; rfl
      have hs : reading'.manifests = reading.manifests ++ ids ∧
          reading'.result = (manifests.flatMap HistoryManifest.mentions).foldl
            (addMention nfc paths) reading.result ∧ reading'.total = some total := by
        split at hr
        · split at hr
          · split at hr
            · cases hr
            cases hr
            exact ⟨rfl, rfl, rfl⟩
          · cases hr
        · cases hr
          exact ⟨rfl, rfl, rfl⟩
      obtain ⟨hids', hres, htotal'⟩ := hs
      refine ⟨ids, ?_, ?_, hids', ?_, ?_, ?_, ?_⟩
      · rw [hlist, hids]
      · rw [hids']
        exact hnd
      · rw [hlist, hres]
      · rw [htotal', htotal]
      · rw [htotal']
        exact Option.some_ne_none _
      intro hb
      rw [htotal']
      rw [not_and_or, not_not, not_not] at hc
      exact (hc.resolve_left hb).symm
  · cases h

theorem readPages_eq {reading : HistoryReading}
    (h : readPages nfc paths reading pages = .returned history)
    (hnd : reading.manifests.Nodup) : ∃ read rest ids, pages = read.map some ++ rest ∧
      (manifestsOf read).map (·.manifestId) = ids.map some ∧ (reading.manifests ++ ids).Nodup ∧
      history = (mentionsOf read).foldl (addMention nfc paths) reading.result ∧
      (∀ page ∈ read, page.totalManifestKeys = some (reading.manifests ++ ids).length) ∧
      (reading.total ≠ none → reading.total = some (reading.manifests ++ ids).length) := by
  induction pages generalizing reading with
  | nil => cases h
  | cons page pages ih =>
    cases page with
    | none => cases h
    | some page =>
      rw [readPages] at h
      split at h
      · cases h
      · next reading' hpage =>
        -- another page follows
        obtain ⟨ids, hids, hkeep, hman, hr, htotal, hs, hsa⟩ := readPage_eq hpage
        obtain ⟨read, rest, more, hpages, hmore, hall, hhis, hcounts, hc⟩ := ih h (hkeep hnd)
        rw [hman, append_assoc] at hall hcounts hc
        refine ⟨page :: read, rest, ids ++ more, ?_, ?_, hall, ?_, ?_, ?_⟩
        · rw [hpages]
          rfl
        · rw [manifestsOf, flatMap_cons, map_append, hids, map_append]
          exact congrArg _ hmore
        · rw [hhis, hr, mentionsOf, mentionsOf, manifestsOf, manifestsOf,
            flatMap_cons, flatMap_append, foldl_append]
        · intro other ho
          rcases mem_cons.mp ho with rfl | ho
          · rw [← htotal]
            exact hc hs
          · exact hcounts other ho
        · intro hb
          rw [← hsa hb]
          exact hc hs
      · next reading' hpage =>
        obtain ⟨ids, hids, hkeep, hman, hr, htotal, hs, hsa⟩ := readPage_eq hpage
        split at h
        · next hcom =>
          cases h
          have hall := hkeep hnd
          rw [hman] at hcom hall
          refine ⟨[page], pages, ids, rfl, ?_, hall, ?_, ?_, ?_⟩
          · rw [manifestsOf, flatMap_cons, flatMap_nil, append_nil, hids]
          · rw [hr, mentionsOf, manifestsOf, flatMap_cons, flatMap_nil, append_nil]
          · intro other ho
            rw [mem_singleton.mp ho, ← htotal, hcom]
          intro hb
          rw [← hsa hb, hcom]
        · cases h

/-- A walk that returns has read the pages to the last, and gives what they mention. -/
theorem readInFull (h : readMarkdownCreationHistory nfc paths pages = .returned history) :
    ReadInFull nfc paths pages history := by
  obtain ⟨read, rest, ids, hpages, hids, hnd, hhis, hcounts, -⟩ := readPages_eq h nodup_nil
  refine ⟨read, rest, hpages, ⟨ids, hids, hnd, hcounts⟩, ?_⟩
  rw [hhis]
  exact reflects_foldl reflects_initial (mentionsOf read)

end Lemmas

end Kaos.Sync
