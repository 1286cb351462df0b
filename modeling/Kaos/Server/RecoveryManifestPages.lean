import Kaos.Server.RecoveryBucket
import Kaos.Server.RecoveryAudit

/-! Paging through file history: each page lists the stored ids anew and goes on below the cursor. -/
namespace Kaos.Server

open Kaos.Lib List Option

/-- `s < t` on strings. -/
def precedes (s t : JsString) : Bool := JsString.le s t && s != t

/-- What one request finds in the bucket: the ids under the manifest prefix, which are distinct as
keys of a bucket are, and the index that parses for an id. -/
structure ManifestListing where
  keys : List JsString
  nodup : keys.Nodup
  index : JsString → Option FileHistoryManifestIndex
  limit : ℤ

structure ManifestPage where
  manifests : List FileHistoryManifestIndex
  totalManifestKeys : ℕ
  limited : Bool
  nextCursor : Option JsString

section Pages

variable (platform P : RecoveryPlatform) (vaultId : JsString)

def pageSize (limit : ℤ) : ℕ := (max 1 (min limit 200)).toNat

/-- The ids of a page; an empty cursor counts as none. -/
def fetchManifestIds (listing : ManifestListing) (cursor : Option JsString) : List JsString :=
  let manifestIds := listRecoveryManifestIds platform listing.keys
  let startIndex := match cursor with
    | none | some [] => 0
    | some cursor => (manifestIds.findIdx? (precedes · cursor)).getD manifestIds.length
  (manifestIds.drop startIndex).take (pageSize listing.limit)

def finalManifestId (listing : ManifestListing) (cursor : Option JsString) : Option JsString :=
  (fetchManifestIds platform listing cursor).getLast?.filter (· ≠ [])

def hasMore (listing : ManifestListing) (cursor : Option JsString) : Bool :=
  (finalManifestId platform listing cursor).any fun final =>
    (listRecoveryManifestIds platform listing.keys).any (precedes · final)

def listRecoveryManifestIndexes (listing : ManifestListing) (cursor : Option JsString) :
    ManifestPage :=
  { manifests := sortByCreatedAt platform ((fetchManifestIds platform listing cursor).filterMap
      fun id => manifestRecord platform vaultId id (listing.index id))
    totalManifestKeys := (listRecoveryManifestIds platform listing.keys).length
    limited := hasMore platform listing cursor
    nextCursor :=
      if hasMore platform listing cursor then finalManifestId platform listing cursor else none }

/-- The cursor of the `n`-th request of a reader who follows `nextCursor`, as long as there is
one. -/
def cursorAt (listings : ℕ → ManifestListing) : ℕ → Option (Option JsString)
  | 0 => some none
  | n + 1 => (cursorAt listings n).bind fun cursor =>
      (listRecoveryManifestIndexes platform vaultId (listings n) cursor).nextCursor.map some

def pageAt (listings : ℕ → ManifestListing) (n : ℕ) : Option ManifestPage :=
  (cursorAt platform vaultId listings n).map
    (listRecoveryManifestIndexes platform vaultId (listings n))

/-- The ids in the first pages, in the order in which they were returned. -/
def visited (listings : ℕ → ManifestListing) (n : ℕ) : List JsString :=
  (List.range n).flatMap fun i =>
    ((pageAt platform vaultId listings i).elim [] (·.manifests)).map (·.manifestId)

/-- Between two pages manifests go, and only such come as are newer than the cursor. -/
def OnlyNewerAdded (listings : ℕ → ManifestListing) : Prop :=
  ∀ n page cursor, pageAt platform vaultId listings n = some page → page.nextCursor = some cursor →
    ∀ id ∈ (listings (n + 1)).keys, id ∈ (listings n).keys ∨ precedes cursor id = true

/-- Following the cursors ends; no manifest is met twice, each one that is there throughout is met
once, and the pages before the last are the limited ones. -/
structure PagedOnce (listings : ℕ → ManifestListing) : Prop where
  ends : ∃ n page, pageAt platform vaultId listings n = some page ∧ page.nextCursor = none
  once : ∀ n id, (visited platform vaultId listings n).count id ≤ 1
  all : ∀ n page id, pageAt platform vaultId listings n = some page → page.nextCursor = none →
    (∀ m ≤ n, id ∈ (listings m).keys) → (createdAtFromRecoveryManifestId platform id).isSome →
    (visited platform vaultId listings (n + 1)).count id = 1
  stored : ∀ n id, id ∈ visited platform vaultId listings n → ∃ m < n, id ∈ (listings m).keys
  limited : ∀ n page, pageAt platform vaultId listings n = some page →
    (page.limited = true ↔ (pageAt platform vaultId listings (n + 1)).isSome = true)

end Pages

section Order

variable {s t u : JsString} {l : List JsString}

theorem precedes_iff : precedes s t = true ↔ JsString.le s t = true ∧ s ≠ t := by
  simp [precedes]

theorem precedes_irrefl (s : JsString) : precedes s s = false := by simp [precedes]

theorem precedes_trans (hst : precedes s t = true) (htu : precedes t u = true) :
    precedes s u = true := by
  rw [precedes_iff] at *
  refine ⟨JsString.le_trans hst.1 htu.1, ?_⟩
  rintro rfl
  exact hst.2 (JsString.le_antisymm hst.1 htu.1)

theorem precedes_asymm (h : precedes s t = true) : precedes t s = false := by
  by_contra hts
  have := precedes_trans h (Bool.eq_true_of_not_eq_false hts)
  rw [precedes_irrefl] at this
  cases this

/-- Strings without repetition, the largest first. -/
def Falling (l : List JsString) : Prop := l.Pairwise fun s t => precedes t s = true

theorem Falling.nodup (h : Falling l) : l.Nodup := by
  refine List.Pairwise.imp ?_ h
  rintro s t hts rfl
  rw [precedes_irrefl] at hts
  cases hts

/-- In a falling list what follows the first string below a bound is below it too. -/
theorem drop_findIdx (h : Falling l) (bound : JsString) :
    l.drop ((l.findIdx? (precedes · bound)).getD l.length) = l.filter (precedes · bound) := by
  induction l with
  | nil => rfl
  | cons s l ih =>
    rw [Falling, pairwise_cons] at h
    rw [findIdx?_cons]
    by_cases hs : precedes s bound = true
    · have hall : l.filter (precedes · bound) = l := by
        rw [filter_eq_self]
        exact fun t ht => precedes_trans (h.1 t ht) hs
      rw [if_pos hs, filter_cons_of_pos (p := (precedes · bound)) hs, hall]
      rfl
    rw [if_neg hs, filter_cons_of_neg (p := (precedes · bound)) hs, ← ih h.2]
    cases l.findIdx? (precedes · bound) with
    | none => rfl
    | some i => rfl

/-- What is below the last string of a front part is what comes after that part. -/
theorem filter_of_getLast (h : Falling l) {k : ℕ} (hl : (l.take k).getLast? = some s) :
    l.filter (precedes · s) = l.drop k ∧ ∀ t ∈ l.take k, precedes t s = false := by
  have hfront : ∀ t ∈ l.take k, precedes t s = false := by
    intro t ht
    obtain ⟨front, hfront⟩ := getLast?_eq_some_iff.mp hl
    have hfal : Falling (l.take k) := h.sublist (take_sublist _ _)
    rw [hfront, Falling, pairwise_append] at hfal
    rw [hfront, mem_append, mem_singleton] at ht
    rcases ht with ht | rfl
    · exact precedes_asymm (hfal.2.2 t ht s (mem_singleton_self s))
    · exact precedes_irrefl t
  refine ⟨?_, hfront⟩
  have hb : ∀ t ∈ l.drop k, precedes t s = true := by
    intro t ht
    have hfal := h
    rw [← take_append_drop k l, Falling, pairwise_append] at hfal
    exact hfal.2.2 s (mem_of_getLast? hl) t ht
  have hn : (l.take k).filter (precedes · s) = [] := by
    rw [filter_eq_nil_iff]
    intro t ht
    rw [hfront t ht]
    exact Bool.false_ne_true
  calc l.filter (precedes · s)
      = (l.take k ++ l.drop k).filter (precedes · s) := by rw [take_append_drop]
    _ = l.drop k := by
      rw [filter_append, hn, nil_append, filter_eq_self.mpr hb]

end Order

section Walk

variable {platform P : RecoveryPlatform} {vaultId id : JsString} {listing : ManifestListing}
  {listings : ℕ → ManifestListing} {cursor : Option JsString} {n : ℕ}

theorem listed_falling (listing : ManifestListing) :
    Falling (listRecoveryManifestIds P listing.keys) := by
  have hnd : (listRecoveryManifestIds P listing.keys).Nodup := by
    rw [listRecoveryManifestIds, nodup_reverse, (perm_insertionSort _ _).nodup_iff]
    exact listing.nodup.filter _
  refine ((falling_listRecoveryManifestIds P listing.keys).and hnd).imp ?_
  rintro s t ⟨hle, hne⟩
  exact precedes_iff.mpr ⟨hle, hne.symm⟩

/-- No id is empty. -/
theorem ne_nil_of_listed {keys : List JsString} (h : id ∈ listRecoveryManifestIds P keys) :
    id ≠ [] := by
  rintro rfl
  have hn : createdAtFromRecoveryManifestId P [] = none := rfl
  have hs := (mem_listRecoveryManifestIds.mp h).2
  cases hs

/-- The listed ids that a cursor leaves to be read. -/
def idsBelow (platform : RecoveryPlatform) (listing : ManifestListing) (cursor : Option JsString) :
    List JsString :=
  (listRecoveryManifestIds platform listing.keys).filter fun id => cursor.all (precedes id ·)

theorem falling_idsBelow (P : RecoveryPlatform) (listing : ManifestListing)
    (cursor : Option JsString) : Falling (idsBelow P listing cursor) :=
  (listed_falling listing).sublist filter_sublist

theorem mem_idsBelow : id ∈ idsBelow P listing cursor ↔
    id ∈ listRecoveryManifestIds P listing.keys ∧ cursor.all (precedes id ·) = true :=
  mem_filter

theorem fetchManifestIds_eq (hcursor : cursor ≠ some []) :
    fetchManifestIds P listing cursor =
      (idsBelow P listing cursor).take (pageSize listing.limit) := by
  cases cursor with
  | none =>
    have hall : idsBelow P listing none = listRecoveryManifestIds P listing.keys :=
      filter_eq_self.mpr fun _ _ => rfl
    rw [hall]
    rfl
  | some cursor =>
    cases cursor with
    | nil => exact absurd rfl hcursor
    | cons c cursor => exact congrArg (List.take _) (drop_findIdx (listed_falling listing) _)

/-- A page, its cursor and what is left after it. -/
inductive PageSpec (platform : RecoveryPlatform) (listing : ManifestListing)
    (cursor : Option JsString) (page : ManifestPage) : Prop
  | last (hids : (page.manifests.map (·.manifestId)).Perm (idsBelow platform listing cursor))
      (hlimited : page.limited = false) (hnext : page.nextCursor = none)
  | more (next : JsString) (fetched rest : List JsString)
      (hids : (page.manifests.map (·.manifestId)).Perm fetched)
      (hbelow : idsBelow platform listing cursor = fetched ++ rest)
      (hlimited : page.limited = true) (hnext : page.nextCursor = some next)
      (hne : next ≠ []) (hfetched : fetched ≠ [])
      (hfront : ∀ id ∈ fetched, precedes id next = false)
      (hmem : next ∈ fetched)
      (hrest : (listRecoveryManifestIds platform listing.keys).filter (precedes · next) = rest)

theorem pageSize_pos (limit : ℤ) : 0 < pageSize limit := by
  rw [pageSize]
  omega

/-- Every id that is fetched is in the page, under its own id. -/
theorem perm_manifests {ids : List JsString}
    (h : ∀ id ∈ ids, id ∈ listRecoveryManifestIds P listing.keys) :
    ((sortByCreatedAt P (ids.filterMap fun id =>
      manifestRecord P vaultId id (listing.index id))).map (·.manifestId)).Perm ids := by
  refine ((perm_insertionSort _ _).map _).trans (.of_eq ?_)
  induction ids with
  | nil => rfl
  | cons id ids ih =>
    have hr : ∃ record, manifestRecord P vaultId id (listing.index id) = some record ∧
        record.manifestId = id := by
      have hacc := (mem_listRecoveryManifestIds.mp (h id mem_cons_self)).2
      obtain ⟨createdAt, hc⟩ := isSome_iff_exists.mp hacc
      rw [manifestRecord]
      cases hst : (listing.index id).filter (isRecoveryManifestIndexOf vaultId id) with
      | some record =>
        have hv := (filter_eq_some_iff.mp hst).2
        simp only [isRecoveryManifestIndexOf, decide_eq_true_eq] at hv
        exact ⟨record, rfl, hv.2.2.2⟩
      | none =>
        rw [none_or, synthesizeRecoveryManifestIndex, hc]
        exact ⟨_, rfl, rfl⟩
    obtain ⟨record, hr, hid⟩ := hr
    rw [filterMap_cons, hr, map_cons, hid, ih fun other hmem => h other (mem_cons_of_mem _ hmem)]

theorem pageSpec (P : RecoveryPlatform) (vaultId : JsString) (listing : ManifestListing)
    (hcursor : cursor ≠ some []) : PageSpec P listing cursor
    (listRecoveryManifestIndexes P vaultId listing cursor) := by
  have hfal := falling_idsBelow P listing cursor
  have hlis : ∀ id ∈ (idsBelow P listing cursor).take (pageSize listing.limit),
      id ∈ listRecoveryManifestIds P listing.keys :=
    fun id hmem => (mem_idsBelow.mp (mem_of_mem_take hmem)).1
  have hperm : ((listRecoveryManifestIndexes P vaultId listing cursor).manifests.map
      (·.manifestId)).Perm ((idsBelow P listing cursor).take (pageSize listing.limit)) := by
    rw [listRecoveryManifestIndexes, fetchManifestIds_eq hcursor]
    exact perm_manifests hlis
  -- without a further id below the last one the page has all that was left
  have hend (hmore : hasMore P listing cursor = false)
      (hn : (idsBelow P listing cursor).drop (pageSize listing.limit) = []) :
      PageSpec P listing cursor (listRecoveryManifestIndexes P vaultId listing cursor) := by
    have hall := take_append_drop (pageSize listing.limit) (idsBelow P listing cursor)
    rw [hn, append_nil] at hall
    rw [hall] at hperm
    exact .last hperm hmore (if_neg (Bool.eq_false_iff.mp hmore))
  cases hl : ((idsBelow P listing cursor).take (pageSize listing.limit)).getLast? with
  | none =>
    have hf : finalManifestId P listing cursor = none := by
      rw [finalManifestId, fetchManifestIds_eq hcursor, hl]
      rfl
    rw [getLast?_eq_none_iff, take_eq_nil_iff] at hl
    refine hend (by rw [hasMore, hf]; rfl) ?_
    rw [hl.resolve_left (pageSize_pos _).ne', drop_nil]
  | some next =>
    have hmem := mem_of_getLast? hl
    have hne := ne_nil_of_listed (hlis next hmem)
    have hf : finalManifestId P listing cursor = some next := by
      rw [finalManifestId, fetchManifestIds_eq hcursor, hl]
      simp [hne]
    obtain ⟨hbk, hfront⟩ := filter_of_getLast hfal hl
    have hr : (listRecoveryManifestIds P listing.keys).filter (precedes · next) =
        (idsBelow P listing cursor).drop (pageSize listing.limit) := by
      rw [← hbk, idsBelow, List.filter_filter]
      refine filter_congr fun id _ => ?_
      cases hid : precedes id next with
      | false => rfl
      | true =>
        cases hc : cursor with
        | none => rfl
        | some bound =>
          have hb : precedes next bound = true := by
            have := (mem_idsBelow.mp (mem_of_mem_take hmem)).2
            rwa [hc] at this
          rw [all_some, precedes_trans hid hb]
          rfl
    cases hmore : hasMore P listing cursor with
    | true =>
      exact .more next _ _ hperm (take_append_drop _ _).symm hmore
        ((if_pos hmore).trans hf) hne (ne_nil_of_mem hmem) hfront hmem hr
    | false =>
      refine hend hmore ?_
      rw [hasMore, hf, any_some] at hmore
      rw [← hr, filter_eq_nil_iff]
      intro id hid hprec
      rw [any_eq_true.mpr ⟨id, hid, hprec⟩] at hmore
      cases hmore

theorem cursorAt_succ (hcursor : cursorAt P vaultId listings n = some cursor) :
    cursorAt P vaultId listings (n + 1) =
      (listRecoveryManifestIndexes P vaultId (listings n) cursor).nextCursor.map some := by
  rw [cursorAt, hcursor]
  rfl

theorem pageAt_eq (hcursor : cursorAt P vaultId listings n = some cursor) :
    pageAt P vaultId listings n =
      some (listRecoveryManifestIndexes P vaultId (listings n) cursor) := by
  rw [pageAt, hcursor]
  rfl

theorem visited_succ : visited P vaultId listings (n + 1) =
    visited P vaultId listings n ++
      ((pageAt P vaultId listings n).elim [] (·.manifests)).map (·.manifestId) := by
  rw [visited, range_succ, flatMap_append, flatMap_singleton]
  rfl

/-- A reader that has a cursor has one that is not empty, and got only ids that are not below it. -/
structure WalkSound (platform : RecoveryPlatform) (vaultId : JsString)
    (listings : ℕ → ManifestListing) (n : ℕ) : Prop where
  nodup : (visited platform vaultId listings n).Nodup
  first : cursorAt platform vaultId listings n = some none →
    visited platform vaultId listings n = []
  bound : ∀ cursor, cursorAt platform vaultId listings n = some (some cursor) →
    cursor ≠ [] ∧ ∀ id ∈ visited platform vaultId listings n, precedes id cursor = false

section

variable (h : WalkSound P vaultId listings n)
  (hcursor : cursorAt P vaultId listings n = some cursor)
include h hcursor

theorem WalkSound.cursor_ne : cursor ≠ some [] := by
  rintro rfl
  exact (h.bound [] hcursor).1 rfl

/-- What a page adds was not there before. -/
theorem WalkSound.fresh (hmem : id ∈ idsBelow P (listings n) cursor) :
    id ∉ visited P vaultId listings n := by
  cases cursor with
  | none =>
    rw [h.first hcursor]
    exact not_mem_nil
  | some cursor =>
    intro hvis
    have hbelow : precedes id cursor = true := (mem_idsBelow.mp hmem).2
    rw [(h.bound cursor hcursor).2 id hvis] at hbelow
    cases hbelow

theorem WalkSound.nodup_page {ids fetched : List JsString} (hids : ids.Perm fetched)
    (hnd : fetched.Nodup) (hsub : ∀ id ∈ fetched, id ∈ idsBelow P (listings n) cursor) :
    (visited P vaultId listings n ++ ids).Nodup := by
  rw [nodup_append]
  refine ⟨h.nodup, hids.nodup_iff.mpr hnd, ?_⟩
  rintro id hvis other hmem rfl
  exact h.fresh hcursor (hsub id (hids.mem_iff.mp hmem)) hvis

end

theorem walkSound (n : ℕ) : WalkSound P vaultId listings n := by
  induction n with
  | zero => exact ⟨nodup_nil, fun _ => rfl, nofun⟩
  | succ n ih =>
    cases hcursor : cursorAt P vaultId listings n with
    | none =>
      have hn : cursorAt P vaultId listings (n + 1) = none := by
        rw [cursorAt, hcursor]
        rfl
      have hpage : pageAt P vaultId listings n = none := by
        rw [pageAt, hcursor]
        rfl
      refine ⟨?_, fun h => ?_, fun cursor h => ?_⟩
      · rw [visited_succ, hpage]
        simpa using ih.nodup
      · rw [hn] at h
        cases h
      rw [hn] at h
      cases h
    | some cursor =>
      have hnx := cursorAt_succ hcursor
      have hvis : visited P vaultId listings (n + 1) = _ := visited_succ
      rw [pageAt_eq hcursor] at hvis
      cases pageSpec P vaultId (listings n) (ih.cursor_ne hcursor) with
      | last hids hlim hn =>
        rw [hn] at hnx
        refine ⟨?_, fun h => ?_, fun cursor h => ?_⟩
        · rw [hvis]
          exact ih.nodup_page hcursor hids (falling_idsBelow P _ _).nodup fun id hmem => hmem
        · rw [hnx] at h
          cases h
        rw [hnx] at h
        cases h
      | more next fetched rest hids hbelow hlim hs hne hfet hfront hmem hr =>
        rw [hs] at hnx
        have hsub : ∀ id ∈ fetched, id ∈ idsBelow P (listings n) cursor :=
          fun id hmem => hbelow ▸ mem_append_left rest hmem
        refine ⟨?_, fun h => ?_, fun bound h => ?_⟩
        · rw [hvis]
          have hnd := (falling_idsBelow P (listings n) cursor).nodup
          rw [hbelow] at hnd
          exact ih.nodup_page hcursor hids (hnd.sublist (sublist_append_left _ _)) hsub
        · rw [hnx] at h
          cases h
        rw [hnx] at h
        cases h
        refine ⟨hne, fun id hid => ?_⟩
        rw [hvis, mem_append] at hid
        rcases hid with hid | hid
        · -- what is below the new cursor was below the old one
          cases cursor with
          | none =>
            rw [ih.first hcursor] at hid
            cases hid
          | some old =>
            have hold : precedes next old = true := (mem_idsBelow.mp (hsub next hmem)).2
            by_contra hprec
            have hid' := precedes_trans (Bool.eq_true_of_not_eq_false hprec) hold
            rw [(ih.bound old hcursor).2 id hid] at hid'
            cases hid'
        · exact hfront id (hids.mem_iff.mp hid)

theorem count_le_one (n : ℕ) : (visited P vaultId listings n).count id ≤ 1 :=
  nodup_iff_count_le_one.mp (walkSound n).nodup id

variable {page : ManifestPage}

/-- A page has a next one when it is limited. -/
theorem limited_iff (hpage : pageAt P vaultId listings n = some page) :
    page.limited = true ↔ (pageAt P vaultId listings (n + 1)).isSome = true := by
  obtain ⟨cursor, hcursor, rfl⟩ := map_eq_some_iff.mp hpage
  rw [pageAt, isSome_map, cursorAt_succ hcursor, isSome_map]
  cases pageSpec P vaultId (listings n) ((walkSound n).cursor_ne hcursor) with
  | last hids hlim hn | more next fetched rest hids hbelow hlim hn =>
    rw [hlim, hn]; rfl

theorem mem_keys_of_page (hpage : pageAt P vaultId listings n = some page)
    (hmem : id ∈ page.manifests.map (·.manifestId)) : id ∈ (listings n).keys := by
  obtain ⟨cursor, hcursor, rfl⟩ := map_eq_some_iff.mp hpage
  have hbelow : id ∈ idsBelow P (listings n) cursor := by
    cases pageSpec P vaultId (listings n) ((walkSound n).cursor_ne hcursor) with
    | last hids => exact hids.mem_iff.mp hmem
    | more next fetched rest hids hbelow =>
      rw [hbelow]
      exact mem_append_left rest (hids.mem_iff.mp hmem)
  exact (mem_listRecoveryManifestIds.mp (mem_idsBelow.mp hbelow).1).1

theorem mem_visited {n : ℕ} (h : id ∈ visited P vaultId listings n) :
    ∃ m < n, id ∈ (listings m).keys := by
  obtain ⟨m, hm, hid⟩ := mem_flatMap.mp h
  refine ⟨m, mem_range.mp hm, ?_⟩
  cases hpage : pageAt P vaultId listings m with rw [hpage] at hid
  | none => cases hid
  | some page => exact mem_keys_of_page hpage hid

theorem cursorAt_le {m : ℕ} (h : (cursorAt P vaultId listings n).isSome = true)
    (hle : m ≤ n) : (cursorAt P vaultId listings m).isSome = true := by
  induction n with
  | zero => rwa [Nat.le_zero.mp hle]
  | succ n ih =>
    rcases Nat.lt_or_eq_of_le hle with hlt | rfl
    · refine ih ?_ (Nat.le_of_lt_succ hlt)
      exact isSome_of_isSome_bind h
    · exact h

/-- A manifest that stays was visited or is still below the cursor. -/
theorem visited_or_below (hacc : (createdAtFromRecoveryManifestId P id).isSome = true)
    (hk : ∀ m ≤ n, id ∈ (listings m).keys)
    (hcursor : cursorAt P vaultId listings n = some cursor) :
    id ∈ visited P vaultId listings n ∨ id ∈ idsBelow P (listings n) cursor := by
  induction n generalizing cursor with
  | zero =>
    cases hcursor
    exact .inr (mem_idsBelow.mpr
      ⟨mem_listRecoveryManifestIds.mpr ⟨hk 0 (Nat.le_refl 0), hacc⟩, rfl⟩)
  | succ n ih =>
    have hb := cursorAt_le (hcursor ▸ isSome_some) (Nat.le_succ n)
    obtain ⟨old, hold⟩ := isSome_iff_exists.mp hb
    have hnx := cursorAt_succ hold
    rw [hcursor] at hnx
    have hvis : visited P vaultId listings (n + 1) = _ := visited_succ
    rw [pageAt_eq hold] at hvis
    cases pageSpec P vaultId (listings n) ((walkSound n).cursor_ne hold) with
    | last hids hlim hn =>
      rw [hn] at hnx
      cases hnx
    | more next fetched rest hids hbelow hlim hs hne hfet hfront hmem hr =>
      rw [hs] at hnx
      cases hnx
      rw [hvis, mem_append]
      rcases ih (fun m hm => hk m (Nat.le_succ_of_le hm)) hold with hid | hid
      · exact .inl (.inl hid)
      rw [hbelow, mem_append] at hid
      rcases hid with hid | hid
      · exact .inl (.inr (hids.mem_iff.mpr hid))
      rw [← hr, mem_filter] at hid
      exact .inr (mem_idsBelow.mpr ⟨mem_listRecoveryManifestIds.mpr
        ⟨hk (n + 1) (Nat.le_refl _), hacc⟩, hid.2⟩)

theorem count_eq_one (hpage : pageAt P vaultId listings n = some page)
    (hn : page.nextCursor = none) (hk : ∀ m ≤ n, id ∈ (listings m).keys)
    (hacc : (createdAtFromRecoveryManifestId P id).isSome = true) :
    (visited P vaultId listings (n + 1)).count id = 1 := by
  refine count_eq_one_of_mem (walkSound (n + 1)).nodup ?_
  obtain ⟨cursor, hcursor, rfl⟩ := map_eq_some_iff.mp hpage
  rw [visited_succ, hpage, mem_append]
  refine (visited_or_below hacc hk hcursor).imp (fun hid => hid) fun hid => ?_
  cases pageSpec P vaultId (listings n) ((walkSound n).cursor_ne hcursor) with
  | last hids => exact hids.mem_iff.mpr hid
  | more next fetched rest hids hbelow hlim hs =>
    rw [hn] at hs
    cases hs

/-- What is left to be read shrinks from page to page. -/
theorem ends (h : OnlyNewerAdded P vaultId listings)
    (hcursor : cursorAt P vaultId listings n = some cursor) :
    ∃ m page, pageAt P vaultId listings m = some page ∧ page.nextCursor = none := by
  induction hlen : (idsBelow P (listings n) cursor).length using Nat.strong_induction_on
    generalizing n cursor with
  | _ length ih =>
    have hnx := cursorAt_succ hcursor
    have hpage := pageAt_eq hcursor
    cases pageSpec P vaultId (listings n) ((walkSound n).cursor_ne hcursor) with
    | last hids hlim hn => exact ⟨n, _, hpage, hn⟩
    | more next fetched rest hids hbelow hlim hs hne hfet hfront hmem hr =>
      have hch := h n _ next hpage hs
      rw [hs] at hnx
      have hsub : idsBelow P (listings (n + 1)) (some next) ⊆ rest := by
        intro id hid
        obtain ⟨hlis, hprec⟩ := mem_idsBelow.mp hid
        obtain ⟨hkey, hacc⟩ := mem_listRecoveryManifestIds.mp hlis
        rw [← hr, mem_filter]
        refine ⟨mem_listRecoveryManifestIds.mpr ⟨?_, hacc⟩, hprec⟩
        refine (hch id hkey).resolve_right fun hnewer => ?_
        rw [all_some, precedes_asymm hnewer] at hprec
        cases hprec
      have hle := ((falling_idsBelow P _ _).nodup.subperm hsub).length_le
      have hpos := length_pos_of_ne_nil hfet
      rw [hbelow, length_append] at hlen
      exact ih _ (by omega) hnx rfl

theorem paged_once (platform : RecoveryPlatform) (vaultId : JsString)
    (listings : ℕ → ManifestListing) (h : OnlyNewerAdded platform vaultId listings) :
    PagedOnce platform vaultId listings where
  ends := ends h (n := 0) rfl
  once := fun n _ => count_le_one n
  all := fun _ _ _ hpage hn hk hacc => count_eq_one hpage hn hk hacc
  stored := fun _ _ hmem => mem_visited hmem
  limited := fun _ _ hpage => limited_iff hpage

/-- Two manifests, on pages of one. -/
theorem paged_once_single : PagedOnce asciiPlatform (js "v") fun _ =>
    ⟨[olderManifestId, newerManifestId], by decide, fun _ => none, 1⟩ :=
  paged_once _ _ _ fun _ _ _ _ _ _ hid => .inl hid

end Walk

end Kaos.Server
