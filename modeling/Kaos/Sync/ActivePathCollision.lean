import Mathlib
import Kaos.Sync.PathIndexFreshness
import Kaos.Yjs.MapReplica

/-! Replicas that each settle a competition for a path, and what their merge leaves of it. -/
namespace Kaos.Sync

open Kaos.Lib Kaos.Paths Kaos.Yjs VaultSync List

section Ranking

/-- What the time of an entry, a text with something in it and the text of the disk count for. -/
def weight (doc : VaultDoc) (disk : Option JsString) (fileId : JsString) : ℚ :=
  let content := (doc.idToText.get? fileId).map YText.content
  max (-1) (entryMtime doc.metaMap fileId + (if content.getD [] = [] then 0 else 100000000000) +
    if disk.isSome ∧ content = disk then 1000000000000 else 0)

/-- One entry weighs more than another, or as much and has the lesser id. -/
def Outranks (doc : VaultDoc) (disk : Option JsString) (fileId otherId : JsString) : Prop :=
  weight doc disk otherId < weight doc disk fileId ∨
    weight doc disk otherId = weight doc disk fileId ∧ JsString.le fileId otherId = true

variable {doc : VaultDoc} {disk : Option JsString} {sync : VaultSync} {fileId otherId : JsString}
  {fileIds : List JsString}

theorem weight_eq (sync : VaultSync) (disk : Option JsString) (fileId : JsString) :
    weight sync.doc disk fileId = max (-1) (sync.collisionScore disk fileId) := by
  unfold weight collisionScore
  dsimp only
  rw [← entryMtime]
  generalize (sync.doc.idToText.get? fileId).map YText.content = content
  by_cases he : content.getD [] = []
  · have hshort : ¬ (content.getD []).length > 0 := by
      rw [he]
      exact Nat.lt_irrefl 0
    rw [if_pos he, if_neg hshort, add_zero]
    split
    · rfl
    · rw [add_zero]
  rw [if_neg he, if_pos (length_pos_iff.mpr he)]
  split
  · rfl
  · rw [add_zero]

theorem Outranks.not_both (h : Outranks doc disk fileId otherId)
    (h' : Outranks doc disk otherId fileId) : fileId = otherId := by
  rcases h with h | ⟨heq, hle⟩
  · rcases h' with h' | ⟨heq', -⟩
    · exact absurd h (not_lt_of_gt h')
    · exact absurd heq' (ne_of_gt h)
  rcases h' with h' | ⟨-, hle'⟩
  · exact absurd heq (ne_of_gt h')
  · exact JsString.le_antisymm hle hle'

/-- From a best entry that comes before all others, the loop comes to one that outranks them. -/
theorem foldl_best (sync : VaultSync) (disk : Option JsString) (fileIds : List JsString)
    (best : JsString) (hs : (best :: fileIds).Pairwise fun a b => JsString.le a b = true) :
    ∃ winner ∈ best :: fileIds,
      fileIds.foldl (fun best fileId => if best.2 < sync.collisionScore disk fileId then
          (fileId, sync.collisionScore disk fileId) else best) (best, weight sync.doc disk best) =
        (winner, weight sync.doc disk winner) ∧
      ∀ other ∈ best :: fileIds, other ≠ winner → Outranks sync.doc disk winner other := by
  induction fileIds generalizing best with
  | nil =>
    refine ⟨best, mem_singleton_self _, rfl, ?_⟩
    intro other hmem hne
    exact absurd (mem_singleton.mp hmem) hne
  | cons fileId fileIds ih =>
    rw [pairwise_cons, pairwise_cons] at hs
    obtain ⟨hbest, hf, hr⟩ := hs
    rw [foldl_cons]
    by_cases hbeats : weight sync.doc disk best < sync.collisionScore disk fileId
    · have hscore : sync.collisionScore disk fileId = weight sync.doc disk fileId := by
        have hlow : -1 ≤ weight sync.doc disk best := le_max_left _ _
        rw [weight_eq, max_eq_right (by linarith)]
      rw [if_pos hbeats, hscore]
      rw [hscore] at hbeats
      obtain ⟨winner, hmem, hfold, hout⟩ := ih fileId (pairwise_cons.mpr ⟨hf, hr⟩)
      refine ⟨winner, mem_cons_of_mem _ hmem, hfold, ?_⟩
      intro other ho hne
      rcases mem_cons.mp ho with rfl | ho
      · left
        by_cases hsame : fileId = winner
        · rwa [← hsame]
        rcases hout fileId mem_cons_self hsame with hlt | ⟨heq, -⟩
        · exact hbeats.trans hlt
        · rwa [← heq]
      · exact hout other ho hne
    have hle : weight sync.doc disk fileId ≤ weight sync.doc disk best := by
      rw [weight_eq sync disk fileId]
      exact max_le (le_max_left _ _) (not_lt.mp hbeats)
    rw [if_neg hbeats]
    obtain ⟨winner, hmem, hfold, hout⟩ := ih best
      (pairwise_cons.mpr ⟨fun other h => hbest other (mem_cons_of_mem _ h), hr⟩)
    refine ⟨winner, ?_, hfold, ?_⟩
    · rcases mem_cons.mp hmem with rfl | hmem
      · exact mem_cons_self
      · exact mem_cons_of_mem _ (mem_cons_of_mem _ hmem)
    intro other ho hne
    rcases mem_cons.mp ho with rfl | ho
    · exact hout _ mem_cons_self hne
    rcases mem_cons.mp ho with rfl | ho
    · -- it weighs no more than the best so far, and comes after it
      have ha : JsString.le best other = true := hbest _ mem_cons_self
      by_cases hsame : best = winner
      · rw [← hsame]
        rcases lt_or_eq_of_le hle with hlt | heq
        · exact .inl hlt
        · exact .inr ⟨heq, ha⟩
      rcases hout best mem_cons_self hsame with hlt | ⟨heq, hb⟩
      · exact .inl (lt_of_le_of_lt hle hlt)
      rw [heq] at hle
      rcases lt_or_eq_of_le hle with hlt | heq'
      · exact .inl hlt
      · exact .inr ⟨heq', JsString.le_trans hb ha⟩
    · exact hout other (mem_cons_of_mem _ ho) hne

/-- The best of some files is the one that outranks the others. -/
theorem bestOf_spec (sync : VaultSync) (disk : Option JsString)
    (hs : fileIds.Pairwise fun a b => JsString.le a b = true) (hne : fileIds ≠ []) :
    bestOf (sync.collisionScore disk) fileIds ∈ fileIds ∧
      ∀ other ∈ fileIds, other ≠ bestOf (sync.collisionScore disk) fileIds →
        Outranks sync.doc disk (bestOf (sync.collisionScore disk) fileIds) other := by
  cases fileIds with
  | nil => exact absurd rfl hne
  | cons first rest =>
    have hf : (if (-1 : ℚ) < sync.collisionScore disk first then
        (first, sync.collisionScore disk first) else (first, -1)) =
          (first, weight sync.doc disk first) := by
      rw [weight_eq]
      split
      · next hlt => rw [max_eq_right (le_of_lt hlt)]
      · next hle => rw [max_eq_left (not_lt.mp hle)]
    obtain ⟨winner, hmem, hfold, hout⟩ := foldl_best sync disk rest first hs
    have hbest : bestOf (sync.collisionScore disk) (first :: rest) = winner := by
      unfold bestOf
      rw [foldl_cons, headD_cons, hf, hfold]
    rw [hbest]
    exact ⟨hmem, hout⟩

end Ranking

section Resolution

variable {paths : NormalizePath} {sync : VaultSync} {disk : Option JsString}
  {path fileId : JsString} {value : MetaValue} {text : YText}

/-- The file outranks all others that are active at the path. -/
def Wins (paths : NormalizePath) (doc : VaultDoc) (disk : Option JsString) (path fileId : JsString) :
    Prop :=
  ∀ other ∈ activeFileIds paths.normalize doc.metaMap path, other ≠ fileId →
    Outranks doc disk fileId other

/-- One client that settles the competition, with what its disk has. -/
structure Replica where
  sync : VaultSync
  disk : Option JsString

/-- The document of a replica once it has settled the competition. -/
def Replica.settled (paths : NormalizePath) (path : JsString) (replica : Replica) : VaultDoc :=
  (replica.sync.resolveActivePathCollision paths.normalize path replica.disk).2.doc

variable {fileIds : List JsString}

theorem settled_of_collision (hpath : paths.normalize path = path)
    (hcoll : (sync.ensurePathIndexes paths.normalize).indexes.activePathCollisions.get? path =
      some fileIds) (hlong : 1 < fileIds.length) : Replica.settled paths path ⟨sync, disk⟩ =
      ((fileIds.filter (· ≠ bestOf (sync.collisionScore disk) fileIds)).foldl
        (fun txn fileId => (txn.deleteText fileId).putMeta fileId none)
        ({ doc := sync.doc } : Txn)).doc := by
  have hscore : (sync.ensurePathIndexes paths.normalize).collisionScore disk =
      sync.collisionScore disk := by
    unfold collisionScore
    rw [doc_ensurePathIndexes]
  unfold Replica.settled resolveActivePathCollision
  dsimp only
  rw [hpath, hcoll]
  dsimp only
  rw [if_neg (Nat.not_le_of_lt hlong), doc_ensurePathIndexes, hscore,
    ← @doc_ensurePathIndexes paths.normalize sync]
  rfl

theorem settled_of_none (hpath : paths.normalize path = path)
    (hcoll : (sync.ensurePathIndexes paths.normalize).indexes.activePathCollisions.get? path =
      none) : Replica.settled paths path ⟨sync, disk⟩ = sync.doc := by
  unfold Replica.settled resolveActivePathCollision
  dsimp only
  rw [hpath, hcoll]
  exact doc_ensurePathIndexes

/-- A file that is alone at the path wins. -/
theorem wins_of_alone (hshort : ¬ 1 < (activeFileIds paths.normalize sync.doc.metaMap path).length)
    (hmem : fileId ∈ activeFileIds paths.normalize sync.doc.metaMap path) :
    Wins paths sync.doc disk path fileId := by
  intro other ho hne
  cases hact : activeFileIds paths.normalize sync.doc.metaMap path with
  | nil =>
    rw [hact] at hmem
    cases hmem
  | cons first rest =>
    rw [hact, length_cons] at hshort
    have hnil : rest = [] := length_eq_zero_iff.mp (by omega)
    rw [hact, hnil, mem_singleton] at hmem ho
    exact absurd (ho.trans hmem.symm) hne

/-- Of the files in the collisions those are deleted that do not win. -/
theorem loser_iff
    (hfil : fileIds = (activeFileIds paths.normalize sync.doc.metaMap path).mergeSort JsString.le)
    (hne : fileIds ≠ []) : fileId ∈ fileIds.filter (· ≠ bestOf (sync.collisionScore disk) fileIds) ↔
      fileId ∈ activeFileIds paths.normalize sync.doc.metaMap path ∧
        ¬ Wins paths sync.doc disk path fileId := by
  have hmem : ∀ other, other ∈ fileIds ↔
      other ∈ activeFileIds paths.normalize sync.doc.metaMap path := by
    intro other
    rw [hfil, mem_mergeSort]
  have hs : fileIds.Pairwise fun a b => JsString.le a b = true := by
    rw [hfil]
    refine @List.pairwise_mergeSort _ JsString.le (fun _ _ _ => JsString.le_trans) ?_ _
    intro a b
    rw [Bool.or_eq_true]
    exact JsString.le_total a b
  obtain ⟨hbest, hout⟩ := bestOf_spec sync disk hs hne
  generalize bestOf (sync.collisionScore disk) fileIds = best at hbest hout
  rw [mem_filter, decide_eq_true_eq, hmem]
  refine and_congr_right fun hact => ?_
  constructor
  · intro ho hwins
    have hlost := hout fileId ((hmem fileId).mpr hact) ho
    exact ho ((hwins best ((hmem best).mp hbest) (Ne.symm ho)).not_both hlost)
  rintro hnot rfl
  exact hnot fun other ho hne => hout other ((hmem other).mpr ho) hne

/-- The files that lose are deleted, and no others. -/
theorem settled_spec (hfr : CacheFresh paths.normalize sync) (hpath : paths.normalize path = path)
    (fileId : JsString) :
    (fileId ∈ activeFileIds paths.normalize sync.doc.metaMap path →
      ¬ Wins paths sync.doc disk path fileId →
        (Replica.settled paths path ⟨sync, disk⟩).metaMap.get? fileId = none ∧
          (Replica.settled paths path ⟨sync, disk⟩).idToText.get? fileId = none) ∧
    ((fileId ∈ activeFileIds paths.normalize sync.doc.metaMap path →
      Wins paths sync.doc disk path fileId) →
        (Replica.settled paths path ⟨sync, disk⟩).metaMap.get? fileId =
            sync.doc.metaMap.get? fileId ∧
          (Replica.settled paths path ⟨sync, disk⟩).idToText.get? fileId =
            sync.doc.idToText.get? fileId) := by
  have hix := hfr.indexed
  cases hcoll : (sync.ensurePathIndexes paths.normalize).indexes.activePathCollisions.get?
      path with
  | none =>
    have hshort : ¬ 1 < (activeFileIds paths.normalize sync.doc.metaMap path).length := by
      intro hlong
      rw [(hix.collided _ _).mpr ⟨hlong, rfl⟩] at hcoll
      cases hcoll
    rw [settled_of_none hpath hcoll]
    exact ⟨fun hmem hnot => absurd (wins_of_alone hshort hmem) hnot, fun _ => ⟨rfl, rfl⟩⟩
  | some fileIds =>
    obtain ⟨hlong, hfil⟩ := (hix.collided _ _).mp hcoll
    rw [← @List.length_mergeSort _ JsString.le, ← hfil] at hlong
    have hne : fileIds ≠ [] := ne_nil_of_length_pos (by omega)
    have hloser := @loser_iff paths sync disk path fileId fileIds hfil hne
    rw [settled_of_collision hpath hcoll hlong]
    obtain ⟨-, -, hf⟩ := foldl_deleteFile
      (fileIds.filter (· ≠ bestOf (sync.collisionScore disk) fileIds))
      ({ doc := sync.doc } : Txn)
    obtain ⟨hm, ht⟩ := hf fileId
    constructor
    · intro hact hnot
      rw [if_pos (hloser.mpr ⟨hact, hnot⟩)] at hm ht
      exact ⟨hm, ht⟩
    intro hwins
    have hk : fileId ∉ fileIds.filter (· ≠ bestOf (sync.collisionScore disk) fileIds) :=
      fun h => (hloser.mp h).2 (hwins (hloser.mp h).1)
    rw [if_neg hk] at hm ht
    exact ⟨hm, ht⟩

end Resolution

section Collision

variable (paths : NormalizePath) (path : JsString) (replicas : List Replica)

/-- What the replicas together make of the metadata. -/
def mergedMeta : MapReplica JsString MetaValue :=
  .mergeAll (replicas.map fun replica =>
    .ofDeletion replica.sync.doc.metaMap (replica.settled paths path).metaMap)

/-- What they make of the texts. -/
def mergedTexts : MapReplica JsString YText :=
  .mergeAll (replicas.map fun replica =>
    .ofDeletion replica.sync.doc.idToText (replica.settled paths path).idToText)

/-- Replicas with current caches that have heard of parts of one document. -/
structure SameDocument : Prop where
  fresh : ∀ replica ∈ replicas, CacheFresh paths.normalize replica.sync
  metadata : ∀ a ∈ replicas, ∀ b ∈ replicas, ∀ fileId v w,
    a.sync.doc.metaMap.get? fileId = some v → b.sync.doc.metaMap.get? fileId = some w → v = w
  texts : ∀ a ∈ replicas, ∀ b ∈ replicas, ∀ fileId v w,
    a.sync.doc.idToText.get? fileId = some v → b.sync.doc.idToText.get? fileId = some w → v = w

/-- One of the files at the path is left with its text, and every replica keeps a file with the text
of its disk if there is one. -/
structure CollisionSafe : Prop where
  survives : ∃ fileId value text, (mergedMeta paths path replicas).live fileId = some value ∧
    pathState paths.normalize value = some (path, false) ∧
      (mergedTexts paths path replicas).live fileId = some text
  disk : ∀ replica ∈ replicas, ∀ content, replica.disk = some content →
    (∃ fileId ∈ activeFileIds paths.normalize replica.sync.doc.metaMap path,
      (replica.sync.doc.idToText.get? fileId).map YText.content = some content) →
    ∀ fileId ∈ activeFileIds paths.normalize (replica.settled paths path).metaMap path,
      ((replica.settled paths path).idToText.get? fileId).map YText.content = some content

/-- Some file with a text outranks the others on every replica that has it at the path, and on every
replica the files with the text of the disk outrank those with another. -/
structure OneWinner : Prop where
  common : ∃ fileId, (∃ replica ∈ replicas,
      fileId ∈ activeFileIds paths.normalize replica.sync.doc.metaMap path) ∧
    (∃ replica ∈ replicas, replica.sync.doc.idToText.get? fileId ≠ none) ∧
    ∀ replica ∈ replicas, fileId ∈ activeFileIds paths.normalize replica.sync.doc.metaMap path →
      Wins paths replica.sync.doc replica.disk path fileId
  disk : ∀ replica ∈ replicas, ∀ content, replica.disk = some content →
    (∃ fileId ∈ activeFileIds paths.normalize replica.sync.doc.metaMap path,
      (replica.sync.doc.idToText.get? fileId).map YText.content = some content) →
    ∀ fileId ∈ activeFileIds paths.normalize replica.sync.doc.metaMap path,
      (replica.sync.doc.idToText.get? fileId).map YText.content ≠ some content →
        ∃ other ∈ activeFileIds paths.normalize replica.sync.doc.metaMap path, other ≠ fileId ∧
          ¬ Outranks replica.sync.doc replica.disk fileId other

end Collision

section Merge

variable {paths : NormalizePath} {path : JsString} {replicas : List Replica} {replica : Replica}
  {fileId : JsString} {value : MetaValue} {text : YText}

theorem settled_cases (hfr : CacheFresh paths.normalize replica.sync)
    (hpath : paths.normalize path = path) (fileId : JsString) :
    (fileId ∈ activeFileIds paths.normalize replica.sync.doc.metaMap path ∧
      ¬ Wins paths replica.sync.doc replica.disk path fileId ∧
        (replica.settled paths path).metaMap.get? fileId = none ∧
          (replica.settled paths path).idToText.get? fileId = none) ∨
    ((fileId ∈ activeFileIds paths.normalize replica.sync.doc.metaMap path →
      Wins paths replica.sync.doc replica.disk path fileId) ∧
        (replica.settled paths path).metaMap.get? fileId = replica.sync.doc.metaMap.get? fileId ∧
          (replica.settled paths path).idToText.get? fileId =
            replica.sync.doc.idToText.get? fileId) := by
  obtain ⟨hloses, hwins⟩ := @settled_spec paths replica.sync replica.disk path hfr hpath fileId
  by_cases hlost : fileId ∈ activeFileIds paths.normalize replica.sync.doc.metaMap path ∧
      ¬ Wins paths replica.sync.doc replica.disk path fileId
  · exact .inl ⟨hlost.1, hlost.2, hloses hlost.1 hlost.2⟩
  rw [not_and_not_right] at hlost
  exact .inr ⟨hlost, hwins hlost⟩

section

variable (hsame : SameDocument paths replicas) (hpath : paths.normalize path = path)
include hsame hpath

/-- The metadata of a file is left if it wins wherever it competes. -/
theorem live_mergedMeta :
    (mergedMeta paths path replicas).live fileId = some value ↔
      (∃ replica ∈ replicas, replica.sync.doc.metaMap.get? fileId = some value) ∧
        ∀ replica ∈ replicas,
          fileId ∈ activeFileIds paths.normalize replica.sync.doc.metaMap path →
            Wins paths replica.sync.doc replica.disk path fileId := by
  have hcon : MapReplica.Consistent (replicas.map fun replica => MapReplica.ofDeletion
      replica.sync.doc.metaMap (replica.settled paths path).metaMap) := by
    intro a ha b hb
    obtain ⟨a, hmema, rfl⟩ := mem_map.mp ha
    obtain ⟨b, hmemb, rfl⟩ := mem_map.mp hb
    exact hsame.metadata a hmema b hmemb
  rw [mergedMeta, MapReplica.live_mergeAll hcon]
  simp only [mem_map, exists_exists_and_eq_and, forall_exists_index, and_imp,
    forall_apply_eq_imp_iff₂, MapReplica.ofDeletion]
  refine and_congr_right fun _ => forall₂_congr fun replica hmem => ?_
  rcases settled_cases (hsame.fresh replica hmem) hpath fileId with
    ⟨hact, hnot, hm, -⟩ | ⟨hwins, hm, -⟩
  · obtain ⟨value, hget, -⟩ := stateOf_eq_some.mp (mem_activeFileIds.mp hact)
    rw [hm, hget]
    exact ⟨fun h => (by cases h), fun h => absurd (h hact) hnot⟩
  rw [hm]
  refine ⟨fun _ => hwins, fun _ => ?_⟩
  cases replica.sync.doc.metaMap.get? fileId <;> rfl

/-- So is its text. -/
theorem live_mergedTexts (hwins : ∀ replica ∈ replicas,
      fileId ∈ activeFileIds paths.normalize replica.sync.doc.metaMap path →
        Wins paths replica.sync.doc replica.disk path fileId) :
    (mergedTexts paths path replicas).live fileId = some text ↔
      ∃ replica ∈ replicas, replica.sync.doc.idToText.get? fileId = some text := by
  have hcon : MapReplica.Consistent (replicas.map fun replica => MapReplica.ofDeletion
      replica.sync.doc.idToText (replica.settled paths path).idToText) := by
    intro a ha b hb
    obtain ⟨a, hmema, rfl⟩ := mem_map.mp ha
    obtain ⟨b, hmemb, rfl⟩ := mem_map.mp hb
    exact hsame.texts a hmema b hmemb
  rw [mergedTexts, MapReplica.live_mergeAll hcon]
  simp only [mem_map, exists_exists_and_eq_and, forall_exists_index, and_imp,
    forall_apply_eq_imp_iff₂, MapReplica.ofDeletion]
  rw [and_iff_left]
  intro replica hmem
  rcases settled_cases (hsame.fresh replica hmem) hpath fileId with
    ⟨hact, hnot, -⟩ | ⟨-, -, ht⟩
  · exact absurd (hwins replica hmem hact) hnot
  rw [ht]
  cases replica.sync.doc.idToText.get? fileId <;> rfl

theorem survives_iff :
    (∃ fileId value text, (mergedMeta paths path replicas).live fileId = some value ∧
      pathState paths.normalize value = some (path, false) ∧
        (mergedTexts paths path replicas).live fileId = some text) ↔
    ∃ fileId, (∃ replica ∈ replicas,
        fileId ∈ activeFileIds paths.normalize replica.sync.doc.metaMap path) ∧
      (∃ replica ∈ replicas, replica.sync.doc.idToText.get? fileId ≠ none) ∧
      ∀ replica ∈ replicas,
        fileId ∈ activeFileIds paths.normalize replica.sync.doc.metaMap path →
          Wins paths replica.sync.doc replica.disk path fileId := by
  refine exists_congr fun fileId => ?_
  constructor
  · rintro ⟨value, text, hm, hst, ht⟩
    obtain ⟨⟨replica, hmem, hget⟩, hwins⟩ := (live_mergedMeta hsame hpath).mp hm
    obtain ⟨other, ho, hgetText⟩ := (live_mergedTexts hsame hpath hwins).mp ht
    refine ⟨⟨replica, hmem, ?_⟩, ⟨other, ho, ?_⟩, hwins⟩
    · exact mem_activeFileIds.mpr (stateOf_eq_some.mpr ⟨value, hget, hst⟩)
    rw [hgetText]
    exact Option.some_ne_none _
  rintro ⟨⟨replica, hmem, hact⟩, ⟨other, ho, ht⟩, hwins⟩
  obtain ⟨value, hget, hst⟩ := stateOf_eq_some.mp (mem_activeFileIds.mp hact)
  obtain ⟨text, hgetText⟩ := Option.ne_none_iff_exists'.mp ht
  exact ⟨value, text, (live_mergedMeta hsame hpath).mpr ⟨⟨replica, hmem, hget⟩, hwins⟩, hst,
    (live_mergedTexts hsame hpath hwins).mpr ⟨other, ho, hgetText⟩⟩

end

/-- The files that a replica keeps at the path are those that win. -/
theorem mem_settled (hfr : CacheFresh paths.normalize replica.sync)
    (hpath : paths.normalize path = path) :
    fileId ∈ activeFileIds paths.normalize (replica.settled paths path).metaMap path ↔
      fileId ∈ activeFileIds paths.normalize replica.sync.doc.metaMap path ∧
        Wins paths replica.sync.doc replica.disk path fileId := by
  rw [mem_activeFileIds, mem_activeFileIds, stateOf]
  rcases settled_cases hfr hpath fileId with ⟨hact, hnot, hm, -⟩ | ⟨hwins, hm, -⟩
  · rw [hm]
    exact ⟨fun h => (nomatch h), fun h => absurd h.2 hnot⟩
  rw [hm, ← stateOf]
  exact ⟨fun h => ⟨h, hwins (mem_activeFileIds.mpr h)⟩, fun h => h.1⟩

end Merge

section Notes

/-- Two files of one path. -/
def rivalDoc : VaultDoc where
  schemaVersion := .num (some 2)
  idToText := (YMap.empty.set (js "f") { item := 0, content := js "x" }).set (js "g")
    { item := 1, content := js "y" }
  metaMap := (YMap.empty.set (js "f") (createNestedActiveMeta (js "a") 1 none)).set (js "g")
    (createNestedActiveMeta (js "a") 2 none)

/-- Replicas of it with these contents of their disks. -/
def rivals (disks : List (Option JsString)) : List Replica :=
  disks.map fun disk => { sync := .load rivalDoc, disk }

theorem sameDocument_rivals (disks : List (Option JsString)) :
    SameDocument .plain (rivals disks) := by
  have hdoc : ∀ replica ∈ rivals disks, replica.sync = .load rivalDoc := by
    intro replica hmem
    obtain ⟨disk, -, rfl⟩ := mem_map.mp hmem
    rfl
  constructor
  · intro replica hmem
    rw [hdoc replica hmem]
    exact fresh_load _ _
  · intro a ha b hb fileId v w hv hw
    rw [hdoc a ha] at hv
    rw [hdoc b hb, hv] at hw
    exact Option.some.inj hw
  intro a ha b hb fileId v w hv hw
  rw [hdoc a ha] at hv
  rw [hdoc b hb, hv] at hw
  exact Option.some.inj hw

theorem activeFileIds_rivals :
    activeFileIds NormalizePath.plain.normalize (load rivalDoc).doc.metaMap (js "a") =
      [js "f", js "g"] := by
  decide

/-- Without a copy on the disk `g` weighs more, and so does the file whose text the disk has. -/
theorem weight_rivals :
    weight rivalDoc none (js "f") < weight rivalDoc none (js "g") ∧
    weight rivalDoc (some (js "y")) (js "f") < weight rivalDoc (some (js "y")) (js "g") ∧
    weight rivalDoc (some (js "x")) (js "g") < weight rivalDoc (some (js "x")) (js "f") := by
  decide_cbv

theorem oneWinner_rivals : OneWinner .plain (js "a") (rivals [none, none]) := by
  have hd : ∀ replica ∈ rivals [none, none],
      replica = { sync := .load rivalDoc, disk := none } := by
    intro replica hmem
    obtain ⟨disk, hd, rfl⟩ := mem_map.mp hmem
    rcases mem_cons.mp hd with rfl | hd
    · rfl
    · rw [mem_singleton.mp hd]
  constructor
  · refine ⟨js "g", ⟨_, mem_cons_self, ?_⟩, ⟨_, mem_cons_self, by decide⟩, ?_⟩
    · rw [activeFileIds_rivals]
      exact mem_cons_of_mem _ mem_cons_self
    intro replica hmem _ other ho hne
    rw [hd replica hmem] at ho ⊢
    rcases mem_cons.mp ho with rfl | ho
    · exact .inl weight_rivals.1
    · exact absurd (mem_singleton.mp ho) hne
  · intro replica hmem content hc
    rw [hd replica hmem] at hc
    cases hc

end Notes

end Kaos.Sync
