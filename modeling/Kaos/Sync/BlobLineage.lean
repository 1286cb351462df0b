import Mathlib.Data.Nat.Digits.Defs
import Kaos.Lib.JsonText
import Kaos.Sync.BlobIntentFence
import Kaos.Sync.BlobIntentRoundTrip

/-! The lineage of an attachment's references: how it is minted, copied, compared and checked, where
a reference may come with anything in place of its lineage. -/
namespace Kaos.Sync.Lineage

open Kaos.Lib List

/-- A reference as it is found, with any value for its lineage. -/
structure BlobRefValue where
  hash : JsString
  size : ℤ
  priorHashes : Option JsonValue := none

/-- `isSha256Hex` on any value. -/
def sha256Hex : JsonValue → Option JsString
  | .str hash => if isSha256Hex hash then some hash else none
  | _ => none

def getBlobRefPriorHashes : Option BlobRefValue → List JsString
  | some { priorHashes := some (.arr entries), .. } =>
    if maxBlobRefPriorHashes < entries.length then []
    else ((entries.mapM sha256Hex).getD []).eraseDups
  | _ => []

/-- The loop over the candidates, which ends when the lineage is full. -/
def collect (hash : JsString) (priorHashes : List JsString) : List JsString → List JsString
  | [] => priorHashes
  | candidate :: candidates =>
    if ¬ isSha256Hex candidate ∨ candidate = hash ∨ candidate ∈ priorHashes then
      collect hash priorHashes candidates
    else if priorHashes.length + 1 = maxBlobRefPriorHashes then priorHashes ++ [candidate]
    else collect hash (priorHashes ++ [candidate]) candidates

/-- A lineage without hashes is left out. -/
def withPriorHashes (hash : JsString) (size : ℤ) (priorHashes : List JsString) : BlobRefValue :=
  if priorHashes.length > 0 then { hash, size, priorHashes := some (.arr (priorHashes.map .str)) }
  else { hash, size }

def createCausalBlobRef (hash : JsString) (size : ℤ) (previous : Option BlobRefValue)
    (inheritedPriorHashes : List JsString) : BlobRefValue :=
  let candidates := (match previous with
    | some ref => ref.hash :: getBlobRefPriorHashes previous
    | none => []) ++ inheritedPriorHashes
  withPriorHashes hash size (collect hash [] candidates)

def cloneBlobRef : Option BlobRefValue → Option BlobRefValue
  | none => none
  | some ref => some (withPriorHashes ref.hash ref.size (getBlobRefPriorHashes (some ref)))

def sameBlobRef : Option BlobRefValue → Option BlobRefValue → Bool
  | none, right => right.isNone
  | some _, none => false
  | some left, some right =>
    if left.hash ≠ right.hash ∨ left.size ≠ right.size then false
    else getBlobRefPriorHashes (some left) = getBlobRefPriorHashes (some right)

/-- The text of an integer. -/
def integerText (n : ℤ) : JsString :=
  if n < 0 then 45 :: natText 10 n.natAbs else natText 10 n.natAbs

def commaSeparated : List JsString → JsString
  | [] => []
  | [text] => text
  | text :: texts => text ++ 44 :: commaSeparated texts

/-- `JSON.stringify` of an array. -/
def arrayText (texts : List JsString) : JsString := 91 :: (commaSeparated texts ++ [93])

def blobRefFingerprint : Option BlobRefValue → JsString
  | none => js "absent"
  | some ref => arrayText [JsonText.quote ref.hash, integerText ref.size,
      arrayText ((getBlobRefPriorHashes (some ref)).map JsonText.quote)]

def BlobRefValue.toJson (ref : BlobRefValue) : JsonValue :=
  .obj ([("hash", .str ref.hash), ("size", .num (some ref.size))] ++
    optionalField "priorHashes" ref.priorHashes)

/-- The persisted queue's loop over a lineage. -/
def priorHashesValid (hash : JsString) (seen : List JsString) : List JsonValue → Bool
  | [] => true
  | entry :: entries =>
    match sha256Hex entry with
    | none => false
    | some priorHash =>
      if priorHash = hash ∨ priorHash ∈ seen then false
      else priorHashesValid hash (seen ++ [priorHash]) entries

/-- The check of the persisted queue. -/
def isBlobRef : JsonValue → Bool
  | .obj fields =>
    if ¬ fields.all fun field => ["hash", "size", "priorHashes"].contains field.1 then false
    else match (JsonFields.get fields "hash").bind sha256Hex with
    | none => false
    | some hash =>
      match (JsonFields.get fields "size").bind readSafeInteger with
      | none => false
      | some size =>
        if size < 0 then false
        else match JsonFields.get fields "priorHashes" with
        | none => true
        | some (.arr entries) =>
          if maxBlobRefPriorHashes < entries.length then false
          else priorHashesValid hash [] entries
        | some _ => false
  | _ => false

/-- Hashes as a lineage may have them. -/
structure Valid (priorHashes : List JsString) : Prop where
  hex : ∀ prior ∈ priorHashes, isSha256Hex prior = true
  nodup : priorHashes.Nodup
  bounded : priorHashes.length ≤ maxBlobRefPriorHashes

variable {hash : JsString} {size : ℤ} {priorHashes : List JsString} {ref : BlobRefValue}

@[simp] theorem withPriorHashes_hash : (withPriorHashes hash size priorHashes).hash = hash := by
  rw [withPriorHashes]
  split <;> rfl

@[simp] theorem withPriorHashes_size : (withPriorHashes hash size priorHashes).size = size := by
  rw [withPriorHashes]
  split <;> rfl

theorem mapM_sha256Hex (h : ∀ prior ∈ priorHashes, isSha256Hex prior = true) :
    (priorHashes.map JsonValue.str).mapM sha256Hex = some priorHashes := by
  induction priorHashes with
  | nil => rfl
  | cons prior rest ih =>
    rw [map_cons, mapM_cons, ih fun other hmem => h other (mem_cons_of_mem _ hmem),
      sha256Hex, if_pos (h prior mem_cons_self)]
    rfl

theorem hex_of_mapM {entries : List JsonValue} (h : entries.mapM sha256Hex = some priorHashes) :
    (∀ prior ∈ priorHashes, isSha256Hex prior = true) ∧ priorHashes.length = entries.length := by
  induction entries generalizing priorHashes with
  | nil =>
    cases h
    exact ⟨fun _ hmem => absurd hmem not_mem_nil, rfl⟩
  | cons entry entries ih =>
    rw [mapM_cons] at h
    obtain ⟨first, hf, h⟩ := Option.bind_eq_some_iff.mp h
    obtain ⟨rest, hr, h⟩ := Option.bind_eq_some_iff.mp h
    cases h
    obtain ⟨hhex, hlen⟩ := ih hr
    have hv : isSha256Hex first = true := by
      cases entry with
      | str value =>
        simp only [sha256Hex] at hf
        split at hf
        · rename_i hvalue
          cases hf
          exact hvalue
        · cases hf
      | null | bool _ | num _ | arr _ | obj _ => cases hf
    refine ⟨?_, congrArg Nat.succ hlen⟩
    intro prior hmem
    rcases mem_cons.mp hmem with rfl | hmem
    · exact hv
    · exact hhex prior hmem

theorem valid_nil : Valid [] := ⟨fun _ h => absurd h not_mem_nil, nodup_nil, Nat.zero_le _⟩

/-- Whatever a reference has in place of its lineage, what is read of it is valid. -/
theorem valid_getBlobRefPriorHashes (ref : Option BlobRefValue) :
    Valid (getBlobRefPriorHashes ref) := by
  unfold getBlobRefPriorHashes
  split
  · rename_i hash size entries
    split
    · exact valid_nil
    · rename_i hlen
      cases hr : entries.mapM sha256Hex with
      | none => exact valid_nil
      | some hashes =>
        obtain ⟨hhex, hs⟩ := hex_of_mapM hr
        refine ⟨?_, nodup_eraseDups _, ?_⟩
        · intro prior hmem
          exact hhex prior (mem_eraseDups.mp hmem)
        have := length_eraseDups_le hashes
        rw [Option.getD_some]
        omega
  · exact valid_nil

/-- A valid lineage is read back as it was written. -/
theorem getBlobRefPriorHashes_withPriorHashes (h : Valid priorHashes) :
    getBlobRefPriorHashes (some (withPriorHashes hash size priorHashes)) = priorHashes := by
  rw [withPriorHashes]
  split
  · simp only [getBlobRefPriorHashes]
    rw [if_neg (by rw [length_map]; exact Nat.not_lt.mpr h.bounded), mapM_sha256Hex h.hex,
      Option.getD_some, eraseDups_of_nodup h.nodup]
  · rename_i he
    rw [length_eq_zero_iff.mp (Nat.eq_zero_of_not_pos he)]
    rfl

variable {candidates : List JsString}

theorem collect_eq (h : priorHashes.length < maxBlobRefPriorHashes) :
    collect hash priorHashes candidates = (priorHashes ++ (candidates.filter fun candidate =>
        isSha256Hex candidate ∧ candidate ≠ hash ∧ candidate ∉ priorHashes).eraseDups).take
          maxBlobRefPriorHashes := by
  induction candidates generalizing priorHashes with
  | nil =>
    rw [collect, filter_nil, eraseDups_nil, append_nil, take_of_length_le h.le]
  | cons candidate candidates ih =>
    rw [collect]
    by_cases hskip : ¬ isSha256Hex candidate ∨ candidate = hash ∨ candidate ∈ priorHashes
    · rw [if_pos hskip, ih h, filter_cons_of_neg]
      simp only [decide_eq_true_eq, not_and, not_not]
      intro hhex hne
      exact (hskip.resolve_left (not_not.mpr hhex)).resolve_left hne
    rw [if_neg hskip]
    have hr : ((candidates.filter fun other =>
          isSha256Hex other ∧ other ≠ hash ∧ other ∉ priorHashes).filter
            fun other => !other == candidate) =
        candidates.filter fun other =>
          isSha256Hex other ∧ other ≠ hash ∧ other ∉ priorHashes ++ [candidate] := by
      rw [filter_filter]
      congr 1
      funext other
      by_cases heq : other = candidate <;> simp [heq]
    rw [filter_cons_of_pos (by simpa using hskip), eraseDups_cons, hr]
    split
    · rename_i hfull
      exact ((congrArg (List.take _) (append_cons ..)).trans
        (take_left' (by simpa using hfull))).symm
    · rename_i hroom
      rw [ih (by rw [length_append, length_singleton]; omega), append_assoc]
      rfl

theorem collect_valid (hash : JsString) (candidates : List JsString) :
    Valid (collect hash [] candidates) ∧ hash ∉ collect hash [] candidates := by
  rw [collect_eq (by decide), nil_append]
  have hmem : ∀ prior ∈ ((candidates.filter fun candidate => isSha256Hex candidate ∧
      candidate ≠ hash ∧ candidate ∉ ([] : List JsString)).eraseDups).take maxBlobRefPriorHashes,
      isSha256Hex prior = true ∧ prior ≠ hash := by
    intro prior h
    have := (mem_filter.mp (mem_eraseDups.mp (mem_of_mem_take h))).2
    simp only [decide_eq_true_eq] at this
    exact ⟨this.1, this.2.1⟩
  refine ⟨⟨fun prior h => (hmem prior h).1, (nodup_eraseDups _).sublist (take_sublist _ _),
    length_take_le _ _⟩, fun h => (hmem hash h).2 rfl⟩

/-- A chain of publications, each on the reference before. -/
def publish (published : List (JsString × ℤ)) : Option BlobRefValue :=
  published.foldl (fun previous next => some (createCausalBlobRef next.1 next.2 previous [])) none

/-- The hashes published last, newest first, each once and without the given one. -/
def mostRecent (hash : JsString) (published : List JsString) : List JsString :=
  ((published.reverse.filter fun other => other ≠ hash).eraseDups).take maxBlobRefPriorHashes

theorem eraseDups_filter {α : Type*} [BEq α] [LawfulBEq α] (p : α → Bool) (l : List α) :
    (l.filter p).eraseDups = l.eraseDups.filter p := by
  induction hn : l.length using Nat.strong_induction_on generalizing l with
  | _ n ih =>
    cases l with
    | nil => rfl
    | cons a l =>
      have hlen : (l.filter fun b => !b == a).length < n := by
        rw [← hn, length_cons]
        exact Nat.lt_succ_of_le (length_filter_le _ _)
      have hr := ih _ hlen (l.filter fun b => !b == a) rfl
      rw [filter_comm] at hr
      rw [eraseDups_cons]
      by_cases ha : p a = true
      · rw [filter_cons_of_pos ha, filter_cons_of_pos ha, eraseDups_cons, hr]
      rw [filter_cons_of_neg ha, filter_cons_of_neg ha, ← hr]
      congr 1
      rw [eq_comm, filter_eq_self]
      intro b hb
      have hpb := (mem_filter.mp hb).2
      have hne : b ≠ a := fun heq => ha (heq ▸ hpb)
      simpa using hne

/-- One more than fits is enough of a history that loses one entry at most. -/
theorem take_filter_take {α : Type*} [DecidableEq α] {l : List α} (hl : l.Nodup) (a : α) (n : ℕ) :
    ((l.take (n + 1)).filter fun b => b ≠ a).take n = (l.filter fun b => b ≠ a).take n := by
  induction l generalizing n with
  | nil => rfl
  | cons b l ih =>
    rw [nodup_cons] at hl
    by_cases hb : b = a
    · subst hb
      have hs : ∀ m : List α, m ⊆ l → (m.filter fun c => c ≠ b) = m := by
        intro m hm
        rw [filter_eq_self]
        intro c hc
        have hne : c ≠ b := fun heq => hl.1 (heq ▸ hm hc)
        simpa using hne
      rw [take_succ_cons, filter_cons_of_neg (by simp), filter_cons_of_neg (by simp),
        hs _ (take_subset n l), hs l (List.Subset.refl l), take_take, Nat.min_self]
    cases n with
    | zero => rfl
    | succ n =>
      rw [take_succ_cons, filter_cons_of_pos (by simpa using hb),
        filter_cons_of_pos (by simpa using hb), take_succ_cons, take_succ_cons,
        ih hl.2]

theorem mem_mostRecent {published : List JsString} {prior : JsString}
    (h : prior ∈ mostRecent hash published) : prior ∈ published ∧ prior ≠ hash := by
  have hmem := mem_filter.mp (mem_eraseDups.mp (mem_of_mem_take h))
  exact ⟨mem_reverse.mp hmem.1, by simpa using hmem.2⟩

/-- The loop drops nothing of valid candidates but the repeated ones and the hash itself. -/
theorem collect_of_hex (h : ∀ candidate ∈ candidates, isSha256Hex candidate = true) :
    collect hash [] candidates =
      ((candidates.filter fun other => other ≠ hash).eraseDups).take maxBlobRefPriorHashes := by
  rw [collect_eq (by decide), nil_append]
  congr 2
  apply filter_congr
  intro candidate hmem
  simp [h candidate hmem]

/-- After a publication the lineage is the recent history of what was published before. -/
theorem publish_concat (published : List (JsString × ℤ)) (hash : JsString) (size : ℤ)
    (h : ∀ next ∈ published, isSha256Hex next.1 = true) :
    publish (published ++ [(hash, size)]) =
      some (withPriorHashes hash size (mostRecent hash (published.map Prod.fst))) := by
  induction published using List.reverseRecOn generalizing hash size with
  | nil => rfl
  | append_singleton published last ih =>
    obtain ⟨lastHash, lastSize⟩ := last
    have hb : ∀ next ∈ published, isSha256Hex next.1 = true :=
      fun next hmem => h next (mem_append_left _ hmem)
    have hl : isSha256Hex lastHash = true :=
      h (lastHash, lastSize) (mem_append_right _ (mem_singleton_self _))
    have hhex : ∀ prior ∈ mostRecent lastHash (published.map Prod.fst), isSha256Hex prior = true := by
      intro prior hmem
      obtain ⟨next, hn, rfl⟩ := mem_map.mp (mem_mostRecent hmem).1
      exact hb next hn
    have hv : Valid (mostRecent lastHash (published.map Prod.fst)) :=
      ⟨hhex, (nodup_eraseDups _).sublist (take_sublist _ _), length_take_le _ _⟩
    have hnd : (lastHash :: ((published.map Prod.fst).reverse.filter
        fun other => other ≠ lastHash).eraseDups).Nodup := by
      rw [nodup_cons]
      refine ⟨?_, nodup_eraseDups _⟩
      simp
    rw [publish, foldl_append, ← publish, ih lastHash lastSize hb]
    simp only [foldl_cons, foldl_nil, createCausalBlobRef, append_nil,
      getBlobRefPriorHashes_withPriorHashes hv]
    rw [withPriorHashes_hash, collect_of_hex (by
      intro candidate hmem
      rcases mem_cons.mp hmem with rfl | hmem
      · exact hl
      · exact hhex candidate hmem)]
    congr 2
    rw [eraseDups_filter, eraseDups_of_nodup (by
        rw [mostRecent, ← take_succ_cons]
        exact hnd.sublist (take_sublist _ _)),
      mostRecent, ← take_succ_cons, take_filter_take hnd, mostRecent, map_append,
      reverse_append, eraseDups_filter]
    congr 2
    rw [eraseDups_filter]
    congr 1
    change _ = (lastHash :: (published.map Prod.fst).reverse).eraseDups
    rw [eraseDups_cons, eraseDups_filter]
    congr 1
    refine filter_congr fun other _ => ?_
    by_cases heq : other = lastHash <;> simp [heq]

/-- The value that is minted is a reference as its readers want it. -/
theorem toJson_withPriorHashes : (withPriorHashes hash size priorHashes).toJson =
    BlobRef.toJson { hash, size, priorHashes } := by
  cases priorHashes with
  | nil => rfl
  | cons prior rest => rfl

theorem priorHashesValid_map (seen : List JsString) (h : ∀ prior ∈ priorHashes,
      isSha256Hex prior = true ∧ prior ≠ hash) (hnd : (seen ++ priorHashes).Nodup) :
    priorHashesValid hash seen (priorHashes.map .str) = true := by
  induction priorHashes generalizing seen with
  | nil => rfl
  | cons prior rest ih =>
    have hnot : prior ∉ seen := by
      rw [nodup_append] at hnd
      intro hmem
      exact hnd.2.2 prior hmem prior mem_cons_self rfl
    obtain ⟨hhex, hne⟩ := h prior mem_cons_self
    rw [map_cons, priorHashesValid, sha256Hex, if_pos hhex]
    simp only
    rw [if_neg (by rintro (heq | hmem)
                   · exact hne heq
                   · exact hnot hmem)]
    refine ih _ (fun other hmem => h other (mem_cons_of_mem _ hmem)) ?_
    rwa [append_assoc, singleton_append]

theorem isBlobRef_toJson {ref : BlobRef} (h : ref.Readable) : isBlobRef ref.toJson = true := by
  have hv := priorHashesValid_map [] h.priorHashes h.distinct
  by_cases he : ref.priorHashes = []
  · simp [isBlobRef, BlobRef.toJson, he, optionalField, get_cons, sha256Hex, h.hash,
      readSafeInteger_num h.size.1, h.size.2]
  simp [isBlobRef, BlobRef.toJson, he, optionalField, get_cons, sha256Hex, h.hash,
    readSafeInteger_num h.size.1, h.size.2, h.bounded, hv]

/-- A reference that is minted or copied, with a valid lineage without its own hash. -/
theorem readable_withPriorHashes (hh : isSha256Hex hash = true)
    (hs : isSafeInteger size = true ∧ size ≥ 0) (h : Valid priorHashes)
    (hsf : hash ∉ priorHashes) : BlobRef.Readable { hash, size, priorHashes } where
  hash := hh
  size := hs
  priorHashes := by
    intro prior hmem
    refine ⟨h.hex prior hmem, ?_⟩
    rintro rfl
    exact hsf hmem
  distinct := h.nodup
  bounded := h.bounded

theorem plain_of_hex {c : UInt16} (h : JsString.isHexChar c = true) :
    JsonText.isLead c = false ∧ JsonText.escapeUnit c = [c] := by
  have hle : c.toNat < 103 := by
    simp only [JsString.isHexChar, Bool.decide_or, Bool.decide_and, Bool.or_eq_true,
      Bool.and_eq_true, decide_eq_true_eq, UInt16.le_iff_toNat_le] at h
    have h102 : (102 : UInt16).toNat = 102 := rfl
    have h57 : (57 : UInt16).toNat = 57 := rfl
    omega
  have hall : ∀ n < 103, JsString.isHexChar (UInt16.ofNat n) = true →
      JsonText.isLead (UInt16.ofNat n) = false ∧
        JsonText.escapeUnit (UInt16.ofNat n) = [UInt16.ofNat n] := by decide
  have := hall c.toNat hle
  rw [UInt16.ofNat_toNat] at this
  exact this h

/-- A hash is quoted as it is. -/
theorem quote_hash (h : isSha256Hex hash = true) : JsonText.quote hash = 34 :: (hash ++ [34]) := by
  simp only [isSha256Hex, Bool.decide_and, Bool.and_eq_true, decide_eq_true_eq, all_eq_true] at h
  rw [JsonText.quote, JsonText.escape_of_plain fun c hc => plain_of_hex (h.2 c hc)]

theorem length_quote_hash (h : isSha256Hex hash = true) : (JsonText.quote hash).length = 66 := by
  rw [quote_hash h]
  simp only [isSha256Hex, Bool.decide_and, Bool.and_eq_true, decide_eq_true_eq] at h
  simp [h.1]

theorem quote_injective {other : JsString} (h : isSha256Hex hash = true)
    (ho : isSha256Hex other = true) (heq : JsonText.quote hash = JsonText.quote other) :
    hash = other := by
  rw [quote_hash h, quote_hash ho, List.cons.injEq] at heq
  exact append_cancel_right heq.2

/-- The text of some hashes has a length that tells their number. -/
theorem length_commaSeparated (h : ∀ prior ∈ priorHashes, isSha256Hex prior = true) :
    (commaSeparated (priorHashes.map JsonText.quote)).length = 67 * priorHashes.length - 1 := by
  induction priorHashes with
  | nil => rfl
  | cons prior rest ih =>
    have hprior := length_quote_hash (h prior mem_cons_self)
    cases rest with
    | nil => exact hprior
    | cons next rest =>
      have hr := ih fun other hmem => h other (mem_cons_of_mem _ hmem)
      simp only [map_cons, commaSeparated, length_append, length_cons] at hr ⊢
      omega

theorem commaSeparated_injective {others : List JsString}
    (h : ∀ prior ∈ priorHashes, isSha256Hex prior = true)
    (ho : ∀ prior ∈ others, isSha256Hex prior = true)
    (heq : commaSeparated (priorHashes.map JsonText.quote) =
      commaSeparated (others.map JsonText.quote)) : priorHashes = others := by
  have hlen : priorHashes.length = others.length := by
    have := congrArg List.length heq
    rw [length_commaSeparated h, length_commaSeparated ho] at this
    omega
  induction priorHashes generalizing others with
  | nil => exact (length_eq_zero_iff.mp hlen.symm).symm
  | cons prior rest ih =>
    cases others with
    | nil => cases hlen
    | cons other rest' =>
      have hprior := h prior mem_cons_self
      have hot := ho other mem_cons_self
      have hlen' : rest.length = rest'.length := Nat.succ.inj hlen
      cases rest with
      | nil =>
        rw [length_eq_zero_iff.mp hlen'.symm] at heq ⊢
        rw [quote_injective hprior hot heq]
      | cons next rest =>
        cases rest' with
        | nil => cases hlen'
        | cons next' rest' =>
          obtain ⟨hf, hr⟩ := append_inj heq
            ((length_quote_hash hprior).trans (length_quote_hash hot).symm)
          have htail := ih (fun p hp => h p (mem_cons_of_mem _ hp))
            (fun p hp => ho p (mem_cons_of_mem _ hp)) (List.cons.inj hr).2 hlen'
          rw [quote_injective hprior hot hf, htail]

theorem digit_ne_comma : ∀ d < 10, digit d ≠ 44 := by decide

theorem comma_not_mem_integerText (hs : 0 ≤ size) : (44 : UInt16) ∉ integerText size := by
  rw [integerText, if_neg (Int.not_lt.mpr hs)]
  intro hmem
  obtain ⟨d, hd, heq⟩ := exists_digit_natText (by omega) hmem
  exact digit_ne_comma d hd heq

/-- The text of a size gives it back. -/
theorem decimal_integerText (hs : 0 ≤ size) : decimal (integerText size) = size := by
  rw [integerText, if_neg (Int.not_lt.mpr hs), decimal,
    textValue_natText (by omega) decimal_digit, Int.natAbs_of_nonneg hs]

/-- Two texts up to their first comma. -/
theorem append_comma_injective {a b x y : JsString} (ha : 44 ∉ a) (hb : 44 ∉ b)
    (h : a ++ 44 :: x = b ++ 44 :: y) : a = b ∧ x = y := by
  induction a generalizing b with
  | nil =>
    cases b with
    | nil => exact ⟨rfl, (List.cons.inj h).2⟩
    | cons d b => exact absurd ((List.cons.inj h).1 ▸ mem_cons_self) hb
  | cons c a ih =>
    cases b with
    | nil => exact absurd ((List.cons.inj h).1 ▸ mem_cons_self) ha
    | cons d b =>
      obtain ⟨hhead, htail⟩ := List.cons.inj h
      obtain ⟨hr, hxy⟩ := ih (fun hmem => ha (mem_cons_of_mem _ hmem))
        (fun hmem => hb (mem_cons_of_mem _ hmem)) htail
      exact ⟨by rw [hhead, hr], hxy⟩

/-- A hash and a size as every reference in use has them. -/
def BlobRefValue.HasContent (ref : BlobRefValue) : Prop :=
  isSha256Hex ref.hash = true ∧ isSafeInteger ref.size = true ∧ ref.size ≥ 0

theorem sameBlobRef_some {left right : BlobRefValue} :
    sameBlobRef (some left) (some right) = true ↔ left.hash = right.hash ∧
      left.size = right.size ∧
      getBlobRefPriorHashes (some left) = getBlobRefPriorHashes (some right) := by
  simp only [sameBlobRef]
  split
  · rename_i hne
    refine iff_of_false Bool.false_ne_true ?_
    rintro ⟨hh, hs, -⟩
    rcases hne with h | h
    · exact h hh
    · exact h hs
  · rename_i hsa
    rw [not_or, not_ne_iff, not_ne_iff] at hsa
    rw [decide_eq_true_eq]
    exact ⟨fun h => ⟨hsa.1, hsa.2, h⟩, fun h => h.2.2⟩

theorem sameBlobRef_iff_fingerprint {left right : BlobRefValue} (hl : left.HasContent)
    (hr : right.HasContent) : sameBlobRef (some left) (some right) = true ↔
      blobRefFingerprint (some left) = blobRefFingerprint (some right) := by
  rw [sameBlobRef_some]
  constructor
  · rintro ⟨hh, hs, hprior⟩
    rw [blobRefFingerprint, blobRefFingerprint, hh, hs, hprior]
  intro h
  obtain ⟨-, h⟩ := List.cons.inj h
  have h := append_cancel_right h
  obtain ⟨hquote, h⟩ := append_inj h
    ((length_quote_hash hl.1).trans (length_quote_hash hr.1).symm)
  obtain ⟨hs, h⟩ := append_comma_injective (comma_not_mem_integerText hl.2.2)
    (comma_not_mem_integerText hr.2.2) (List.cons.inj h).2
  have hprior := append_cancel_right (List.cons.inj h).2
  refine ⟨quote_injective hl.1 hr.1 hquote, ?_,
    commaSeparated_injective (valid_getBlobRefPriorHashes _).hex
      (valid_getBlobRefPriorHashes _).hex hprior⟩
  rw [← decimal_integerText hl.2.2, hs, decimal_integerText hr.2.2]

theorem sameBlobRef_refl (ref : Option BlobRefValue) : sameBlobRef ref ref = true := by
  cases ref with
  | none => rfl
  | some ref => exact sameBlobRef_some.mpr ⟨rfl, rfl, rfl⟩

theorem sameBlobRef_symm {left right : Option BlobRefValue} (h : sameBlobRef left right = true) :
    sameBlobRef right left = true := by
  cases left with
  | none =>
    cases right with
    | none => rfl
    | some right => cases h
  | some left =>
    cases right with
    | none => cases h
    | some right =>
      obtain ⟨hh, hs, hprior⟩ := sameBlobRef_some.mp h
      exact sameBlobRef_some.mpr ⟨hh.symm, hs.symm, hprior.symm⟩

theorem sameBlobRef_trans {a b c : Option BlobRefValue} (hab : sameBlobRef a b = true)
    (hbc : sameBlobRef b c = true) : sameBlobRef a c = true := by
  cases b with
  | none =>
    cases a with
    | none => exact hbc
    | some a => cases hab
  | some b =>
    cases a with
    | none => cases hab
    | some a =>
      cases c with
      | none => cases hbc
      | some c =>
        obtain ⟨hh, hs, hprior⟩ := sameBlobRef_some.mp hab
        obtain ⟨hh', hs', hprior'⟩ := sameBlobRef_some.mp hbc
        exact sameBlobRef_some.mpr ⟨hh.trans hh', hs.trans hs', hprior.trans hprior'⟩

theorem sameBlobRef_clone (ref : Option BlobRefValue) :
    sameBlobRef (cloneBlobRef ref) ref = true := by
  cases ref with
  | none => rfl
  | some ref =>
    exact sameBlobRef_some.mpr ⟨withPriorHashes_hash, withPriorHashes_size,
      getBlobRefPriorHashes_withPriorHashes (valid_getBlobRefPriorHashes _)⟩

/-- What the lineage is along a chain, that every reader takes a minted reference as it is, and that
the comparison is the one of the fingerprints, an equivalence that a copy respects. -/
structure LineageExact : Prop where
  chain : ∀ (published : List (JsString × ℤ)) (hash : JsString) (size : ℤ),
    (∀ next ∈ published, isSha256Hex next.1 = true) →
    publish (published ++ [(hash, size)]) =
      some (withPriorHashes hash size (mostRecent hash (published.map Prod.fst)))
  minted : ∀ (hash : JsString) (size : ℤ) (previous : Option BlobRefValue)
    (inherited : List JsString), isSha256Hex hash = true → isSafeInteger size = true → size ≥ 0 →
    let ref := createCausalBlobRef hash size previous inherited
    isBlobRef ref.toJson = true ∧
      (∃ read, readBlobRef ref.toJson = some read ∧ read.toJson = ref.toJson) ∧
      cloneBlobRef (some ref) = some ref
  fingerprint : ∀ left right : BlobRefValue, left.HasContent → right.HasContent →
    (sameBlobRef (some left) (some right) = true ↔
      blobRefFingerprint (some left) = blobRefFingerprint (some right))
  refl : ∀ ref, sameBlobRef ref ref = true
  symm : ∀ left right, sameBlobRef left right = true → sameBlobRef right left = true
  trans : ∀ a b c, sameBlobRef a b = true → sameBlobRef b c = true → sameBlobRef a c = true
  clone : ∀ ref, sameBlobRef (cloneBlobRef ref) ref = true

theorem lineage_exact : LineageExact where
  chain := fun published hash size h => publish_concat published hash size h
  minted := by
    intro hash size previous inherited hh hsafe hnon ref
    obtain ⟨hv, hs⟩ := collect_valid hash ((match previous with
      | some ref => ref.hash :: getBlobRefPriorHashes previous
      | none => []) ++ inherited)
    have hrd := readable_withPriorHashes hh ⟨hsafe, hnon⟩ hv hs
    have hjson : ref.toJson = _ := toJson_withPriorHashes
    refine ⟨hjson ▸ isBlobRef_toJson hrd, ⟨_, hjson ▸ readBlobRef_toJson hrd, hjson.symm⟩, ?_⟩
    simp only [ref, cloneBlobRef, createCausalBlobRef, withPriorHashes_hash, withPriorHashes_size,
      getBlobRefPriorHashes_withPriorHashes hv]
  fingerprint := fun left right hl hr => sameBlobRef_iff_fingerprint hl hr
  refl := sameBlobRef_refl
  symm := fun _ _ h => sameBlobRef_symm h
  trans := fun _ _ _ hab hbc => sameBlobRef_trans hab hbc
  clone := sameBlobRef_clone

end Kaos.Sync.Lineage
