import Mathlib.Data.Rat.Lemmas
import Kaos.Sync.PendingBlobIntentJournal

/-! What the reader of stored intents accepts, and that it reads a stored intent back. -/
namespace Kaos.Sync

open Kaos.Lib PendingBlobIntent PendingBlobIntentKind JsonFields List Option

/-- A reference as the reader of intents wants it. -/
structure BlobRef.Readable (ref : BlobRef) : Prop where
  hash : isSha256Hex ref.hash = true
  size : isSafeInteger ref.size = true ∧ ref.size ≥ 0
  priorHashes : ∀ prior ∈ ref.priorHashes, isSha256Hex prior = true ∧ prior ≠ ref.hash
  distinct : ref.priorHashes.Nodup
  bounded : ref.priorHashes.length ≤ maxBlobRefPriorHashes

structure PendingBlobIntentScope.Readable (scope : PendingBlobIntentScope) : Prop where
  host : isNonEmptyString scope.host = true
  vaultId : isNonEmptyString scope.vaultId = true
  localDeviceId : isNonEmptyString scope.localDeviceId = true

section Readable

variable (normalizePath : JsString → JsString)

/-- A path that was normalized and is not empty. -/
def IsNormalized (path : JsString) : Prop := normalizePath path = path ∧ path ≠ []

def PendingBlobIntentKind.Readable : PendingBlobIntentKind → Prop
  | .delete path => IsNormalized normalizePath path
  | .rename oldPath newPath =>
    IsNormalized normalizePath oldPath ∧ IsNormalized normalizePath newPath ∧ oldPath ≠ newPath

/-- An intent as its reader wants it. -/
structure PendingBlobIntent.Readable (intent : PendingBlobIntent) : Prop where
  id : isNonEmptyString intent.id = true
  kind : intent.kind.Readable normalizePath
  recordedAt : isValidTimestamp intent.recordedAt = true
  scope : intent.scope.Readable
  ref : ∀ ref, intent.expectedSourceRef = some ref → ref.Readable ∧ intent.baseRefKnown = true
  version : ∀ version, intent.expectedSourceVersion = some version →
    isBlobSourceVersion version = true ∧ intent.sourceVersionKnown = true ∧
      intent.expectedSourceRef ≠ none
  versioned : intent.sourceVersionKnown = true → intent.expectedSourceRef ≠ none →
    intent.expectedSourceVersion ≠ none
  commitAttemptId : intent.commitAttemptId.all isNonEmptyString = true
  attemptedAt : intent.attemptedAt.all isValidTimestamp = true
  attemptSessionId : intent.attemptSessionId.all isNonEmptyString = true
  committedAt : intent.committedAt.all isValidTimestamp = true
  receiptCandidateId : intent.receiptCandidateId.all isNonEmptyString = true
  commitSessionId : intent.commitSessionId.all isNonEmptyString = true
  commitDeleteFingerprint : intent.commitDeleteFingerprint.all isNonEmptyString = true
  phase : intent.phaseIsReadable = true

end Readable

section Fields

variable {key other : String} {value : Option JsonValue} {v : JsonValue} {rest : JsonFields}
  {keys : List String}

@[simp] theorem get_nil : get [] key = none := rfl

theorem get_cons : JsonFields.get ((other, v) :: rest) key =
    if other = key then some v else JsonFields.get rest key := by
  simp only [JsonFields.get, find?_cons]
  by_cases h : other = key <;> simp [h]

theorem get_optionalField_append : get (optionalField other value ++ rest) key =
    if other = key then value.or (get rest key) else get rest key := by
  cases value with
  | none => simp [optionalField]
  | some v => simp [optionalField, get_cons]

theorem get_optionalField : get (optionalField other value) key =
    if other = key then value else none := by
  cases value with
  | none => simp [optionalField]
  | some v => simp [optionalField, get_cons]

/-- The keys of a record are among those its reader knows. -/
def Knows (keys : List String) (fields : JsonFields) : Prop :=
  (fields.all fun field => keys.contains field.1) = true

theorem knows_nil : Knows keys [] := rfl

theorem knows_cons : Knows keys ((key, v) :: rest) ↔ key ∈ keys ∧ Knows keys rest := by
  simp [Knows]

theorem knows_append {fields : JsonFields} :
    Knows keys (fields ++ rest) ↔ Knows keys fields ∧ Knows keys rest := by
  simp only [Knows, all_append, Bool.and_eq_true]

theorem knows_optionalField (hkey : key ∈ keys) : Knows keys (optionalField key value) := by
  cases value with
  | none => exact knows_nil
  | some v => exact knows_cons.mpr ⟨hkey, knows_nil⟩

end Fields

section Values

variable {text : JsString} {n : ℤ} {ref : BlobRef} {scope : PendingBlobIntentScope}

theorem readNonEmptyString_str (h : isNonEmptyString text = true) :
    readNonEmptyString (.str text) = some text := by
  rw [readNonEmptyString, if_pos h]

theorem readSafeInteger_num (h : isSafeInteger n = true) :
    readSafeInteger (.num (some n)) = some n := by
  simp [readSafeInteger, h]

theorem readTimestamp_num (h : isValidTimestamp n = true) :
    readTimestamp (.num (some n)) = some n := by
  simp only [isValidTimestamp, decide_eq_true_eq] at h
  simp [readTimestamp, readSafeInteger_num h.1, h.2]

theorem readSourceVersion_str (h : isBlobSourceVersion text = true) :
    readSourceVersion (.str text) = some text := by
  rw [readSourceVersion, if_pos h]

/-- An optional field is read back if its reader reads its value back. -/
theorem readOptional_map {α : Type*} {read : JsonValue → Option α} {write : α → JsonValue}
    {value : Option α} (h : ∀ a, value = some a → read (write a) = some a) :
    readOptional read (value.map write) = some value := by
  cases value with
  | none => rfl
  | some a => simp [readOptional, h a rfl]

theorem readOptional_string {value : Option JsString} (h : value.all isNonEmptyString = true) :
    readOptional readNonEmptyString (value.map .str) = some value := by
  apply readOptional_map
  intro text ht
  rw [ht] at h
  exact readNonEmptyString_str h

theorem readOptional_timestamp {value : Option ℤ} (h : value.all isValidTimestamp = true) :
    readOptional readTimestamp (value.map fun at' : ℤ => JsonValue.num (some at')) = some value := by
  apply readOptional_map
  intro n hn
  rw [hn] at h
  exact readTimestamp_num h

theorem readScope_toJson (h : scope.Readable) : readScope scope.toJson = some scope := by
  simp [readScope, PendingBlobIntentScope.toJson, get_cons, readNonEmptyString_str h.host,
    readNonEmptyString_str h.vaultId, readNonEmptyString_str h.localDeviceId]

theorem readPriorHashes_map {hash : JsString} {before hashes : List JsString}
    (hv : ∀ prior ∈ hashes, isSha256Hex prior = true ∧ prior ≠ hash)
    (hnd : (before ++ hashes).Nodup) :
    readPriorHashes hash before (hashes.map .str) = some (before ++ hashes) := by
  induction hashes generalizing before with
  | nil => simp [readPriorHashes]
  | cons prior rest ih =>
    obtain ⟨hsha, hne⟩ := hv prior mem_cons_self
    have hnew : prior ∉ before := by
      intro hmem
      exact (disjoint_of_nodup_append hnd) hmem mem_cons_self
    rw [map_cons, readPriorHashes, if_neg (by simp [hsha, hne, hnew]), ih]
    · rw [append_assoc, singleton_append]
    · intro prior' hmem
      exact hv prior' (mem_cons_of_mem _ hmem)
    · rwa [append_assoc, singleton_append]

theorem readBlobRef_toJson (h : ref.Readable) : readBlobRef ref.toJson = some ref := by
  have hs : (readSafeInteger (.num (some ref.size))).filter (fun size => decide (size ≥ 0)) =
      some ref.size := by
    rw [readSafeInteger_num h.size.1]
    simp [h.size.2]
  have hh : (readString (.str ref.hash)).filter isSha256Hex = some ref.hash := by
    simp [readString, h.hash]
  by_cases he : ref.priorHashes = []
  · simp [readBlobRef, BlobRef.toJson, he, optionalField, get_cons, hs, hh]
    rw [← he]
  have hr : readPriorHashes ref.hash [] (ref.priorHashes.map .str) = some ref.priorHashes :=
    readPriorHashes_map h.priorHashes h.distinct
  simp [readBlobRef, BlobRef.toJson, he, optionalField, get_cons, hs, hh, hr, h.bounded]

end Values

section Intent

variable {normalizePath : JsString → JsString} {intent : PendingBlobIntent}

/-- The fields of the stored intent. -/
def PendingBlobIntent.fields (intent : PendingBlobIntent) : JsonFields :=
  match intent.toJson with
  | .obj fields => fields
  | _ => []

theorem toJson_eq (intent : PendingBlobIntent) : intent.toJson = .obj intent.fields := rfl

theorem get_common (intent : PendingBlobIntent) :
    intent.fields.get "id" = some (.str intent.id) ∧
    intent.fields.get "recordedAt" = some (.num (some intent.recordedAt)) ∧
    intent.fields.get "scope" = some intent.scope.toJson ∧
    intent.fields.get "baseRefKnown" = some (.bool intent.baseRefKnown) ∧
    intent.fields.get "expectedSourceRef" = intent.expectedSourceRef.map BlobRef.toJson ∧
    intent.fields.get "sourceVersionKnown" = some (.bool intent.sourceVersionKnown) ∧
    intent.fields.get "expectedSourceVersion" = intent.expectedSourceVersion.map .str := by
  unfold fields toJson
  cases intent.kind <;> simp [toFields, get_cons, get_optionalField_append, get_optionalField]

theorem get_phase (intent : PendingBlobIntent) :
    intent.fields.get "commitAttemptId" = intent.commitAttemptId.map .str ∧
    intent.fields.get "attemptedAt" =
      intent.attemptedAt.map (fun at' : ℤ => JsonValue.num (some at')) ∧
    intent.fields.get "attemptSessionId" = intent.attemptSessionId.map .str ∧
    intent.fields.get "committedAt" =
      intent.committedAt.map (fun at' : ℤ => JsonValue.num (some at')) ∧
    intent.fields.get "receiptCandidateId" = intent.receiptCandidateId.map .str ∧
    intent.fields.get "commitSessionId" = intent.commitSessionId.map .str ∧
    intent.fields.get "commitDeleteFingerprint" = intent.commitDeleteFingerprint.map .str := by
  unfold fields toJson
  cases intent.kind <;> simp [toFields, get_cons, get_optionalField_append, get_optionalField]

theorem get_kind (intent : PendingBlobIntent) :
    intent.fields.get "kind" = get intent.kind.toFields "kind" := by
  unfold fields toJson
  cases intent.kind <;> simp [toFields, get_cons]

/-- The reader knows every key of a stored intent. -/
theorem pathKeys_fields (intent : PendingBlobIntent) :
    ∃ keys, pathKeys (intent.fields.get "kind") = some keys ∧ Knows keys intent.fields := by
  have hkeys : ∀ keys, Knows keys intent.kind.toFields → commonKeys ⊆ keys →
      Knows keys intent.fields := by
    intro keys hk hcom
    have hmem : ∀ key ∈ commonKeys, key ∈ keys := fun key hkey => hcom hkey
    simp only [commonKeys, forall_mem_cons] at hmem
    unfold fields toJson
    simp only [knows_append, cons_append, knows_cons, knows_nil, hk, hmem,
      knows_optionalField, and_true]
  rw [get_kind]
  cases hk : intent.kind with
  | delete path =>
    refine ⟨commonKeys ++ ["path"], rfl, hkeys _ ?_ (subset_append_left _ _)⟩
    rw [hk]
    exact knows_cons.mpr ⟨by decide, knows_cons.mpr ⟨by decide, knows_nil⟩⟩
  | rename oldPath newPath =>
    refine ⟨commonKeys ++ ["oldPath", "newPath"], rfl, hkeys _ ?_ (subset_append_left _ _)⟩
    rw [hk]
    exact knows_cons.mpr ⟨by decide, knows_cons.mpr ⟨by decide,
      knows_cons.mpr ⟨by decide, knows_nil⟩⟩⟩

theorem readKind_fields (h : intent.kind.Readable normalizePath) :
    readKind normalizePath (intent.fields.get "kind") intent.fields = some intent.kind := by
  rw [get_kind]
  cases hk : intent.kind with rw [hk] at h
  | delete path =>
    have hp : intent.fields.get "path" = some (.str path) := by
      unfold fields toJson
      simp [hk, toFields, get_cons]
    have htag : get (delete path).toFields "kind" = some (.str (js "delete")) := rfl
    simp [readKind, htag, hp, readString, h.1, h.2]
  | rename oldPath newPath =>
    have hold : intent.fields.get "oldPath" = some (.str oldPath) := by
      unfold fields toJson
      simp [hk, toFields, get_cons]
    have hnew : intent.fields.get "newPath" = some (.str newPath) := by
      unfold fields toJson
      simp [hk, toFields, get_cons]
    have htag : get (rename oldPath newPath).toFields "kind" = some (.str (js "rename")) := rfl
    have ho : js "rename" ≠ js "delete" := by decide
    simp [readKind, htag, hold, hnew, readString, ho, h.1.1, h.1.2, h.2.1.1, h.2.1.2, h.2.2]

theorem readIntent_toJson (h : intent.Readable normalizePath) :
    readIntent normalizePath intent.toJson = some intent := by
  obtain ⟨hid, hrec, hscope, hk, href, hversionKnown, hver⟩ := get_common intent
  obtain ⟨hatt, hattemptedAt, hattemptSession, hcommittedAt, hreceipt, hcom,
    hprint⟩ := get_phase intent
  obtain ⟨keys, hkeys, hknows⟩ := pathKeys_fields intent
  have hknows' : (intent.fields.all fun field => keys.contains field.1) = true := hknows
  have hreadRef : readOptional readBlobRef (intent.expectedSourceRef.map BlobRef.toJson) =
      some intent.expectedSourceRef := by
    apply readOptional_map
    intro ref href
    exact readBlobRef_toJson (h.ref ref href).1
  have hr : readOptional readSourceVersion (intent.expectedSourceVersion.map .str) =
      some intent.expectedSourceVersion := by
    apply readOptional_map
    intro version hver
    exact readSourceVersion_str (h.version version hver).1
  have hb : ¬ (intent.baseRefKnown = false ∧
      (intent.expectedSourceRef.map BlobRef.toJson).isSome = true) := by
    rintro ⟨hunk, hs⟩
    rw [isSome_map, isSome_iff_exists] at hs
    obtain ⟨ref, href⟩ := hs
    rw [(h.ref ref href).2] at hunk
    cases hunk
  have hunv : ¬ (intent.sourceVersionKnown = false ∧ intent.expectedSourceVersion ≠ none) := by
    rintro ⟨hunk, hs⟩
    obtain ⟨version, hver⟩ := ne_none_iff_exists'.mp hs
    rw [(h.version version hver).2.1] at hunk
    cases hunk
  have hversioned : ¬ (intent.sourceVersionKnown = true ∧ intent.expectedSourceRef ≠ none ∧
      intent.expectedSourceVersion = none) := by
    rintro ⟨hk, hs, hn⟩
    exact h.versioned hk hs hn
  have hrefless : ¬ (intent.expectedSourceVersion ≠ none ∧ intent.expectedSourceRef = none) := by
    rintro ⟨hs, hn⟩
    obtain ⟨version, hver⟩ := ne_none_iff_exists'.mp hs
    exact (h.version version hver).2.2 hn
  have hreadKnown : readOptional readBool (some (.bool intent.sourceVersionKnown)) =
      some (some intent.sourceVersionKnown) := rfl
  rw [toJson_eq, readIntent]
  simp only [hkeys, hknows', hid, hrec, hscope, hk, href, hversionKnown, hver,
    hatt, hattemptedAt, hattemptSession, hcommittedAt, hreceipt, hcom, hprint,
    hreadRef, hr, hreadKnown, readBool, readKind_fields h.kind, bind_eq_bind,
    bind_some, getD_some, not_true, if_false, hb, hunv, hversioned,
    hrefless, readScope_toJson h.scope, readNonEmptyString_str h.id,
    readTimestamp_num h.recordedAt, readOptional_string h.commitAttemptId,
    readOptional_timestamp h.attemptedAt, readOptional_string h.attemptSessionId,
    readOptional_timestamp h.committedAt, readOptional_string h.receiptCandidateId,
    readOptional_string h.commitSessionId, readOptional_string h.commitDeleteFingerprint]
  exact if_pos h.phase

end Intent

end Kaos.Sync
