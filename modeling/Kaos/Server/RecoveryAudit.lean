import Kaos.Server.RecoveryManifestTimes

/-! Which manifest the audit takes for the newest, and when that is the newest one. -/
namespace Kaos.Server

open Kaos.Lib List

def DEFAULT_RECOVERY_AUDIT_MANIFEST_LIMIT : ℕ := 20

structure RecoveryStorageAuditOptions where
  repair : Bool := false
  manifestCheckLimit : Option ℤ := none

/-- What the audit reads besides the list of keys, and whether its write succeeds. -/
structure RecoveryAuditReads where
  manifest : JsString → Option FileHistoryManifest
  latestIndexExists : Bool
  latestIndex : Option FileHistoryManifestIndex
  putSucceeds : Bool

inductive LatestIndexIssue
  | latestIndexMissing
  | latestIndexInvalid
  | latestIndexStale
  | latestIndexPointsToOldManifest
  deriving DecidableEq

/-- The part of the report that is about `latest-index`, and what the repair puts there. -/
structure LatestIndexAudit where
  newestManifestId : Option JsString
  latestManifestId : Option JsString
  latestIndexManifestId : Option JsString
  issue : Option LatestIndexIssue
  written : Option FileHistoryManifestIndex
  deriving DecidableEq

def manifestCheckLimit (options : RecoveryStorageAuditOptions) : ℕ :=
  (max 0 (min (options.manifestCheckLimit.getD DEFAULT_RECOVERY_AUDIT_MANIFEST_LIMIT) 200)).toNat

def latestIndexIssue (reads : RecoveryAuditReads) (newest : JsString)
    (latestManifest : Option FileHistoryManifest) : Option LatestIndexIssue :=
  if !reads.latestIndexExists then some .latestIndexMissing
  else match reads.latestIndex with
  | none => some .latestIndexInvalid
  | some index =>
    if index.manifestId ≠ newest ∨
        latestManifest.any (fun manifest => index ≠ manifest.toFileHistoryManifestIndex) then
      if index.manifestId = newest then some .latestIndexStale
      else some .latestIndexPointsToOldManifest
    else none

/-- The latest manifest is the first of the checked ones that can be read. -/
def auditLatestIndex (manifestIds : List JsString) (reads : RecoveryAuditReads)
    (options : RecoveryStorageAuditOptions) : LatestIndexAudit :=
  let checked := manifestIds.take (manifestCheckLimit options)
  let latestManifest := (checked.filterMap reads.manifest).head?
  let indexManifestId := reads.latestIndex.map (·.manifestId)
  match manifestIds with
  | [] => ⟨none, none, indexManifestId, none, none⟩
  | newest :: _ =>
    let newestUnreadable := newest ∈ checked ∧ reads.manifest newest = none
    let latestManifestId :=
      ((latestManifest.map (·.manifestId)).or indexManifestId).or (some newest)
    let issue := latestIndexIssue reads newest latestManifest
    match latestManifest with
    | some manifest =>
      if issue ≠ none ∧ options.repair ∧ ¬ newestUnreadable ∧ manifest.manifestId = newest ∧
          reads.putSucceeds then
        ⟨newest, latestManifestId, newest, issue, manifest.toFileHistoryManifestIndex⟩
      else ⟨newest, latestManifestId, indexManifestId, issue, none⟩
    | none => ⟨newest, latestManifestId, indexManifestId, issue, none⟩

section Audit

variable {manifestIds : List JsString}
  {reads : RecoveryAuditReads} {options : RecoveryStorageAuditOptions}

theorem newestManifestId_audit : (auditLatestIndex manifestIds reads options).newestManifestId =
    manifestIds.head? := by
  cases manifestIds with
  | nil => rfl
  | cons newest rest =>
    rw [auditLatestIndex]
    split
    · split <;> rfl
    · rfl

/-- What the repair writes is the index of the manifest taken for the newest. -/
theorem written_audit {index : FileHistoryManifestIndex}
    (h : (auditLatestIndex manifestIds reads options).written = some index) :
    manifestIds.head? = some index.manifestId := by
  cases manifestIds with
  | nil => cases h
  | cons newest rest =>
    rw [auditLatestIndex] at h
    split at h
    · split at h
      · next hrep =>
        cases h
        exact congrArg some hrep.2.2.2.1.symm
      · cases h
    · cases h

end Audit

section Times

variable (platform P : RecoveryPlatform)

/-- The creation time that an id encodes, in milliseconds. -/
def CreatedAtTime (manifestId : JsString) (ms : ℕ) : Prop :=
  ms ≤ MAX_DATE_MS ∧ createdAtFromRecoveryManifestId platform manifestId = some (toISOString ms)

/-- The first id does not encode a later time than the second. -/
def NotNewer (s t : JsString) : Prop :=
  ∀ a b, CreatedAtTime platform s a → CreatedAtTime platform t b → a ≤ b

/-- Among the accepted ids the larger string is never the older manifest. -/
def TimesFollowIds (keys : List JsString) : Prop :=
  ∀ s ∈ listRecoveryManifestIds platform keys, ∀ t ∈ listRecoveryManifestIds platform keys,
    JsString.le s t = true → NotNewer platform s t

/-- The list is ordered newest first, and the manifest that an audit takes for the newest, and
to which it repairs the index, is not older than any stored one. -/
def NewestMeansNewest (keys : List JsString) (reads : RecoveryAuditReads)
    (options : RecoveryStorageAuditOptions) : Prop :=
  let manifestIds := listRecoveryManifestIds platform keys
  let audit := auditLatestIndex manifestIds reads options
  manifestIds.Pairwise (fun newer older => NotNewer platform older newer) ∧
    (∀ newest, audit.newestManifestId = some newest →
      ∀ manifestId ∈ manifestIds, NotNewer platform manifestId newest) ∧
    (∀ index, audit.written = some index →
      ∀ manifestId ∈ manifestIds, NotNewer platform manifestId index.manifestId)

variable {platform P} {keys : List JsString} {s t : JsString} {a b : ℕ}

theorem CreatedAtTime.unique (ha : CreatedAtTime P s a) (hb : CreatedAtTime P s b) : a = b := by
  have h := ha.2.symm.trans hb.2
  exact toISOString_injective ha.1 hb.1 (Option.some.inj h)

theorem notNewer_refl (s : JsString) : NotNewer P s s := by
  intro a b ha hb
  exact (ha.unique hb).le

/-- The listed ids stand in falling order as strings. -/
theorem falling_listRecoveryManifestIds (P : RecoveryPlatform) (keys : List JsString) :
    (listRecoveryManifestIds P keys).Pairwise fun s t => JsString.le t s = true := by
  have : Std.Total fun s t : JsString => JsString.le s t = true := ⟨JsString.le_total⟩
  have : IsTrans JsString fun s t => JsString.le s t = true := ⟨fun _ _ _ => JsString.le_trans⟩
  rw [listRecoveryManifestIds, pairwise_reverse]
  exact pairwise_insertionSort _ _

/-- In a list in falling order each of two entries precedes the other, or they are one. -/
theorem newestFirst_iff :
    (listRecoveryManifestIds P keys).Pairwise
        (fun newer older => NotNewer P older newer) ↔ TimesFollowIds P keys := by
  have hfal := falling_listRecoveryManifestIds P keys
  constructor
  · intro hnew s hs t ht hle
    obtain ⟨i, hi, rfl⟩ := mem_iff_getElem.mp hs
    obtain ⟨j, hj, rfl⟩ := mem_iff_getElem.mp ht
    rcases Nat.lt_trichotomy i j with hij | rfl | hji
    · have hge := pairwise_iff_getElem.mp hfal i j hi hj hij
      rw [JsString.le_antisymm hle hge]
      exact notNewer_refl _
    · exact notNewer_refl _
    · exact pairwise_iff_getElem.mp hnew j i hj hi hji
  intro hfol
  rw [pairwise_iff_getElem]
  intro i j hi hj hij
  exact hfol _ (getElem_mem hj) _ (getElem_mem hi)
    (pairwise_iff_getElem.mp hfal i j hi hj hij)

/-- The first id of the list is not older than any other. -/
theorem head_notOlder {newest : JsString} (hfol : TimesFollowIds P keys)
    (hhead : (listRecoveryManifestIds P keys).head? = some newest) {manifestId : JsString}
    (hmem : manifestId ∈ listRecoveryManifestIds P keys) : NotNewer P manifestId newest := by
  have hfal := falling_listRecoveryManifestIds P keys
  cases hids : listRecoveryManifestIds P keys with
  | nil => simp [hids] at hhead
  | cons first rest =>
    rw [hids, head?_cons, Option.some_inj] at hhead
    subst hhead
    rw [hids] at hfal hmem
    rcases mem_cons.mp hmem with rfl | hr
    · exact notNewer_refl _
    have hle := rel_of_pairwise_cons hfal hr
    exact hfol _ (hids ▸ hmem) _ (hids ▸ mem_cons_self) hle

/-- The audit is right wherever the order of the ids follows their times, and only there. -/
theorem newestMeansNewest_iff_follow {reads : RecoveryAuditReads}
    {options : RecoveryStorageAuditOptions} :
    NewestMeansNewest P keys reads options ↔ TimesFollowIds P keys := by
  constructor
  · rintro ⟨hnew, -, -⟩
    exact newestFirst_iff.mp hnew
  intro hfol
  refine ⟨newestFirst_iff.mpr hfol, ?_, ?_⟩
  · intro newest hhead manifestId hmem
    rw [newestManifestId_audit] at hhead
    exact head_notOlder hfol hhead hmem
  intro index hw manifestId hmem
  exact head_notOlder hfol (written_audit hw) hmem

end Times

section Shapes

variable {base : ℕ} {value : UInt16 → ℕ}

/-- Digits of one length that are smaller as a string have a smaller value. -/
theorem value_le_of_le {alphabet : JsString} (hlt : ∀ c ∈ alphabet, value c < base)
    (hmono : ∀ c ∈ alphabet, ∀ d ∈ alphabet, c < d → value c < value d) {u v : JsString} :
    ∀ {m n : ℕ}, u.length = v.length → (∀ c ∈ u, c ∈ alphabet) → (∀ c ∈ v, c ∈ alphabet) →
      (m < n ∨ m = n ∧ JsString.le u v = true) →
      u.foldl (fun k c => k * base + value c) m ≤ v.foldl (fun k c => k * base + value c) n := by
  induction u generalizing v with
  | nil =>
    intro m n hlen _ _ hle
    obtain rfl := length_eq_zero_iff.mp hlen.symm
    rcases hle with hlt | ⟨rfl, -⟩
    · exact hlt.le
    · exact le_rfl
  | cons c u ih =>
    intro m n hlen hu hv hle
    cases v with
    | nil => cases hlen
    | cons d v =>
      have hc := hu c mem_cons_self
      have hd := hv d mem_cons_self
      rw [foldl_cons, foldl_cons]
      refine ih (Nat.succ.inj hlen) (fun e he => hu e (mem_cons_of_mem _ he))
        (fun e he => hv e (mem_cons_of_mem _ he)) ?_
      rcases hle with hmn | ⟨rfl, hle⟩
      · have hb := hlt c hc
        have hmul : (m + 1) * base ≤ n * base := Nat.mul_le_mul_right base hmn
        rw [Nat.add_mul] at hmul
        omega
      by_cases hcd : c = d
      · subst hcd
        exact .inr ⟨rfl, by simpa [JsString.le] using hle⟩
      left
      have hless : c < d := by simpa [JsString.le, hcd] using hle
      exact Nat.add_lt_add_left (hmono c hc d hd hless) _

/-- The order of two strings is decided by what comes first. -/
theorem le_of_append_le {u v : JsString} {r r' : JsString} (hlen : u.length = v.length)
    (hle : JsString.le (u ++ r) (v ++ r') = true) : JsString.le u v = true := by
  induction u generalizing v with
  | nil => rfl
  | cons c u ih =>
    cases v with
    | nil => cases hlen
    | cons d v =>
      rw [cons_append, cons_append, JsString.le] at hle
      rw [JsString.le]
      by_cases hcd : c = d
      · rw [if_pos hcd] at hle ⊢
        exact ih (Nat.succ.inj hlen) hle
      rw [if_neg hcd] at hle ⊢
      exact hle

theorem le_append_left_iff (p s t : JsString) :
    JsString.le (p ++ s) (p ++ t) = JsString.le s t := by
  induction p with
  | nil => rfl
  | cons c p ih => rw [cons_append, cons_append, JsString.le, if_pos rfl, ih]

def base36Alphabet : JsString := js "0123456789abcdefghijklmnopqrstuvwxyz"

def upperCrockford : JsString := js "0123456789ABCDEFGHJKMNPQRSTVWXYZ"

/-- Ids with one prefix, one format, one number of timestamp digits and one case of letters. -/
inductive ManifestShape
  | generated (isPrefixed : Bool) (digits : ℕ)
  | ulid (isPrefixed isUpper : Bool)

def shapePrefix (isPrefixed : Bool) : JsString := if isPrefixed then recPrefix else []

def HasShape : ManifestShape → JsString → Prop
  | .generated isPrefixed digits, manifestId => ∃ t bytes, 0 < t ∧ t ≤ MAX_DATE_MS ∧
      (toBase36 t).length = digits ∧
      manifestId = shapePrefix isPrefixed ++ generateRecoveryManifestId t bytes
  | .ulid isPrefixed isUpper, manifestId => ∃ t s, 0 < t ∧ t ≤ MAX_DATE_MS ∧ IsUlidOf t s ∧
      (∀ c ∈ s, c ∈ if isUpper then upperCrockford else CROCKFORD_BASE32) ∧
      ¬ HexAfterRec manifestId ∧ manifestId = shapePrefix isPrefixed ++ s

variable {platform P : RecoveryPlatform} {keys : List JsString} {s t : ℕ} {u v : JsString}

theorem createdAtTime_generated (isPrefixed : Bool) (hpos : 0 < t) (hmax : t ≤ MAX_DATE_MS)
    (bytes : Fin 4 → UInt8) :
    CreatedAtTime P (shapePrefix isPrefixed ++ generateRecoveryManifestId t bytes) t := by
  refine ⟨hmax, ?_⟩
  cases isPrefixed with
  | true => exact createdAt_recGenerated hpos hmax bytes
  | false => exact createdAt_generated bytes (isoTime_eq hpos hmax)

theorem createdAtTime_ulid (isPrefixed : Bool) (hpos : 0 < t) (hmax : t ≤ MAX_DATE_MS)
    (hulid : IsUlidOf t u) (hhex : ¬ HexAfterRec (shapePrefix isPrefixed ++ u)) :
    CreatedAtTime P (shapePrefix isPrefixed ++ u) t := by
  refine ⟨hmax, ?_⟩
  cases isPrefixed with
  | true => exact createdAt_recUlid hulid hpos hmax hhex
  | false => exact createdAt_ulid hulid hpos hmax

theorem mem_toBase36 {c : UInt16} (hc : c ∈ toBase36 t) : c ∈ base36Alphabet := by
  have hall : ∀ d < 36, digit d ∈ base36Alphabet := by decide
  obtain ⟨d, hd, rfl⟩ := exists_digit_natText (by omega) hc
  exact hall d hd

theorem ordered_of_all {digits : List UInt16} (h : digits.all (fun c => value c < base &&
      digits.all fun d => !decide (c < d) || decide (value c < value d)) = true) :
    (∀ c ∈ digits, value c < base) ∧ ∀ c ∈ digits, ∀ d ∈ digits, c < d → value c < value d := by
  simp only [all_eq_true, Bool.and_eq_true, Bool.or_eq_true, Bool.not_eq_true',
    decide_eq_true_eq, decide_eq_false_iff_not] at h
  constructor
  · exact fun c hc => (h c hc).1
  · exact fun c hc d hd hlt => ((h c hc).2 d hd).resolve_left (not_not.mpr hlt)

/-- The digits of base 36 are in the order of their values. -/
theorem base36_order : (∀ c ∈ base36Alphabet, (base36Value c).getD 0 < 36) ∧
    ∀ c ∈ base36Alphabet, ∀ d ∈ base36Alphabet, c < d →
      (base36Value c).getD 0 < (base36Value d).getD 0 := by
  have hall : base36Alphabet.all (fun c => (base36Value c).getD 0 < 36 &&
      base36Alphabet.all fun d => !decide (c < d) ||
        decide ((base36Value c).getD 0 < (base36Value d).getD 0)) = true := by
    decide
  exact ordered_of_all hall

/-- So are those of base 32 in letters of one case. -/
theorem crockford_order : ∀ isUpper : Bool,
    (∀ c ∈ if isUpper then upperCrockford else CROCKFORD_BASE32, (crockfordValue c).getD 0 < 32) ∧
    ∀ c ∈ if isUpper then upperCrockford else CROCKFORD_BASE32,
      ∀ d ∈ if isUpper then upperCrockford else CROCKFORD_BASE32, c < d →
        (crockfordValue c).getD 0 < (crockfordValue d).getD 0 := by
  have hall : ∀ alphabet ∈ [upperCrockford, CROCKFORD_BASE32],
      alphabet.all (fun c => (crockfordValue c).getD 0 < 32 &&
        alphabet.all fun d => !decide (c < d) ||
          decide ((crockfordValue c).getD 0 < (crockfordValue d).getD 0)) = true := by
    decide
  intro isUpper
  apply ordered_of_all
  apply hall
  cases isUpper <;> simp

/-- Generated ids with timestamps of one length are in the order of their times. -/
theorem generated_le (hlen : (toBase36 s).length = (toBase36 t).length)
    {bytes bytes' : Fin 4 → UInt8}
    (hle : JsString.le (generateRecoveryManifestId s bytes)
      (generateRecoveryManifestId t bytes') = true) : s ≤ t := by
  rw [generateRecoveryManifestId, generateRecoveryManifestId, append_assoc, append_assoc] at hle
  obtain ⟨hlt, hmono⟩ := base36_order
  have hv := value_le_of_le (m := 0) (n := 0) hlt hmono hlen (fun c hc => mem_toBase36 hc)
    (fun c hc => mem_toBase36 hc) (.inr ⟨rfl, le_of_append_le hlen hle⟩)
  rwa [← textValue, ← textValue, ← parseBase36, ← parseBase36, parseBase36_toBase36,
    parseBase36_toBase36] at hv

/-- ULIDs in letters of one case are in the order of their times. -/
theorem ulid_le {isUpper : Bool} (hu : IsUlidOf s u) (hv : IsUlidOf t v)
    (hcaseU : ∀ c ∈ u, c ∈ if isUpper then upperCrockford else CROCKFORD_BASE32)
    (hcaseV : ∀ c ∈ v, c ∈ if isUpper then upperCrockford else CROCKFORD_BASE32)
    (hle : JsString.le u v = true) : s ≤ t := by
  obtain ⟨hlt, hmono⟩ := crockford_order isUpper
  have hlen : (u.take 10).length = (v.take 10).length := by
    rw [length_take, length_take, hu.1, hv.1]
  have hhead : JsString.le (u.take 10) (v.take 10) = true := by
    rw [← take_append_drop 10 u, ← take_append_drop 10 v] at hle
    exact le_of_append_le hlen hle
  have hvalue := value_le_of_le (m := 0) (n := 0) hlt hmono hlen
    (fun c hc => hcaseU c (mem_of_mem_take hc))
    (fun c hc => hcaseV c (mem_of_mem_take hc)) (.inr ⟨rfl, hhead⟩)
  rwa [← textValue, ← textValue, ← decodeCrockfordTimestamp, ← decodeCrockfordTimestamp, hu.2.2,
    hv.2.2] at hvalue

/-- Within one shape the larger string is never the older manifest. -/
theorem notNewer_of_hasShape {shape : ManifestShape} (hu : HasShape shape u)
    (hv : HasShape shape v) (hle : JsString.le u v = true) : NotNewer P u v := by
  intro a b ha hb
  cases shape with
  | generated isPrefixed digits =>
    obtain ⟨s, bytes, hspos, hsmax, hsdig, rfl⟩ := hu
    obtain ⟨t, bytes', htpos, htmax, htdig, rfl⟩ := hv
    rw [ha.unique (createdAtTime_generated isPrefixed hspos hsmax bytes),
      hb.unique (createdAtTime_generated isPrefixed htpos htmax bytes')]
    rw [le_append_left_iff] at hle
    exact generated_le (hsdig.trans htdig.symm) hle
  | ulid isPrefixed isUpper =>
    obtain ⟨s, u, hspos, hsmax, hsulid, hscase, hshex, rfl⟩ := hu
    obtain ⟨t, v, htpos, htmax, htulid, htcase, hthex, rfl⟩ := hv
    rw [ha.unique (createdAtTime_ulid isPrefixed hspos hsmax hsulid hshex),
      hb.unique (createdAtTime_ulid isPrefixed htpos htmax htulid hthex)]
    rw [le_append_left_iff] at hle
    exact ulid_le hsulid htulid hscase htcase hle

/-- Newest means newest if and only if the order of the stored ids as strings follows the times
that they encode; it does for ids of one shape. -/
theorem newestMeansNewest_iff (platform : RecoveryPlatform) (keys : List JsString)
    (reads : RecoveryAuditReads) (options : RecoveryStorageAuditOptions) :
    (NewestMeansNewest platform keys reads options ↔ TimesFollowIds platform keys) ∧
      ∀ shape, (∀ manifestId ∈ listRecoveryManifestIds platform keys, HasShape shape manifestId) →
        NewestMeansNewest platform keys reads options := by
  refine ⟨newestMeansNewest_iff_follow, ?_⟩
  intro shape hshape
  refine newestMeansNewest_iff_follow.mpr ?_
  intro u hu v hv hle
  exact notNewer_of_hasShape (hshape u hu) (hshape v hv) hle

def olderManifestId : JsString := recPrefix ++ generateRecoveryManifestId 1600000000000 fun _ => 0

def newerManifestId : JsString := generateRecoveryManifestId 1700000000000 fun _ => 0

/-- A prefixed id of the year 2020 is listed before an id of 2023 without the prefix. -/
theorem prefixed_manifest_taken_for_newest :
    ¬ ∀ (keys : List JsString) (reads : RecoveryAuditReads) (options : RecoveryStorageAuditOptions),
      NewestMeansNewest asciiPlatform keys reads options := by
  intro h
  have hfol := newestMeansNewest_iff_follow.mp
    (h [olderManifestId, newerManifestId] ⟨fun _ => none, false, none, true⟩ {})
  have holder : CreatedAtTime asciiPlatform olderManifestId 1600000000000 :=
    createdAtTime_generated true (by decide) (by decide) _
  have hnewer : CreatedAtTime asciiPlatform newerManifestId 1700000000000 :=
    createdAtTime_generated false (by decide) (by decide) _
  have hlis : ∀ manifestId ∈ [olderManifestId, newerManifestId],
      (createdAtFromRecoveryManifestId asciiPlatform manifestId).isSome →
        manifestId ∈ listRecoveryManifestIds asciiPlatform [olderManifestId, newerManifestId] := by
    intro manifestId hmem hs
    rw [listRecoveryManifestIds, mem_reverse, mem_insertionSort, mem_filter]
    exact ⟨hmem, hs⟩
  have hle : JsString.le newerManifestId olderManifestId = true := by decide
  have hlate := hfol newerManifestId
    (hlis _ (mem_cons_of_mem _ mem_cons_self) (by rw [hnewer.2]; rfl))
    olderManifestId (hlis _ mem_cons_self (by rw [holder.2]; rfl)) hle _ _ hnewer holder
  omega

end Shapes

end Kaos.Server
