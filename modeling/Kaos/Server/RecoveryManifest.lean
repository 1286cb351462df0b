import Kaos.Lib.Sha256
import Kaos.Server.RecoveryState

/-! Manifest ids, the times they encode, and which manifests retention keeps. -/
namespace Kaos.Server

open Kaos.Lib List

def RECOVERY_V2_PREFIX : JsString := js "v2"

def FILE_HISTORY_KIND : JsString := js "file-history"

def RECOVERY_SCHEMA_VERSION : ℕ := 3

/-- The last millisecond a `Date` can hold. -/
def MAX_DATE_MS : ℕ := 8640000000000000

def MS_PER_DAY : ℕ := 86400000

/-- Year, month and day of a day counted from the first of January 1970. -/
def civilFromDays (days : ℕ) : ℕ × ℕ × ℕ :=
  let shifted := days + 719468
  let era := shifted / 146097
  let dayOfEra := shifted % 146097
  let yearOfEra := (dayOfEra - dayOfEra / 1460 + dayOfEra / 36524 - dayOfEra / 146096) / 365
  let dayOfYear := dayOfEra - (365 * yearOfEra + yearOfEra / 4 - yearOfEra / 100)
  let monthFromMarch := (5 * dayOfYear + 2) / 153
  let month := if monthFromMarch < 10 then monthFromMarch + 3 else monthFromMarch - 9
  (yearOfEra + era * 400 + (if month ≤ 2 then 1 else 0), month,
    dayOfYear - (153 * monthFromMarch + 2) / 5 + 1)

/-- `Date.UTC(year, month - 1, 1)`, whose month may lie outside the year. -/
def utcMonthStart (year month : ℤ) : ℤ :=
  let months := year * 12 + (month - 1)
  let fromMarch := months - 2
  let marchYear := fromMarch / 12
  let monthFromMarch := fromMarch % 12
  let era := marchYear / 400
  let yearOfEra := marchYear % 400
  let dayOfYear := (153 * monthFromMarch + 2) / 5
  let dayOfEra := yearOfEra * 365 + yearOfEra / 4 - yearOfEra / 100 + dayOfYear
  (era * 146097 + dayOfEra - 719468) * MS_PER_DAY

/-- Decimal digits, with zeros in front up to a width. -/
def padded (width n : ℕ) : JsString :=
  List.replicate (width - (digitsText 10 n).length) 48 ++ digitsText 10 n

/-- `Date.toISOString`; a year above 9999 has six digits and a sign. -/
def toISOString (ms : ℕ) : JsString :=
  let (year, month, day) := civilFromDays (ms / MS_PER_DAY)
  let rest := ms % MS_PER_DAY
  (if year ≤ 9999 then padded 4 year else js "+" ++ padded 6 year) ++ js "-" ++ padded 2 month ++
    js "-" ++ padded 2 day ++ js "T" ++ padded 2 (rest / 3600000) ++ js ":" ++
    padded 2 (rest / 60000 % 60) ++ js ":" ++ padded 2 (rest / 1000 % 60) ++ js "." ++
    padded 3 (rest % 1000) ++ js "Z"

def toBase36 (n : ℕ) : JsString := natText 36 n

def hexByte (byte : UInt8) : JsString := [digit (byte.toNat / 16), digit (byte.toNat % 16)]

def generateRecoveryManifestId (now : ℕ) (bytes : Fin 4 → UInt8) : JsString :=
  toBase36 now ++ js "-" ++ (List.ofFn bytes).flatMap hexByte

/-- The value of a letter or digit in base 36, in either case. -/
def base36Value (c : UInt16) : Option ℕ :=
  if 48 ≤ c ∧ c ≤ 57 then some (c.toNat - 48)
  else if 97 ≤ c ∧ c ≤ 122 then some (c.toNat - 87)
  else if 65 ≤ c ∧ c ≤ 90 then some (c.toNat - 55)
  else none

def isBase36 (c : UInt16) : Bool := (base36Value c).isSome

/-- `[0-9a-f]` in either case -/
def isHexDigit (c : UInt16) : Bool := (base36Value c).any (· < 16)

/-- `Number.parseInt(s, 36)` on letters and digits. -/
def parseBase36 (s : JsString) : ℕ := textValue 36 (fun c => (base36Value c).getD 0) s

/-- What follows `rec-` in any case. -/
def afterRec (s : JsString) : Option JsString :=
  if JsString.toLowerCase (s.take 4) = js "rec-" ∧ (s.take 4).all (· < 128) then some (s.drop 4)
  else none

/-- `([0-9a-z]+)-([0-9a-f]{8,})` on the whole string: the first group. -/
def legacyGroup (s : JsString) : Option JsString :=
  let group := s.takeWhile isBase36
  match s.drop group.length with
  | dash :: suffix =>
    if dash = 45 ∧ group ≠ [] ∧ 8 ≤ suffix.length ∧ suffix.all isHexDigit then some group else none
  | [] => none

/-- The optional prefix is tried first. -/
def legacyMatch (manifestId : JsString) : Option JsString :=
  ((afterRec manifestId).bind legacyGroup).or (legacyGroup manifestId)

def CROCKFORD_BASE32 : JsString := js "0123456789abcdefghjkmnpqrstvwxyz"

/-- A character of the class `[0-9a-hj-km-np-tv-z]`, in either case. -/
def crockfordValue (c : UInt16) : Option ℕ :=
  CROCKFORD_BASE32.findIdx? (· = if 65 ≤ c ∧ c ≤ 90 then c + 32 else c)

def ulidMatch (manifestId : JsString) : Option JsString :=
  let body := (afterRec manifestId).getD manifestId
  if body.length = 26 ∧ body.all fun c => (crockfordValue c).isSome then some body else none

def decodeCrockfordTimestamp (s : JsString) : ℕ :=
  textValue 32 (fun c => (crockfordValue c).getD 0) s

/-- A time that is a safe integer above zero and in the range of `Date`. -/
def isoTime (ms : ℕ) : Option JsString :=
  if 0 < ms ∧ ms ≤ MAX_DATE_MS then some (toISOString ms) else none

section Platform

variable (platform : RecoveryPlatform)

def createdAtFromRecoveryManifestId (manifestId : JsString) : Option JsString :=
  ((legacyMatch manifestId).bind fun group => isoTime (parseBase36 group)).or
    (((ulidMatch manifestId).bind fun body => isoTime (decodeCrockfordTimestamp (body.take 10))).or
      (if (js "rec-").isPrefixOf manifestId then
        (platform.toPositiveInteger (manifestId.drop 4)).bind isoTime
      else none))

/-- Keys under the manifest prefix whose id is one, the largest id first. -/
def listRecoveryManifestIds (keys : List JsString) : List JsString :=
  ((keys.filter fun id => (createdAtFromRecoveryManifestId platform id).isSome).insertionSort
    fun s t => JsString.le s t = true).reverse

def synthesizeRecoveryManifestIndex (vaultId manifestId : JsString) :
    Option FileHistoryManifestIndex :=
  (createdAtFromRecoveryManifestId platform manifestId).map fun createdAt =>
    { storageVersion := RECOVERY_V2_PREFIX
      manifestId
      vaultId
      kind := FILE_HISTORY_KIND
      createdAt
      day := createdAt.take 10
      reason := .automatic
      pinned := false
      changedCount := 0
      contentHashes := []
      changedEntries := []
      stateHash := []
      manifestHash := []
      crdtSchemaVersion := none }

/-- What a stored manifest index has to show to be used. -/
def isRecoveryManifestIndexOf (vaultId manifestId : JsString) (index : FileHistoryManifestIndex) :
    Bool :=
  index.storageVersion = RECOVERY_V2_PREFIX ∧ index.kind = FILE_HISTORY_KIND ∧
    index.vaultId = vaultId ∧ index.manifestId = manifestId

/-- The checks of `decodeRecoveryManifestObject` on what was parsed. -/
def decodeRecoveryManifest (manifest : FileHistoryManifest) : Option FileHistoryManifest :=
  if manifest.schemaVersion = RECOVERY_SCHEMA_VERSION ∧
      manifest.storageVersion = RECOVERY_V2_PREFIX ∧ manifest.kind = FILE_HISTORY_KIND ∧
      manifest.manifestHash ≠ [] ∧
      platform.sha256Hex (platform.stringifyManifest { manifest with manifestHash := [] }) =
        manifest.manifestHash
  then some manifest else none

/-- Newest first, as `localeCompare` orders the creation times. -/
def sortByCreatedAt (manifests : List FileHistoryManifestIndex) : List FileHistoryManifestIndex :=
  manifests.insertionSort fun a b => platform.localeLe b.createdAt a.createdAt = true

structure RecoveryRetentionPolicy where
  keepAllMs : ℕ
  keepDailyMs : ℕ
  keepMonthlyMonths : ℕ

def DEFAULT_RECOVERY_RETENTION : RecoveryRetentionPolicy where
  keepAllMs := 30 * 24 * 60 * 60 * 1000
  keepDailyMs := 365 * 24 * 60 * 60 * 1000
  keepMonthlyMonths := 60

/-- The loop of `selectRecoveryRetention`: what is kept and pruned and the days and months seen. -/
structure RetentionScan where
  keep : List FileHistoryManifestIndex := []
  prune : List FileHistoryManifestIndex := []
  seenDays : List JsString := []
  seenMonths : List JsString := []

def RetentionScan.kept (scan : RetentionScan) (manifest : FileHistoryManifestIndex) :
    RetentionScan := { scan with keep := scan.keep ++ [manifest] }

def RetentionScan.pruned (scan : RetentionScan) (manifest : FileHistoryManifestIndex) :
    RetentionScan := { scan with prune := scan.prune ++ [manifest] }

/-- The first manifest of a day or month is kept. -/
def firstOf (seen : List JsString) (period : JsString) : Bool := ¬ seen.contains period

def manifestDay (manifest : FileHistoryManifestIndex) : JsString :=
  if manifest.day = [] then manifest.createdAt.take 10 else manifest.day

variable (policy : RecoveryRetentionPolicy) (now : ℕ)

def monthlyCutoff : ℤ :=
  let (year, month, _) := civilFromDays (now / MS_PER_DAY)
  utcMonthStart year (month - policy.keepMonthlyMonths)

def scanManifest (latestId : Option JsString) (scan : RetentionScan)
    (manifest : FileHistoryManifestIndex) : RetentionScan :=
  if manifest.storageVersion ≠ RECOVERY_V2_PREFIX then scan.kept manifest
  else if latestId = some manifest.manifestId ∨ manifest.pinned ∨ manifest.reason ≠ .automatic then
    scan.kept manifest
  else match platform.getTime manifest.createdAt with
    | none => scan.kept manifest
    | some created =>
      if (now : ℤ) - created ≤ policy.keepAllMs then scan.kept manifest
      else if (now : ℤ) - created ≤ policy.keepDailyMs then
        if firstOf scan.seenDays (manifestDay manifest) then
          { scan.kept manifest with seenDays := manifestDay manifest :: scan.seenDays }
        else scan.pruned manifest
      else if monthlyCutoff policy now ≤ created then
        if firstOf scan.seenMonths (manifest.createdAt.take 7) then
          { scan.kept manifest with seenMonths := manifest.createdAt.take 7 :: scan.seenMonths }
        else scan.pruned manifest
      else scan.pruned manifest

def selectRecoveryRetention (manifests : List FileHistoryManifestIndex) : RetentionScan :=
  let sorted := sortByCreatedAt platform manifests
  sorted.foldl (scanManifest platform policy now (sorted.head?.map (·.manifestId))) {}

/-- How a record fares by its own fields. -/
inductive RetentionAge
  | recent | daily | monthly | expired
  deriving DecidableEq

def retentionAge (latestId : Option JsString) (manifest : FileHistoryManifestIndex) :
    RetentionAge :=
  if manifest.storageVersion ≠ RECOVERY_V2_PREFIX ∨ latestId = some manifest.manifestId ∨
    manifest.pinned ∨ manifest.reason ≠ .automatic
  then .recent
  else match platform.getTime manifest.createdAt with
    | none => .recent
    | some created =>
      if (now : ℤ) - created ≤ policy.keepAllMs then .recent
      else if (now : ℤ) - created ≤ policy.keepDailyMs then .daily
      else if monthlyCutoff policy now ≤ created then .monthly
      else .expired

/-- A record goes when it is too old, or when a newer one stands for its day or month. -/
def Outlived (newer : FileHistoryManifestIndex → Prop) (latestId : Option JsString)
    (manifest : FileHistoryManifestIndex) : Prop :=
  match retentionAge platform policy now latestId manifest with
  | .recent => False
  | .daily => ∃ other, newer other ∧ retentionAge platform policy now latestId other = .daily ∧
    manifestDay other = manifestDay manifest
  | .monthly => ∃ other, newer other ∧ retentionAge platform policy now latestId other = .monthly ∧
    other.createdAt.take 7 = manifest.createdAt.take 7
  | .expired => True

/-- The records that the age rules prune from a list. -/
def Prunes (manifests : List FileHistoryManifestIndex) (manifest : FileHistoryManifestIndex) :
    Prop :=
  ∃ newer older, sortByCreatedAt platform manifests = newer ++ manifest :: older ∧
    Outlived platform policy now (· ∈ newer)
      ((sortByCreatedAt platform manifests).head?.map (·.manifestId)) manifest

/-- The records they keep. -/
def Keeps (manifests : List FileHistoryManifestIndex) (manifest : FileHistoryManifestIndex) :
    Prop :=
  ∃ newer older, sortByCreatedAt platform manifests = newer ++ manifest :: older ∧
    ¬ Outlived platform policy now (· ∈ newer)
      ((sortByCreatedAt platform manifests).head?.map (·.manifestId)) manifest

end Platform

section Scan

variable {platform : RecoveryPlatform} {policy : RecoveryRetentionPolicy} {now : ℕ}
  {latestId : Option JsString} {manifests newer : List FileHistoryManifestIndex}
  {manifest : FileHistoryManifestIndex} {scan : RetentionScan}

theorem mem_listRecoveryManifestIds {id : JsString} {ids : List JsString} :
    id ∈ listRecoveryManifestIds platform ids ↔
      id ∈ ids ∧ (createdAtFromRecoveryManifestId platform id).isSome = true := by
  rw [listRecoveryManifestIds, mem_reverse, (perm_insertionSort _ _).mem_iff, mem_filter]

theorem scanManifest_eq : scanManifest platform policy now latestId scan manifest =
    match retentionAge platform policy now latestId manifest with
    | .recent => scan.kept manifest
    | .daily =>
      if firstOf scan.seenDays (manifestDay manifest) then
        { scan.kept manifest with seenDays := manifestDay manifest :: scan.seenDays }
      else scan.pruned manifest
    | .monthly =>
      if firstOf scan.seenMonths (manifest.createdAt.take 7) then
        { scan.kept manifest with seenMonths := manifest.createdAt.take 7 :: scan.seenMonths }
      else scan.pruned manifest
    | .expired => scan.pruned manifest := by
  unfold scanManifest retentionAge
  by_cases hver : manifest.storageVersion ≠ RECOVERY_V2_PREFIX
  · rw [if_pos hver, if_pos (.inl hver)]
  by_cases hh : latestId = some manifest.manifestId ∨ manifest.pinned = true ∨
      manifest.reason ≠ .automatic
  · rw [if_neg hver, if_pos hh, if_pos (.inr hh)]
  rw [if_neg hver, if_neg hh, if_neg (not_or.mpr ⟨hver, hh⟩)]
  cases platform.getTime manifest.createdAt with
  | none => rfl
  | some created =>
    dsimp only
    split_ifs <;> rfl

theorem firstOf_eq_true {seen : List JsString} {period : JsString} :
    firstOf seen period = true ↔ period ∉ seen := by
  rw [firstOf, decide_eq_true_eq, contains_iff_mem]

/-- What the loop has gathered after some records. -/
structure Scanned (platform : RecoveryPlatform) (policy : RecoveryRetentionPolicy) (now : ℕ)
    (latestId : Option JsString) (newer : List FileHistoryManifestIndex) (scan : RetentionScan) :
    Prop where
  days : ∀ day, day ∈ scan.seenDays ↔ ∃ other ∈ newer,
    retentionAge platform policy now latestId other = .daily ∧ manifestDay other = day
  months : ∀ month, month ∈ scan.seenMonths ↔ ∃ other ∈ newer,
    retentionAge platform policy now latestId other = .monthly ∧ other.createdAt.take 7 = month
  keep : ∀ record, record ∈ scan.keep ↔ ∃ before after, newer = before ++ record :: after ∧
    ¬ Outlived platform policy now (· ∈ before) latestId record
  prune : ∀ record, record ∈ scan.prune ↔ ∃ before after, newer = before ++ record :: after ∧
    Outlived platform policy now (· ∈ before) latestId record

theorem exists_split_concat {P : List FileHistoryManifestIndex → FileHistoryManifestIndex → Prop}
    {record : FileHistoryManifestIndex} :
    (∃ before after, newer ++ [manifest] = before ++ record :: after ∧ P before record) ↔
      (∃ before after, newer = before ++ record :: after ∧ P before record) ∨
        record = manifest ∧ P newer manifest := by
  constructor
  · rintro ⟨before, after, heq, h⟩
    rcases eq_nil_or_concat after with rfl | ⟨after, last, rfl⟩
    · obtain ⟨rfl, hl⟩ := append_inj' heq rfl
      obtain rfl := head_eq_of_cons_eq hl
      exact .inr ⟨rfl, h⟩
    rw [concat_eq_append, ← cons_append, ← append_assoc] at heq
    obtain ⟨rfl, -⟩ := append_inj' heq rfl
    exact .inl ⟨before, after, rfl, h⟩
  · rintro (⟨before, after, rfl, h⟩ | ⟨rfl, h⟩)
    · exact ⟨before, after ++ [manifest], by simp, h⟩
    · exact ⟨newer, [], rfl, h⟩

theorem Scanned.kept (h : Scanned platform policy now latestId newer scan)
    (hage : ¬ Outlived platform policy now (· ∈ newer) latestId manifest)
    {seenDays seenMonths : List JsString}
    (hdays : ∀ day, day ∈ seenDays ↔ day ∈ scan.seenDays ∨
      retentionAge platform policy now latestId manifest = .daily ∧ manifestDay manifest = day)
    (hmon : ∀ month, month ∈ seenMonths ↔ month ∈ scan.seenMonths ∨
      retentionAge platform policy now latestId manifest = .monthly ∧
        manifest.createdAt.take 7 = month) :
    Scanned platform policy now latestId (newer ++ [manifest])
      ⟨scan.keep ++ [manifest], scan.prune, seenDays, seenMonths⟩ where
  days := fun day => by simp [hdays, h.days, or_and_right, exists_or]
  months := fun month => by simp [hmon, h.months, or_and_right, exists_or]
  keep := fun record => by
    rw [exists_split_concat (P := fun before record =>
      ¬ Outlived platform policy now (· ∈ before) latestId record), ← h.keep, mem_append, mem_singleton]
    exact or_congr_right ⟨fun heq => ⟨heq, hage⟩, And.left⟩
  prune := fun record => by
    rw [exists_split_concat, ← h.prune]
    exact ⟨.inl, fun hor => hor.resolve_right fun hnew => hage hnew.2⟩

theorem Scanned.pruned (h : Scanned platform policy now latestId newer scan)
    (hage : Outlived platform policy now (· ∈ newer) latestId manifest) :
    Scanned platform policy now latestId (newer ++ [manifest]) (scan.pruned manifest) where
  days := fun day => by
    have hold : retentionAge platform policy now latestId manifest = .daily ∧
        manifestDay manifest = day → ∃ other ∈ newer,
          retentionAge platform policy now latestId other = .daily ∧ manifestDay other = day := by
      rintro ⟨hdaily, rfl⟩
      simpa [Outlived, hdaily] using hage
    simp only [mem_append, mem_singleton, or_and_right, exists_or, exists_eq_left]
    exact (h.days day).trans ⟨.inl, fun hor => hor.elim id hold⟩
  months := fun month => by
    have hold : retentionAge platform policy now latestId manifest = .monthly ∧
        manifest.createdAt.take 7 = month → ∃ other ∈ newer,
          retentionAge platform policy now latestId other = .monthly ∧
            other.createdAt.take 7 = month := by
      rintro ⟨hmon, rfl⟩
      simpa [Outlived, hmon] using hage
    simp only [mem_append, mem_singleton, or_and_right, exists_or, exists_eq_left]
    exact (h.months month).trans ⟨.inl, fun hor => hor.elim id hold⟩
  keep := fun record => by
    rw [exists_split_concat (P := fun before record =>
      ¬ Outlived platform policy now (· ∈ before) latestId record), ← h.keep]
    exact ⟨.inl, fun hor => hor.resolve_right fun hnew => hnew.2 hage⟩
  prune := fun record => by
    rw [exists_split_concat, ← h.prune, RetentionScan.pruned, mem_append, mem_singleton]
    exact or_congr_right ⟨fun heq => ⟨heq, hage⟩, And.left⟩

theorem Scanned.step (manifest : FileHistoryManifestIndex)
    (h : Scanned platform policy now latestId newer scan) :
    Scanned platform policy now latestId (newer ++ [manifest])
      (scanManifest platform policy now latestId scan manifest) := by
  rw [scanManifest_eq]
  cases hage : retentionAge platform policy now latestId manifest with
  | recent =>
    have hout : ¬ Outlived platform policy now (· ∈ newer) latestId manifest := by simp [Outlived, hage]
    exact h.kept hout (by simp [hage]) (by simp [hage])
  | daily =>
    by_cases hday : manifestDay manifest ∈ scan.seenDays
    · have hout : Outlived platform policy now (· ∈ newer) latestId manifest := by
        simpa [Outlived, hage] using (h.days _).mp hday
      rw [if_neg fun hf => firstOf_eq_true.mp hf hday]
      exact h.pruned hout
    have hout : ¬ Outlived platform policy now (· ∈ newer) latestId manifest := by
      simpa [Outlived, hage] using mt (h.days (manifestDay manifest)).mpr hday
    rw [if_pos (firstOf_eq_true.mpr hday)]
    refine h.kept hout (fun day => ?_) fun month => ?_
    · simp [hage, or_comm, eq_comm]
    · simp [hage, RetentionScan.kept]
  | monthly =>
    by_cases hm : manifest.createdAt.take 7 ∈ scan.seenMonths
    · have hout : Outlived platform policy now (· ∈ newer) latestId manifest := by
        simpa [Outlived, hage] using (h.months _).mp hm
      rw [if_neg fun hf => firstOf_eq_true.mp hf hm]
      exact h.pruned hout
    have hout : ¬ Outlived platform policy now (· ∈ newer) latestId manifest := by
      simpa [Outlived, hage] using mt (h.months (manifest.createdAt.take 7)).mpr hm
    rw [if_pos (firstOf_eq_true.mpr hm)]
    refine h.kept hout (fun day => ?_) fun month => ?_
    · simp [hage, RetentionScan.kept]
    · simp [hage, or_comm, eq_comm]
  | expired =>
    have hout : Outlived platform policy now (· ∈ newer) latestId manifest := by simp [Outlived, hage]
    exact h.pruned hout

theorem Scanned.foldl (older : List FileHistoryManifestIndex)
    (h : Scanned platform policy now latestId newer scan) :
    Scanned platform policy now latestId (newer ++ older)
      (older.foldl (scanManifest platform policy now latestId) scan) := by
  induction older generalizing newer scan with
  | nil => rwa [append_nil]
  | cons manifest older ih =>
    have hn := ih (h.step manifest)
    rwa [append_assoc] at hn

theorem scanned_empty : Scanned platform policy now latestId [] {} where
  days := by simp
  months := by simp
  keep := by simp
  prune := by simp

/-- What is pruned is what the rules say. -/
theorem mem_prune : manifest ∈ (selectRecoveryRetention platform policy now manifests).prune ↔
    Prunes platform policy now manifests manifest :=
  (scanned_empty.foldl (sortByCreatedAt platform manifests)).prune manifest

theorem mem_keep : manifest ∈ (selectRecoveryRetention platform policy now manifests).keep ↔
    Keeps platform policy now manifests manifest :=
  (scanned_empty.foldl (sortByCreatedAt platform manifests)).keep manifest

/-- Every manifest is kept or pruned. -/
theorem keeps_or_prunes (h : manifest ∈ manifests) :
    Keeps platform policy now manifests manifest ∨
      Prunes platform policy now manifests manifest := by
  have hso : manifest ∈ sortByCreatedAt platform manifests := (perm_insertionSort _ _).mem_iff.mpr h
  obtain ⟨newer, older, hs⟩ := append_of_mem hso
  by_cases hout : Outlived platform policy now (· ∈ newer)
      ((sortByCreatedAt platform manifests).head?.map (·.manifestId)) manifest
  · exact .inr ⟨newer, older, hs, hout⟩
  · exact .inl ⟨newer, older, hs, hout⟩

end Scan

section Generated

variable {platform : RecoveryPlatform} {now : ℕ} {bytes : Fin 4 → UInt8}

theorem base36Value_digit : ∀ d < 36, base36Value (digit d) = some d := by decide

theorem parseBase36_toBase36 (n : ℕ) : parseBase36 (toBase36 n) = n :=
  textValue_natText (by omega) (fun d hd => by rw [base36Value_digit d hd, Option.getD_some]) n

/-- Only a dash has a dash as its lower case. -/
theorem mem_of_mem_toLowerCase {s : JsString} (h : (45 : UInt16) ∈ JsString.toLowerCase s) :
    (45 : UInt16) ∈ s := by
  obtain ⟨c, hc, hmem⟩ := mem_flatMap.mp h
  unfold JsString.toLowerUnit at hmem
  split_ifs at hmem with hupper hdot hkel
  · rw [mem_singleton] at hmem
    have hnat := congrArg UInt16.toNat hmem
    have hlow := UInt16.le_iff_toNat_le.mp hupper.1
    have hhigh := UInt16.le_iff_toNat_le.mp hupper.2
    simp at hnat hlow hhigh
    omega
  · exact absurd hmem (by decide)
  · exact absurd hmem (by decide)
  · exact (mem_singleton.mp hmem) ▸ hc

theorem legacyGroup_append {group suffix : JsString} (hgroup : group.all isBase36 = true)
    (hne : group ≠ []) (hlen : 8 ≤ suffix.length) (hsuf : suffix.all isHexDigit = true) :
    legacyGroup (group ++ 45 :: suffix) = some group := by
  have htake : (group ++ 45 :: suffix).takeWhile isBase36 = group := by
    rw [takeWhile_append_of_pos (by simpa using hgroup),
      takeWhile_cons_of_neg (by decide), append_nil]
  unfold legacyGroup
  dsimp only
  rw [htake, drop_left]
  exact if_pos ⟨rfl, hne, hlen, hsuf⟩

theorem legacyGroup_eq_none {s : JsString} (h : (45 : UInt16) ∉ s) : legacyGroup s = none := by
  unfold legacyGroup
  dsimp only
  cases hdrop : s.drop (s.takeWhile isBase36).length with
  | nil => rfl
  | cons c rest =>
    have hc : c ∈ s := mem_of_mem_drop (hdrop ▸ mem_cons_self)
    have hdash : c ≠ 45 := fun hdash => h (hdash ▸ hc)
    simp [hdash]

/-- With one dash in it, an id has one reading. -/
theorem legacyMatch_append {group suffix : JsString} (hgroup : group.all isBase36 = true)
    (hne : group ≠ []) (hlen : 8 ≤ suffix.length) (hsuf : suffix.all isHexDigit = true) :
    legacyMatch (group ++ 45 :: suffix) = some group := by
  have hn : (afterRec (group ++ 45 :: suffix)).bind legacyGroup = none := by
    unfold afterRec
    split
    · next hrec =>
      have hdash : (45 : UInt16) ∈ (group ++ 45 :: suffix).take 4 := by
        refine mem_of_mem_toLowerCase ?_
        rw [hrec.1]
        decide
      have hc : (group ++ 45 :: suffix).count 45 = 1 := by
        have hg : group.count 45 = 0 := count_eq_zero.mpr fun hmem =>
          absurd (all_eq_true.mp hgroup 45 hmem) (by decide)
        have hs : suffix.count 45 = 0 := count_eq_zero.mpr fun hmem =>
          absurd (all_eq_true.mp hsuf 45 hmem) (by decide)
        rw [count_append, count_cons_self, hg, hs]
      have hsp := take_append_drop 4 (group ++ 45 :: suffix)
      rw [← hsp, count_append] at hc
      have hpos := count_pos_iff.mpr hdash
      exact legacyGroup_eq_none (count_eq_zero.mp (by omega))
    · rfl
  rw [legacyMatch, hn, legacyGroup_append hgroup hne hlen hsuf, Option.none_or]

theorem isHexDigit_digit : ∀ d < 16, isHexDigit (digit d) = true := by decide

/-- The suffix of a generated id is eight hex digits. -/
theorem hexSuffix (bytes : Fin 4 → UInt8) :
    ((List.ofFn bytes).flatMap hexByte).length = 8 ∧
      ((List.ofFn bytes).flatMap hexByte).all isHexDigit = true := by
  constructor
  · simp [hexByte, List.flatMap, ofFn_succ]
  rw [all_eq_true]
  intro c hc
  obtain ⟨byte, -, hc⟩ := mem_flatMap.mp hc
  have hlt := byte.toNat_lt
  rcases mem_pair.mp hc with rfl | rfl <;> exact isHexDigit_digit _ (by omega)

/-- A generated id is a base 36 time, a dash and eight hex digits. -/
theorem generated_eq (now : ℕ) (bytes : Fin 4 → UInt8) :
    ∃ suffix, generateRecoveryManifestId now bytes = toBase36 now ++ 45 :: suffix ∧
      (toBase36 now).all isBase36 = true ∧ toBase36 now ≠ [] ∧ suffix.length = 8 ∧
      suffix.all isHexDigit = true := by
  refine ⟨(List.ofFn bytes).flatMap hexByte, ?_, ?_, natText_ne_nil, hexSuffix bytes⟩
  · rw [generateRecoveryManifestId, append_assoc]
    rfl
  rw [all_eq_true]
  intro c hc
  obtain ⟨d, hd, rfl⟩ := exists_digit_natText (by omega) hc
  rw [isBase36, base36Value_digit d hd, Option.isSome_some]

/-- A generated id gives its time back. -/
theorem createdAt_generated (bytes : Fin 4 → UInt8) {time : JsString}
    (h : isoTime now = some time) :
    createdAtFromRecoveryManifestId platform (generateRecoveryManifestId now bytes) =
      some time := by
  obtain ⟨suffix, hid, hgroup, hne, hlen, hsuf⟩ := generated_eq now bytes
  rw [createdAtFromRecoveryManifestId, hid, legacyMatch_append hgroup hne hlen.ge hsuf,
    Option.bind_some, parseBase36_toBase36, h, Option.some_or]

end Generated

section Ascii

def jsonString (s : JsString) : JsString := [34] ++ s ++ [34]

def jsonNumber (q : ℚ) : JsString := padded 1 q.floor.toNat

def jsonBool (b : Bool) : JsString := if b then js "true" else js "false"

def jsonArray (values : List JsString) : JsString :=
  js "[" ++ List.intercalate (js ",") values ++ js "]"

/-- An object whose missing fields are left out. -/
def jsonObject (fields : List (String × Option JsString)) : JsString :=
  [123] ++ List.intercalate (js ",") (fields.filterMap fun (name, value) =>
    value.map fun value => jsonString (js name) ++ js ":" ++ value) ++ [125]

def jsonOrNull (value : Option JsString) : JsString := value.getD (js "null")

def jsonState (entry : RecoveryStateEntry) : JsString :=
  jsonObject [("fileId", jsonString entry.fileId), ("path", jsonString entry.path),
    ("contentHash", jsonOrNull (entry.contentHash.map jsonString)),
    ("deleted", jsonBool (entry.deleted = some true)),
    ("size", jsonOrNull (entry.size.map fun n => jsonNumber n)),
    ("mtime", jsonOrNull (entry.mtime.join.map jsonNumber)),
    ("device", jsonOrNull (entry.device.map jsonString))]

def jsonReason : FileHistoryReason → JsString
  | .automatic => js "automatic"
  | .manual => js "manual"
  | .preUpgrade => js "pre-upgrade"
  | .preMigration => js "pre-migration"
  | .preBulkOperation => js "pre-bulk-operation"

def jsonKind : FileHistoryEntryKind → JsString
  | .created => js "created"
  | .modified => js "modified"
  | .renamed => js "renamed"
  | .deleted => js "deleted"
  | .restored => js "restored"

def jsonEntry (entry : FileHistoryEntry) : JsString :=
  jsonObject [("fileId", jsonString entry.fileId), ("kind", jsonString (jsonKind entry.kind)),
    ("path", jsonString entry.path), ("oldPath", entry.oldPath.map jsonString),
    ("newPath", entry.newPath.map jsonString),
    ("contentHash", entry.contentHash.map jsonString),
    ("previousContentHash", entry.previousContentHash.map jsonString),
    ("deleted", entry.deleted.map jsonBool), ("size", entry.size.map fun n => jsonNumber n),
    ("mtime", entry.mtime.map fun n => jsonOrNull (n.map jsonNumber)),
    ("device", entry.device.map jsonString)]

def jsonManifest (manifest : FileHistoryManifest) : JsString :=
  jsonObject [("schemaVersion", jsonNumber manifest.schemaVersion),
    ("storageVersion", jsonString manifest.storageVersion),
    ("manifestId", jsonString manifest.manifestId), ("vaultId", jsonString manifest.vaultId),
    ("kind", jsonString manifest.kind), ("createdAt", jsonString manifest.createdAt),
    ("day", jsonString manifest.day), ("reason", jsonString (jsonReason manifest.reason)),
    ("pinned", jsonBool manifest.pinned), ("changedCount", jsonNumber manifest.changedCount),
    ("contentHashes", jsonArray (manifest.contentHashes.map jsonString)),
    ("changedEntries", jsonArray (manifest.changedEntries.map jsonEntry)),
    ("stateHash", jsonString manifest.stateHash),
    ("crdtSchemaVersion", manifest.crdtSchemaVersion.map fun n => jsonNumber n),
    ("manifestHash", jsonString manifest.manifestHash)]

/-- The platform on printable ASCII strings without quotes and backslashes, ids in lower case and
times as `toISOString` writes them. -/
def asciiPlatform : RecoveryPlatform where
  sha256Hex := sha256Hex
  sha256Hex_length := sha256Hex_length
  localeLe := JsString.le
  stringifyState := fun entries => jsonArray (entries.map jsonState)
  stringifyManifest := jsonManifest
  toPositiveInteger := fun s =>
    if s ≠ [] ∧ s.length < 16 ∧ s.all (fun c => 48 ≤ c ∧ c ≤ 57) then
      some (decimal s)
    else none
  getTime := fun s =>
    if s.length = 24 then
      some (utcMonthStart (decimal (s.take 4)) (decimal ((s.drop 5).take 2)) +
        (decimal ((s.drop 8).take 2) - 1 : ℕ) * MS_PER_DAY +
        decimal ((s.drop 11).take 2) * 3600000 + decimal ((s.drop 14).take 2) * 60000 +
        decimal ((s.drop 17).take 2) * 1000 + decimal ((s.drop 20).take 3))
    else none

theorem asciiPlatform_totalOrder : asciiPlatform.TotalOrder :=
  ⟨JsString.le_total, fun _ _ _ => JsString.le_trans, fun _ _ => JsString.le_antisymm⟩

end Ascii

end Kaos.Server
