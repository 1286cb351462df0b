import Mathlib.Data.Nat.Digits.Lemmas
import Kaos.Server.RecoveryManifest

/-! The time of each format of manifest id, and where an id is read in the wrong format. -/
namespace Kaos.Server

open Kaos.Lib List
open Option (bind_none bind_some getD_some none_or some_inj some_or)

section Calendar

/-- The decimal digits of a number give it back, whatever the zeros in front. -/
theorem decimal_padded (width n : ℕ) : decimal (padded width n) = n := by
  have hzeros (k : ℕ) : decimal (replicate k 48) = 0 := by
    induction k with
    | zero => rfl
    | succ k ih => rw [replicate_succ', decimal, textValue, foldl_append, ← textValue, ← decimal, ih]; rfl
  rw [padded, decimal, textValue, foldl_append, ← textValue, ← decimal, hzeros]
  exact textValue_digitsText (by omega) decimal_digit n

variable {width m n : ℕ}

theorem padded_injective (h : padded width m = padded width n) : m = n := by
  rw [← decimal_padded width m, h, decimal_padded]

theorem length_padded (h : n < 10 ^ width) : (padded width n).length = width := by
  have hle : (Nat.digits 10 n).length ≤ width := (Nat.digits_length_le_iff (by omega) n).mpr h
  simp only [padded, digitsText, length_append, length_replicate, length_map, length_reverse]
  omega

theorem mem_padded {c : UInt16} (h : c ∈ padded width n) : 48 ≤ c ∧ c ≤ 57 := by
  have hdigit : ∀ d < 10, 48 ≤ digit d ∧ digit d ≤ 57 := by decide
  rcases mem_append.mp h with h | h
  · obtain ⟨-, rfl⟩ := mem_replicate.mp h
    exact hdigit 0 (by omega)
  obtain ⟨d, hd, rfl⟩ := exists_digit (by omega) h
  exact hdigit d hd

/-- Texts that end in numbers of one width agree before the number and in it. -/
theorem append_padded_inj {s t : JsString} (hm : m < 10 ^ width)
    (hn : n < 10 ^ width) (h : s ++ padded width m = t ++ padded width n) : s = t ∧ m = n := by
  obtain ⟨hst, hmn⟩ := append_inj' h (by rw [length_padded hm, length_padded hn])
  exact ⟨hst, padded_injective hmn⟩

/-- Each day of an era of four centuries is in a year of it, and comes from year and day. -/
theorem dayOfEra_eq {day year : ℕ} (hday : day < 146097)
    (hyear : year = (day - day / 1460 + day / 36524 - day / 146096) / 365) :
    year < 400 ∧ 365 * year + year / 4 - year / 100 ≤ day ∧
      day ≤ 365 + (365 * year + year / 4 - year / 100) := by
  by_cases hl : day = 146096
  · subst hl
    omega
  obtain ⟨k, hk⟩ : ∃ k, k = day / 1460 := ⟨_, rfl⟩
  obtain ⟨c, hc⟩ : ∃ c, c = day / 36524 := ⟨_, rfl⟩
  rw [← hk, ← hc, Nat.div_eq_of_lt (by omega : day < 146096)] at hyear
  have hk' : 1460 * k ≤ day ∧ day < 1460 * k + 1460 := by omega
  have hc' : 36524 * c ≤ day ∧ day < 36524 * c + 36524 := by omega
  clear hk hc
  have hc4 : c = 0 ∨ c = 1 ∨ c = 2 ∨ c = 3 := by omega
  have hlow : 36500 * c ≤ day - k + c := by
    clear hyear
    rcases hc4 with rfl | rfl | rfl | rfl <;> omega
  have hhigh : day - k + c < 36500 * c + 36500 := by
    clear hyear
    rcases hc4 with rfl | rfl | rfl | rfl <;> omega
  have hcen : 100 * c ≤ year ∧ year < 100 * c + 100 := by omega
  have hleap : year ≤ 4 * k + 3 ∧ 4 * k ≤ year + 1 := by omega
  have hsum : 365 * year ≤ day - k + c ∧ day - k + c < 365 * year + 365 := by omega
  refine ⟨by omega, ?_, ?_⟩
  · have h4 : year / 4 ≤ k := by omega
    have h100 : c ≤ year / 100 := by omega
    omega
  have h4 : k ≤ year / 4 + 1 := by omega
  have h100 : year / 100 ≤ c := by omega
  omega

/-- The months from March that give one month are one. -/
theorem fromMarch_injective (hm : m ≤ 11) (hn : n ≤ 11)
    (h : (if m < 10 then m + 3 else m - 9) = if n < 10 then n + 3 else n - 9) : m = n := by
  split_ifs at h <;> omega

theorem monthDay_injective {p q : ℕ} (hp : p ≤ 365) (hq : q ≤ 365)
    (hm : m = (5 * p + 2) / 153) (hn : n = (5 * q + 2) / 153)
    (hmo : (if m < 10 then m + 3 else m - 9) = if n < 10 then n + 3 else n - 9)
    (hday : p - (153 * m + 2) / 5 + 1 = q - (153 * n + 2) / 5 + 1) : p = q ∧ m = n := by
  have hmn := fromMarch_injective (by omega) (by omega) hmo
  subst hmn
  exact ⟨by omega, rfl⟩

theorem eraDay_injective {a b x y p q e f : ℕ} (ha : a < 146097) (hb : b < 146097)
    (hx : x = (a - a / 1460 + a / 36524 - a / 146096) / 365)
    (hy : y = (b - b / 1460 + b / 36524 - b / 146096) / 365)
    (hp : p = a - (365 * x + x / 4 - x / 100)) (hq : q = b - (365 * y + y / 4 - y / 100))
    (hyear : x + e * 400 = y + f * 400) (hpq : p = q) : a = b ∧ e = f := by
  obtain ⟨hlt, hle, -⟩ := dayOfEra_eq ha hx
  obtain ⟨hlt', hle', -⟩ := dayOfEra_eq hb hy
  clear hx hy
  obtain rfl : e = f := by omega
  obtain rfl : x = y := by omega
  exact ⟨by omega, rfl⟩

/-- The date determines the day. -/
theorem civilFromDays_injective : Function.Injective civilFromDays := by
  intro a b h
  simp only [civilFromDays, Prod.mk.injEq] at h
  obtain ⟨hyear, hm, hday⟩ := h
  obtain ⟨x, hx⟩ : ∃ x, x = (a + 719468) % 146097 := ⟨_, rfl⟩
  obtain ⟨y, hy⟩ : ∃ y, y = (b + 719468) % 146097 := ⟨_, rfl⟩
  have hxlt : x < 146097 := hx ▸ Nat.mod_lt _ (by omega)
  have hylt : y < 146097 := hy ▸ Nat.mod_lt _ (by omega)
  rw [← hx, ← hy] at hyear hm hday
  obtain ⟨-, -, hp⟩ := dayOfEra_eq hxlt rfl
  obtain ⟨-, -, hq⟩ := dayOfEra_eq hylt rfl
  obtain ⟨hinY, hfrom⟩ :=
    monthDay_injective (Nat.sub_le_of_le_add hp) (Nat.sub_le_of_le_add hq) rfl rfl hm hday
  rw [hm, Nat.add_right_cancel_iff] at hyear
  obtain ⟨hxy, hera⟩ := eraDay_injective hxlt hylt rfl rfl rfl rfl hyear hinY
  omega

/-- Month and day of a date have two digits, and years up to the last date have six. -/
theorem civilFromDays_bounds {days : ℕ} (h : days ≤ MAX_DATE_MS / MS_PER_DAY) :
    (civilFromDays days).1 < 10 ^ 6 ∧ (civilFromDays days).2.1 < 10 ^ 2 ∧
      (civilFromDays days).2.2 < 10 ^ 2 := by
  have hdays : days ≤ 100000000 := h
  simp only [civilFromDays]
  obtain ⟨x, hx⟩ : ∃ x, x = (days + 719468) % 146097 := ⟨_, rfl⟩
  have hxlt : x < 146097 := hx ▸ Nat.mod_lt _ (by omega)
  rw [← hx]
  obtain ⟨hyear, -, hinY⟩ := dayOfEra_eq hxlt rfl
  refine ⟨?_, ?_, ?_⟩
  · clear hinY
    have hera : (days + 719468) / 146097 ≤ 700 := by omega
    split_ifs <;> omega
  · have hfrom := Nat.sub_le_of_le_add hinY
    split <;> omega
  · omega

/-- A year is read back from its text, with a sign or without. -/
theorem yearText_injective (h : (if m ≤ 9999 then padded 4 m else js "+" ++ padded 6 m) =
      if n ≤ 9999 then padded 4 n else js "+" ++ padded 6 n) : m = n := by
  have hsign : ∀ m n, padded 4 m ≠ js "+" ++ padded 6 n := by
    intro m n h
    have hplus : (43 : UInt16) ∈ padded 4 m := by
      rw [h]
      exact mem_cons_self
    exact absurd (mem_padded hplus).1 (by decide)
  split_ifs at h with hm hn hn
  · exact padded_injective h
  · exact (hsign _ _ h).elim
  · exact (hsign _ _ h.symm).elim
  · exact padded_injective (append_cancel_left h)

/-- Two times of the range of `Date` with one text are one. -/
theorem toISOString_injective {s t : ℕ} (hs : s ≤ MAX_DATE_MS) (ht : t ≤ MAX_DATE_MS)
    (h : toISOString s = toISOString t) : s = t := by
  obtain ⟨-, hmon, hdayS⟩ := civilFromDays_bounds (Nat.div_le_div_right hs)
  obtain ⟨-, hmonthT, hdayT⟩ := civilFromDays_bounds (Nat.div_le_div_right ht)
  have hr : ∀ ms : ℕ, ms % MS_PER_DAY / 3600000 < 10 ^ 2 ∧
      ms % MS_PER_DAY / 60000 % 60 < 10 ^ 2 ∧ ms % MS_PER_DAY / 1000 % 60 < 10 ^ 2 ∧
      ms % MS_PER_DAY % 1000 < 10 ^ 3 := by
    intro ms
    have hlt : ms % 86400000 < 86400000 := Nat.mod_lt _ (by omega)
    change ms % 86400000 / 3600000 < 10 ^ 2 ∧ ms % 86400000 / 60000 % 60 < 10 ^ 2 ∧
      ms % 86400000 / 1000 % 60 < 10 ^ 2 ∧ ms % 86400000 % 1000 < 10 ^ 3
    omega
  obtain ⟨hhourS, hmin, hsec, hmil⟩ := hr s
  obtain ⟨hhourT, hminuteT, hsecondT, hmilliT⟩ := hr t
  simp only [toISOString] at h
  obtain ⟨h, hmilli⟩ := append_padded_inj hmil hmilliT (append_cancel_right h)
  obtain ⟨h, hsecond⟩ := append_padded_inj hsec hsecondT (append_cancel_right h)
  obtain ⟨h, hminute⟩ := append_padded_inj hmin hminuteT (append_cancel_right h)
  obtain ⟨h, hhour⟩ := append_padded_inj hhourS hhourT (append_cancel_right h)
  obtain ⟨h, hday⟩ := append_padded_inj hdayS hdayT (append_cancel_right h)
  obtain ⟨h, hm⟩ := append_padded_inj hmon hmonthT (append_cancel_right h)
  have hyear := yearText_injective (append_cancel_right h)
  have hdays := civilFromDays_injective (Prod.ext hyear (Prod.ext hm hday))
  change s / 86400000 = t / 86400000 at hdays
  change s % 86400000 / 3600000 = t % 86400000 / 3600000 at hhour
  change s % 86400000 / 60000 % 60 = t % 86400000 / 60000 % 60 at hminute
  change s % 86400000 / 1000 % 60 = t % 86400000 / 1000 % 60 at hsecond
  change s % 86400000 % 1000 = t % 86400000 % 1000 at hmilli
  omega

end Calendar

section Formats

variable {platform : RecoveryPlatform} {t : ℕ} {id s : JsString}

/-- The optional prefix of an id. -/
def recPrefix : JsString := js "rec-"

/-- A ULID whose first ten characters encode a time. -/
def IsUlidOf (t : ℕ) (s : JsString) : Prop :=
  s.length = 26 ∧ (s.all fun c => (crockfordValue c).isSome) = true ∧
    decodeCrockfordTimestamp (s.take 10) = t

/-- The ids that encode a time, in each format. -/
inductive ManifestIdOf (t : ℕ) : JsString → Prop
  | generated (bytes : Fin 4 → UInt8) : ManifestIdOf t (generateRecoveryManifestId t bytes)
  | recGenerated (bytes : Fin 4 → UInt8) :
      ManifestIdOf t (recPrefix ++ generateRecoveryManifestId t bytes)
  | recMillis : ManifestIdOf t (recPrefix ++ padded 1 t)
  | ulid (s : JsString) (hulid : IsUlidOf t s) : ManifestIdOf t s
  | recUlid (s : JsString) (hulid : IsUlidOf t s) : ManifestIdOf t (recPrefix ++ s)

/-- An id that the first format reads as `rec` and a random suffix. -/
def HexAfterRec (id : JsString) : Prop :=
  ∃ suffix, id = recPrefix ++ suffix ∧ 8 ≤ suffix.length ∧ suffix.all isHexDigit = true

/-- `Number` reads the decimal digits of a time. -/
def RecoveryPlatform.ReadsMillis (platform : RecoveryPlatform) : Prop :=
  ∀ t, 0 < t → t ≤ MAX_DATE_MS → platform.toPositiveInteger (padded 1 t) = some t

theorem afterRec_recPrefix (s : JsString) : afterRec (recPrefix ++ s) = some s := by
  have htake : (recPrefix ++ s).take 4 = recPrefix := take_left' rfl
  have hdrop : (recPrefix ++ s).drop 4 = s := drop_left' rfl
  rw [afterRec, htake, hdrop]
  exact if_pos (by decide)

/-- Without a dash there is no prefix and no suffix. -/
theorem afterRec_eq_none (h : (45 : UInt16) ∉ s) : afterRec s = none := by
  rw [afterRec, if_neg]
  rintro ⟨hrec, -⟩
  have hdash : (45 : UInt16) ∈ JsString.toLowerCase (s.take 4) := by
    rw [hrec]
    decide
  exact h (mem_of_mem_take (mem_of_mem_toLowerCase hdash))

/-- After `rec-` the first format takes hex digits only, eight or more. -/
theorem legacyGroup_recPrefix (s : JsString) : legacyGroup (recPrefix ++ s) =
    if 8 ≤ s.length ∧ s.all isHexDigit = true then some (js "rec") else none := by
  have hs : recPrefix ++ s = js "rec" ++ 45 :: s := rfl
  have htake : (js "rec" ++ 45 :: s).takeWhile isBase36 = js "rec" := by
    have hlet : (js "rec").all isBase36 = true := by decide
    rw [takeWhile_append_of_pos (all_eq_true.mp hlet),
      takeWhile_cons_of_neg (by decide), append_nil]
  rw [hs, legacyGroup, htake, drop_left]
  have hne : js "rec" ≠ [] := by decide
  simp only [true_and, hne, ne_eq, not_false_eq_true]

theorem isoTime_eq (hpos : 0 < t) (hmax : t ≤ MAX_DATE_MS) : isoTime t = some (toISOString t) :=
  if_pos ⟨hpos, hmax⟩

/-- Such an id has the time that `rec` encodes. -/
theorem createdAt_of_hexAfterRec (h : HexAfterRec id) :
    createdAtFromRecoveryManifestId platform id = some (toISOString 35508) := by
  obtain ⟨suffix, rfl, hlen, hhex⟩ := h
  have hdash : (45 : UInt16) ∉ suffix := fun hmem =>
    absurd (all_eq_true.mp hhex 45 hmem) (by decide)
  have hm : legacyMatch (recPrefix ++ suffix) = some (js "rec") := by
    rw [legacyMatch, afterRec_recPrefix, bind_some, legacyGroup_eq_none hdash,
      legacyGroup_recPrefix, if_pos ⟨hlen, hhex⟩, none_or]
  have htime : parseBase36 (js "rec") = 35508 := by decide
  rw [createdAtFromRecoveryManifestId, hm, bind_some, htime,
    isoTime_eq (by omega) (by decide), some_or]

/-- The prefix of a generated id is passed over. -/
theorem createdAt_recGenerated (hpos : 0 < t) (hmax : t ≤ MAX_DATE_MS) (bytes : Fin 4 → UInt8) :
    createdAtFromRecoveryManifestId platform (recPrefix ++ generateRecoveryManifestId t bytes) =
      some (toISOString t) := by
  obtain ⟨suffix, hid, hgroup, hne, hlen, hhex⟩ := generated_eq t bytes
  rw [createdAtFromRecoveryManifestId, legacyMatch, afterRec_recPrefix, bind_some, hid,
    legacyGroup_append hgroup hne hlen.ge hhex, some_or, bind_some,
    parseBase36_toBase36, isoTime_eq hpos hmax, some_or]

/-- The first format leaves an id alone that has no dash but the one of its prefix. -/
theorem legacyMatch_recPrefix (hdash : (45 : UInt16) ∉ s) (h : ¬ HexAfterRec (recPrefix ++ s)) :
    legacyMatch (recPrefix ++ s) = none := by
  rw [legacyMatch, afterRec_recPrefix, bind_some, legacyGroup_eq_none hdash,
    legacyGroup_recPrefix, if_neg fun hhex => h ⟨s, rfl, hhex⟩, none_or]

theorem dash_notMem_ulid (hulid : IsUlidOf t s) : (45 : UInt16) ∉ s := fun hmem =>
  absurd (all_eq_true.mp hulid.2.1 45 hmem) (by decide)

theorem ulidMatch_eq (hulid : IsUlidOf t s) (h : afterRec id = some s ∨ afterRec id = none ∧ id = s) :
    ulidMatch id = some s := by
  have hbody : (afterRec id).getD id = s := by
    rcases h with h | ⟨h, rfl⟩
    · rw [h, getD_some]
    · rw [h, Option.getD_none]
  rw [ulidMatch, hbody]
  exact if_pos ⟨hulid.1, hulid.2.1⟩

section

variable (hulid : IsUlidOf t s) (hpos : 0 < t) (hmax : t ≤ MAX_DATE_MS)
include hulid hpos hmax

theorem createdAt_of_ulidMatch
    (hleg : legacyMatch id = none) (hm : ulidMatch id = some s) :
    createdAtFromRecoveryManifestId platform id = some (toISOString t) := by
  rw [createdAtFromRecoveryManifestId, hleg, bind_none, hm, bind_some,
    hulid.2.2, isoTime_eq hpos hmax, some_or, none_or]

/-- A ULID on its own has no other reading. -/
theorem createdAt_ulid : createdAtFromRecoveryManifestId platform s = some (toISOString t) := by
  have hdash := dash_notMem_ulid hulid
  have hrec := afterRec_eq_none hdash
  have hleg : legacyMatch s = none := by
    rw [legacyMatch, hrec, bind_none, legacyGroup_eq_none hdash, none_or]
  exact createdAt_of_ulidMatch hulid hpos hmax hleg (ulidMatch_eq hulid (.inr ⟨hrec, rfl⟩))

theorem createdAt_recUlid (hhex : ¬ HexAfterRec (recPrefix ++ s)) :
    createdAtFromRecoveryManifestId platform (recPrefix ++ s) = some (toISOString t) :=
  createdAt_of_ulidMatch hulid hpos hmax (legacyMatch_recPrefix (dash_notMem_ulid hulid) hhex)
    (ulidMatch_eq hulid (.inl (afterRec_recPrefix s)))

end

/-- An id of the last format is too short for the first one, or too long to be a time. -/
theorem createdAt_recMillis (hplat : platform.ReadsMillis) (hpos : 0 < t)
    (hmax : t ≤ MAX_DATE_MS) (h : ¬ HexAfterRec (recPrefix ++ padded 1 t)) :
    createdAtFromRecoveryManifestId platform (recPrefix ++ padded 1 t) = some (toISOString t) := by
  have hdash : (45 : UInt16) ∉ padded 1 t := fun hmem => absurd (mem_padded hmem).1 (by decide)
  have hhex : (padded 1 t).all isHexDigit = true := by
    rw [all_eq_true]
    intro c hc
    obtain ⟨hlow, hhigh⟩ := mem_padded hc
    have hv : c.toNat - 48 < 16 := by
      have hle := UInt16.le_iff_toNat_le.mp hhigh
      change c.toNat ≤ 57 at hle
      omega
    rw [isHexDigit, base36Value, if_pos ⟨hlow, hhigh⟩, Option.any_some, decide_eq_true_eq]
    exact hv
  have hshort : (padded 1 t).length < 8 := by
    by_contra hlong
    exact h ⟨padded 1 t, rfl, by omega, hhex⟩
  have hulid : ulidMatch (recPrefix ++ padded 1 t) = none := by
    rw [ulidMatch, afterRec_recPrefix, getD_some]
    exact if_neg fun hbody => by omega
  have hprefix : (js "rec-").isPrefixOf (recPrefix ++ padded 1 t) = true :=
    isPrefixOf_iff_prefix.mpr (prefix_append _ _)
  have hdrop : (recPrefix ++ padded 1 t).drop 4 = padded 1 t := drop_left' rfl
  rw [createdAtFromRecoveryManifestId, legacyMatch_recPrefix hdash h, hulid, bind_none,
    bind_none, none_or, none_or, if_pos hprefix, hdrop,
    hplat t hpos hmax, bind_some, isoTime_eq hpos hmax]

/-- An id decodes to the time it encodes unless it is `rec-` with eight or more hex digits, which
the first format takes for the time of `rec`. -/
theorem createdAt_manifestId_iff (hplatform : platform.ReadsMillis) (hpos : 0 < t)
    (hmax : t ≤ MAX_DATE_MS) (hid : ManifestIdOf t id) :
    createdAtFromRecoveryManifestId platform id = some (toISOString t) ↔
      t = 35508 ∨ ¬ HexAfterRec id := by
  by_cases hhex : HexAfterRec id
  · rw [createdAt_of_hexAfterRec hhex, some_inj]
    constructor
    · intro htime
      exact .inl (toISOString_injective (by decide) hmax htime).symm
    rintro (rfl | hnot)
    · rfl
    · exact (hnot hhex).elim
  refine iff_of_true ?_ (.inr hhex)
  cases hid with
  | generated bytes => exact createdAt_generated bytes (isoTime_eq hpos hmax)
  | recGenerated bytes => exact createdAt_recGenerated hpos hmax bytes
  | recMillis => exact createdAt_recMillis hplatform hpos hmax hhex
  | ulid s hulid => exact createdAt_ulid hulid hpos hmax
  | recUlid s hulid => exact createdAt_recUlid hulid hpos hmax hhex

end Formats

section DecimalPlatform

/-- A platform whose `Number` reads all decimal digits. -/
def decimalPlatform : RecoveryPlatform :=
  { asciiPlatform with
    toPositiveInteger := fun s =>
      if s ≠ [] ∧ s.all (fun c => 48 ≤ c ∧ c ≤ 57) ∧ decimal s < 2 ^ 53 then some (decimal s)
      else none }

theorem decimalPlatform_readsMillis : decimalPlatform.ReadsMillis := by
  intro t hpos hmax
  have hne : padded 1 t ≠ [] := by
    intro hnil
    have hzero := decimal_padded 1 t
    rw [hnil] at hzero
    change 0 = t at hzero
    omega
  have hdig : (padded 1 t).all (fun c => decide (48 ≤ c ∧ c ≤ 57)) = true := by
    rw [all_eq_true]
    intro c hc
    exact decide_eq_true (mem_padded hc)
  have hsafe : t < 2 ^ 53 := by
    change t ≤ 8640000000000000 at hmax
    omega
  simp only [decimalPlatform, decimal_padded]
  exact if_pos ⟨hne, hdig, hsafe⟩

/-- The five ids of a time of the year 2023. -/
theorem createdAt_manifestId_iff_generated : List.Forall
    (fun id => createdAtFromRecoveryManifestId decimalPlatform id =
      some (toISOString 1700000000000) ↔ 1700000000000 = 35508 ∨ ¬ HexAfterRec id)
    [generateRecoveryManifestId 1700000000000 fun _ => 0,
      recPrefix ++ generateRecoveryManifestId 1700000000000 fun _ => 0,
      recPrefix ++ padded 1 1700000000000, js "01HF7YAT00ZZZZZZZZZZZZZZZZ",
      recPrefix ++ js "01HF7YAT00ZZZZZZZZZZZZZZZZ"] := by
  have hulid : IsUlidOf 1700000000000 (js "01HF7YAT00ZZZZZZZZZZZZZZZZ") := by
    unfold IsUlidOf
    decide
  rw [List.forall_iff_forall_mem]
  intro id hid
  refine createdAt_manifestId_iff decimalPlatform_readsMillis (by decide) (by decide) ?_
  simp only [mem_cons, not_mem_nil, or_false] at hid
  rcases hid with rfl | rfl | rfl | rfl | rfl
  · exact .generated _
  · exact .recGenerated _
  · exact .recMillis
  · exact .ulid _ hulid
  · exact .recUlid _ hulid

/-- The milliseconds of the year 2023 after `rec-` are not read as such. -/
theorem recMillis_misread :
    ¬ ∀ t id, 0 < t → t ≤ MAX_DATE_MS → ManifestIdOf t id →
      createdAtFromRecoveryManifestId decimalPlatform id = some (toISOString t) := by
  intro h
  have hid : HexAfterRec (recPrefix ++ padded 1 1700000000000) := by
    refine ⟨padded 1 1700000000000, rfl, ?_⟩
    decide
  have htime := h 1700000000000 _ (by decide) (by decide) .recMillis
  rw [createdAt_of_hexAfterRec hid, some_inj] at htime
  exact absurd (toISOString_injective (by decide) (by decide) htime) (by decide)

end DecimalPlatform

end Kaos.Server
