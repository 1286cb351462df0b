import Mathlib.Data.List.Basic
import Kaos.Lib.JsString

/-! Base64 as `btoa` writes it and `atob` reads it, on bytes. -/
namespace Kaos.Lib.Base64

open List

/-- The digits of the bytes, six bits each; a last group of one or two bytes is filled up with zero
bits. -/
def sextets : List UInt8 → List ℕ
  | [] => []
  | [a] => [a.toNat / 4, a.toNat % 4 * 16]
  | [a, b] => [a.toNat / 4, a.toNat % 4 * 16 + b.toNat / 16, b.toNat % 16 * 4]
  | a :: b :: c :: bytes =>
    a.toNat / 4 :: (a.toNat % 4 * 16 + b.toNat / 16) :: (b.toNat % 16 * 4 + c.toNat / 64) ::
      c.toNat % 64 :: sextets bytes

/-- The bytes of the digits; one digit alone in its group makes none. -/
def ofSextets : List ℕ → Option (List UInt8)
  | [] => some []
  | [_] => none
  | [p, q] => some [(p * 4 + q / 16).toUInt8]
  | [p, q, r] => some [(p * 4 + q / 16).toUInt8, (q % 16 * 16 + r / 4).toUInt8]
  | p :: q :: r :: s :: digits => (ofSextets digits).map fun bytes =>
    (p * 4 + q / 16).toUInt8 :: (q % 16 * 16 + r / 4).toUInt8 :: (r % 4 * 64 + s).toUInt8 :: bytes

def digitChar (n : ℕ) : UInt16 :=
  if n < 26 then (n + 65).toUInt16
  else if n < 52 then (n + 71).toUInt16
  else if n < 62 then (n - 4).toUInt16
  else if n = 62 then 43
  else 47

def charDigit (c : UInt16) : Option ℕ :=
  if 65 ≤ c ∧ c ≤ 90 then some (c.toNat - 65)
  else if 97 ≤ c ∧ c ≤ 122 then some (c.toNat - 71)
  else if 48 ≤ c ∧ c ≤ 57 then some (c.toNat + 4)
  else if c = 43 then some 62
  else if c = 47 then some 63
  else none

/-- `btoa` on the string of the bytes. -/
def encodeBytesBase64 (bytes : List UInt8) : JsString :=
  let digits := (sextets bytes).map digitChar
  digits ++ List.replicate ((4 - digits.length % 4) % 4) 61

def isAsciiWhitespace (c : UInt16) : Bool := c = 9 ∨ c = 10 ∨ c = 12 ∨ c = 13 ∨ c = 32

/-- One or two signs of padding go where they fill a group. -/
def stripPadding (s : JsString) : JsString :=
  if s.length % 4 = 0 then
    if [61, 61].isSuffixOf s then s.dropLast.dropLast
    else if [61].isSuffixOf s then s.dropLast
    else s
  else s

/-- `atob`, with the string it gives as bytes; `none` where it throws. -/
def decodeBytesBase64 (s : JsString) : Option (List UInt8) :=
  ((stripPadding (s.filter fun c => ¬ isAsciiWhitespace c)).mapM charDigit).bind ofSextets

theorem charDigit_digitChar {n : ℕ} (h : n < 64) : charDigit (digitChar n) = some n := by
  revert n
  decide

theorem digitChar_plain {n : ℕ} (h : n < 64) :
    isAsciiWhitespace (digitChar n) = false ∧ digitChar n ≠ 61 := by
  revert n
  decide

theorem lt_of_mem_sextets {bytes : List UInt8} {n : ℕ} (h : n ∈ sextets bytes) : n < 64 := by
  induction bytes using sextets.induct with
  | case1 => cases h
  | case2 a =>
    have ha := a.toNat_lt
    simp only [sextets, mem_cons, not_mem_nil, or_false] at h
    omega
  | case3 a b =>
    have ha := a.toNat_lt
    have hb := b.toNat_lt
    simp only [sextets, mem_cons, not_mem_nil, or_false] at h
    omega
  | case4 a b c bytes ih =>
    have ha := a.toNat_lt
    have hb := b.toNat_lt
    have hc := c.toNat_lt
    simp only [sextets, mem_cons] at h
    rcases h with h | h | h | h | h
    · omega
    · omega
    · omega
    · omega
    · exact ih h

theorem toUInt8_eq {n : ℕ} {a : UInt8} (h : n = a.toNat) : n.toUInt8 = a := by
  subst h
  exact UInt8.ofNat_toNat

theorem ofSextets_sextets (bytes : List UInt8) : ofSextets (sextets bytes) = some bytes := by
  induction bytes using sextets.induct with
  | case1 => rfl
  | case2 a =>
    have ha := a.toNat_lt
    rw [sextets, ofSextets, toUInt8_eq (a := a) (by omega)]
  | case3 a b =>
    have ha := a.toNat_lt
    have hb := b.toNat_lt
    rw [sextets, ofSextets, toUInt8_eq (a := a) (by omega), toUInt8_eq (a := b) (by omega)]
  | case4 a b c bytes ih =>
    have ha := a.toNat_lt
    have hb := b.toNat_lt
    have hc := c.toNat_lt
    rw [sextets, ofSextets, ih, Option.map_some, toUInt8_eq (a := a) (by omega),
      toUInt8_eq (a := b) (by omega), toUInt8_eq (a := c) (by omega)]

/-- No group has just one digit. -/
theorem length_sextets (bytes : List UInt8) : (sextets bytes).length % 4 ≠ 1 := by
  induction bytes using sextets.induct with
  | case1 => decide
  | case2 a | case3 a b => simp [sextets]
  | case4 a b c bytes ih =>
    simp only [sextets, length_cons]
    omega

theorem mapM_charDigit {digits : List ℕ} (h : ∀ n ∈ digits, n < 64) :
    (digits.map digitChar).mapM charDigit = some digits := by
  induction digits with
  | nil => rfl
  | cons n digits ih =>
    rw [map_cons, mapM_cons, charDigit_digitChar (h n mem_cons_self),
      ih fun m hm => h m (mem_cons_of_mem _ hm)]
    rfl

theorem not_suffix {digits padding : JsString} (hplain : ∀ c ∈ digits, c ≠ 61)
    (h : padding ≠ []) (hpad : ∀ c ∈ padding, c = 61) : padding.isSuffixOf digits = false := by
  rw [Bool.eq_false_iff]
  intro hsuf
  rw [isSuffixOf_iff_suffix] at hsuf
  obtain ⟨c, hc⟩ := exists_mem_of_ne_nil padding h
  exact hplain c (hsuf.subset hc) (hpad c hc)

/-- The padding that fills the last group is the padding that goes. -/
theorem stripPadding_append {digits : JsString} (hplain : ∀ c ∈ digits, c ≠ 61)
    (hlen : digits.length % 4 ≠ 1) :
    stripPadding (digits ++ List.replicate ((4 - digits.length % 4) % 4) 61) = digits := by
  have hcases : digits.length % 4 = 0 ∨ digits.length % 4 = 2 ∨ digits.length % 4 = 3 := by omega
  rcases hcases with h | h | h <;> rw [h]
  · change stripPadding (digits ++ []) = digits
    rw [append_nil, stripPadding, if_pos h, not_suffix hplain (by simp) (by simp),
      not_suffix hplain (by simp) (by simp)]
    rfl
  · change stripPadding (digits ++ [61, 61]) = digits
    have hsuf : [61, 61].isSuffixOf (digits ++ [61, 61]) = true :=
      isSuffixOf_iff_suffix.mpr (suffix_append _ _)
    rw [stripPadding, if_pos (by simp; omega), if_pos hsuf,
      show digits ++ [61, 61] = digits ++ [61] ++ [61] by simp, dropLast_concat,
      dropLast_concat]
  change stripPadding (digits ++ [61]) = digits
  have hsuf : [61].isSuffixOf (digits ++ [61]) = true :=
    isSuffixOf_iff_suffix.mpr (suffix_append _ _)
  have hone : ¬ [61, 61].isSuffixOf (digits ++ [61]) = true := by
    rw [isSuffixOf_iff_suffix]
    rintro ⟨front, hfront⟩
    rw [show front ++ [61, 61] = front ++ [61] ++ [61] by simp] at hfront
    have hdig := append_cancel_right hfront
    exact hplain 61 (hdig ▸ mem_append_right _ (mem_singleton_self _)) rfl
  rw [stripPadding, if_pos (by simp; omega), if_neg hone, if_pos hsuf, dropLast_concat]

theorem decodeBytesBase64_encodeBytesBase64 (bytes : List UInt8) :
    decodeBytesBase64 (encodeBytesBase64 bytes) = some bytes := by
  have hplain : ∀ c ∈ (sextets bytes).map digitChar, isAsciiWhitespace c = false ∧ c ≠ 61 := by
    intro c hc
    obtain ⟨n, hn, rfl⟩ := mem_map.mp hc
    exact digitChar_plain (lt_of_mem_sextets hn)
  have hfil : (encodeBytesBase64 bytes).filter (fun c => ¬ isAsciiWhitespace c) =
      encodeBytesBase64 bytes := by
    rw [filter_eq_self]
    intro c hc
    rcases mem_append.mp hc with hc | hc
    · simp [(hplain c hc).1]
    rw [eq_of_mem_replicate hc]
    rfl
  rw [decodeBytesBase64, hfil, encodeBytesBase64,
    stripPadding_append (fun c hc => (hplain c hc).2) (by simpa using length_sextets bytes),
    mapM_charDigit fun n => lt_of_mem_sextets, Option.bind_some, ofSextets_sextets]

end Kaos.Lib.Base64
