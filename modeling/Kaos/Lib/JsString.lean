import Mathlib.Data.List.DropRight
import Mathlib.Data.Rat.Floor

/-! JavaScript strings as UTF-16 code units, and JSON values over them. -/
namespace Kaos.Lib

open List

abbrev JsString := List UInt16

instance JsString.lawfulBEq : LawfulBEq JsString := inferInstanceAs (LawfulBEq (List UInt16))

/-- The code units of one character. -/
def codeUnits (c : Char) : List UInt16 :=
  if c.toNat < 0x10000 then [c.toNat.toUInt16]
  else [(0xD800 + (c.toNat - 0x10000) / 0x400).toUInt16,
    (0xDC00 + (c.toNat - 0x10000) % 0x400).toUInt16]

/-- The JavaScript string of a literal. -/
def js (s : String) : JsString := s.toList.flatMap codeUnits

namespace JsString

/-- The white space and line terminators that `trim` removes. -/
def isWhitespace (c : UInt16) : Bool :=
  (9 ≤ c ∧ c ≤ 13) ∨ c = 32 ∨ c = 160 ∨ c = 0x1680 ∨ (0x2000 ≤ c ∧ c ≤ 0x200A) ∨ c = 0x2028 ∨
    c = 0x2029 ∨ c = 0x202F ∨ c = 0x205F ∨ c = 0x3000 ∨ c = 0xFEFF

def trim (s : JsString) : JsString := (s.dropWhile isWhitespace).rdropWhile isWhitespace

/-- `[\x00-\x1f\x7f]` -/
def isControl (c : UInt16) : Bool := c ≤ 0x1F ∨ c = 0x7F

/-- `[A-Za-z0-9_-]` -/
def isIdChar (c : UInt16) : Bool :=
  (65 ≤ c ∧ c ≤ 90) ∨ (97 ≤ c ∧ c ≤ 122) ∨ (48 ≤ c ∧ c ≤ 57) ∨ c = 95 ∨ c = 45

/-- `[a-f0-9]` -/
def isHexChar (c : UInt16) : Bool := (97 ≤ c ∧ c ≤ 102) ∨ (48 ≤ c ∧ c ≤ 57)

/-- Upper case of the code units whose upper case has an ASCII letter in it; others stay. -/
def toUpperUnit (c : UInt16) : JsString :=
  if 97 ≤ c ∧ c ≤ 122 then [c - 32]
  else if c = 0x00DF then js "SS"
  else if c = 0x0131 then js "I"
  else if c = 0x0149 then 0x02BC :: js "N"
  else if c = 0x017F then js "S"
  else if c = 0x01F0 then js "J" ++ [0x030C]
  else if c = 0x1E96 then js "H" ++ [0x0331]
  else if c = 0x1E97 then js "T" ++ [0x0308]
  else if c = 0x1E98 then js "W" ++ [0x030A]
  else if c = 0x1E99 then js "Y" ++ [0x030A]
  else if c = 0x1E9A then js "A" ++ [0x02BE]
  else if c = 0xFB00 then js "FF"
  else if c = 0xFB01 then js "FI"
  else if c = 0xFB02 then js "FL"
  else if c = 0xFB03 then js "FFI"
  else if c = 0xFB04 then js "FFL"
  else if c = 0xFB05 ∨ c = 0xFB06 then js "ST"
  else [c]

def toUpperCase (s : JsString) : JsString := s.flatMap toUpperUnit

/-- Lower case of the code units whose lower case has an ASCII letter in it; others stay. -/
def toLowerUnit (c : UInt16) : JsString :=
  if 65 ≤ c ∧ c ≤ 90 then [c + 32]
  else if c = 0x0130 then js "i" ++ [0x0307]
  else if c = 0x212A then js "k"
  else [c]

def toLowerCase (s : JsString) : JsString := s.flatMap toLowerUnit

/-- The bytes `TextEncoder` makes of a code unit that is no half of a pair. -/
def utf8UnitLength (c : UInt16) : ℕ := if c < 0x80 then 1 else if c < 0x800 then 2 else 3

/-- The number of bytes `TextEncoder` makes of a string. -/
def utf8Length : JsString → ℕ
  | c :: d :: rest =>
    if 0xD800 ≤ c ∧ c ≤ 0xDBFF ∧ 0xDC00 ≤ d ∧ d ≤ 0xDFFF then 4 + utf8Length rest
    else utf8UnitLength c + utf8Length (d :: rest)
  | [c] => utf8UnitLength c
  | [] => 0

/-- Comparison by code units, as `<` and the default `sort` do. -/
def le : JsString → JsString → Bool
  | [], _ => true
  | _ :: _, [] => false
  | c :: s, d :: t => if c = d then le s t else decide (c < d)

theorem le_total (s t : JsString) : le s t = true ∨ le t s = true := by
  induction s generalizing t with
  | nil => exact .inl rfl
  | cons c s ih =>
    cases t with
    | nil => exact .inr rfl
    | cons d t =>
      by_cases h : c = d
      · simpa [le, h] using ih t
      · simpa [le, h, Ne.symm h] using UInt16.lt_or_lt_of_ne h

theorem le_antisymm {s t : JsString} (hst : le s t = true) (hts : le t s = true) : s = t := by
  induction s generalizing t with
  | nil =>
    cases t with
    | nil => rfl
    | cons d t => cases hts
  | cons c s ih =>
    cases t with
    | nil => cases hst
    | cons d t =>
      by_cases h : c = d
      · simp only [le, h, if_true] at hst hts
        rw [h, ih hst hts]
      simp only [le, h, Ne.symm h, if_false, decide_eq_true_eq] at hst hts
      exact absurd hts (UInt16.lt_asymm hst)

theorem le_trans {s t u : JsString} (hst : le s t = true) (htu : le t u = true) :
    le s u = true := by
  induction s generalizing t u with
  | nil => rfl
  | cons c s ih =>
    cases t with
    | nil => cases hst
    | cons d t =>
      cases u with
      | nil => cases htu
      | cons e u =>
        by_cases hcd : c = d
        · subst hcd
          by_cases hce : c = e
          · simp only [le, hce, if_true] at hst htu ⊢
            exact ih hst htu
          · simpa [le, hce] using htu
        simp only [le, hcd, if_false, decide_eq_true_eq] at hst
        by_cases hde : d = e
        · simpa [le, ← hde, hcd] using hst
        simp only [le, hde, if_false, decide_eq_true_eq] at htu
        have hlt := UInt16.lt_trans hst htu
        simpa [le, UInt16.ne_of_lt hlt] using hlt

/-- What is left after both ends are cut does not start with white space. -/
theorem dropWhile_trim (s : JsString) : s.trim.dropWhile isWhitespace = s.trim := by
  have hstarts : s.trim <+: s.dropWhile isWhitespace := rdropWhile_prefix _ _
  cases htrim : s.trim with
  | nil => rfl
  | cons c rest =>
    rw [htrim] at hstarts
    obtain ⟨tail, htail⟩ := hstarts
    have hidem := dropWhile_idempotent isWhitespace s
    rw [← htail, cons_append] at hidem
    have hc : isWhitespace c = false := by
      by_contra hc
      rw [dropWhile_cons_of_pos (by simpa using hc)] at hidem
      have hle := length_dropWhile_le (p := isWhitespace) (l := rest ++ tail)
      rw [hidem] at hle
      simp at hle
    exact dropWhile_cons_of_neg (by simp [hc])

/-- Trimming a trimmed string changes nothing. -/
theorem trim_trim (s : JsString) : s.trim.trim = s.trim := by
  have h : s.trim.trim = (s.trim.dropWhile isWhitespace).rdropWhile isWhitespace := rfl
  rw [h, dropWhile_trim]
  exact rdropWhile_idempotent _ _

end JsString

/-- What `JSON.parse` returns; an absent field reads as `undefined`, a number too large for a
double is infinite. -/
inductive Json
  | undefined
  | null
  | bool (value : Bool)
  | num (value : Option ℚ)
  | str (value : JsString)
  | arr (entries : List Json)
  | obj (fields : String → Json)

abbrev Record := String → Json

/-- Arrays and primitive values are no records. -/
def asRecord : Json → Option Record
  | .obj fields => some fields
  | _ => none

end Kaos.Lib
