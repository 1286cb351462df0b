import Mathlib.Data.Nat.Digits.Defs
import Kaos.Lib.JsString

/-! Numbers written in the digits of a base. -/
namespace Kaos.Lib

open List

/-- A digit of a base up to 36. -/
def digit (d : ℕ) : UInt16 := if d < 10 then (48 + d).toUInt16 else (87 + d).toUInt16

/-- The digits of a number that is not zero. -/
def digitsText (base n : ℕ) : JsString := (Nat.digits base n).reverse.map digit

/-- `n.toString(base)` -/
def natText (base n : ℕ) : JsString := if n = 0 then [48] else digitsText base n

/-- The number that a text stands for. -/
def textValue (base : ℕ) (value : UInt16 → ℕ) (s : JsString) : ℕ :=
  s.foldl (fun n c => n * base + value c) 0

/-- The value of decimal digits. -/
def decimal (s : JsString) : ℕ := textValue 10 (fun c => c.toNat - 48) s

section Digits

variable {base n d : ℕ} {value : UInt16 → ℕ} {c : UInt16}

theorem exists_digit (hb : 1 < base) (h : c ∈ digitsText base n) : ∃ d < base, digit d = c := by
  obtain ⟨d, hd, rfl⟩ := mem_map.mp h
  exact ⟨d, Nat.digits_lt_base hb (mem_reverse.mp hd), rfl⟩

theorem exists_digit_natText (hb : 1 < base) (h : c ∈ natText base n) :
    ∃ d < base, digit d = c := by
  unfold natText at h
  split at h
  · exact ⟨0, by omega, (mem_singleton.mp h).symm⟩
  · exact exists_digit hb h

theorem natText_ne_nil : natText base n ≠ [] := by
  unfold natText
  split
  · exact cons_ne_nil _ _
  · next hne => simpa [digitsText] using Nat.digits_ne_nil_iff_ne_zero.mpr hne

theorem textValue_digitsText (hb : 1 < base) (h : ∀ d < base, value (digit d) = d) (n : ℕ) :
    textValue base value (digitsText base n) = n := by
  have hdig : ∀ l : List ℕ, (∀ d ∈ l, d < base) →
      textValue base value (l.reverse.map digit) = Nat.ofDigits base l := by
    intro l hl
    induction l with
    | nil => rfl
    | cons d l ih =>
      have hr := ih fun d hd => hl d (mem_cons_of_mem _ hd)
      rw [reverse_cons, map_append, textValue, foldl_append, ← textValue, hr, Nat.ofDigits_cons,
        map_singleton, foldl_cons, foldl_nil, h d (hl d mem_cons_self), Nat.mul_comm, Nat.add_comm]
  rw [digitsText, hdig _ fun d hd => Nat.digits_lt_base hb hd, Nat.ofDigits_digits]

theorem textValue_natText (hb : 1 < base) (h : ∀ d < base, value (digit d) = d) (n : ℕ) :
    textValue base value (natText base n) = n := by
  unfold natText
  split
  · next hzero =>
    have hdigit : value 48 = 0 := h 0 (by omega)
    simp [textValue, hzero, hdigit]
  · exact textValue_digitsText hb h n

theorem decimal_digit : ∀ d < 10, (digit d).toNat - 48 = d := by decide

end Digits

end Kaos.Lib
