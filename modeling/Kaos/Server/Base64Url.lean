import Mathlib.Data.List.GetD
import Mathlib.Data.List.Nodup
import Kaos.Utils.Base64Url
import Kaos.Lib.Base64
import Kaos.Server.Config

/-! Base64url on the server: its table knows the code units below 256 only. -/
namespace Kaos.Server.Base64Url

open Kaos.Lib List

def ALPHABET : JsString := js "ABCDEFGHIJKLMNOPQRSTUVWXYZabcdefghijklmnopqrstuvwxyz0123456789-_"

/-- `DECODE[c]`; past the end of the table it is `undefined`. -/
def DECODE (c : UInt16) : Option ℕ :=
  if c < 256 then some (if c ∈ ALPHABET then ALPHABET.idxOf c else 0xff) else none

/-- The entry in a bit operation, where `undefined` counts as zero. -/
def entry (c : UInt16) : ℕ := (DECODE c).getD 0

def sextetAt (v : ℕ) : UInt16 := ALPHABET.getD (v &&& 63) 0

def bytesToBase64Url : List UInt8 → JsString
  | a :: b :: c :: bytes =>
    let v := (a.toNat <<< 16 ||| b.toNat <<< 8) ||| c.toNat
    sextetAt (v >>> 18) :: sextetAt (v >>> 12) :: sextetAt (v >>> 6) :: sextetAt v ::
      bytesToBase64Url bytes
  | [a, b] =>
    let v := a.toNat <<< 16 ||| b.toNat <<< 8
    [sextetAt (v >>> 18), sextetAt (v >>> 12), sextetAt (v >>> 6)]
  | [a] =>
    let v := a.toNat <<< 16
    [sextetAt (v >>> 18), sextetAt (v >>> 12)]
  | [] => []

inductive Base64UrlError
  | invalidChar (index : ℕ)
  | invalidLength
  deriving DecidableEq

/-- The bytes that the table's entries are packed into, each cut to eight bits. -/
def packEntries : List ℕ → List UInt8
  | a :: b :: c :: d :: digits =>
    (a <<< 2 ||| b >>> 4).toUInt8 :: ((b &&& 0xf) <<< 4 ||| c >>> 2).toUInt8 ::
      ((c &&& 0x3) <<< 6 ||| d).toUInt8 :: packEntries digits
  | [a, b, c] => [(a <<< 2 ||| b >>> 4).toUInt8, ((b &&& 0xf) <<< 4 ||| c >>> 2).toUInt8]
  | [a, b] => [(a <<< 2 ||| b >>> 4).toUInt8]
  | _ => []

def base64UrlToBytes (str : JsString) : Except Base64UrlError (List UInt8) :=
  match str.findIdx? fun c => DECODE c = some 0xff with
  | some index => .error (.invalidChar index)
  | none =>
    if str.length % 4 = 1 then .error .invalidLength
    else .ok (packEntries (str.map entry))

/-- The lowest bits of a number, the highest of them first. -/
def bits (width n : ℕ) : List Bool := (List.range width).map fun i => n.testBit (width - 1 - i)

/-- As many whole bytes as the digits hold, with the digits' bits. -/
def Denotes (str : JsString) (bytes : List UInt8) : Prop :=
  bytes.length = 6 * str.length / 8 ∧
  bytes.flatMap (fun b => bits 8 b.toNat) =
    (str.flatMap fun c => bits 6 (ALPHABET.idxOf c)).take (8 * bytes.length)

/-- What is base64url and nothing else. -/
def IsBase64Url (str : JsString) : Prop := (∀ c ∈ str, c ∈ ALPHABET) ∧ str.length % 4 ≠ 1

/-- The decoder rejects what is not base64url and gives the bytes of what is. -/
structure DecodesExactly (str : JsString) : Prop where
  throws : (∃ error, base64UrlToBytes str = .error error) ↔ ¬ IsBase64Url str
  denotes : ∀ bytes, base64UrlToBytes str = .ok bytes → Denotes str bytes

open Lib.Base64

theorem and_63 (n : ℕ) : n &&& 63 = n % 64 := Nat.and_two_pow_sub_one_eq_mod n 6

variable {n : ℕ}

theorem sextetAt_of_lt {v : ℕ} (h : v % 64 = n) : sextetAt v = ALPHABET.getD n 0 := by
  rw [sextetAt, and_63, h]

theorem shiftLeft_or {a b : ℕ} (h : b < 2 ^ n) : a <<< n ||| b = a * 2 ^ n + b := by
  rw [← Nat.shiftLeft_add_eq_or_of_lt h, Nat.shiftLeft_eq]

/-- Three bytes side by side. -/
theorem group_eq (a b c : UInt8) : (a.toNat <<< 16 ||| b.toNat <<< 8) ||| c.toNat =
    a.toNat * 65536 + b.toNat * 256 + c.toNat := by
  have hb := b.toNat_lt
  have hc := c.toNat_lt
  rw [Nat.or_assoc, shiftLeft_or (a := b.toNat) (by omega), shiftLeft_or (by omega)]
  omega

theorem bytesToBase64Url_eq (bytes : List UInt8) :
    bytesToBase64Url bytes = (sextets bytes).map fun n => ALPHABET.getD n 0 := by
  induction bytes using sextets.induct with
  | case1 => rfl
  | case2 a =>
    have ha := a.toNat_lt
    simp only [bytesToBase64Url, sextets, map_cons, map_nil, Nat.shiftLeft_eq,
      Nat.shiftRight_eq_div_pow]
    rw [sextetAt_of_lt (n := a.toNat / 4) (by omega),
      sextetAt_of_lt (n := a.toNat % 4 * 16) (by omega)]
  | case3 a b =>
    have ha := a.toNat_lt
    have hb := b.toNat_lt
    have hgroup := group_eq a b 0
    rw [show (0 : UInt8).toNat = 0 from rfl, Nat.or_zero] at hgroup
    simp only [bytesToBase64Url, sextets, map_cons, map_nil, hgroup, Nat.shiftRight_eq_div_pow]
    rw [sextetAt_of_lt (n := a.toNat / 4) (by omega),
      sextetAt_of_lt (n := a.toNat % 4 * 16 + b.toNat / 16) (by omega),
      sextetAt_of_lt (n := b.toNat % 16 * 4) (by omega)]
  | case4 a b c bytes ih =>
    have ha := a.toNat_lt
    have hb := b.toNat_lt
    have hc := c.toNat_lt
    simp only [bytesToBase64Url, sextets, map_cons, group_eq, Nat.shiftRight_eq_div_pow, ih]
    rw [sextetAt_of_lt (n := a.toNat / 4) (by omega),
      sextetAt_of_lt (n := a.toNat % 4 * 16 + b.toNat / 16) (by omega),
      sextetAt_of_lt (n := b.toNat % 16 * 4 + c.toNat / 64) (by omega),
      sextetAt_of_lt (n := c.toNat % 64) (by omega)]

/-- The client's encoder and the server's are one function. -/
theorem client_bytesToBase64Url (bytes : List UInt8) :
    Utils.bytesToBase64Url bytes = bytesToBase64Url bytes := by
  induction bytes using bytesToBase64Url.induct with
  | case1 a b c bytes ih =>
    rw [Utils.bytesToBase64Url, bytesToBase64Url, ih]
    rfl
  | case2 a b => rfl
  | case3 a => rfl
  | case4 => rfl

theorem length_ALPHABET : ALPHABET.length = 64 := by decide

section

variable {c : UInt16} (h : c ∈ ALPHABET)
include h

theorem lt_of_mem_ALPHABET : c < 256 := by
  have hall : ALPHABET.all fun c => c < 256 := by decide
  simpa using all_eq_true.mp hall c h

theorem DECODE_of_mem : DECODE c = some (ALPHABET.idxOf c) := by
  rw [DECODE, if_pos (lt_of_mem_ALPHABET h), if_pos h]

theorem idxOf_lt : ALPHABET.idxOf c < 64 :=
  length_ALPHABET ▸ idxOf_lt_length_of_mem h

theorem entry_of_mem : entry c = ALPHABET.idxOf c := by
  rw [entry, DECODE_of_mem h, Option.getD_some]

end

/-- The table marks the code units below 256 that the alphabet lacks, and no others. -/
theorem DECODE_invalid_iff {c : UInt16} : DECODE c = some 0xff ↔ c < 256 ∧ c ∉ ALPHABET := by
  constructor
  · intro h
    constructor
    · by_contra hlt
      simp [DECODE, hlt] at h
    intro hmem
    rw [DECODE_of_mem hmem, Option.some_inj] at h
    have := idxOf_lt hmem
    omega
  · rintro ⟨hlt, hmem⟩
    rw [DECODE, if_pos hlt, if_neg hmem]

theorem getD_mem (h : n < 64) : ALPHABET.getD n 0 ∈ ALPHABET := by
  rw [getD_eq_getElem _ _ (length_ALPHABET ▸ h)]
  exact getElem_mem _

theorem nodup_ALPHABET : ALPHABET.Nodup := by decide

theorem entry_getD (h : n < 64) : entry (ALPHABET.getD n 0) = n := by
  have hn : n < ALPHABET.length := length_ALPHABET ▸ h
  rw [entry_of_mem (getD_mem h), getD_eq_getElem _ _ hn, nodup_ALPHABET.idxOf_getElem]

variable {str : JsString}

theorem findIdx_none (hm : ∀ c ∈ str, DECODE c ≠ some 0xff) :
    (str.findIdx? fun c => DECODE c = some 0xff) = none := by
  rw [findIdx?_eq_none_iff]
  intro c hc
  simpa using hm c hc

/-- What the decoder does with a string that it takes. -/
theorem base64UrlToBytes_ok (hm : ∀ c ∈ str, DECODE c ≠ some 0xff)
    (hlen : str.length % 4 ≠ 1) : base64UrlToBytes str = .ok (packEntries (str.map entry)) := by
  rw [base64UrlToBytes, findIdx_none hm]
  exact if_neg hlen

theorem base64UrlToBytes_error_iff : (∃ error, base64UrlToBytes str = .error error) ↔
      (∃ c ∈ str, c < 256 ∧ c ∉ ALPHABET) ∨ str.length % 4 = 1 := by
  by_cases hm : ∀ c ∈ str, DECODE c ≠ some 0xff
  · by_cases hlen : str.length % 4 = 1
    · refine iff_of_true ⟨.invalidLength, ?_⟩ (.inr hlen)
      rw [base64UrlToBytes, findIdx_none hm]
      exact if_pos hlen
    refine iff_of_false ?_ ?_
    · rintro ⟨error, herror⟩
      rw [base64UrlToBytes_ok hm hlen] at herror
      cases herror
    rintro (⟨c, hc, hcond⟩ | h)
    · exact hm c hc (DECODE_invalid_iff.mpr hcond)
    · exact hlen h
  push Not at hm
  obtain ⟨c, hc, hmark⟩ := hm
  refine iff_of_true ?_ (.inl ⟨c, hc, DECODE_invalid_iff.mp hmark⟩)
  rw [base64UrlToBytes]
  cases hf : str.findIdx? fun c => DECODE c = some 0xff with
  | some index => exact ⟨_, rfl⟩
  | none =>
    rw [findIdx?_eq_none_iff] at hf
    simpa [hmark] using hf c hc

theorem pack_first {a b : ℕ} (hb : b < 64) : a <<< 2 ||| b >>> 4 = a * 4 + b / 16 := by
  rw [Nat.shiftRight_eq_div_pow, shiftLeft_or (by omega)]
  rfl

theorem pack_second {b c : ℕ} (hc : c < 64) :
    (b &&& 0xf) <<< 4 ||| c >>> 2 = b % 16 * 16 + c / 4 := by
  rw [Nat.shiftRight_eq_div_pow, shiftLeft_or (by omega), Nat.and_two_pow_sub_one_eq_mod b 4]
  rfl

theorem pack_third {c d : ℕ} (hd : d < 64) : (c &&& 0x3) <<< 6 ||| d = c % 4 * 64 + d := by
  rw [shiftLeft_or (by omega), Nat.and_two_pow_sub_one_eq_mod c 2]
  rfl

variable {digits : List ℕ}

/-- Digits that make no group are none or one. -/
theorem eq_nil_of_no_group (hfour : ∀ a b c d rest, digits = a :: b :: c :: d :: rest → False)
    (hthree : ∀ a b c, digits = [a, b, c] → False) (htwo : ∀ a b, digits = [a, b] → False)
    (hlen : digits.length % 4 ≠ 1) : digits = [] := by
  match digits with
  | [] => rfl
  | [_] => exact absurd rfl hlen
  | [a, b] => exact absurd rfl (htwo a b)
  | [a, b, c] => exact absurd rfl (hthree a b c)
  | a :: b :: c :: d :: rest => exact absurd rfl (hfour a b c d rest)

theorem ofSextets_eq (h : ∀ n ∈ digits, n < 64) (hlen : digits.length % 4 ≠ 1) :
    ofSextets digits = some (packEntries digits) := by
  induction digits using packEntries.induct with
  | case1 a b c d digits ih =>
    simp only [mem_cons, forall_eq_or_imp] at h
    obtain ⟨ha, hb, hc, hd, hdig⟩ := h
    simp only [length_cons] at hlen
    rw [ofSextets, packEntries, ih hdig (by omega), pack_first hb, pack_second hc, pack_third hd]
    rfl
  | case2 a b c =>
    simp only [mem_cons, forall_eq_or_imp] at h
    rw [ofSextets, packEntries, pack_first h.2.1, pack_second h.2.2.1]
  | case3 a b =>
    simp only [mem_cons, forall_eq_or_imp] at h
    rw [ofSextets, packEntries, pack_first h.2.1]
  | case4 digits hfour hthree htwo =>
    rw [eq_nil_of_no_group hfour hthree htwo hlen]
    rfl

theorem base64UrlToBytes_bytesToBase64Url (bytes : List UInt8) :
    base64UrlToBytes (bytesToBase64Url bytes) = .ok bytes := by
  have hlt : ∀ n ∈ sextets bytes, n < 64 := fun n hn => lt_of_mem_sextets hn
  have he : ((sextets bytes).map fun n => ALPHABET.getD n 0).map entry = sextets bytes := by
    rw [map_map]
    calc (sextets bytes).map (entry ∘ fun n => ALPHABET.getD n 0)
        = (sextets bytes).map id := map_congr_left fun n hn => entry_getD (hlt n hn)
      _ = sextets bytes := map_id _
  rw [bytesToBase64Url_eq, base64UrlToBytes_ok, he]
  · have hpack := ofSextets_eq hlt (length_sextets bytes)
    rw [ofSextets_sextets, Option.some_inj] at hpack
    rw [← hpack]
  · intro c hc
    obtain ⟨n, hn, rfl⟩ := mem_map.mp hc
    intro hmark
    exact (DECODE_invalid_iff.mp hmark).2 (getD_mem (hlt n hn))
  rw [length_map]
  exact length_sextets bytes

/-- Two numbers side by side have their bits side by side. -/
theorem bits_append {m a b : ℕ} (h : b < 2 ^ n) :
    bits m a ++ bits n b = bits (m + n) (2 ^ n * a + b) := by
  rw [bits, bits, bits, range_add, map_append, map_map]
  congr 1
  · apply map_congr_left
    intro i hi
    rw [mem_range] at hi
    rw [Nat.testBit_two_pow_mul_add _ h, if_neg (by omega)]
    congr 1
    omega
  apply map_congr_left
  intro i hi
  rw [mem_range] at hi
  simp only [Function.comp_apply]
  rw [Nat.testBit_two_pow_mul_add _ h, if_pos (by omega)]
  congr 1
  omega

@[simp] theorem length_bits (width n : ℕ) : (bits width n).length = width := by simp [bits]

theorem toNat_toUInt8 (h : n < 256) : n.toUInt8.toNat = n := Nat.mod_eq_of_lt h

/-- The packed bytes are a prefix of the digits' bits. -/
theorem bits_packEntries (h : ∀ n ∈ digits, n < 64) (hlength : digits.length % 4 ≠ 1) :
    (packEntries digits).length = 6 * digits.length / 8 ∧
    (packEntries digits).flatMap (fun b => bits 8 b.toNat) =
      (digits.flatMap (bits 6)).take (8 * (packEntries digits).length) := by
  induction digits using packEntries.induct with
  | case1 a b c d digits ih =>
    simp only [mem_cons, forall_eq_or_imp] at h
    obtain ⟨ha, hb, hc, hd, hdig⟩ := h
    simp only [length_cons] at hlength
    obtain ⟨hlen, hbits⟩ := ih hdig (by omega)
    have hgroup : bits 6 a ++ (bits 6 b ++ (bits 6 c ++ bits 6 d)) =
        bits 8 (a * 4 + b / 16) ++ (bits 8 (b % 16 * 16 + c / 4) ++ bits 8 (c % 4 * 64 + d)) := by
      rw [bits_append (by omega), bits_append (by omega), bits_append (by omega),
        bits_append (by omega), bits_append (by omega)]
      congr 1
      omega
    have hfront : ∀ rest, bits 6 a ++ (bits 6 b ++ (bits 6 c ++ (bits 6 d ++ rest))) =
        (bits 8 (a * 4 + b / 16) ++ (bits 8 (b % 16 * 16 + c / 4) ++ bits 8 (c % 4 * 64 + d))) ++
          rest := by
      intro rest
      rw [← hgroup]
      simp only [append_assoc]
    have hlength : (bits 8 (a * 4 + b / 16) ++
        (bits 8 (b % 16 * 16 + c / 4) ++ bits 8 (c % 4 * 64 + d))).length = 24 := by
      simp only [length_append, length_bits]
    rw [packEntries, pack_first hb, pack_second hc, pack_third hd]
    simp only [flatMap_cons, length_cons]
    refine ⟨by omega, ?_⟩
    rw [toNat_toUInt8 (by omega), toNat_toUInt8 (by omega), toNat_toUInt8 (by omega), hbits,
      hfront, show 8 * ((packEntries digits).length + 1 + 1 + 1) =
        24 + 8 * (packEntries digits).length by omega, ← hlength, take_length_add_append]
    simp only [append_assoc]
  | case2 a b c =>
    simp only [mem_cons, not_mem_nil, forall_eq_or_imp] at h
    obtain ⟨ha, hb, hc, -⟩ := h
    have hgroup : bits 6 a ++ (bits 6 b ++ bits 6 c) =
        (bits 8 (a * 4 + b / 16) ++ bits 8 (b % 16 * 16 + c / 4)) ++ bits 2 (c % 4) := by
      rw [bits_append (by omega), bits_append (by omega), bits_append (by omega),
        bits_append (by omega)]
      congr 1
      omega
    rw [packEntries, pack_first hb, pack_second hc]
    refine ⟨by simp, ?_⟩
    simp only [flatMap_cons, flatMap_nil, append_nil]
    rw [toNat_toUInt8 (by omega), toNat_toUInt8 (by omega), hgroup, take_left' (by simp)]
  | case3 a b =>
    simp only [mem_cons, not_mem_nil, forall_eq_or_imp] at h
    obtain ⟨ha, hb, -⟩ := h
    have hgroup : bits 6 a ++ bits 6 b = bits 8 (a * 4 + b / 16) ++ bits 4 (b % 16) := by
      rw [bits_append (by omega), bits_append (by omega)]
      congr 1
      omega
    rw [packEntries, pack_first hb]
    refine ⟨by simp, ?_⟩
    simp only [flatMap_cons, flatMap_nil, append_nil]
    rw [toNat_toUInt8 (by omega), hgroup, take_left' (by simp)]
  | case4 digits hfour hthree htwo =>
    rw [eq_nil_of_no_group hfour hthree htwo hlength]
    exact ⟨rfl, rfl⟩

theorem denotes_packEntries (h : ∀ c ∈ str, c ∈ ALPHABET)
    (hlength : str.length % 4 ≠ 1) : Denotes str (packEntries (str.map entry)) := by
  have hlt : ∀ n ∈ str.map entry, n < 64 := by
    intro n hn
    obtain ⟨c, hc, rfl⟩ := mem_map.mp hn
    rw [entry_of_mem (h c hc)]
    exact idxOf_lt (h c hc)
  obtain ⟨hlen, hbits⟩ := bits_packEntries hlt (by rwa [length_map])
  rw [length_map] at hlen
  refine ⟨hlen, ?_⟩
  rw [hbits, flatMap_map]
  congr 1
  exact flatMap_congr fun c hc => by rw [entry_of_mem (h c hc)]

/-- Encoding is undone by decoding and is the same on both sides. Decoding takes what is base64url
and nothing else, except for a string of code units from the alphabet or past the end of the table,
with one of the latter and of a possible length. -/
theorem base64url_exact_iff (bytes : List UInt8) (str : JsString) :
    (base64UrlToBytes (bytesToBase64Url bytes) = .ok bytes ∧
      Utils.bytesToBase64Url bytes = bytesToBase64Url bytes) ∧
    (DecodesExactly str ↔
      (∀ c ∈ str, c < 256) ∨ (∃ c ∈ str, c < 256 ∧ c ∉ ALPHABET) ∨ str.length % 4 = 1) := by
  refine ⟨⟨base64UrlToBytes_bytesToBase64Url bytes, client_bytesToBase64Url bytes⟩, ?_⟩
  constructor
  · intro h
    by_contra hcond
    rw [not_or] at hcond
    obtain ⟨hhigh, hrej⟩ := hcond
    rw [← base64UrlToBytes_error_iff, h.throws, not_not] at hrej
    exact hhigh fun c hc => lt_of_mem_ALPHABET (hrej.1 c hc)
  rintro (hlow | hrej)
  · have hiff : (∃ error, base64UrlToBytes str = .error error) ↔ ¬ IsBase64Url str := by
      rw [base64UrlToBytes_error_iff, IsBase64Url, not_and_or, not_ne_iff]
      refine or_congr_left ?_
      rw [not_forall]
      refine exists_congr fun c => ?_
      rw [Classical.not_imp]
      exact and_congr_right fun hc => and_iff_right (hlow c hc)
    refine ⟨hiff, ?_⟩
    intro bytes hb
    have hv : IsBase64Url str := by
      by_contra hnot
      obtain ⟨error, herror⟩ := hiff.mpr hnot
      rw [herror] at hb
      cases hb
    have hok := base64UrlToBytes_ok (fun c hc hmark =>
      (DECODE_invalid_iff.mp hmark).2 (hv.1 c hc)) hv.2
    rw [hok] at hb
    cases hb
    exact denotes_packEntries hv.1 hv.2
  have hthr := base64UrlToBytes_error_iff.mpr hrej
  refine ⟨iff_of_true hthr ?_, ?_⟩
  · rintro ⟨hmem, hlen⟩
    rcases hrej with ⟨c, hc, -, hnot⟩ | h
    · exact hnot (hmem c hc)
    · exact hlen h
  intro bytes hb
  obtain ⟨error, herror⟩ := hthr
  rw [herror] at hb
  cases hb

/-- `ĀA` is taken for the byte zero. -/
theorem high_unit_decoded :
    base64UrlToBytes [0x100, 65] = .ok [0] ∧ ¬ DecodesExactly [0x100, 65] := by
  refine ⟨by decide, ?_⟩
  intro h
  have hnot : ¬ IsBase64Url [0x100, 65] := by
    intro hv
    exact absurd (hv.1 0x100 List.mem_cons_self) (by decide)
  obtain ⟨error, herror⟩ := h.throws.mpr hnot
  cases herror

end Kaos.Server.Base64Url
