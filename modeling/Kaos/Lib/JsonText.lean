import Kaos.Lib.Digits

/-! The text `JSON.stringify` gives a string. -/
namespace Kaos.Lib.JsonText

/-- `\uXXXX` -/
def unicodeEscape (c : UInt16) : JsString :=
  [92, 117, digit (c.toNat / 4096), digit (c.toNat / 256 % 16), digit (c.toNat / 16 % 16),
    digit (c.toNat % 16)]

def isLead (c : UInt16) : Bool := 0xD800 ≤ c ∧ c ≤ 0xDBFF

def isTrail (c : UInt16) : Bool := 0xDC00 ≤ c ∧ c ≤ 0xDFFF

/-- A unit that is no half of a pair. -/
def escapeUnit (c : UInt16) : JsString :=
  if c = 8 then [92, 98]
  else if c = 9 then [92, 116]
  else if c = 10 then [92, 110]
  else if c = 12 then [92, 102]
  else if c = 13 then [92, 114]
  else if c = 34 then [92, 34]
  else if c = 92 then [92, 92]
  else if c < 32 ∨ isLead c ∨ isTrail c then unicodeEscape c
  else [c]

def escape : JsString → JsString
  | [] => []
  | [c] => escapeUnit c
  | c :: d :: rest =>
    if isLead c ∧ isTrail d then c :: d :: escape rest else escapeUnit c ++ escape (d :: rest)

def quote (s : JsString) : JsString := 34 :: (escape s ++ [34])

theorem escape_of_plain {s : JsString} (h : ∀ c ∈ s, isLead c = false ∧ escapeUnit c = [c]) :
    escape s = s := by
  induction s using escape.induct with
  | case1 => rfl
  | case2 c => exact (h c List.mem_cons_self).2
  | case3 c d rest hpair ih =>
    rw [(h c List.mem_cons_self).1] at hpair
    exact absurd hpair.1 Bool.false_ne_true
  | case4 c d rest hpair ih =>
    rw [escape, if_neg hpair, (h c List.mem_cons_self).2,
      ih fun e he => h e (List.mem_cons_of_mem _ he)]
    rfl

end Kaos.Lib.JsonText
