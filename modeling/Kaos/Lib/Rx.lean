import Kaos.Lib.JsString

/-! Regular expressions on code units, by the remainders a match can leave. -/
namespace Kaos.Lib

inductive Rx
  | unit (accepts : UInt16 → Bool)
  | text (s : JsString)
  | seq (r r' : Rx)
  | alt (r r' : Rx)
  | opt (r : Rx)
  | many (accepts : UInt16 → Bool)

namespace Rx

/-- What is left after a run of accepted units, for every length the run can have. -/
def manyRests (accepts : UInt16 → Bool) : JsString → List JsString
  | [] => [[]]
  | c :: s => if accepts c then manyRests accepts s ++ [c :: s] else [c :: s]

/-- What is left after a match at the front, for every match. -/
def rests : Rx → JsString → List JsString
  | unit _, [] => []
  | unit accepts, c :: s => if accepts c then [s] else []
  | text t, s => if t.isPrefixOf s then [s.drop t.length] else []
  | seq r r', s => (r.rests s).flatMap r'.rests
  | alt r r', s => r.rests s ++ r'.rests s
  | opt r, s => r.rests s ++ [s]
  | many accepts, s => manyRests accepts s

/-- `^r$` -/
def test (r : Rx) (s : JsString) : Bool := (r.rests s).any List.isEmpty

/-- `r` some number of times. -/
def times (r : Rx) : ℕ → Rx
  | 0 => text []
  | n + 1 => seq r (times r n)

/-- `[…]+` -/
def some' (accepts : UInt16 → Bool) : Rx := seq (unit accepts) (many accepts)

def seqs (rs : List Rx) : Rx := rs.foldr seq (text [])

/-- `\d` -/
def isDigit (c : UInt16) : Bool := 48 ≤ c ∧ c ≤ 57

/-- `.` -/
def isAny (c : UInt16) : Bool := c ≠ 10 ∧ c ≠ 13 ∧ c ≠ 0x2028 ∧ c ≠ 0x2029

def digits (n : ℕ) : Rx := times (unit isDigit) n

end Rx

end Kaos.Lib
