import Kaos.Lib.Digits

/-! SHA-256 of a string, for samples that need the digests the platform would return. -/
namespace Kaos.Lib

namespace Sha256

def roundConstants : List ℕ := [
  0x428a2f98, 0x71374491, 0xb5c0fbcf, 0xe9b5dba5, 0x3956c25b, 0x59f111f1,
  0x923f82a4, 0xab1c5ed5, 0xd807aa98, 0x12835b01, 0x243185be, 0x550c7dc3,
  0x72be5d74, 0x80deb1fe, 0x9bdc06a7, 0xc19bf174, 0xe49b69c1, 0xefbe4786,
  0x0fc19dc6, 0x240ca1cc, 0x2de92c6f, 0x4a7484aa, 0x5cb0a9dc, 0x76f988da,
  0x983e5152, 0xa831c66d, 0xb00327c8, 0xbf597fc7, 0xc6e00bf3, 0xd5a79147,
  0x06ca6351, 0x14292967, 0x27b70a85, 0x2e1b2138, 0x4d2c6dfc, 0x53380d13,
  0x650a7354, 0x766a0abb, 0x81c2c92e, 0x92722c85, 0xa2bfe8a1, 0xa81a664b,
  0xc24b8b70, 0xc76c51a3, 0xd192e819, 0xd6990624, 0xf40e3585, 0x106aa070,
  0x19a4c116, 0x1e376c08, 0x2748774c, 0x34b0bcb5, 0x391c0cb3, 0x4ed8aa4a,
  0x5b9cca4f, 0x682e6ff3, 0x748f82ee, 0x78a5636f, 0x84c87814, 0x8cc70208,
  0x90befffa, 0xa4506ceb, 0xbef9a3f7, 0xc67178f2]

def initialHash : List ℕ := [
  0x6a09e667, 0xbb67ae85, 0x3c6ef372, 0xa54ff53a, 0x510e527f, 0x9b05688c,
  0x1f83d9ab, 0x5be0cd19]

def word (n : ℕ) : ℕ := n % 0x100000000

def rotr (x n : ℕ) : ℕ := word (x >>> n ||| x <<< (32 - n))

/-- The message schedule, newest word first. -/
def schedule (block : List ℕ) : List ℕ :=
  (List.range 48).foldl (fun w _ =>
    let s0 := w.getD 14 0
    let s1 := w.getD 1 0
    word ((rotr s1 17 ^^^ rotr s1 19 ^^^ s1 >>> 10) + w.getD 6 0 +
      (rotr s0 7 ^^^ rotr s0 18 ^^^ s0 >>> 3) + w.getD 15 0) :: w) block.reverse

def round : List ℕ → ℕ × ℕ → List ℕ
  | [a, b, c, d, e, f, g, h], (k, w) =>
    let t1 := h + (rotr e 6 ^^^ rotr e 11 ^^^ rotr e 25) + (e &&& f ^^^ (0xffffffff - e) &&& g) + k + w
    let t2 := (rotr a 2 ^^^ rotr a 13 ^^^ rotr a 22) + (a &&& b ^^^ a &&& c ^^^ b &&& c)
    [word (t1 + t2), a, b, c, word (d + t1), e, f, g]
  | state, _ => state

def compress (hash block : List ℕ) : List ℕ :=
  (hash.zip ((roundConstants.zip (schedule block).reverse).foldl round hash)).map
    fun (x, y) => word (x + y)

/-- Big-endian digits of a width. -/
def digits (base width n : ℕ) : List ℕ :=
  (List.range width).map fun i => n / base ^ (width - 1 - i) % base

def pad (bytes : List ℕ) : List ℕ :=
  bytes ++ 0x80 :: List.replicate ((119 - bytes.length % 64) % 64) 0 ++
    digits 256 8 (8 * bytes.length)

/-- The words of the padded message, sixteen to a block. -/
def blocks (bytes : List ℕ) : List (List ℕ) :=
  (((pad bytes).toChunks 4).map fun quad => quad.foldl (fun n b => n * 256 + b) 0).toChunks 16

def digest (bytes : List ℕ) : List ℕ := (blocks bytes).foldl compress initialHash

end Sha256

/-- The bytes `TextEncoder` makes of a string; a lone surrogate becomes U+FFFD. -/
def utf8Encode : JsString → List ℕ
  | c :: d :: rest =>
    if 0xD800 ≤ c ∧ c ≤ 0xDBFF ∧ 0xDC00 ≤ d ∧ d ≤ 0xDFFF then
      let n := 0x10000 + (c.toNat - 0xD800) * 0x400 + (d.toNat - 0xDC00)
      [0xF0 + n / 0x40000, 0x80 + n / 0x1000 % 64, 0x80 + n / 64 % 64, 0x80 + n % 64] ++
        utf8Encode rest
    else utf8Unit c ++ utf8Encode (d :: rest)
  | [c] => utf8Unit c
  | [] => []
where
  utf8Unit (c : UInt16) : List ℕ :=
    let n := if 0xD800 ≤ c ∧ c ≤ 0xDFFF then 0xFFFD else c.toNat
    if n < 0x80 then [n]
    else if n < 0x800 then [0xC0 + n / 64, 0x80 + n % 64]
    else [0xE0 + n / 0x1000, 0x80 + n / 64 % 64, 0x80 + n % 64]

/-- The digest in 64 hex digits. -/
def sha256Hex (s : JsString) : JsString :=
  (List.range 64).map fun i =>
    digit ((Sha256.digits 16 8 ((Sha256.digest (utf8Encode s)).getD (i / 8) 0)).getD (i % 8) 0)

theorem sha256Hex_length (s : JsString) : (sha256Hex s).length = 64 := by
  rw [sha256Hex, List.length_map, List.length_range]

example : (sha256Hex (js "abc")).take 8 = js "ba7816bf" := by decide

end Kaos.Lib
