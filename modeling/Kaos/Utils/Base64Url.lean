import Kaos.Lib.JsString

/-! Base64url as a client writes it. -/
namespace Kaos.Utils

open Kaos.Lib

def BASE64URL_ALPHABET : JsString :=
  js "ABCDEFGHIJKLMNOPQRSTUVWXYZabcdefghijklmnopqrstuvwxyz0123456789-_"

/-- A sextet of the group's number, as a character. -/
def alphabetAt (value : ℕ) : UInt16 := BASE64URL_ALPHABET.getD (value &&& 63) 0

def bytesToBase64Url : List UInt8 → JsString
  | a :: b :: c :: bytes =>
    let value := (a.toNat <<< 16 ||| b.toNat <<< 8) ||| c.toNat
    alphabetAt (value >>> 18) :: alphabetAt (value >>> 12) :: alphabetAt (value >>> 6) ::
      alphabetAt value :: bytesToBase64Url bytes
  | [a, b] =>
    let value := a.toNat <<< 16 ||| b.toNat <<< 8
    [alphabetAt (value >>> 18), alphabetAt (value >>> 12), alphabetAt (value >>> 6)]
  | [a] =>
    let value := a.toNat <<< 16
    [alphabetAt (value >>> 18), alphabetAt (value >>> 12)]
  | [] => []

end Kaos.Utils
