import Kaos.Lib.JsString

/-! The normalization of paths that the host application provides. -/
namespace Kaos.Paths

open Kaos.Lib

/-- `normalizePath`: a normalized path is left as it is, and no path is empty. -/
structure NormalizePath where
  normalize : JsString → JsString
  normalize_normalize : ∀ path, normalize (normalize path) = normalize path
  normalize_ne_nil : ∀ path, normalize path ≠ []

/-- What it does to a path without slashes at its ends, double slashes or unusual characters. -/
def NormalizePath.plain : NormalizePath where
  normalize path := if path = [] then js "/" else path
  normalize_normalize path := by
    by_cases h : path = []
    · rw [if_pos h]
      rfl
    · rw [if_neg h, if_neg h]
  normalize_ne_nil path := by
    by_cases h : path = []
    · rw [if_pos h]
      decide
    · rwa [if_neg h]

end Kaos.Paths
