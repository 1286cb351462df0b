import Kaos.Lib.JsString

/-! Canonical path identity. -/
namespace Kaos.Paths

open Kaos.Lib List

/-- `/\\/g` to `/` -/
def forwardSlashes (path : JsString) : JsString := path.map fun c => if c = 92 then 47 else c

/-- `/\/{2,}/g` to `/` -/
def collapseSlashes : JsString → JsString
  | [] => []
  | c :: rest =>
    if c = 47 ∧ rest.head? = some 47 then collapseSlashes rest else c :: collapseSlashes rest

/-- `/^(\.\/)+/` to nothing -/
def dropDotSlashes : JsString → JsString
  | c :: d :: rest => if c = 46 ∧ d = 47 then dropDotSlashes rest else c :: d :: rest
  | path => path

/-- The path before its Unicode normalization. -/
def cleanPath (path : JsString) : JsString :=
  (dropDotSlashes (collapseSlashes (forwardSlashes path))).dropWhile fun c => c = 47

/-- `normalize("NFC")`: it is idempotent, and it neither makes nor takes away a slash, a backslash
or a dot. -/
structure Nfc where
  normalize : JsString → JsString
  normalize_normalize : ∀ path, normalize (normalize path) = normalize path
  cleanPath_normalize : ∀ path, cleanPath (normalize path) = normalize (cleanPath path)

/-- `canonicalizeVaultPath(path).canonicalKey` -/
def pathKey (nfc : Nfc) (path : JsString) : JsString := nfc.normalize (cleanPath path)

section Lemmas

variable {path : JsString} {c : UInt16}

/-- No backslash and no double slash. -/
def Tidy : JsString → Prop
  | [] => True
  | c :: rest => c ≠ 92 ∧ (c = 47 → rest.head? ≠ some 47) ∧ Tidy rest

theorem head?_collapseSlashes (path : JsString) : (collapseSlashes path).head? = path.head? := by
  induction path with
  | nil => rfl
  | cons c rest ih =>
    rw [collapseSlashes]
    split
    · next h => rw [ih, h.2, head?_cons, h.1]
    · rfl

theorem tidy_collapseSlashes (h : ∀ c ∈ path, c ≠ 92) : Tidy (collapseSlashes path) := by
  induction path with
  | nil => trivial
  | cons c rest ih =>
    have hr := ih fun d hd => h d (mem_cons_of_mem _ hd)
    rw [collapseSlashes]
    split
    · exact hr
    · next hnot =>
      refine ⟨h c mem_cons_self, ?_, hr⟩
      intro hc hhead
      rw [head?_collapseSlashes] at hhead
      exact hnot ⟨hc, hhead⟩

theorem forwardSlashes_tidy (h : Tidy path) : forwardSlashes path = path := by
  induction path with
  | nil => rfl
  | cons c rest ih =>
    rw [forwardSlashes, map_cons, if_neg h.1]
    exact congrArg _ (ih h.2.2)

theorem collapseSlashes_tidy (h : Tidy path) : collapseSlashes path = path := by
  induction path with
  | nil => rfl
  | cons c rest ih => rw [collapseSlashes, if_neg fun hboth => h.2.1 hboth.1 hboth.2, ih h.2.2]

theorem tidy_dropDotSlashes (h : Tidy path) : Tidy (dropDotSlashes path) := by
  induction path using dropDotSlashes.induct with
  | case1 c d rest hdot ih =>
    rw [dropDotSlashes, if_pos hdot]
    exact ih h.2.2.2.2
  | case2 c d rest hdot =>
    rw [dropDotSlashes, if_neg hdot]
    exact h
  | case3 path hp =>
    rw [dropDotSlashes.eq_2 path hp]
    exact h

theorem tidy_dropWhile (h : Tidy path) : Tidy (path.dropWhile fun c => c = 47) := by
  induction path with
  | nil => trivial
  | cons c rest ih =>
    by_cases hc : c = 47
    · rw [dropWhile_cons_of_pos (by simpa using hc)]
      exact ih h.2.2
    rw [dropWhile_cons_of_neg (by simpa using hc)]
    exact h

/-- No slash comes to the front. -/
theorem head?_dropDotSlashes (h : Tidy path) (hhead : path.head? ≠ some 47) :
    (dropDotSlashes path).head? ≠ some 47 := by
  induction path using dropDotSlashes.induct with
  | case1 c d rest hdot ih =>
    rw [dropDotSlashes, if_pos hdot]
    exact ih h.2.2.2.2 (h.2.2.2.1 hdot.2)
  | case2 c d rest hdot =>
    rw [dropDotSlashes, if_neg hdot]
    exact hhead
  | case3 path hp =>
    rw [dropDotSlashes.eq_2 path hp]
    exact hhead

theorem dropDotSlashes_dropDotSlashes (path : JsString) :
    dropDotSlashes (dropDotSlashes path) = dropDotSlashes path := by
  induction path using dropDotSlashes.induct with
  | case1 c d rest hdot ih =>
    rw [dropDotSlashes, if_pos hdot]
    exact ih
  | case2 c d rest hdot => rw [dropDotSlashes, if_neg hdot, dropDotSlashes, if_neg hdot]
  | case3 path hp => rw [dropDotSlashes.eq_2 path hp, dropDotSlashes.eq_2 path hp]

theorem dropWhile_of_head (h : path.head? ≠ some 47) : (path.dropWhile fun c => c = 47) = path := by
  cases path with
  | nil => rfl
  | cons c rest =>
    apply dropWhile_cons_of_neg
    rw [decide_eq_true_eq]
    exact fun hc => h (congrArg some hc)

theorem head?_dropWhile (path : JsString) : (path.dropWhile fun c => c = 47).head? ≠ some 47 := by
  induction path with
  | nil =>
    exact nofun
  | cons c rest ih =>
    by_cases hc : c = 47
    · rw [dropWhile_cons_of_pos (by simpa using hc)]
      exact ih
    rw [dropWhile_cons_of_neg (by simpa using hc)]
    exact fun h => hc (Option.some.inj h)

/-- Of a clean path only leading dots can still go. -/
theorem cleanPath_tidy (h : Tidy path) (hhead : path.head? ≠ some 47) :
    cleanPath path = dropDotSlashes path := by
  rw [cleanPath, forwardSlashes_tidy h, collapseSlashes_tidy h,
    dropWhile_of_head (head?_dropDotSlashes h hhead)]

theorem tidy_collapseSlashes_forwardSlashes (path : JsString) :
    Tidy (collapseSlashes (forwardSlashes path)) := by
  apply tidy_collapseSlashes
  intro c hc
  obtain ⟨d, -, rfl⟩ := mem_map.mp hc
  split
  · decide
  · next hd => exact hd

theorem tidy_cleanPath (path : JsString) : Tidy (cleanPath path) :=
  tidy_dropWhile (tidy_dropDotSlashes (tidy_collapseSlashes_forwardSlashes path))

/-- A second cleaning can take leading dots away that a slash stood before; a third takes
nothing. -/
theorem cleanPath_cleanPath_cleanPath (path : JsString) :
    cleanPath (cleanPath (cleanPath path)) = cleanPath (cleanPath path) := by
  have htidy := tidy_cleanPath path
  have hhead : (cleanPath path).head? ≠ some 47 := head?_dropWhile _
  rw [cleanPath_tidy htidy hhead, cleanPath_tidy (tidy_dropDotSlashes htidy)
    (head?_dropDotSlashes htidy hhead), dropDotSlashes_dropDotSlashes]

/-- The key of a key of a key is the key of the key. -/
theorem pathKey_pathKey_pathKey (nfc : Nfc) (path : JsString) :
    pathKey nfc (pathKey nfc (pathKey nfc path)) = pathKey nfc (pathKey nfc path) := by
  simp only [pathKey, nfc.cleanPath_normalize, nfc.normalize_normalize,
    cleanPath_cleanPath_cleanPath]

end Lemmas

example : cleanPath (js "a\\\\b//./c") = js "a/b/./c" := by decide

end Kaos.Paths
