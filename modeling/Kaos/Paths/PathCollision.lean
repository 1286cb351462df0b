import Kaos.Paths.CanonicalPath
import Kaos.Lib.OrderedMap
import Mathlib.Logic.Relation

/-! Path collision detection, and how far the canonical key is an identity. -/
namespace Kaos.Paths

open Kaos.Lib List Option

section Respelling

/-- A normalization that leaves a leading `./` where it is, as NFC does. -/
structure DotNfc extends Nfc where
  normalize_dotSlash : ∀ path, normalize (46 :: 47 :: path) = 46 :: 47 :: normalize path

/-- One spelling of a path and another: an extra slash, a backslash for a slash, a `/` or a `./`
before it. -/
inductive Respelled : JsString → JsString → Prop
  | slash (a b) : Respelled (a ++ 47 :: b) (a ++ 47 :: 47 :: b)
  | backslash (a b) : Respelled (a ++ 47 :: b) (a ++ 92 :: b)
  | root (path) : Respelled path (47 :: path)
  | dot (path) : Respelled path (46 :: 47 :: path)

/-- How often `./` stands at the front. -/
def dotCount : JsString → ℕ
  | c :: d :: rest => if c = 46 ∧ d = 47 then dotCount rest + 1 else 0
  | _ => 0

/-- The `./` that stand behind leading slashes. -/
def hiddenDots (path : JsString) : ℕ :=
  match collapseSlashes (forwardSlashes path) with
  | c :: rest => if c = 47 then dotCount rest else 0
  | [] => 0

/-- `./` so many times before a path. -/
def withDots : ℕ → JsString → JsString
  | 0, path => path
  | n + 1, path => 46 :: 47 :: withDots n path

variable {path other : JsString} {n m : ℕ}

theorem withDots_dropDotSlashes (path : JsString) :
    withDots (dotCount path) (dropDotSlashes path) = path := by
  induction path using dropDotSlashes.induct with
  | case1 c d rest hdot ih =>
    rw [dropDotSlashes, dotCount, if_pos hdot, if_pos hdot, withDots, ih, hdot.1, hdot.2]
  | case2 c d rest hdot => rw [dropDotSlashes, dotCount, if_neg hdot, if_neg hdot, withDots]
  | case3 path hp => rw [dropDotSlashes.eq_2 path hp, dotCount.eq_2 path hp, withDots]

theorem length_withDots (n : ℕ) (path : JsString) :
    (withDots n path).length = 2 * n + path.length := by
  induction n with
  | zero => simp [withDots]
  | succ n ih =>
    rw [withDots, length_cons, length_cons, ih]
    omega

theorem withDots_inj : withDots n path = withDots m path ↔ n = m := by
  constructor
  · intro h
    have hlen := congrArg List.length h
    rw [length_withDots, length_withDots] at hlen
    omega
  · rintro rfl
    rfl

theorem collapseSlashes_slash (path : JsString) : collapseSlashes (47 :: path) =
    47 :: (collapseSlashes path).dropWhile fun c => c = 47 := by
  induction path with
  | nil => rfl
  | cons c rest ih =>
    rw [collapseSlashes]
    by_cases hc : c = 47
    · subst hc
      rw [if_pos ⟨rfl, rfl⟩, ih, dropWhile_cons_of_pos (by decide), dropWhile_idempotent]
    · rw [if_neg fun h => hc (some.inj h.2), dropWhile_of_head]
      rw [head?_collapseSlashes]
      exact fun h => hc (some.inj h)

theorem dropDotSlashes_slash (path : JsString) : dropDotSlashes (47 :: path) = 47 :: path := by
  cases path with
  | nil => rfl
  | cons c rest => rw [dropDotSlashes, if_neg fun h => absurd h.1 (by decide)]

/-- Cleaned twice, the leading slashes go before the leading dots. -/
theorem cleanPath_cleanPath (path : JsString) : cleanPath (cleanPath path) =
    dropDotSlashes ((collapseSlashes (forwardSlashes path)).dropWhile fun c => c = 47) := by
  rw [cleanPath_tidy (tidy_cleanPath path) (head?_dropWhile _), cleanPath]
  have htidy := tidy_collapseSlashes_forwardSlashes path
  revert htidy
  generalize collapseSlashes (forwardSlashes path) = tidied
  intro htidy
  by_cases hhead : tidied.head? = some 47
  · cases tidied with
    | nil => cases hhead
    | cons c rest =>
      cases hhead
      rw [dropDotSlashes_slash]
  · rw [dropWhile_of_head hhead, dropWhile_of_head (head?_dropDotSlashes htidy hhead),
      dropDotSlashes_dropDotSlashes]

/-- What a single cleaning leaves in front. -/
theorem withDots_cleanPath (path : JsString) :
    withDots (hiddenDots path) (cleanPath (cleanPath path)) = cleanPath path := by
  rw [cleanPath_tidy (tidy_cleanPath path) (head?_dropWhile _), cleanPath, hiddenDots]
  have htidy := tidy_collapseSlashes_forwardSlashes path
  revert htidy
  generalize collapseSlashes (forwardSlashes path) = tidied
  intro htidy
  split
  · next c rest =>
    split
    · next hc =>
      subst hc
      rw [dropDotSlashes_slash, dropWhile_cons_of_pos (by decide),
        dropWhile_of_head (htidy.2.1 rfl)]
      exact withDots_dropDotSlashes rest
    · next hc =>
      rw [dropWhile_of_head (head?_dropDotSlashes htidy fun h => hc (some.inj h)),
        dropDotSlashes_dropDotSlashes, withDots]
  · rfl

theorem collapseSlashes_slash_slash (a b : JsString) :
    collapseSlashes (a ++ 47 :: 47 :: b) = collapseSlashes (a ++ 47 :: b) := by
  induction a with
  | nil => exact if_pos ⟨rfl, rfl⟩
  | cons c a ih =>
    rw [cons_append, cons_append, collapseSlashes, collapseSlashes, ih]
    cases a <;> rfl

/-- A respelling of a path leaves what two cleanings make of it. -/
theorem Respelled.cleanPath_cleanPath (h : Respelled path other) :
    cleanPath (cleanPath other) = cleanPath (cleanPath path) := by
  rw [Paths.cleanPath_cleanPath, Paths.cleanPath_cleanPath]
  cases h with
  | slash a b =>
    simp only [forwardSlashes, map_append, map_cons]
    rw [if_neg (by decide), collapseSlashes_slash_slash]
  | backslash a b =>
    simp only [forwardSlashes, map_append, map_cons]
    rfl
  | root =>
    rw [forwardSlashes, map_cons, if_neg (by decide), collapseSlashes_slash,
      dropWhile_cons_of_pos (by decide), dropWhile_idempotent, forwardSlashes]
  | dot =>
    rw [forwardSlashes, map_cons, map_cons, if_neg (by decide), if_neg (by decide),
      collapseSlashes, if_neg fun h => absurd h.1 (by decide), collapseSlashes_slash,
      dropWhile_cons_of_neg (by decide), dropDotSlashes, if_pos ⟨rfl, rfl⟩, forwardSlashes]

theorem cleanPath_cleanPath_of_eqvGen (h : Relation.EqvGen Respelled path other) :
    cleanPath (cleanPath other) = cleanPath (cleanPath path) := by
  induction h with
  | rel _ _ h => exact h.cleanPath_cleanPath
  | refl => rfl
  | symm _ _ _ ih => exact ih.symm
  | trans _ _ _ _ _ ih ih' => rw [ih', ih]

variable {nfc : DotNfc}

theorem normalize_withDots (n : ℕ) (path : JsString) :
    nfc.normalize (withDots n path) = withDots n (nfc.normalize path) := by
  induction n with
  | zero => rfl
  | succ n ih => rw [withDots, nfc.normalize_dotSlash, ih, withDots]

/-- The key is the identity of the path, with dots in front. -/
theorem pathKey_eq (path : JsString) : pathKey nfc.toNfc path =
    withDots (hiddenDots path) (nfc.normalize (cleanPath (cleanPath path))) := by
  rw [← normalize_withDots, withDots_cleanPath, pathKey]

theorem pathKey_pathKey (path : JsString) : pathKey nfc.toNfc (pathKey nfc.toNfc path) =
    nfc.normalize (cleanPath (cleanPath path)) := by
  rw [pathKey, pathKey, nfc.cleanPath_normalize, nfc.normalize_normalize]

/-- Two paths have one key if and only if they are one file and hide as many dots. -/
theorem pathKey_eq_iff : pathKey nfc.toNfc path = pathKey nfc.toNfc other ↔
    nfc.normalize (cleanPath (cleanPath path)) = nfc.normalize (cleanPath (cleanPath other)) ∧
      hiddenDots path = hiddenDots other := by
  constructor
  · intro h
    have hcore := congrArg (pathKey nfc.toNfc) h
    rw [pathKey_pathKey, pathKey_pathKey] at hcore
    rw [pathKey_eq, pathKey_eq, hcore, withDots_inj] at h
    exact ⟨hcore, h⟩
  · rintro ⟨hcore, hdots⟩
    rw [pathKey_eq, pathKey_eq, hcore, hdots]

end Respelling

section Collision

structure PathCollision where
  canonicalKey : JsString
  displayPaths : List JsString

/-- `Set.add` -/
def addPath (displayPaths : List JsString) (path : JsString) : List JsString :=
  if path ∈ displayPaths then displayPaths else displayPaths ++ [path]

/-- The loop over the paths. -/
def byKey (nfc : Nfc) : List JsString → OrderedMap JsString (List JsString) →
    OrderedMap JsString (List JsString)
  | [], found => found
  | path :: paths, found =>
    byKey nfc paths (found.set (pathKey nfc path)
      (match found.get? (pathKey nfc path) with
        | some existing => addPath existing path
        | none => [path]))

def findCanonicalPathCollisions (nfc : Nfc) (paths : List JsString) : List PathCollision :=
  ((byKey nfc paths .empty).entries.filter fun entry => 1 < entry.2.length).map fun entry =>
    ⟨entry.1, entry.2⟩

/-- Two display paths in one collision. -/
def Reported (nfc : Nfc) (paths : List JsString) (path other : JsString) : Prop :=
  ∃ collision ∈ findCanonicalPathCollisions nfc paths,
    path ∈ collision.displayPaths ∧ other ∈ collision.displayPaths

/-- Which display paths a key has once some paths are in. -/
def Holds (nfc : Nfc) (found : OrderedMap JsString (List JsString)) (done : List JsString) : Prop :=
  ∀ key path, path ∈ (found.get? key).getD [] ↔ path ∈ done ∧ pathKey nfc path = key

variable {nfc : Nfc} {paths done : List JsString} {found : OrderedMap JsString (List JsString)}
  {path other : JsString}

theorem mem_addPath : other ∈ addPath done path ↔ other ∈ done ∨ other = path := by
  rw [addPath]
  split
  · next h =>
    constructor
    · exact Or.inl
    · rintro (h' | rfl)
      · exact h'
      · exact h
  · rw [mem_append, mem_singleton]

theorem holds_byKey (h : Holds nfc found done) :
    Holds nfc (byKey nfc paths found) (done ++ paths) := by
  induction paths generalizing found done with
  | nil => simpa [byKey] using h
  | cons path paths ih =>
    have hset : Holds nfc (found.set (pathKey nfc path)
        (match found.get? (pathKey nfc path) with
          | some existing => addPath existing path
          | none => [path])) (done ++ [path]) := by
      intro key other
      have hold := h key other
      have hown : other = path ∧ pathKey nfc other = pathKey nfc path ↔ other = path :=
        and_iff_left_of_imp fun h => h ▸ rfl
      rw [OrderedMap.get?_set]
      by_cases hkey : key = pathKey nfc path
      · rw [if_pos hkey, getD_some, mem_append, mem_singleton, or_and_right, ← hold,
          hkey, hown]
        cases found.get? (pathKey nfc path) with
        | none => simp
        | some existing => simp [mem_addPath]
      · rw [if_neg hkey, hold, mem_append, mem_singleton, or_and_right]
        constructor
        · exact Or.inl
        · rintro (h' | ⟨rfl, h'⟩)
          · exact h'
          · exact absurd h'.symm hkey
    have hr := ih hset
    rwa [append_assoc] at hr

/-- Distinct display paths of the list are reported together if and only if they share a key. -/
theorem reported_iff (hp : path ∈ paths) (ho : other ∈ paths) (hne : path ≠ other) :
    Reported nfc paths path other ↔ pathKey nfc path = pathKey nfc other := by
  have he : Holds nfc .empty [] := fun key path => by simp
  have h : Holds nfc (byKey nfc paths .empty) ([] ++ paths) := holds_byKey he
  rw [nil_append] at h
  constructor
  · rintro ⟨collision, hmem, hin, hin'⟩
    obtain ⟨⟨key, displayPaths⟩, hen, rfl⟩ := mem_map.mp hmem
    have hget := OrderedMap.get?_eq_some.mpr (mem_filter.mp hen).1
    have hone := (h key path).mp (by rwa [hget])
    have htwo := (h key other).mp (by rwa [hget])
    rw [hone.2, htwo.2]
  · intro hkey
    have hin := (h (pathKey nfc path) path).mpr ⟨hp, rfl⟩
    have hin' := (h (pathKey nfc path) other).mpr ⟨ho, hkey.symm⟩
    cases hget : (byKey nfc paths .empty).get? (pathKey nfc path) with
    | none =>
      rw [hget] at hin
      cases hin
    | some displayPaths =>
      rw [hget] at hin hin'
      refine ⟨⟨pathKey nfc path, displayPaths⟩, mem_map.mpr ⟨(_, displayPaths), ?_, rfl⟩, hin, hin'⟩
      refine mem_filter.mpr ⟨OrderedMap.get?_eq_some.mp hget, decide_eq_true ?_⟩
      rcases displayPaths with _ | ⟨a, _ | ⟨b, rest⟩⟩
      · cases hin
      · exact absurd ((mem_singleton.mp hin).trans (mem_singleton.mp hin').symm) hne
      · simp

end Collision

/-- The key is the identity of a path as far as no `./` hides behind a leading slash: then it is
its own key, and it is shared by respellings and collisions that hide as many. -/
theorem pathKey_identity_iff (nfc : DotNfc) (path : JsString) :
    (pathKey nfc.toNfc (pathKey nfc.toNfc path) = pathKey nfc.toNfc path ↔ hiddenDots path = 0) ∧
    (∀ other, Relation.EqvGen Respelled path other →
      (pathKey nfc.toNfc other = pathKey nfc.toNfc path ↔ hiddenDots other = hiddenDots path)) ∧
    ∀ paths other, path ∈ paths → other ∈ paths → path ≠ other →
      ((Reported nfc.toNfc paths path other ↔
        nfc.normalize (cleanPath (cleanPath path)) = nfc.normalize (cleanPath (cleanPath other))) ↔
      (nfc.normalize (cleanPath (cleanPath path)) = nfc.normalize (cleanPath (cleanPath other)) →
        hiddenDots path = hiddenDots other)) := by
  refine ⟨?_, ?_, ?_⟩
  · rw [pathKey_pathKey, pathKey_eq, eq_comm]
    exact withDots_inj (m := 0)
  · intro other h
    rw [pathKey_eq_iff, cleanPath_cleanPath_of_eqvGen h]
    exact and_iff_right rfl
  · intro paths other hp ho hne
    rw [reported_iff hp ho hne, pathKey_eq_iff]
    tauto

/-- The normalization of paths of ASCII characters. -/
def asciiNfc : DotNfc := ⟨⟨fun p => p, fun _ => rfl, fun _ => rfl⟩, fun _ => rfl⟩

theorem pathKey_identity_plain :
    pathKey asciiNfc.toNfc (pathKey asciiNfc.toNfc (js "./a")) = pathKey asciiNfc.toNfc (js "./a") ∧
    pathKey asciiNfc.toNfc (js "/./a") ≠ pathKey asciiNfc.toNfc (js "./a") ∧
    Reported asciiNfc.toNfc [js "./a", js "a"] (js "./a") (js "a") := by
  obtain ⟨hs, hres, hrep⟩ := pathKey_identity_iff asciiNfc (js "./a")
  refine ⟨hs.mpr (by decide), ?_, ?_⟩
  · intro h
    exact absurd ((hres _ (.rel _ _ (.root _))).mp h) (by decide)
  · exact ((hrep [js "./a", js "a"] (js "a") (by decide) (by decide) (by decide)).mpr
      fun _ => by decide).mpr (by decide)

/-- `/./a` has the key `./a`, and the key of that is `a`. -/
theorem pathKey_not_identity :
    ¬ ∀ path, pathKey asciiNfc.toNfc (pathKey asciiNfc.toNfc path) = pathKey asciiNfc.toNfc path :=
  fun h => absurd (h (js "/./a")) (by decide)

end Kaos.Paths
