import Mathlib.Data.List.Sort
import Kaos.Lib.EditScript
import Kaos.Lib.JsString
import Kaos.Lib.OrderedMap

/-! The three-way merge of texts by lines. -/
namespace Kaos.Utils

open Kaos.Lib List Option

def LINE_TOKEN_BASE : ℕ := 0xE000
def MAX_LINE_TOKENS : ℕ := 0xF8FF - LINE_TOKEN_BASE + 1

structure ThreeWayMergeConflictHunk where
  index : ℕ
  baseStart : ℕ
  baseEnd : ℕ
  baseText : JsString
  leftText : JsString
  rightText : JsString
  deriving DecidableEq

inductive ThreeWayMergeSegment
  | text (text : JsString)
  | conflict (hunkIndex : ℕ)
  deriving DecidableEq

inductive ThreeWayMergeResult
  | noBase
  | cleanMerge (mergedText : JsString)
  | conflict (partialMergedText : JsString) (hunks : List ThreeWayMergeConflictHunk)
      (segments : List ThreeWayMergeSegment)
  deriving DecidableEq

/-- The `lines` of a change are its content. -/
abbrev LineChange := Splice JsString

structure BaseRange where
  start : ℕ
  stop : ℕ
  deriving DecidableEq

/-- `[^\n]*\n|[^\n]+` -/
def splitLineTokens : JsString → List JsString
  | [] => []
  | c :: rest =>
    if c = 10 then [c] :: splitLineTokens rest
    else match splitLineTokens rest with
      | [] => [[c]]
      | line :: lines => (c :: line) :: lines

@[simp] theorem flatten_splitLineTokens (text : JsString) : (splitLineTokens text).flatten = text := by
  induction text with
  | nil => rfl
  | cons c rest ih =>
    unfold splitLineTokens
    split
    · simp [ih]
    cases hlines : splitLineTokens rest with rw [hlines] at ih
    | nil | cons line lines => simp [← ih]

section Tokens

def decodeTokenText (lines : List JsString) (tokenText : JsString) : List JsString :=
  tokenText.map fun token =>
    if token.toNat < LINE_TOKEN_BASE then [] else (lines[token.toNat - LINE_TOKEN_BASE]?).getD []

/-- The table that `encodeLineTokens` builds: the token of a line decodes to it. -/
structure LineTokens where
  tokenByLine : OrderedMap JsString UInt16
  lines : List JsString
  decodes : ∀ line token, (line, token) ∈ tokenByLine.entries → LINE_TOKEN_BASE ≤ token.toNat ∧
    lines[token.toNat - LINE_TOKEN_BASE]? = some line

def LineTokens.empty : LineTokens := ⟨.empty, [], by simp [OrderedMap.empty]⟩

/-- A new token is one code unit: the sum does not wrap. -/
theorem toNat_lineToken {n : ℕ} (h : n < MAX_LINE_TOKENS) :
    (LINE_TOKEN_BASE + n).toUInt16.toNat = LINE_TOKEN_BASE + n := by
  have hlt : LINE_TOKEN_BASE + n < 2 ^ 16 := by
    have hmax : MAX_LINE_TOKENS = 6400 := rfl
    have hb : LINE_TOKEN_BASE = 57344 := rfl
    omega
  exact Nat.mod_eq_of_lt hlt

variable {tokens : LineTokens} {line : JsString}

theorem decodes_set (h : tokens.lines.length < MAX_LINE_TOKENS) (line' : JsString) (token : UInt16)
    (hmem : (line', token) ∈ (tokens.tokenByLine.set line
      (LINE_TOKEN_BASE + tokens.lines.length).toUInt16).entries) : LINE_TOKEN_BASE ≤ token.toNat ∧
      (tokens.lines ++ [line])[token.toNat - LINE_TOKEN_BASE]? = some line' := by
  rcases OrderedMap.eq_or_mem_of_mem_set hmem with heq | hold
  · cases heq
    rw [toNat_lineToken h]
    refine ⟨Nat.le_add_right _ _, ?_⟩
    simp
  obtain ⟨hle, hget⟩ := tokens.decodes line' token hold
  refine ⟨hle, ?_⟩
  obtain ⟨hlt, -⟩ := List.getElem?_eq_some_iff.mp hget
  rw [List.getElem?_append_left hlt, hget]

def tokenForLine (tokens : LineTokens) (line : JsString) : Option (UInt16 × LineTokens) :=
  match tokens.tokenByLine.get? line with
  | some existing => some (existing, tokens)
  | none =>
    if h : tokens.lines.length < MAX_LINE_TOKENS then
      let token := (LINE_TOKEN_BASE + tokens.lines.length).toUInt16
      some (token, ⟨tokens.tokenByLine.set line token, tokens.lines ++ [line], decodes_set h⟩)
    else none

/-- `encode` inside `encodeLineTokens`. -/
def encodeTokens (tokens : LineTokens) : List JsString → Option (JsString × LineTokens)
  | [] => some ([], tokens)
  | line :: source => do
    let (token, tokens) ← tokenForLine tokens line
    let (encoded, tokens) ← encodeTokens tokens source
    some (token :: encoded, tokens)

structure EncodedLines where
  base : JsString
  variant : JsString
  lines : List JsString

def encodeLineTokens (baseLines variantLines : List JsString) : Option EncodedLines := do
  let (base, tokens) ← encodeTokens .empty baseLines
  let (variant, tokens) ← encodeTokens tokens variantLines
  some ⟨base, variant, tokens.lines⟩

/-- A new token keeps the table and decodes to its line. -/
theorem tokenForLine_spec {tokens' : LineTokens} {token : UInt16}
    (h : tokenForLine tokens line = some (token, tokens')) :
    tokens.lines <+: tokens'.lines ∧ LINE_TOKEN_BASE ≤ token.toNat ∧
      tokens'.lines[token.toNat - LINE_TOKEN_BASE]? = some line := by
  unfold tokenForLine at h
  cases hget : tokens.tokenByLine.get? line with rw [hget] at h
  | some existing =>
    cases h
    exact ⟨prefix_refl _, tokens.decodes line token (OrderedMap.get?_eq_some.mp hget)⟩
  | none =>
    dsimp only at h
    split at h
    · next hlt =>
      cases h
      exact ⟨prefix_append _ _, decodes_set hlt line _ OrderedMap.mem_set_self⟩
    · cases h

theorem getElem?_of_prefix {lines lines' : List JsString} {i : ℕ}
    (h : lines <+: lines') (hget : lines[i]? = some line) : lines'[i]? = some line := by
  obtain ⟨rest, rfl⟩ := h
  obtain ⟨hlt, -⟩ := List.getElem?_eq_some_iff.mp hget
  rw [List.getElem?_append_left hlt, hget]

/-- Tokens decode under any larger table. -/
theorem encodeTokens_spec {tokens' : LineTokens} {source : List JsString}
    {encoded : JsString} (h : encodeTokens tokens source = some (encoded, tokens')) :
    tokens.lines <+: tokens'.lines ∧
      ∀ lines, tokens'.lines <+: lines → decodeTokenText lines encoded = source := by
  induction source generalizing tokens encoded with
  | nil =>
    cases h
    exact ⟨prefix_refl _, fun lines _ => rfl⟩
  | cons line source ih =>
    obtain ⟨⟨token, next⟩, ht, h⟩ := bind_eq_some_iff.mp h
    obtain ⟨⟨encoded', last⟩, henc, h⟩ := bind_eq_some_iff.mp h
    cases h
    obtain ⟨hstarts, hle, hline⟩ := tokenForLine_spec ht
    obtain ⟨hstarts', hd⟩ := ih henc
    refine ⟨hstarts.trans hstarts', ?_⟩
    intro lines hlines
    have hget := getElem?_of_prefix (hstarts'.trans hlines) hline
    have htail := hd lines hlines
    have hnot : ¬ token.toNat < LINE_TOKEN_BASE := by omega
    rw [decodeTokenText] at htail ⊢
    rw [map_cons, htail, if_neg hnot, hget]
    rfl

/-- The encoded lines decode to the lines of both texts. -/
theorem encodeLineTokens_spec {baseLines variantLines : List JsString} {encoded : EncodedLines}
    (h : encodeLineTokens baseLines variantLines = some encoded) :
    decodeTokenText encoded.lines encoded.base = baseLines ∧
      decodeTokenText encoded.lines encoded.variant = variantLines := by
  obtain ⟨⟨base, tokens⟩, hb, h⟩ := bind_eq_some_iff.mp h
  obtain ⟨⟨variant, tokens'⟩, hvar, h⟩ := bind_eq_some_iff.mp h
  cases h
  obtain ⟨hstarts, hd⟩ := encodeTokens_spec hvar
  exact ⟨(encodeTokens_spec hb).2 _ hstarts, hd _ (prefix_refl _)⟩

end Tokens

-- `fast-diff`, of which any script that rewrites one string into the other is expected
variable (fastDiff : Differ UInt16)

def buildLineChanges (baseLines variantLines : List JsString) : List LineChange :=
  match encodeLineTokens baseLines variantLines with
  | none => [⟨0, baseLines.length, variantLines⟩]
  | some encoded =>
    EditScript.splices <| List.map
      (fun segment => (segment.1, decodeTokenText encoded.lines segment.2))
      (fastDiff.diff encoded.base encoded.variant)

def lineChangesEqual (left right : LineChange) : Bool :=
  left.baseStart = right.baseStart && left.baseEnd = right.baseEnd &&
    left.content.length = right.content.length &&
    (left.content.zip right.content).all fun (line, line') => line = line'

def rangesTouch (left right : LineChange) : Bool :=
  left.baseStart ≤ right.baseEnd && right.baseStart ≤ left.baseEnd

/-- The smallest range around two changes. -/
def hull (left right : LineChange) : BaseRange :=
  ⟨min left.baseStart right.baseStart, max left.baseEnd right.baseEnd⟩

/-- The loop of `mergeBaseRanges` after its first range. -/
def mergeRangesFrom (last : BaseRange) : List BaseRange → List BaseRange
  | [] => [last]
  | range :: rest =>
    if range.start ≤ last.stop then
      mergeRangesFrom ⟨last.start, max last.stop range.stop⟩ rest
    else last :: mergeRangesFrom range rest

def sortRanges (ranges : List BaseRange) : List BaseRange :=
  ranges.insertionSort fun left right =>
    left.start < right.start ∨ left.start = right.start ∧ left.stop ≤ right.stop

def mergeBaseRanges (ranges : List BaseRange) : List BaseRange :=
  match sortRanges ranges with
  | [] => []
  | range :: rest => mergeRangesFrom range rest

/-- The ranges that `collectConflictRanges` merges. -/
def touchingHulls (leftChanges rightChanges : List LineChange) : List BaseRange :=
  leftChanges.flatMap fun left => rightChanges.filterMap fun right =>
    if lineChangesEqual left right then none
    else if !rangesTouch left right then none
    else some (hull left right)

def collectConflictRanges (leftChanges rightChanges : List LineChange) : List BaseRange :=
  mergeBaseRanges (touchingHulls leftChanges rightChanges)

section Detectors

def adjust (counts : OrderedMap JsString ℤ) (line : JsString) (delta : ℤ) : OrderedMap JsString ℤ :=
  let next := (counts.get? line).getD 0 + delta
  if next = 0 then counts.delete line else counts.set line next

def countLinesAfterChanges (baseLines : List JsString) (changes : List LineChange) :
    OrderedMap JsString ℤ :=
  changes.foldl (fun counts change =>
      let counts := (slice baseLines change.baseStart change.baseEnd).foldl
        (fun counts line => adjust counts line (-1)) counts
      change.content.foldl (fun counts line => adjust counts line 1) counts)
    (baseLines.foldl (fun counts line => adjust counts line 1) .empty)

/-- The base lines that a shared change does not put back, as a set. -/
def removedLines (baseLines : List JsString) (shared : LineChange) : List JsString :=
  let retainedCounts : OrderedMap JsString ℤ := shared.content.foldl
    (fun counts line => counts.set line ((counts.get? line).getD 0 + 1)) .empty
  ((slice baseLines shared.baseStart shared.baseEnd).foldl (fun (retainedCounts, removed) line =>
      let retained := (retainedCounts.get? line).getD 0
      if retained > 0 then (retainedCounts.set line (retained - 1), removed)
      else (retainedCounts, removed.insert line)) (retainedCounts, [])).2

def collectUnilateralReintroductions (shared : LineChange) (removed : List JsString)
    (commonCounts : OrderedMap JsString ℤ) (changes otherChanges : List LineChange)
    (sideCounts : OrderedMap JsString ℤ) : List BaseRange :=
  changes.filterMap fun candidate =>
    if lineChangesEqual candidate shared then none
    else if otherChanges.any fun other => lineChangesEqual candidate other then none
    else if !(candidate.content.any fun line => removed.contains line &&
        decide ((sideCounts.get? line).getD 0 > (commonCounts.get? line).getD 0)) then none
    else some (hull shared candidate)

def collectAmbiguousSharedRemovalReintroductionRanges (baseLines : List JsString)
    (leftChanges rightChanges : List LineChange) : List BaseRange :=
  let sharedChanges := leftChanges.filter fun left =>
    rightChanges.any fun right => lineChangesEqual left right
  let sharedRemovals := sharedChanges.filter fun change => change.baseStart < change.baseEnd
  let commonCounts := countLinesAfterChanges baseLines sharedChanges
  let leftCounts := countLinesAfterChanges baseLines leftChanges
  let rightCounts := countLinesAfterChanges baseLines rightChanges
  mergeBaseRanges <| sharedRemovals.flatMap fun shared =>
    let removed := removedLines baseLines shared
    if removed = [] then [] else
      collectUnilateralReintroductions shared removed commonCounts leftChanges rightChanges
          leftCounts ++
        collectUnilateralReintroductions shared removed commonCounts rightChanges leftChanges
          rightCounts

def baseBridgeRangeBetween (left right : LineChange) : Option BaseRange :=
  if left.baseEnd < right.baseStart then some ⟨left.baseEnd, right.baseStart⟩
  else if right.baseEnd < left.baseStart then some ⟨right.baseEnd, left.baseStart⟩
  else none

/-- The lines of the candidate are found one after the other. -/
def containsLineSubsequence (container candidate : List JsString) : Bool :=
  candidate.isSublist container

def collectAmbiguousRepeatedLineAlignmentRanges (baseLines : List JsString)
    (leftChanges rightChanges : List LineChange) : List BaseRange :=
  mergeBaseRanges <| leftChanges.flatMap fun left => rightChanges.filterMap fun right =>
    (baseBridgeRangeBetween left right).bind fun bridgeRange =>
      let bridge := slice baseLines bridgeRange.start bridgeRange.stop
      if containsLineSubsequence left.content bridge &&
          containsLineSubsequence right.content bridge then some (hull left right)
      else none

end Detectors

/-- Of identical changes the first stays. -/
def combineDistinctChanges (leftChanges rightChanges : List LineChange) : List LineChange :=
  let candidates := leftChanges ++ rightChanges
  (candidates.zipIdx.filter fun (candidate, index) =>
    candidates.findIdx (fun other => lineChangesEqual other candidate) = index).map Prod.fst

def sortChanges (changes : List LineChange) : List LineChange :=
  changes.insertionSort fun a b =>
    a.baseStart < b.baseStart ∨ a.baseStart = b.baseStart ∧ a.baseEnd ≤ b.baseEnd

def applyNonConflictingChanges (baseLines : List JsString)
    (leftChanges rightChanges : List LineChange) : JsString :=
  (Splice.applyFrom baseLines baseLines.length 0
    (sortChanges (combineDistinctChanges leftChanges rightChanges))).flatten

def within (change : LineChange) (start stop : ℕ) : Bool :=
  start ≤ change.baseStart && change.baseEnd ≤ stop

def excludeConflictChanges (changes : List LineChange) (conflictRanges : List BaseRange) :
    List LineChange :=
  changes.filter fun change =>
    !(conflictRanges.any fun range => within change range.start range.stop)

def applyRegion (baseLines : List JsString) (leftChanges rightChanges : List LineChange)
    (start stop : ℕ) : JsString :=
  let regionChanges := sortChanges
    ((combineDistinctChanges leftChanges rightChanges).filter fun change =>
      within change start stop)
  (Splice.applyFrom baseLines stop start regionChanges).flatten

/-- The loop of `applyVariantRegion` from a cursor on. -/
def variantRegionFrom (baseLines : List JsString) (start stop : ℕ) :
    ℕ → List LineChange → List JsString
  | cursor, [] => slice baseLines cursor stop
  | cursor, change :: changes =>
    if change.baseEnd < start ∨ change.baseStart > stop then
      variantRegionFrom baseLines start stop cursor changes
    else
      slice baseLines cursor (max cursor change.baseStart) ++ change.content ++
        variantRegionFrom baseLines start stop (max cursor change.baseEnd) changes

def applyVariantRegion (baseLines : List JsString) (changes : List LineChange)
    (start stop : ℕ) : JsString :=
  (variantRegionFrom baseLines start stop start changes).flatten

/-- The text segment of the region between two conflicts, where there is one. -/
def textSegments (baseLines : List JsString) (safeLeftChanges safeRightChanges : List LineChange)
    (cursor stop : ℕ) : List ThreeWayMergeSegment :=
  if cursor < stop then
    [.text (applyRegion baseLines safeLeftChanges safeRightChanges cursor stop)]
  else []

def conflictHunk (baseLines : List JsString) (leftChanges rightChanges : List LineChange)
    (index : ℕ) (range : BaseRange) : ThreeWayMergeConflictHunk where
  index := index
  baseStart := range.start
  baseEnd := range.stop
  baseText := (slice baseLines range.start range.stop).flatten
  leftText := applyVariantRegion baseLines leftChanges range.start range.stop
  rightText := applyVariantRegion baseLines rightChanges range.start range.stop

/-- The segments from a cursor on, when `index` conflicts have been passed. -/
def segmentsFrom (baseLines : List JsString) (safeLeftChanges safeRightChanges : List LineChange) :
    ℕ → ℕ → List BaseRange → List ThreeWayMergeSegment
  | cursor, _, [] => textSegments baseLines safeLeftChanges safeRightChanges cursor baseLines.length
  | cursor, index, range :: ranges =>
    textSegments baseLines safeLeftChanges safeRightChanges cursor range.start ++
      .conflict index ::
        segmentsFrom baseLines safeLeftChanges safeRightChanges range.stop (index + 1) ranges

def markerBreak (text : JsString) : JsString :=
  if text.getLast? = some 10 ∨ text = [] then [] else js "\n"

/-- The hunk with its conflict markers. -/
def markedHunk (hunk : ThreeWayMergeConflictHunk) : JsString :=
  js "<<<<<<< LEFT\n" ++ hunk.leftText ++ markerBreak hunk.leftText ++ js "=======\n" ++
    hunk.rightText ++ markerBreak hunk.rightText ++ js ">>>>>>> RIGHT\n"

def partialText (hunks : List ThreeWayMergeConflictHunk) : ThreeWayMergeSegment → JsString
  | .text text => text
  | .conflict hunkIndex => (hunks[hunkIndex]?.map markedHunk).getD []

def buildConflictResult (baseLines : List JsString) (leftChanges rightChanges : List LineChange)
    (conflictRanges : List BaseRange) : ThreeWayMergeResult :=
  let safeLeftChanges := excludeConflictChanges leftChanges conflictRanges
  let safeRightChanges := excludeConflictChanges rightChanges conflictRanges
  let segments := segmentsFrom baseLines safeLeftChanges safeRightChanges 0 0 conflictRanges
  let hunks := conflictRanges.mapIdx (conflictHunk baseLines leftChanges rightChanges)
  .conflict (segments.flatMap (partialText hunks)) hunks segments

/-- All ranges in which the changes of the two sides conflict. -/
def conflictRangesOf (baseLines : List JsString) (leftChanges rightChanges : List LineChange) :
    List BaseRange :=
  mergeBaseRanges (collectConflictRanges leftChanges rightChanges ++
    collectAmbiguousSharedRemovalReintroductionRanges baseLines leftChanges rightChanges ++
    collectAmbiguousRepeatedLineAlignmentRanges baseLines leftChanges rightChanges)

def mergeTexts3 (baseText : Option JsString) (leftText rightText : JsString) :
    ThreeWayMergeResult :=
  match baseText with
  | none => .noBase
  | some baseText =>
    if leftText = rightText then .cleanMerge leftText
    else if baseText = leftText then .cleanMerge rightText
    else if baseText = rightText then .cleanMerge leftText
    else
      let baseLines := splitLineTokens baseText
      let leftChanges := buildLineChanges fastDiff baseLines (splitLineTokens leftText)
      let rightChanges := buildLineChanges fastDiff baseLines (splitLineTokens rightText)
      let conflictRanges := conflictRangesOf baseLines leftChanges rightChanges
      if conflictRanges = [] then
        .cleanMerge (applyNonConflictingChanges baseLines leftChanges rightChanges)
      else buildConflictResult baseLines leftChanges rightChanges conflictRanges

end Kaos.Utils
