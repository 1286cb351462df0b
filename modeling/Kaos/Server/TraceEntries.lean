import Mathlib
import Kaos.Lib.JsonText
import Kaos.Lib.OrderedMap

/-! Trace entries are cut to a size before they are stored. -/
namespace Kaos.Server

open Kaos.Lib List

def TRACE_ELLIPSIS : JsString := js "..."

def MAX_TRACE_ENTRY_BYTES : ℕ := 16 * 1024

def MAX_TRACE_STRING_BYTES : ℕ := 2048

def MAX_TRACE_ARRAY_ITEMS : ℕ := 20

def MAX_TRACE_OBJECT_KEYS : ℕ := 20

def MAX_TRACE_DEPTH : ℕ := 4

/-- `undefined` is any function as well. A number has the text `String` gives it, a view the texts
of its elements, which are bigints or not; an object its own members in the order of
`Object.entries`. -/
inductive TraceValue
  | null
  | undefined
  | bool (value : Bool)
  | num (text : JsString)
  | notFinite (text : JsString)
  | bigint (text : JsString)
  | str (value : JsString)
  | symbol (description : Option JsString)
  | view (type : JsString) (byteLength : ℕ) (elements : List JsString) (bigints : Bool)
  | arr (items : List TraceValue)
  | obj (members : List (JsString × TraceValue))

namespace TraceValue

def joinTexts (texts : List JsString) : JsString := intercalate [44] texts

def memberText (key text : JsString) : JsString := JsonText.quote key ++ 58 :: text

mutual
/-- What `JSON.stringify` makes of a value without bigints; it leaves `undefined` out. -/
def text : TraceValue → Option JsString
  | .null | .notFinite _ => some (js "null")
  | .undefined | .symbol _ | .bigint _ => none
  | .bool value => some (if value then js "true" else js "false")
  | .num text => some text
  | .str value => some (JsonText.quote value)
  | .view _ _ elements _ => some (js "\x7b" ++ joinTexts (elements.mapIdx fun i element =>
      memberText (js (toString i)) element) ++ js "\x7d")
  | .arr items => some (js "[" ++ joinTexts (itemTexts items) ++ js "]")
  | .obj members => some (js "\x7b" ++ joinTexts (memberTexts members) ++ js "\x7d")

def itemTexts : List TraceValue → List JsString
  | [] => []
  | item :: items => item.text.getD (js "null") :: itemTexts items

def memberTexts : List (JsString × TraceValue) → List JsString
  | [] => []
  | (key, value) :: members =>
    match value.text with
    | some text => memberText key text :: memberTexts members
    | none => memberTexts members
end

mutual
def hasBigint : TraceValue → Bool
  | .bigint _ => true
  | .view _ _ elements bigints => bigints && !elements.isEmpty
  | .arr items => anyItem items
  | .obj members => anyMember members
  | _ => false

def anyItem : List TraceValue → Bool
  | [] => false
  | item :: items => item.hasBigint || anyItem items

def anyMember : List (JsString × TraceValue) → Bool
  | [] => false
  | (_, value) :: members => value.hasBigint || anyMember members
end

/-- `JSON.stringify`, which throws on a bigint. -/
def stringify (value : TraceValue) : Except Unit (Option JsString) :=
  if value.hasBigint then .error () else .ok value.text

end TraceValue

abbrev TraceMembers := List (JsString × TraceValue)

open JsString (utf8Length utf8UnitLength)
open JsonText (escape escapeUnit quote unicodeEscape)
open TraceValue (anyItem anyMember joinTexts memberText)

/-- The binary search for the longest prefix that fits with the ellipsis. -/
def searchPrefix (value : JsString) (maxBytes low high : ℕ) (best : JsString) : JsString :=
  if high < low then best
  else
    let mid := (low + high) / 2
    let candidate := value.take mid ++ TRACE_ELLIPSIS
    if utf8Length candidate ≤ maxBytes then
      searchPrefix value maxBytes (mid + 1) high candidate
    else if mid = 0 then best
    else searchPrefix value maxBytes low (mid - 1) best
termination_by high + 1 - low

/-- For limits that are longer than the ellipsis, as all are that are used. -/
def truncateUtf8 (value : JsString) (maxBytes : ℕ) : JsString :=
  if utf8Length value ≤ maxBytes then value
  else
    let best := searchPrefix value maxBytes 0 value.length []
    if best = [] then TRACE_ELLIPSIS else best

/-- An assignment; `__proto__` makes no member. -/
def setMember (members : TraceMembers) (key : JsString) (value : TraceValue) : TraceMembers :=
  if key = js "__proto__" then members
  else if members.any (·.1 = key) then
    members.map fun member => if member.1 = key then (key, value) else member
  else members ++ [(key, value)]

def byteLengthMembers (type : JsString) (byteLength : ℕ) : TraceValue :=
  .obj [(js "type", .str type), (js "byteLength", .num (js (toString byteLength)))]

def moreItems (n : ℕ) : JsString := js "[+" ++ js (toString n) ++ js " more items]"

mutual
def normalizeTraceValue (depth : ℕ) : TraceValue → TraceValue
  | .null => .null
  | .str value => .str (truncateUtf8 value MAX_TRACE_STRING_BYTES)
  | .num text => .num text
  | .notFinite text | .bigint text => .str text
  | .bool value => .bool value
  | .undefined => if MAX_TRACE_DEPTH ≤ depth then .str (js "[trace-depth-truncated]") else .null
  | .symbol description =>
    if MAX_TRACE_DEPTH ≤ depth then .str (js "[trace-depth-truncated]")
    else .str (truncateUtf8 (description.getD (js "symbol")) MAX_TRACE_STRING_BYTES)
  | .view type byteLength _ _ =>
    if MAX_TRACE_DEPTH ≤ depth then .str (js "[trace-depth-truncated]")
    else byteLengthMembers type byteLength
  | .arr items =>
    if MAX_TRACE_DEPTH ≤ depth then .str (js "[trace-depth-truncated]")
    else .arr (normalizeItems depth MAX_TRACE_ARRAY_ITEMS items ++
      if MAX_TRACE_ARRAY_ITEMS < items.length then
        [.str (moreItems (items.length - MAX_TRACE_ARRAY_ITEMS))] else [])
  | .obj members =>
    if MAX_TRACE_DEPTH ≤ depth then .str (js "[trace-depth-truncated]")
    else
      let normalized := normalizeMembers depth MAX_TRACE_OBJECT_KEYS [] members
      .obj (if MAX_TRACE_OBJECT_KEYS < members.length then
        setMember normalized (js "__truncatedKeys")
          (.num (js (toString (members.length - MAX_TRACE_OBJECT_KEYS)))) else normalized)

def normalizeItems (depth : ℕ) : ℕ → List TraceValue → List TraceValue
  | n + 1, item :: items => normalizeTraceValue (depth + 1) item :: normalizeItems depth n items
  | _, _ => []

def normalizeMembers (depth : ℕ) : ℕ → TraceMembers → TraceMembers → TraceMembers
  | n + 1, normalized, (key, value) :: members =>
    normalizeMembers depth n (setMember normalized key (normalizeTraceValue (depth + 1) value))
      members
  | _, normalized, _ => normalized
end

/-- An entry: the three texts that each has, and its other members. -/
structure TraceEntry where
  ts : JsString
  event : JsString
  roomId : JsString
  fields : TraceMembers

namespace TraceEntry

def coreNames : List JsString := [js "ts", js "event", js "roomId"]

def coreMembers (ts event roomId : JsString) : TraceMembers :=
  [(js "ts", .str ts), (js "event", .str event), (js "roomId", .str roomId)]

variable (entry : TraceEntry)

def cutTs : JsString := truncateUtf8 entry.ts 128

def cutEvent : JsString := truncateUtf8 entry.event 256

def cutRoomId : JsString := truncateUtf8 entry.roomId 256

def isCut : Bool :=
  entry.cutTs ≠ entry.ts ∨ entry.cutEvent ≠ entry.event ∨ entry.cutRoomId ≠ entry.roomId

/-- One turn of the loop; once the entry is truncated nothing is compared any more. -/
def addField (state : TraceMembers × Bool) (field : JsString × TraceValue) :
    Except Unit (TraceMembers × Bool) :=
  if field.1 ∈ coreNames then .ok state
  else
    let normalized := normalizeTraceValue 0 field.2
    let core := setMember state.1 field.1 normalized
    if state.2 then .ok (core, true)
    else do
      let stored ← normalized.stringify
      let given ← field.2.stringify
      .ok (core, stored ≠ given)

def jsonByteLength (members : TraceMembers) : Except Unit ℕ := do
  let text ← (TraceValue.obj members).stringify
  .ok (utf8Length (text.getD []))

def metadata : TraceMembers :=
  coreMembers entry.cutTs entry.cutEvent entry.cutRoomId ++
    [(js "traceTruncated", .bool true), (js "traceOriginalKeys", .str (truncateUtf8
      (intercalate (js ",") ((entry.fields.map (·.1)).filter (· ∉ coreNames))) 1024))]

def prepareTraceEntryForStorage : Except Unit (TraceMembers) := do
  let (fields, truncated) ← entry.fields.foldlM addField
    (coreMembers entry.cutTs entry.cutEvent entry.cutRoomId, entry.isCut)
  let core := if truncated then setMember fields (js "traceTruncated") (.bool true) else fields
  if (← jsonByteLength core) ≤ MAX_TRACE_ENTRY_BYTES then return core
  if (← jsonByteLength entry.metadata) ≤ MAX_TRACE_ENTRY_BYTES then return entry.metadata
  return coreMembers entry.cutTs (truncateUtf8 entry.cutEvent 64)
    (truncateUtf8 entry.cutRoomId 64) ++ [(js "traceTruncated", .bool true)]

def getMember (members : TraceMembers) (key : JsString) : Option TraceValue :=
  (members.find? (·.1 = key)).map Prod.snd

/-- The text is stored as it is or as a prefix with the ellipsis. -/
def KeptText (given : JsString) (stored : Option TraceValue) : Prop :=
  stored = some (.str given) ∨ ∃ n, stored = some (.str (given.take n ++ TRACE_ELLIPSIS))

/-- What is stored for a field has not the JSON of the field. -/
def Shortened (field : JsString × TraceValue) : Prop :=
  field.1 ∉ coreNames ∧ (normalizeTraceValue 0 field.2).text ≠ field.2.text

/-- What is stored is small, has the three texts, and says where something was shortened. -/
structure Bounded (stored : TraceMembers) : Prop where
  size : ∃ bytes, jsonByteLength stored = .ok bytes ∧ bytes ≤ MAX_TRACE_ENTRY_BYTES
  ts : KeptText entry.ts (getMember stored (js "ts"))
  event : KeptText entry.event (getMember stored (js "event"))
  roomId : KeptText entry.roomId (getMember stored (js "roomId"))
  flagged : entry.isCut = true ∨ (∃ field ∈ entry.fields, Shortened field) →
    getMember stored (js "traceTruncated") = some (.bool true)

/-- Before a field that holds a bigint something has been shortened; `cut` says whether it has
already. -/
def Guarded : Prop → TraceMembers → Prop
  | _, [] => True
  | cut, field :: fields => (field.1 ∉ coreNames → field.2.hasBigint = true → cut) ∧
    Guarded (cut ∨ Shortened field) fields

end TraceEntry

section Bounds

variable {value best : JsString} {maxBytes low high : ℕ}

/-- What the search gives is the start of the value with the ellipsis, within the limit. -/
theorem searchPrefix_spec
    (hbest : best = [] ∨ utf8Length best ≤ maxBytes ∧ ∃ n, best = value.take n ++ TRACE_ELLIPSIS) :
    searchPrefix value maxBytes low high best = [] ∨
      utf8Length (searchPrefix value maxBytes low high best) ≤ maxBytes ∧
      ∃ n, searchPrefix value maxBytes low high best = value.take n ++ TRACE_ELLIPSIS := by
  induction low, high, best using searchPrefix.induct value maxBytes with
  | case1 low high best hlt =>
    rw [searchPrefix, if_pos hlt]
    exact hbest
  | case2 low high best hlt mid candidate hfits ih =>
    rw [searchPrefix, if_neg hlt]
    rw [if_pos hfits]
    exact ih (.inr ⟨hfits, _, rfl⟩)
  | case3 low high best hlt mid candidate hfits hzero =>
    rw [searchPrefix, if_neg hlt]
    rw [if_neg hfits, if_pos hzero]
    exact hbest
  | case4 low high best hlt mid candidate hfits hzero ih =>
    rw [searchPrefix, if_neg hlt]
    rw [if_neg hfits, if_neg hzero]
    exact ih hbest

theorem truncateUtf8_spec (value : JsString) (hmax : 3 ≤ maxBytes) :
    utf8Length (truncateUtf8 value maxBytes) ≤ maxBytes ∧
      (truncateUtf8 value maxBytes = value ∨
        ∃ n, truncateUtf8 value maxBytes = value.take n ++ TRACE_ELLIPSIS) := by
  unfold truncateUtf8
  split
  · exact ⟨‹_›, .inl rfl⟩
  dsimp only
  split
  · exact ⟨hmax, .inr ⟨0, rfl⟩⟩
  · rename_i hne
    obtain ⟨hle, hprefix⟩ := (searchPrefix_spec (.inl rfl)).resolve_left hne
    exact ⟨hle, .inr hprefix⟩

theorem utf8Length_cons_le (c : UInt16) (s : JsString) :
    utf8Length (c :: s) ≤ utf8UnitLength c + utf8Length s := by
  cases s with
  | nil => exact Nat.le_refl _
  | cons d rest =>
    rw [utf8Length]
    split
    · rename_i hpair
      obtain ⟨hc, -, hd, hd'⟩ := hpair
      have hthree : ∀ e : UInt16, 0xD800 ≤ e → utf8UnitLength e = 3 := by
        intro e he
        rw [utf8UnitLength, if_neg (UInt16.not_lt.mpr (UInt16.le_trans (by decide) he)),
          if_neg (UInt16.not_lt.mpr (UInt16.le_trans (by decide) he))]
      have htrail3 := hthree d (UInt16.le_trans (by decide) hd)
      have htrail : utf8Length (d :: rest) = 3 + utf8Length rest := by
        cases rest with
        | nil => exact htrail3
        | cons e rest =>
          rw [utf8Length, if_neg fun h => absurd (UInt16.le_trans hd h.2.1) (by decide), htrail3]
      rw [htrail, hthree c hc]
      omega
    · exact Nat.le_refl _

theorem utf8Length_append_le (s t : JsString) :
    utf8Length (s ++ t) ≤ utf8Length s + utf8Length t := by
  induction s using JsString.utf8Length.induct with
  | case1 c d rest hpair ih =>
    rw [cons_append, cons_append, utf8Length, if_pos hpair, utf8Length, if_pos hpair]
    omega
  | case2 c d rest hpair ih =>
    rw [cons_append, cons_append, utf8Length, if_neg hpair, utf8Length, if_neg hpair, ← cons_append]
    omega
  | case3 c => exact utf8Length_cons_le c t
  | case4 => exact Nat.le_add_left ..

theorem utf8Length_le_sum (s : JsString) : utf8Length s ≤ (s.map utf8UnitLength).sum := by
  induction s with
  | nil => exact Nat.le_refl 0
  | cons c s ih => exact (utf8Length_cons_le c s).trans (Nat.add_le_add_left ih _)

/-- Six bytes for one at the most. -/
theorem utf8Length_escapeUnit_le (c : UInt16) :
    utf8Length (escapeUnit c) ≤ 6 * utf8UnitLength c := by
  have hpos : 1 ≤ utf8UnitLength c := by
    unfold utf8UnitLength
    split
    · exact Nat.le_refl 1
    · split <;> omega
  have hdigit : ∀ n < 16, utf8UnitLength (digit n) = 1 := by decide
  have hlt := c.toNat_lt
  have hunic : utf8Length (unicodeEscape c) ≤ 6 := by
    refine (utf8Length_le_sum _).trans (Nat.le_of_eq ?_)
    simp only [unicodeEscape, map_cons, map_nil, sum_cons, sum_nil]
    rw [hdigit _ (by omega), hdigit _ (by omega), hdigit _ (by omega), hdigit _ (by omega)]
    rfl
  have htwo : ∀ d : UInt16, utf8Length [92, d] ≤ 6 := by
    intro d
    refine (utf8Length_le_sum _).trans ?_
    simp only [map_cons, map_nil, sum_cons, sum_nil, utf8UnitLength]
    split_ifs <;> decide
  unfold escapeUnit
  split_ifs
  all_goals first
    | exact hunic.trans (by omega)
    | exact (htwo _).trans (by omega)
    | exact Nat.le_mul_of_pos_left _ (by decide)

theorem utf8Length_escape_le (s : JsString) : utf8Length (escape s) ≤ 6 * utf8Length s := by
  induction s using JsonText.escape.induct with
  | case1 => exact Nat.le_refl 0
  | case2 c => exact utf8Length_escapeUnit_le c
  | case3 c d rest hpair ih =>
    have hunits : 0xD800 ≤ c ∧ c ≤ 0xDBFF ∧ 0xDC00 ≤ d ∧ d ≤ 0xDFFF := by
      simpa [JsonText.isLead, JsonText.isTrail, and_assoc] using hpair
    rw [escape, if_pos hpair, utf8Length, if_pos hunits, utf8Length, if_pos hunits]
    omega
  | case4 c d rest hpair ih =>
    have hunits : ¬ (0xD800 ≤ c ∧ c ≤ 0xDBFF ∧ 0xDC00 ≤ d ∧ d ≤ 0xDFFF) := by
      simpa [JsonText.isLead, JsonText.isTrail, and_assoc] using hpair
    rw [escape, if_neg hpair, utf8Length, if_neg hunits]
    have happ := utf8Length_append_le (escapeUnit c) (escape (d :: rest))
    have hunit := utf8Length_escapeUnit_le c
    omega

theorem utf8Length_quote_le (s : JsString) : utf8Length (quote s) ≤ 6 * utf8Length s + 2 := by
  have hcons := utf8Length_cons_le 34 (escape s ++ [34])
  have happ := utf8Length_append_le (escape s) [34]
  have hesc := utf8Length_escape_le s
  have hquote : utf8UnitLength 34 = 1 := rfl
  have hl : utf8Length [34] = 1 := rfl
  rw [quote]
  omega

end Bounds

theorem anyItem_eq (items : List TraceValue) : anyItem items = items.any TraceValue.hasBigint := by
  induction items with
  | nil => rfl
  | cons item items ih => rw [anyItem, any_cons, ih]

theorem anyMember_eq (members : TraceMembers) :
    anyMember members = members.any fun member => member.2.hasBigint := by
  induction members with
  | nil => rfl
  | cons member members ih => rw [anyMember, any_cons, ih]

theorem anyMember_setMember {members : TraceMembers} {key : JsString} {value : TraceValue}
    (hmembers : anyMember members = false) (hv : value.hasBigint = false) :
    anyMember (setMember members key value) = false := by
  rw [anyMember_eq, any_eq_false] at hmembers ⊢
  intro member hmem
  unfold setMember at hmem
  split at hmem
  · exact hmembers member hmem
  split at hmem
  · obtain ⟨old, hold, rfl⟩ := mem_map.mp hmem
    split
    · rw [hv]
      exact Bool.false_ne_true
    · exact hmembers old hold
  rcases mem_append.mp hmem with hmem | hmem
  · exact hmembers member hmem
  rw [mem_singleton.mp hmem, hv]
  exact Bool.false_ne_true

mutual
/-- What is stored has no bigints. -/
theorem hasBigint_normalize (depth : ℕ) (value : TraceValue) :
    (normalizeTraceValue depth value).hasBigint = false := by
  cases value with
  | null | bool value | num text | notFinite text | bigint text | str value => rfl
  | undefined | symbol description | view type byteLength elements bigints =>
    rw [normalizeTraceValue]
    split <;> rfl
  | arr items =>
    rw [normalizeTraceValue]
    split
    · rfl
    rw [TraceValue.hasBigint, anyItem_eq, any_append, ← anyItem_eq, anyItem_normalize]
    split <;> rfl
  | obj members =>
    rw [normalizeTraceValue]
    split
    · rfl
    have hmem := anyMember_normalize depth MAX_TRACE_OBJECT_KEYS [] members rfl
    split
    · exact anyMember_setMember hmem rfl
    · exact hmem

theorem anyItem_normalize (depth n : ℕ) (items : List TraceValue) :
    anyItem (normalizeItems depth n items) = false := by
  match n, items with
  | 0, _ => rw [normalizeItems] <;> first | rfl | simp
  | n + 1, [] => rfl
  | n + 1, item :: items =>
    rw [normalizeItems, anyItem, hasBigint_normalize, anyItem_normalize]
    rfl

theorem anyMember_normalize (depth n : ℕ) (normalized members : TraceMembers)
    (h : anyMember normalized = false) :
    anyMember (normalizeMembers depth n normalized members) = false := by
  match n, members with
  | 0, _ => rw [normalizeMembers] <;> first | exact h | simp
  | n + 1, [] => exact h
  | n + 1, (key, value) :: members =>
    exact anyMember_normalize depth n _ members
      (anyMember_setMember h (hasBigint_normalize (depth + 1) value))
end

namespace TraceEntry

variable {entry : TraceEntry} {members : TraceMembers} {key name : JsString}
  {value : TraceValue}

theorem getMember_setMember_of_ne (hne : name ≠ key) :
    getMember (setMember members key value) name = getMember members name := by
  unfold setMember getMember
  split
  · rfl
  split
  · clear * - hne
    congr 1
    induction members with
    | nil => rfl
    | cons member members ih =>
      by_cases hkey : member.1 = key
      · simp [hkey, hne.symm, ih]
      · rw [map_cons, if_neg hkey, find?_cons, find?_cons, ih]
  · rw [find?_append]
    simp [hne.symm]

theorem getMember_setMember_self (hproto : key ≠ js "__proto__") :
    getMember (setMember members key value) key = some value := by
  unfold setMember getMember
  rw [if_neg hproto]
  split
  · rename_i hany
    induction members with
    | nil => cases hany
    | cons member members ih =>
      by_cases hkey : member.1 = key
      · simp [hkey]
      simp only [any_cons, hkey, decide_false, Bool.false_or] at hany
      simpa [hkey] using ih hany
  · rename_i hn
    rw [find?_append, find?_eq_none.mpr fun member hmem hkey =>
      hn (any_eq_true.mpr ⟨member, hmem, hkey⟩)]
    simp

variable {core : TraceMembers} {field : JsString × TraceValue}

/-- What a turn of the loop comes to where it does not throw. -/
theorem addField_ok {cut : Bool} (h : field.1 ∉ coreNames → field.2.hasBigint = true → cut = true)
    (hcore : anyMember core = false) :
    ∃ core' cut', addField (core, cut) field = .ok (core', cut') ∧
      (cut = true ∨ Shortened field ↔ cut' = true) ∧ anyMember core' = false ∧
      ∀ name ∈ coreNames, getMember core' name = getMember core name := by
  unfold addField Shortened
  by_cases hn : field.1 ∈ coreNames
  · exact ⟨core, cut, if_pos hn, by simp [hn], hcore, fun _ _ => rfl⟩
  have hnor := hasBigint_normalize 0 field.2
  have hset : anyMember (setMember core field.1 _) = false := anyMember_setMember hcore hnor
  have hk : ∀ name ∈ coreNames,
      getMember (setMember core field.1 (normalizeTraceValue 0 field.2)) name =
        getMember core name :=
    fun name hin => getMember_setMember_of_ne fun heq => hn (heq ▸ hin)
  cases cut with
  | true => exact ⟨_, true, by rw [if_neg hn]; rfl, by simp, hset, hk⟩
  | false =>
    have hbig : field.2.hasBigint = false :=
      Bool.eq_false_iff.mpr fun hbig => Bool.false_ne_true (h hn hbig)
    refine ⟨_, decide ((normalizeTraceValue 0 field.2).text ≠ field.2.text), ?_, ?_, hset, hk⟩
    · rw [if_neg hn]
      simp only [Bool.false_eq_true, if_false, TraceValue.stringify, hnor, hbig]
      rfl
    · simp [hn]

theorem addField_error (hn : field.1 ∉ coreNames) (hbig : field.2.hasBigint = true) :
    addField (core, false) field = .error () := by
  rw [addField, if_neg hn]
  simp only [Bool.false_eq_true, if_false, TraceValue.stringify, hasBigint_normalize, hbig, if_true]
  rfl

/-- The loop throws exactly at a bigint before which nothing has been shortened. -/
theorem foldlM_addField (fields core : TraceMembers) (cut : Bool) (hcore : anyMember core = false) :
    (Guarded (cut = true) fields → ∃ core' cut',
      fields.foldlM addField (core, cut) = .ok (core', cut') ∧
      (cut = true ∨ (∃ field ∈ fields, Shortened field) → cut' = true) ∧
      anyMember core' = false ∧
      ∀ name ∈ coreNames, getMember core' name = getMember core name) ∧
    (¬ Guarded (cut = true) fields → fields.foldlM addField (core, cut) = .error ()) := by
  induction fields generalizing core cut with
  | nil =>
    constructor
    · exact fun _ => ⟨core, cut, rfl, by simp, hcore, fun _ _ => rfl⟩
    · exact fun h => absurd trivial h
  | cons field fields ih =>
    by_cases hhead : field.1 ∉ coreNames → field.2.hasBigint = true → cut = true
    · obtain ⟨core', cut', hst, hcut, hcore', hk⟩ := addField_ok hhead hcore
      have hguar : Guarded (cut = true) (field :: fields) ↔ Guarded (cut' = true) fields := by
        rw [Guarded, propext hcut, and_iff_right hhead]
      rw [foldlM_cons, hst, hguar]
      refine ⟨fun h => ?_, (ih core' cut' hcore').2⟩
      obtain ⟨last, flag, hrun, hflag, hl, hs⟩ := (ih core' cut' hcore').1 h
      refine ⟨last, flag, hrun, ?_, hl, fun name hin => (hs name hin).trans (hk name hin)⟩
      rintro (hold | ⟨other, hmem, hshort⟩)
      · exact hflag (.inl (hcut.mp (.inl hold)))
      rcases mem_cons.mp hmem with rfl | hmem
      · exact hflag (.inl (hcut.mp (.inr hshort)))
      · exact hflag (.inr ⟨other, hmem, hshort⟩)
    constructor
    · exact fun h => absurd h.1 hhead
    intro _
    push Not at hhead
    obtain ⟨hn, hbig, hcut⟩ := hhead
    rw [foldlM_cons, Bool.eq_false_iff.mpr hcut, addField_error hn hbig]
    rfl

theorem jsonByteLength_ok (h : anyMember members = false) :
    ∃ bytes, jsonByteLength members = .ok bytes := by
  rw [jsonByteLength, TraceValue.stringify, TraceValue.hasBigint, h]
  exact ⟨_, rfl⟩

theorem utf8Length_joinTexts_le (texts : List JsString) :
    utf8Length (joinTexts texts) ≤ (texts.map fun text => utf8Length text + 1).sum := by
  induction texts with
  | nil => exact Nat.le_refl 0
  | cons text texts ih =>
    cases texts with
    | nil => simp [joinTexts]
    | cons other texts =>
      have hjoin : joinTexts (text :: other :: texts) =
          text ++ ([44] ++ joinTexts (other :: texts)) := by
        simp [joinTexts]
      have ht := utf8Length_append_le text ([44] ++ joinTexts (other :: texts))
      have hcomma := utf8Length_append_le [44] (joinTexts (other :: texts))
      have hone : utf8Length [44] = 1 := rfl
      rw [hjoin, map_cons, sum_cons]
      omega

theorem utf8Length_memberText_le (key text : JsString) :
    utf8Length (memberText key text) ≤ utf8Length (quote key) + 1 + utf8Length text := by
  have happ := utf8Length_append_le (quote key) (58 :: text)
  have hcons := utf8Length_cons_le 58 text
  have hcolon : utf8UnitLength 58 = 1 := rfl
  rw [memberText]
  omega

/-- The entry without its fields is always small. -/
theorem metadata_small (entry : TraceEntry) :
    ∃ bytes, jsonByteLength entry.metadata = .ok bytes ∧ bytes ≤ MAX_TRACE_ENTRY_BYTES := by
  have hmem : ∀ key value {n m : ℕ},
      utf8Length (quote key) ≤ n → utf8Length value ≤ m →
      utf8Length (memberText key (quote value)) ≤ n + 6 * m + 3 := by
    intro key value n m hkey hv
    have ht := utf8Length_memberText_le key (quote value)
    have hquote := utf8Length_quote_le value
    omega
  have hts := hmem (js "ts") entry.cutTs (show _ ≤ 4 by decide)
    (truncateUtf8_spec entry.ts (show 3 ≤ 128 by decide)).1
  have hev := hmem (js "event") entry.cutEvent (show _ ≤ 7 by decide)
    (truncateUtf8_spec entry.event (show 3 ≤ 256 by decide)).1
  have hroomId := hmem (js "roomId") entry.cutRoomId (show _ ≤ 8 by decide)
    (truncateUtf8_spec entry.roomId (show 3 ≤ 256 by decide)).1
  have hk := hmem (js "traceOriginalKeys") _ (show _ ≤ 19 by decide)
    (truncateUtf8_spec (intercalate (js ",") ((entry.fields.map (·.1)).filter
      (· ∉ coreNames))) (show 3 ≤ 1024 by decide)).1
  have htrun : utf8Length (memberText (js "traceTruncated") (js "true")) = 21 := by decide
  obtain ⟨texts, htexts⟩ : ∃ texts, texts = [
    memberText (js "ts") (quote entry.cutTs),
    memberText (js "event") (quote entry.cutEvent),
    memberText (js "roomId") (quote entry.cutRoomId),
    memberText (js "traceTruncated") (js "true"),
    memberText (js "traceOriginalKeys") (quote (truncateUtf8
      (intercalate (js ",") ((entry.fields.map (·.1)).filter (· ∉ coreNames))) 1024))] :=
    ⟨_, rfl⟩
  have hlen : jsonByteLength entry.metadata = .ok (utf8Length
      (js "\x7b" ++ joinTexts texts ++ js "\x7d")) := by
    rw [htexts]
    rfl
  have hjoin := utf8Length_joinTexts_le texts
  rw [htexts, map_cons, map_cons, map_cons, map_cons, map_cons, map_nil] at hjoin
  simp only [sum_cons, sum_nil, ← htexts] at hjoin
  have houter := utf8Length_append_le (js "\x7b" ++ joinTexts texts) (js "\x7d")
  have hinner := utf8Length_append_le (js "\x7b") (joinTexts texts)
  have ho : utf8Length (js "\x7b") = 1 := by decide
  have hclose : utf8Length (js "\x7d") = 1 := by decide
  refine ⟨_, hlen, ?_⟩
  unfold MAX_TRACE_ENTRY_BYTES
  omega

theorem keptText_truncate (given : JsString) {maxBytes : ℕ} (hmax : 3 ≤ maxBytes) :
    KeptText given (some (.str (truncateUtf8 given maxBytes))) := by
  rcases (truncateUtf8_spec given hmax).2 with heq | ⟨n, heq⟩
  · exact .inl (congrArg _ (congrArg _ heq))
  · exact .inr ⟨n, congrArg _ (congrArg _ heq)⟩

/-- What has the three texts of the core is bounded, if it is small and flagged. -/
theorem bounded_of {stored : TraceMembers}
    (hcore : ∀ name ∈ coreNames, getMember stored name =
      getMember (coreMembers entry.cutTs entry.cutEvent entry.cutRoomId) name)
    (hs : ∃ bytes, jsonByteLength stored = .ok bytes ∧ bytes ≤ MAX_TRACE_ENTRY_BYTES)
    (hflag : entry.isCut = true ∨ (∃ field ∈ entry.fields, Shortened field) →
      getMember stored (js "traceTruncated") = some (.bool true)) : entry.Bounded stored where
  size := hs
  ts := by
    rw [hcore _ (.head _)]
    exact keptText_truncate entry.ts (by decide)
  event := by
    rw [hcore _ (.tail _ (.head _))]
    exact keptText_truncate entry.event (by decide)
  roomId := by
    rw [hcore _ (.tail _ (.tail _ (.head _)))]
    exact keptText_truncate entry.roomId (by decide)
  flagged := hflag

end TraceEntry

end Kaos.Server
