import Kaos.Lib.Sha256
import Kaos.Lib.Run
import Mathlib.Data.List.Nodup

/-! How the disk mirror tells its own writes of a path from others: an entry is looked up before two
awaits and taken away, by its path, after them. -/
namespace Kaos.Sync

open Kaos.Lib List Option

def SUPPRESS_MS : ℕ := 500

inductive SuppressionKind
  | write (expectedBytes : ℕ) (expectedHash : JsString)
  | delete
  deriving DecidableEq

/-- Entries go by the number under which they were recorded, as writes do by their tokens. -/
structure SuppressionEntry where
  number : ℕ
  kind : SuppressionKind
  expiresAt : ℕ
  deriving DecidableEq

inductive EventCheckPhase
  | reading
  | fingerprinting
  | returned (suppressed : Bool)
  deriving DecidableEq

/-- A check of a create or modify event: how many entries had been recorded when it began, the
entry it looked up, what it read and the entry it took away. -/
structure EventCheck where
  began : ℕ
  entry : Option SuppressionEntry
  content : Option JsString := none
  phase : EventCheckPhase
  removed : Option ℕ := none
  deriving DecidableEq

/-- The number of the entry that the check looked up. -/
def EventCheck.number (state : EventCheck) : Option ℕ := state.entry.map (·.number)

/-- One path: its file, its entry, the contents of the entries recorded so far, where that of a
delete is `none`, the calls of `suppressWrite` that still compute their fingerprint, the checks, and
the entries that suppressed a delete event. -/
structure PathSuppression where
  now : ℕ := 0
  disk : Option JsString := none
  entry : Option SuppressionEntry := none
  contents : List (Option JsString) := []
  writes : List (Option JsString) := []
  checks : List EventCheck := []
  deletes : List ℕ := []

/-- `change` is any change of the file, by the mirror or from outside; `discard` the mirror's own
`suppressedPaths.delete` when a write comes to nothing. -/
inductive SuppressionEvent
  | tick (now : ℕ)
  | change (disk : Option JsString)
  | suppressWrite (content : JsString)
  | recordWrite (call : ℕ)
  | suppressDelete
  | rollback (number : ℕ)
  | discard
  | consumeDelete
  | begin (size : Option ℕ)
  | read (check : ℕ) (succeeds : Bool)
  | compare (check : ℕ)

namespace PathSuppression

variable (s : PathSuppression)

/-- What `fingerprintContent` makes of a content that is written. -/
def kindOf : Option JsString → SuppressionKind
  | some content => .write (utf8Encode content).length (sha256Hex content)
  | none => .delete

def record (content : Option JsString) : PathSuppression :=
  { s with
    entry := some ⟨s.contents.length, kindOf content, s.now + SUPPRESS_MS⟩
    contents := s.contents ++ [content] }

def getActiveSuppression : Option SuppressionEntry :=
  s.entry.filter fun entry => s.now < entry.expiresAt

def rollbackLocalCreateSuppression (number : ℕ) : PathSuppression :=
  if s.entry.any (fun entry => entry.number = number ∧ entry.kind ≠ .delete) then
    { s with entry := none }
  else s

/-- An entry that has expired goes as well, when it is looked up. -/
def consumeDeleteSuppression : PathSuppression :=
  { s with
    entry := none
    deletes := match s.getActiveSuppression with
      | some ⟨number, .delete, _⟩ => s.deletes ++ [number]
      | _ => s.deletes }

def addCheck (check : EventCheck) (entry : Option SuppressionEntry) : PathSuppression :=
  { s with entry := entry, checks := s.checks ++ [check] }

/-- What `shouldSuppressWriteEvent` does before its first `await`. -/
def beginCheck (size : Option ℕ) : PathSuppression :=
  let began := s.contents.length
  match s.getActiveSuppression with
  | none => s.addCheck { began, entry := none, phase := .returned false } none
  | some entry =>
    let mismatch : EventCheck :=
      { began, entry := some entry, phase := .returned false, removed := some entry.number }
    match entry.kind with
    | .delete => s.addCheck mismatch none
    | .write expectedBytes _ =>
      if size.any (· ≠ expectedBytes) then s.addCheck mismatch none
      else s.addCheck { began, entry := some entry, phase := .reading } (some entry)

def setCheck (check : ℕ) (state : EventCheck) : PathSuppression :=
  { s with checks := s.checks.set check state }

/-- The exits after an `await`: whatever entry the path has goes. -/
def returnCheck (check : ℕ) (state : EventCheck) (suppressed : Bool) : PathSuppression :=
  { s.setCheck check
      { state with phase := .returned suppressed, removed := s.entry.map (·.number) } with
    entry := none }

/-- The content has the length and the digest of the entry. -/
def matchesEntry (state : EventCheck) : Bool :=
  match state.entry, state.content with
  | some entry, some content => entry.kind = kindOf (some content)
  | _, _ => false

def readCheck (check : ℕ) (state : EventCheck) (succeeds : Bool) : PathSuppression :=
  match s.disk, succeeds with
  | some content, true =>
    s.setCheck check { state with content := some content, phase := .fingerprinting }
  | _, _ => s.returnCheck check state false

def next (s : PathSuppression) : SuppressionEvent → PathSuppression
  | .tick now => { s with now := now }
  | .change disk => { s with disk := disk }
  | .suppressWrite content => { s with writes := s.writes ++ [some content] }
  | .recordWrite call =>
    match s.writes[call]? with
    | some (some content) => record { s with writes := s.writes.set call none } (some content)
    | _ => s
  | .suppressDelete => record s none
  | .rollback number => s.rollbackLocalCreateSuppression number
  | .discard => { s with entry := none }
  | .consumeDelete => s.consumeDeleteSuppression
  | .begin size => s.beginCheck size
  | .read check succeeds =>
    match s.checks[check]? with
    | some state => if state.phase = .reading then s.readCheck check state succeeds else s
    | none => s
  | .compare check =>
    match s.checks[check]? with
    | some state =>
      if state.phase = .fingerprinting then s.returnCheck check state (matchesEntry state)
      else s
    | none => s

/-- The check read, byte for byte, the content of the write whose entry it looked up. -/
def ReadsWritten (state : EventCheck) : Prop :=
  ∃ entry content written, state.entry = some entry ∧ state.content = some content ∧
    s.contents[entry.number]? = some (some written) ∧ utf8Encode content = utf8Encode written

/-- No content read has the hash of another that was written. -/
def CollisionFree : Prop :=
  ∀ state ∈ s.checks, ∀ content ∈ state.content, ∀ written, some written ∈ s.contents →
    sha256Hex content = sha256Hex written → utf8Encode content = utf8Encode written

/-- An entry acknowledges one event at most. -/
def AtMostOnce : Prop :=
  ∀ (i j : ℕ) (first second : EventCheck), s.checks[i]? = some first → s.checks[j]? = some second →
    first.phase = .returned true → second.phase = .returned true → first.number = second.number →
    i = j

/-- The check of an event takes away no entry that was recorded after it began. -/
def RemovesNoneLater : Prop :=
  ∀ state ∈ s.checks, ∀ number ∈ state.removed, number < state.began

/-- A suppressed event has the content of the write whose entry was there when its check began, an
entry suppresses one event at most, and no check takes away an entry recorded after it began. -/
structure Causal : Prop where
  content : ∀ state ∈ s.checks, state.phase = .returned true → s.ReadsWritten state
  once : s.AtMostOnce
  deletes : s.deletes.Nodup ∧ ∀ state ∈ s.checks, state.phase = .returned true →
    ∀ number ∈ state.number, number ∉ s.deletes
  later : s.RemovesNoneLater

/-- The path has no entry that was recorded after the check began. -/
def NoneLater (state : EventCheck) : Prop := ∀ entry ∈ s.entry, entry.number < state.began

/-- No other check has returned that looked up the same entry and read what was written as well. -/
def Alone (state : EventCheck) : Prop :=
  s.ReadsWritten state → ∀ other ∈ s.checks, other.number = state.number → s.ReadsWritten other →
    ∀ suppressed, other.phase ≠ .returned suppressed

/-- A check that returns after an `await` finds no entry later than it, and is the first to
acknowledge the one it looked up. -/
def Undisturbed : SuppressionEvent → Prop
  | .read check succeeds => ∀ state, s.checks[check]? = some state → state.phase = .reading →
    s.disk = none ∨ succeeds = false → s.NoneLater state
  | .compare check => ∀ state, s.checks[check]? = some state → state.phase = .fingerprinting →
    s.NoneLater state ∧ s.Alone state
  | _ => True

variable {s t : PathSuppression} {entry : SuppressionEntry}
  {state : EventCheck} {check : ℕ}

/-- The kind of an entry is that of the content recorded with it. -/
def HasKind (s : PathSuppression) (entry : SuppressionEntry) : Prop :=
  ∃ content, s.contents[entry.number]? = some content ∧ entry.kind = kindOf content

structure KnownCheck (s : PathSuppression) (state : EventCheck) : Prop where
  began : state.began ≤ s.contents.length
  looked : ∀ entry ∈ state.entry, entry.number < state.began ∧ HasKind s entry
  unread : state.phase = .reading → state.content = none
  settled : ∀ suppressed, state.phase = .returned suppressed → suppressed = matchesEntry state

/-- What holds of the entries and the checks whatever the order of the steps. -/
structure Known (s : PathSuppression) : Prop where
  entry : ∀ entry ∈ s.entry, HasKind s entry ∧ entry.number ∉ s.deletes
  checks : ∀ state ∈ s.checks, KnownCheck s state
  deletes : ∀ number ∈ s.deletes, s.contents[number]? = some none
  nodup : s.deletes.Nodup

theorem HasKind.lt (h : HasKind s entry) : entry.number < s.contents.length := by
  obtain ⟨content, hc, -⟩ := h
  exact (List.getElem?_eq_some_iff.mp hc).1

/-- A check read what was written exactly where the comparison succeeds. -/
theorem Known.matches_iff (hh : s.CollisionFree) (hkn : Known s) (hin : state ∈ s.checks) :
    matchesEntry state = true ↔ s.ReadsWritten state := by
  have h := hkn.checks state hin
  constructor
  · intro hmat
    unfold matchesEntry at hmat
    split at hmat
    · rename_i entry content he hr
      obtain ⟨-, written, hw, hk⟩ := h.looked entry he
      rw [decide_eq_true_eq, hk] at hmat
      cases written with
      | none => cases hmat
      | some written =>
        refine ⟨entry, content, written, he, hr, hw, ?_⟩
        exact hh state hin content hr written (mem_of_getElem? hw)
          (SuppressionKind.write.inj hmat).2.symm
    · cases hmat
  rintro ⟨entry, content, written, he, hr, hw, hb⟩
  obtain ⟨-, written', hw', hk⟩ := h.looked entry he
  rw [hw, some_inj] at hw'
  simp [matchesEntry, he, hr, hk, ← hw', kindOf, sha256Hex, hb]

/-- The contents recorded so far stay as they are. -/
def Extends (t s : PathSuppression) : Prop := ∃ more, t.contents = s.contents ++ more

theorem Extends.of_eq (h : t.contents = s.contents) : t.Extends s := ⟨[], by rw [h, append_nil]⟩

theorem Extends.getElem? (h : t.Extends s) {number : ℕ} {content : Option JsString}
    (hc : s.contents[number]? = some content) : t.contents[number]? = some content := by
  obtain ⟨more, hmore⟩ := h
  have hlt := (List.getElem?_eq_some_iff.mp hc).1
  rw [hmore, List.getElem?_append_left hlt, hc]

theorem HasKind.mono (h : HasKind s entry) (hext : t.Extends s) : HasKind t entry := by
  obtain ⟨content, hc, hk⟩ := h
  exact ⟨content, hext.getElem? hc, hk⟩

theorem KnownCheck.mono (h : KnownCheck s state) (hext : t.Extends s) : KnownCheck t state where
  began := by
    obtain ⟨more, hmore⟩ := hext
    rw [hmore, length_append]
    exact Nat.le_add_right_of_le h.began
  looked := fun entry he => ⟨(h.looked entry he).1, (h.looked entry he).2.mono hext⟩
  unread := h.unread
  settled := h.settled

/-- A path whose entry is gone or stays is known as before. -/
theorem Known.keep (h : Known s) (he : ∀ entry ∈ t.entry, entry ∈ s.entry)
    (hchecks : t.checks = s.checks) (hcon : t.contents = s.contents)
    (hdel : t.deletes = s.deletes) : Known t where
  entry := by
    intro entry hin
    rw [hdel]
    obtain ⟨hk, hnot⟩ := h.entry entry (he entry hin)
    exact ⟨hk.mono (.of_eq hcon), hnot⟩
  checks := by
    intro state hst
    rw [hchecks] at hst
    exact (h.checks state hst).mono (.of_eq hcon)
  deletes := by
    rw [hdel, hcon]
    exact h.deletes
  nodup := hdel ▸ h.nodup

theorem Known.record (h : Known s) (content : Option JsString) : Known (s.record content) where
  entry := by
    intro entry he
    cases he
    refine ⟨⟨content, ?_, rfl⟩, ?_⟩
    · exact getElem?_concat_length ..
    intro hin
    have hlt := (List.getElem?_eq_some_iff.mp (h.deletes _ hin)).1
    exact absurd hlt (Nat.lt_irrefl _)
  checks := fun state hst => (h.checks state hst).mono ⟨[content], rfl⟩
  deletes := fun number hnum =>
    Extends.getElem? (t := s.record content) ⟨[content], rfl⟩ (h.deletes number hnum)
  nodup := h.nodup

theorem getActiveSuppression_mem (h : s.getActiveSuppression = some entry) : s.entry = some entry :=
  (filter_eq_some_iff.mp h).1

theorem Known.consumeDeleteSuppression (h : Known s) : Known s.consumeDeleteSuppression := by
  unfold PathSuppression.consumeDeleteSuppression
  split
  · rename_i number expiresAt hact
    obtain ⟨⟨content, hc, hk⟩, hnot⟩ := h.entry _ (getActiveSuppression_mem hact)
    have hn : content = none := by
      cases content with
      | none => rfl
      | some content => cases hk
    subst hn
    refine ⟨fun entry he => (by cases he),
      fun state hst => (h.checks state hst).mono (.of_eq rfl), ?_, ?_⟩
    · intro other ho
      rcases mem_append.mp ho with ho | ho
      · exact h.deletes other ho
      rw [mem_singleton.mp ho]
      exact hc
    rw [nodup_append]
    refine ⟨h.nodup, nodup_singleton _, ?_⟩
    rintro a ha b hb rfl
    exact hnot (mem_singleton.mp hb ▸ ha)
  · exact h.keep nofun rfl rfl rfl

theorem Known.addCheck (h : Known s) (hst : KnownCheck s state)
    {entry : Option SuppressionEntry} (hen : ∀ e ∈ entry, e ∈ s.entry) :
    Known (s.addCheck state entry) where
  entry := fun e he => h.entry e (hen e he)
  checks := by
    intro other ho
    rcases mem_append.mp ho with ho | ho
    · exact (h.checks other ho).mono (.of_eq rfl)
    rw [mem_singleton.mp ho]
    exact hst.mono (.of_eq rfl)
  deletes := h.deletes
  nodup := h.nodup

theorem Known.setCheck (h : Known s) (hst : KnownCheck s state) :
    Known (s.setCheck check state) where
  entry := h.entry
  checks := by
    intro other ho
    rcases mem_or_eq_of_mem_set ho with ho | heq
    · exact (h.checks other ho).mono (.of_eq rfl)
    rw [heq]
    exact hst.mono (.of_eq rfl)
  deletes := h.deletes
  nodup := h.nodup

/-- A check that returns before its first `await` read nothing. -/
theorem KnownCheck.early (h : Known s) {looked : Option SuppressionEntry}
    {removed : Option ℕ} {phase : EventCheckPhase} (hlooked : ∀ entry ∈ looked, entry ∈ s.entry)
    (hph : phase = .reading ∨ phase = .returned false) :
    KnownCheck s ⟨s.contents.length, looked, none, phase, removed⟩ where
  began := Nat.le_refl _
  looked := fun entry he =>
    have hk := (h.entry entry (hlooked entry he)).1
    ⟨hk.lt, hk⟩
  unread := fun _ => rfl
  settled := by
    intro suppressed hret
    have hf : matchesEntry ⟨s.contents.length, looked, none, phase, removed⟩ = false := by
      cases looked <;> rfl
    rw [hf]
    rcases hph with rfl | rfl
    · cases hret
    cases hret
    rfl

theorem Known.beginCheck (h : Known s) (size : Option ℕ) : Known (s.beginCheck size) := by
  have hn : ∀ entry ∈ (none : Option SuppressionEntry), entry ∈ s.entry := nofun
  unfold PathSuppression.beginCheck
  split
  · exact h.addCheck (.early h hn (.inr rfl)) hn
  · rename_i entry hact
    have hlooked : ∀ looked ∈ some entry, looked ∈ s.entry := by
      intro looked heq
      cases heq
      exact getActiveSuppression_mem hact
    split
    · exact h.addCheck (.early h hlooked (.inr rfl)) hn
    split
    · exact h.addCheck (.early h hlooked (.inr rfl)) hn
    · exact h.addCheck (.early h hlooked (.inl rfl)) hlooked

theorem Known.returnCheck (h : Known s) (hst : s.checks[check]? = some state)
    {suppressed : Bool} (hmat : suppressed = matchesEntry state) :
    Known (s.returnCheck check state suppressed) := by
  have hold := h.checks state (mem_of_getElem? hst)
  have hnew : KnownCheck s
      { state with phase := .returned suppressed, removed := s.entry.map (·.number) } := by
    refine ⟨hold.began, hold.looked, fun heq => (by cases heq), ?_⟩
    intro other ho
    cases ho
    exact hmat
  exact (h.setCheck hnew).keep (fun entry he => by cases he) rfl rfl rfl

/-- Every step keeps what is known, whatever the order. -/
theorem Known.next (h : Known s) (e : SuppressionEvent) : Known (s.next e) := by
  have hg : ∀ entry ∈ (none : Option SuppressionEntry), entry ∈ s.entry := nofun
  have hstay : ∀ entry ∈ s.entry, entry ∈ s.entry := fun entry he => he
  cases e with
  | tick now | change disk | suppressWrite content => exact h.keep hstay rfl rfl rfl
  | recordWrite call =>
    rw [PathSuppression.next]
    split
    · rename_i content _
      have hc : Known { s with writes := s.writes.set call none } := h.keep hstay rfl rfl rfl
      exact hc.record (some content)
    · exact h
  | suppressDelete => exact h.record none
  | rollback number =>
    rw [PathSuppression.next, rollbackLocalCreateSuppression]
    split
    · exact h.keep hg rfl rfl rfl
    · exact h
  | discard => exact h.keep hg rfl rfl rfl
  | consumeDelete => exact h.consumeDeleteSuppression
  | begin size => exact h.beginCheck size
  | read check succeeds =>
    rw [PathSuppression.next]
    split
    · rename_i state hst
      split
      · rename_i hr
        have hold := h.checks state (mem_of_getElem? hst)
        unfold readCheck
        split
        · refine h.setCheck ⟨hold.began, hold.looked, fun heq => (by cases heq), ?_⟩
          exact nofun
        refine h.returnCheck hst ?_
        rw [matchesEntry, hold.unread hr]
        cases state.entry <;> rfl
      · exact h
    · exact h
  | compare check =>
    rw [PathSuppression.next]
    split
    · rename_i state hst
      split
      · exact h.returnCheck hst rfl
      · exact h
    · exact h

theorem known_initial : Known {} where
  entry := nofun
  checks := nofun
  deletes := nofun
  nodup := nodup_nil

/-- A check that suppressed its event read what was written. -/
theorem Known.suppressed (hh : s.CollisionFree) (h : Known s) (hin : state ∈ s.checks)
    (hsup : state.phase = .returned true) : s.ReadsWritten state :=
  (h.matches_iff hh hin).mp ((h.checks state hin).settled true hsup).symm

theorem Known.causal_iff (hh : s.CollisionFree) (h : Known s) :
    s.Causal ↔ s.AtMostOnce ∧ s.RemovesNoneLater := by
  constructor
  · exact fun hcausal => ⟨hcausal.once, hcausal.later⟩
  rintro ⟨honce, hl⟩
  refine ⟨fun state hin => h.suppressed hh hin, honce, ⟨h.nodup, ?_⟩, hl⟩
  intro state hin hsup number hnum hdel
  obtain ⟨entry, content, written, he, -, hw, -⟩ := h.suppressed hh hin hsup
  rw [EventCheck.number, he] at hnum
  cases hnum
  rw [h.deletes _ hdel] at hw
  cases hw

variable {new : EventCheck}

theorem AtMostOnce.setCheck (h : s.AtMostOnce)
    (hnew : new.phase = .returned true → ∀ j other, j ≠ check →
      s.checks[j]? = some other → other.phase = .returned true → other.number ≠ new.number) :
    (s.setCheck check new).AtMostOnce := by
  intro i j first second hi hj hf hsec hnum
  rcases getElem?_set_cases hi with ⟨hik, hi'⟩ | ⟨rfl, rfl⟩
  · rcases getElem?_set_cases hj with ⟨-, hj'⟩ | ⟨rfl, rfl⟩
    · exact h i j first second hi' hj' hf hsec hnum
    · exact absurd hnum (hnew hsec i first hik hi' hf)
  rcases getElem?_set_cases hj with ⟨hjk, hj'⟩ | ⟨rfl, -⟩
  · exact absurd hnum.symm (hnew hf j second hjk hj' hsec)
  · rfl

theorem RemovesNoneLater.setCheck (h : s.RemovesNoneLater)
    (hnew : ∀ number ∈ new.removed, number < new.began) :
    (s.setCheck check new).RemovesNoneLater := by
  intro other ho
  rcases mem_or_eq_of_mem_set ho with ho | rfl
  · exact h other ho
  · exact hnew

theorem AtMostOnce.addCheck (h : s.AtMostOnce) (hnew : new.phase ≠ .returned true)
    (entry : Option SuppressionEntry) : (s.addCheck new entry).AtMostOnce := by
  intro i j first second hi hj hf hsec hnum
  rcases getElem?_append_one hi with hi | ⟨-, rfl⟩
  · rcases getElem?_append_one hj with hj | ⟨-, rfl⟩
    · exact h i j first second hi hj hf hsec hnum
    · exact absurd hsec hnew
  · exact absurd hf hnew

theorem RemovesNoneLater.addCheck (h : s.RemovesNoneLater)
    (hnew : ∀ number ∈ new.removed, number < new.began) (entry : Option SuppressionEntry) :
    (s.addCheck new entry).RemovesNoneLater := by
  intro other ho
  rcases mem_append.mp ho with ho | ho
  · exact h other ho
  rw [mem_singleton.mp ho]
  exact hnew

/-- The entry that a check takes away as it begins is the one it looked up. -/
theorem beginCheck_clean (h : Known s) (size : Option ℕ)
    (hc : s.AtMostOnce ∧ s.RemovesNoneLater) :
    (s.beginCheck size).AtMostOnce ∧ (s.beginCheck size).RemovesNoneLater := by
  have hn : ∀ number ∈ (none : Option ℕ), number < s.contents.length := nofun
  unfold beginCheck
  split
  · exact ⟨hc.1.addCheck (fun heq => by cases heq) _, hc.2.addCheck hn _⟩
  · rename_i entry hact
    have hlooked : ∀ number ∈ some entry.number, number < s.contents.length := by
      intro number hnum
      cases hnum
      exact (h.entry entry (getActiveSuppression_mem hact)).1.lt
    split
    · exact ⟨hc.1.addCheck (fun heq => by cases heq) _, hc.2.addCheck hlooked _⟩
    split
    · exact ⟨hc.1.addCheck (fun heq => by cases heq) _, hc.2.addCheck hlooked _⟩
    · exact ⟨hc.1.addCheck (fun heq => by cases heq) _, hc.2.addCheck hn _⟩

/-- A check that returns keeps the entries apart exactly where it finds none later than itself and
no acknowledgement of the entry it acknowledges. -/
theorem returnCheck_clean_iff (hst : s.checks[check]? = some state)
    (hop : ∀ b, state.phase ≠ .returned b) (hc : s.AtMostOnce ∧ s.RemovesNoneLater)
    (suppressed : Bool) :
    ((s.returnCheck check state suppressed).AtMostOnce ∧
      (s.returnCheck check state suppressed).RemovesNoneLater) ↔
    s.NoneLater state ∧ (suppressed = true → ∀ other ∈ s.checks, other.number = state.number →
      other.phase ≠ .returned true) := by
  have hs : (s.returnCheck check state suppressed).checks[check]? = some
      { state with phase := .returned suppressed, removed := s.entry.map (·.number) } :=
    List.getElem?_set_self (List.getElem?_eq_some_iff.mp hst).1
  constructor
  · rintro ⟨honce, hl⟩
    constructor
    · intro entry he
      refine hl _ (mem_of_getElem? hs) entry.number ?_
      rw [mem_def] at he ⊢
      simp [he]
    intro hsup other ho hnum hret
    subst hsup
    obtain ⟨j, hj⟩ := mem_iff_getElem?.mp ho
    have hne : check ≠ j := by
      rintro rfl
      rw [hst, some_inj] at hj
      exact hop true (hj ▸ hret)
    have hj' : (s.returnCheck check state true).checks[j]? = some other := by
      rw [← hj]
      exact getElem?_set_ne hne
    exact hne (honce check j _ other hs hj' rfl hret hnum.symm)
  rintro ⟨hn, ha⟩
  have honce : (s.setCheck check { state with
      phase := .returned suppressed, removed := s.entry.map (·.number) }).AtMostOnce := by
    refine hc.1.setCheck ?_
    intro hret j other _ hj ho hnum
    have hsup : suppressed = true := EventCheckPhase.returned.inj hret
    exact ha hsup other (mem_of_getElem? hj) hnum ho
  have hl : (s.setCheck check { state with
      phase := .returned suppressed, removed := s.entry.map (·.number) }).RemovesNoneLater := by
    refine hc.2.setCheck ?_
    intro number hnum
    obtain ⟨entry, he, rfl⟩ := map_eq_some_iff.mp hnum
    exact hn entry he
  exact ⟨honce, hl⟩

theorem readCheck_clean_iff (hst : s.checks[check]? = some state)
    (hr : state.phase = .reading) (hc : s.AtMostOnce ∧ s.RemovesNoneLater)
    (succeeds : Bool) :
    ((s.readCheck check state succeeds).AtMostOnce ∧
      (s.readCheck check state succeeds).RemovesNoneLater) ↔
    (s.disk = none ∨ succeeds = false → s.NoneLater state) := by
  have ho : ∀ b, state.phase ≠ .returned b := by
    intro b heq
    rw [hr] at heq
    cases heq
  have hfails : ((s.returnCheck check state false).AtMostOnce ∧
      (s.returnCheck check state false).RemovesNoneLater) ↔ s.NoneLater state := by
    rw [returnCheck_clean_iff hst ho hc]
    exact and_iff_left nofun
  unfold readCheck
  cases hd : s.disk with
  | none => simpa using hfails
  | some content =>
    cases succeeds with
    | false => simpa using hfails
    | true =>
      have hrd : (s.setCheck check { state with
            content := some content, phase := .fingerprinting }).AtMostOnce ∧
          (s.setCheck check { state with
            content := some content, phase := .fingerprinting }).RemovesNoneLater :=
        ⟨hc.1.setCheck fun heq => (by cases heq),
          hc.2.setCheck (hc.2 state (mem_of_getElem? hst))⟩
      refine iff_of_true hrd ?_
      rintro (hn | hf)
      · cases hn
      · cases hf

/-- One step keeps the checks causal exactly where it is undisturbed. -/
theorem next_clean_iff (hh : s.CollisionFree) (h : Known s)
    (hc : s.AtMostOnce ∧ s.RemovesNoneLater) (e : SuppressionEvent) :
    ((s.next e).AtMostOnce ∧ (s.next e).RemovesNoneLater) ↔ s.Undisturbed e := by
  have hs : ∀ {t : PathSuppression}, t.checks = s.checks →
      (t.AtMostOnce ∧ t.RemovesNoneLater ↔ True) := by
    intro t hchecks
    unfold AtMostOnce RemovesNoneLater at *
    rw [hchecks]
    exact iff_true_intro hc
  cases e with
  | tick now | change disk | suppressWrite content | suppressDelete | discard | consumeDelete =>
    exact hs rfl
  | recordWrite call =>
    rw [PathSuppression.next]
    split <;> exact hs rfl
  | rollback number =>
    rw [PathSuppression.next, rollbackLocalCreateSuppression]
    split <;> exact hs rfl
  | begin size => exact iff_true_intro (beginCheck_clean h size hc)
  | read check succeeds =>
    rw [PathSuppression.next, Undisturbed]
    cases hst : s.checks[check]? with
    | none => exact iff_of_true hc nofun
    | some state =>
      by_cases hr : state.phase = .reading
      · simp only [hr, if_true, some_inj, forall_eq', true_implies]
        exact readCheck_clean_iff hst hr hc succeeds
      simp only [if_neg hr]
      refine iff_of_true hc ?_
      rintro state' heq hr'
      cases heq
      exact absurd hr' hr
  | compare check =>
    rw [PathSuppression.next, Undisturbed]
    cases hst : s.checks[check]? with
    | none => exact iff_of_true hc nofun
    | some state =>
      by_cases hph : state.phase = .fingerprinting
      · have hop : ∀ b, state.phase ≠ .returned b := by
          intro b heq
          rw [hph] at heq
          cases heq
        simp only [hph, if_true, some_inj, forall_eq', true_implies]
        rw [returnCheck_clean_iff hst hop hc, h.matches_iff hh (mem_of_getElem? hst)]
        have ha : (s.ReadsWritten state → ∀ other ∈ s.checks, other.number = state.number →
            other.phase ≠ .returned true) ↔ s.Alone state := by
          constructor
          · intro ha hrs other ho hnum hw suppressed hret
            have hmat := (h.matches_iff hh ho).mpr hw
            rw [(h.checks other ho).settled suppressed hret, hmat] at hret
            exact ha hrs other ho hnum hret
          intro ha hrs other ho hnum hret
          exact ha hrs other ho hnum (h.suppressed hh ho hret) true
            hret
        rw [ha]
      simp only [if_neg hph]
      refine iff_of_true hc ?_
      rintro state' heq hph'
      cases heq
      exact absurd hph' hph

theorem known_stateAt (events : List SuppressionEvent) (n : ℕ) : Known (stateAt next {} events n) :=
  stateAt_invariant known_initial (fun _ e h => h.next e) n

/-- In every state of a run the suppression is causal exactly where no step was disturbed: a check
that returns after an `await` met no entry later than it, and was the first to acknowledge its own. -/
theorem suppression_causal_iff (events : List SuppressionEvent)
    (hhash : ∀ n, (stateAt next {} events n).CollisionFree) :
    (∀ n, (stateAt next {} events n).Causal) ↔
      ∀ n e, events[n]? = some e → (stateAt next {} events n).Undisturbed e := by
  have hk := known_stateAt events
  constructor
  · intro h n e he
    have hn := ((hk (n + 1)).causal_iff (hhash (n + 1))).mp (h (n + 1))
    rw [stateAt_succ he] at hn
    exact (next_clean_iff (hhash n) (hk n) (((hk n).causal_iff (hhash n)).mp (h n)) e).mp hn
  intro hq n
  rw [(hk n).causal_iff (hhash n)]
  refine stateAt_from (P := fun s : PathSuppression => s.AtMostOnce ∧ s.RemovesNoneLater)
    (Nat.zero_le n) ⟨fun i j _ _ hi => by simp at hi, nofun⟩ fun k e _ he h => ?_
  exact (next_clean_iff (hhash k) (hk k) h e).mpr (hq k e he)

/-- A write is acknowledged by the event that it causes. -/
def acknowledgedWrite : List SuppressionEvent :=
  [.suppressWrite (js "x"), .recordWrite 0, .change (some (js "x")), .begin (some 1), .read 0 true,
    .compare 0]

theorem suppression_causal_iff_acknowledged : (stateAt next {} acknowledgedWrite 6).Causal := by
  have hl : ∀ n, 6 ≤ n →
      stateAt next {} acknowledgedWrite n = stateAt next {} acknowledgedWrite 6 := by
    intro n hn
    rw [stateAt, stateAt, take_of_length_le hn, take_of_length_le (Nat.le_refl 6)]
  have hone : ∀ n ≤ 6, (∀ state ∈ (stateAt next {} acknowledgedWrite n).checks,
      ∀ content ∈ state.content, content = js "x") ∧
      ∀ content ∈ (stateAt next {} acknowledgedWrite n).contents, content = some (js "x") := by
    decide
  refine (suppression_causal_iff acknowledgedWrite ?_).mpr ?_ 6
  · intro n state hst content hcon written hwrit _
    rcases Nat.le_total n 6 with hn | hn
    · rw [(hone n hn).1 state hst content hcon, some_inj.mp ((hone n hn).2 _ hwrit)]
    rw [hl n hn] at hst hwrit
    rw [(hone 6 (Nat.le_refl 6)).1 state hst content hcon,
      some_inj.mp ((hone 6 (Nat.le_refl 6)).2 _ hwrit)]
  intro n e he
  rcases n with _ | _ | _ | _ | _ | _ | n <;> cases he
  · trivial
  · trivial
  · trivial
  · trivial
  · rintro state - - (hno | hf)
    · cases hno
    · cases hf
  intro state hst hph
  cases hst
  constructor
  · intro entry hen
    cases hen
    exact Nat.zero_lt_one
  intro _ other ho _ _ suppressed hret
  cases mem_singleton.mp ho
  cases hret

/-- A second write is recorded while the event of the first is checked, and that check takes the
second entry away. -/
theorem later_entry_removed : ¬ (stateAt next {}
    [.suppressWrite (js "x"), .recordWrite 0, .change (some (js "x")), .begin (some 1), .read 0 true,
      .suppressWrite (js "y"), .recordWrite 1, .compare 0] 8).Causal := by
  intro h
  refine absurd (h.later _ (getElem_mem (n := 0) ?_) 1 ?_) ?_
  · exact Nat.zero_lt_one
  · rfl
  · exact Nat.lt_irrefl 1

end PathSuppression

end Kaos.Sync
