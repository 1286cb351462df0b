import Mathlib.Data.List.Basic
import Kaos.Lib.Run

/-! Requests to settle the provider's policy: one slot for the latest, one loop that empties it, and
the microtasks between the loop's last look at the slot and the reset of `inFlight`. -/
namespace Kaos.Runtime

open Kaos.Lib List
open Option (some_inj)

/-- How far a call of `drain` is, and whether the `settle` it awaited last rejected. -/
inductive PolicyDrainPhase
  | settling (request : ℕ)
  | resuming (rejected : Bool)
  | ended (rejected : Bool)
  | closed (rejected : Bool)
  | settled (rejected : Bool)
  deriving DecidableEq

/-- Requests and calls of `drain` go by number; `promises` has the call whose promise each request
got, `started` and `finished` the requests that `settle` was called with and that it fulfilled. -/
structure SettlementCoordinator where
  pending : Option ℕ := none
  inFlight : Option ℕ := none
  runs : List PolicyDrainPhase := []
  promises : List ℕ := []
  started : List ℕ := []
  finished : List ℕ := []

open SettlementCoordinator

namespace SettlementCoordinator

variable (s : SettlementCoordinator)

/-- From the loop's test to its next `await`, or to the end of `drain`. -/
def drain (run : ℕ) : SettlementCoordinator :=
  match s.pending with
  | some next =>
    { s with
      pending := none, runs := s.runs.set run (.settling next), started := s.started ++ [next] }
  | none => { s with runs := s.runs.set run (.ended false) }

def request : SettlementCoordinator :=
  let s := { s with pending := some s.promises.length }
  match s.inFlight with
  | some run => { s with promises := s.promises ++ [run] }
  | none =>
    let run := s.runs.length
    let s := drain { s with runs := s.runs ++ [.resuming false] } run
    { s with inFlight := some run, promises := s.promises ++ [run] }

end SettlementCoordinator

/-- `resume`, `reset` and `deliver` are microtasks: of the loop after its `await`, of the `finally`
and of the promise that `finally` made. -/
inductive SettlementEvent
  | request
  | fulfil (run : ℕ)
  | reject (run : ℕ)
  | resume (run : ℕ)
  | reset (run : ℕ)
  | deliver (run : ℕ)

namespace SettlementCoordinator

def next (s : SettlementCoordinator) : SettlementEvent → SettlementCoordinator
  | .request => s.request
  | .fulfil run =>
    match s.runs[run]? with
    | some (.settling request) =>
      { s with runs := s.runs.set run (.resuming false), finished := s.finished ++ [request] }
    | _ => s
  | .reject run =>
    match s.runs[run]? with
    | some (.settling _) => { s with runs := s.runs.set run (.resuming true) }
    | _ => s
  | .resume run =>
    match s.runs[run]? with
    | some (.resuming true) => { s with runs := s.runs.set run (.ended true) }
    | some (.resuming false) => s.drain run
    | _ => s
  | .reset run =>
    match s.runs[run]? with
    | some (.ended rejected) =>
      { s with
        runs := s.runs.set run (.closed rejected)
        inFlight := if s.inFlight = some run then none else s.inFlight }
    | _ => s
  | .deliver run =>
    match s.runs[run]? with
    | some (.closed rejected) => { s with runs := s.runs.set run (.settled rejected) }
    | _ => s

/-- No generation is lost: the calls of `settle` are one after the other and in order, only a later
request takes a request's place, an idle coordinator has begun with the latest, and a fulfilled
promise tells that its request or a later one is done. -/
structure LosesNone (s : SettlementCoordinator) : Prop where
  apart : ∀ i j m n : ℕ, s.runs[i]? = some (PolicyDrainPhase.settling m) →
    s.runs[j]? = some (PolicyDrainPhase.settling n) → i = j
  ordered : s.started.Pairwise (· < ·)
  skipped : ∀ n < s.promises.length, n ∈ s.started ∨ s.pending = some n ∨ n + 1 < s.promises.length
  idle : s.inFlight = none → ∀ n, s.promises.length = n + 1 → n ∈ s.started
  fulfilled : ∀ n run, s.promises[n]? = some run → s.runs[run]? = some (.settled false) →
    ∃ m ∈ s.finished, n ≤ m

/-- No request comes between the end of the loop and the reset, and no rejection is thrown past a
request that waits. -/
def Undisturbed (s : SettlementCoordinator) : SettlementEvent → Prop
  | .request => ∀ run rejected, s.inFlight = some run → s.runs[run]? ≠ some (.ended rejected)
  | .resume run => s.runs[run]? = some (.resuming true) → s.pending = none
  | _ => True

end SettlementCoordinator

def PolicyDrainPhase.isOver : PolicyDrainPhase → Bool
  | .closed _ | .settled _ => true
  | _ => false

/-- The loop will look at the slot again, if nothing is thrown. -/
def PolicyDrainPhase.looksAgain : PolicyDrainPhase → Bool
  | .settling _ | .resuming _ => true
  | _ => false

namespace SettlementCoordinator

variable {s : SettlementCoordinator} {run n : ℕ} {old new : PolicyDrainPhase}

def Done (s : SettlementCoordinator) (n : ℕ) : Prop := ∃ m ∈ s.finished, n ≤ m

def Waits (s : SettlementCoordinator) (n : ℕ) : Prop := ∃ p, s.pending = some p ∧ n ≤ p

/-- What a call of `drain` owes a request that has its promise. -/
def Due (s : SettlementCoordinator) (n : ℕ) : PolicyDrainPhase → Prop
  | .settling m => n ≤ m ∨ Waits s n
  | .resuming false => Done s n ∨ Waits s n
  | .ended false | .closed false | .settled false => Done s n
  | _ => True

structure Sound (s : SettlementCoordinator) : Prop where
  ended : ∀ run phase, s.runs[run]? = some phase → s.inFlight = some run ∨ phase.isOver = true
  flying : ∀ run, s.inFlight = some run → ∃ phase, s.runs[run]? = some phase ∧ phase.isOver = false
  waiting : ∀ n, s.pending = some n → n + 1 = s.promises.length ∧
    ∃ run phase, s.inFlight = some run ∧ s.runs[run]? = some phase ∧ phase.looksAgain = true
  latest : ∀ n, s.promises.length = n + 1 → s.pending = some n ∨ n ∈ s.started
  ordered : s.started.Pairwise (· < ·)
  below : ∀ m ∈ s.started, m < s.promises.length ∧ s.pending ≠ some m
  promised : ∀ n run, s.promises[n]? = some run → ∃ phase, s.runs[run]? = some phase ∧ Due s n phase

theorem set_phase {runs : List PolicyDrainPhase} (h : runs[run]? = some old) :
    (runs.set run new)[run]? = some new :=
  List.getElem?_set_self (List.getElem?_eq_some_iff.mp h).1

theorem lt_promises (h : s.promises[n]? = some run) : n < s.promises.length :=
  (List.getElem?_eq_some_iff.mp h).1

theorem Sound.eq_of_not_over (h : Sound s) (hrun : s.runs[run]? = some old)
    (ho : old.isOver = false) : s.inFlight = some run := by
  rcases h.ended run old hrun with hin | hin
  · exact hin
  rw [ho] at hin
  cases hin

/-- One call of `drain` goes on to a phase that owes no less, and leaves the slot alone. -/
theorem Sound.move (h : Sound s) (new : PolicyDrainPhase) (hrun : s.runs[run]? = some old)
    {inFlight : Option ℕ}
    {finished : List ℕ} (hfin : ∀ m ∈ s.finished, m ∈ finished)
    (hfl : inFlight = s.inFlight ∧ old.isOver = new.isOver ∨
      inFlight = none ∧ s.inFlight = some run ∧ new.isOver = true)
    (hlooks : s.inFlight = some run → s.pending ≠ none →
      inFlight = some run ∧ new.looksAgain = true)
    (hdue : ∀ n, Due s n old → Due { s with finished := finished } n new) :
    Sound { s with
      runs := s.runs.set run new, inFlight := inFlight, finished := finished } where
  ended := by
    intro i phase hi
    rcases getElem?_set_cases hi with ⟨hne, hi⟩ | ⟨rfl, rfl⟩
    · rcases h.ended i phase hi with hin | hin
      · rcases hfl with ⟨hs, -⟩ | ⟨-, hrun, -⟩
        · exact .inl (hs.trans hin)
        rw [hrun, some_inj] at hin
        exact absurd hin.symm hne
      · exact .inr hin
    rcases hfl with ⟨hs, ho⟩ | ⟨-, -, ho⟩
    · rcases h.ended i old hrun with hin | hin
      · exact .inl (hs.trans hin)
      · exact .inr (ho ▸ hin)
    · exact .inr ho
  flying := by
    intro i hi
    rcases hfl with ⟨hs, ho⟩ | ⟨hno, -, -⟩
    · obtain ⟨phase, hph, hnot⟩ := h.flying i (hs.symm.trans hi)
      by_cases heq : i = run
      · subst heq
        rw [hrun, some_inj] at hph
        subst hph
        exact ⟨new, set_phase hrun, ho ▸ hnot⟩
      · exact ⟨phase, (getElem?_set_ne (Ne.symm heq)).trans hph, hnot⟩
    · rw [hno] at hi
      cases hi
  waiting := by
    intro n hn
    obtain ⟨hl, i, phase, hin, hph, hlook⟩ := h.waiting n hn
    refine ⟨hl, ?_⟩
    by_cases heq : i = run
    · subst heq
      obtain ⟨hin', hnew⟩ := hlooks hin (hn ▸ Option.some_ne_none n)
      exact ⟨i, new, hin', set_phase hrun, hnew⟩
    rcases hfl with ⟨hs, -⟩ | ⟨-, hrun', -⟩
    · exact ⟨i, phase, hs.trans hin, (getElem?_set_ne (Ne.symm heq)).trans hph, hlook⟩
    rw [hrun', some_inj] at hin
    exact absurd hin.symm heq
  latest := h.latest
  ordered := h.ordered
  below := h.below
  promised := by
    intro n i hi
    obtain ⟨phase, hph, hdue'⟩ := h.promised n i hi
    by_cases heq : i = run
    · subst heq
      rw [hrun, some_inj] at hph
      subst hph
      exact ⟨new, set_phase hrun, hdue n hdue'⟩
    refine ⟨phase, (getElem?_set_ne (Ne.symm heq)).trans hph, ?_⟩
    have hd : Done s n → ∃ m ∈ finished, n ≤ m :=
      fun ⟨m, hm, hle⟩ => ⟨m, hfin m hm, hle⟩
    cases phase with
    | settling m => exact hdue'
    | resuming rejected =>
      cases rejected with
      | false => exact hdue'.imp hd id
      | true => trivial
    | ended rejected | closed rejected | settled rejected =>
      cases rejected with
      | false => exact hd hdue'
      | true => trivial

/-- The loop takes the waiting request, or ends with every request that has its promise done. -/
theorem Sound.drain (h : Sound s) (hrun : s.runs[run]? = some (.resuming false)) :
    Sound (s.drain run) := by
  have hin := h.eq_of_not_over hrun rfl
  unfold SettlementCoordinator.drain
  cases hpe : s.pending with
  | none =>
    have hmove := h.move (.ended false) hrun (fun _ (hm : _ ∈ s.finished) => hm)
      (.inl ⟨rfl, rfl⟩) (fun _ hne => absurd hpe hne) (by
        rintro n (hd | ⟨p, hp, -⟩)
        · exact hd
        rw [hpe] at hp
        cases hp)
    simpa only [hpe] using hmove
  | some next =>
    obtain ⟨hl, -⟩ := h.waiting next hpe
    constructor
    · intro i phase hi
      rcases getElem?_set_cases hi with ⟨-, hi⟩ | ⟨rfl, rfl⟩
      · exact h.ended i phase hi
      · exact .inl hin
    · intro i hi
      rw [hin, some_inj] at hi
      subst hi
      exact ⟨.settling next, set_phase hrun, rfl⟩
    · nofun
    · intro n hn
      refine .inr (mem_append_right _ (mem_singleton.mpr ?_))
      have : s.promises.length = n + 1 := hn
      omega
    · rw [pairwise_append]
      refine ⟨h.ordered, pairwise_singleton _ _, ?_⟩
      intro m hm p hp
      rw [mem_singleton.mp hp]
      obtain ⟨hlt, hne⟩ := h.below m hm
      have : m ≠ next := fun heq => hne (heq ▸ hpe)
      omega
    · intro m hm
      refine ⟨?_, nofun⟩
      rcases mem_append.mp hm with hm | hm
      · exact (h.below m hm).1
      rw [mem_singleton.mp hm]
      exact hl ▸ Nat.lt_succ_self next
    intro n i hi
    have hle : n ≤ next := by
      have := lt_promises (s := s) hi
      omega
    by_cases heq : i = run
    · subst heq
      exact ⟨.settling next, set_phase hrun, .inl hle⟩
    obtain ⟨phase, hph, hdue⟩ := h.promised n i hi
    refine ⟨phase, (getElem?_set_ne (Ne.symm heq)).trans hph, ?_⟩
    rcases h.ended i phase hph with hot | ho
    · rw [hin, some_inj] at hot
      exact absurd hot.symm heq
    cases phase with
    | closed rejected | settled rejected =>
      cases rejected with
      | false => exact hdue
      | true => trivial
    | settling m | resuming rejected | ended rejected => cases ho

theorem sound_initial : Sound {} where
  ended := fun run phase h => by simp at h
  flying := nofun
  waiting := nofun
  latest := nofun
  ordered := .nil
  below := nofun
  promised := fun n run h => by simp at h

/-- A request that joins a call of `drain` which will look at the slot again. -/
theorem Sound.join (h : Sound s) (hin : s.inFlight = some run) (hrun : s.runs[run]? = some old)
    (hlooks : old.looksAgain = true) :
    Sound { s with pending := some s.promises.length, promises := s.promises ++ [run] } where
  ended := h.ended
  flying := h.flying
  waiting := by
    intro n hn
    cases hn
    exact ⟨by simp, run, old, hin, hrun, hlooks⟩
  latest := by
    intro n hn
    rw [length_append] at hn
    exact .inl (congrArg some (Nat.succ.inj hn))
  ordered := h.ordered
  below := by
    intro m hm
    have hlt := (h.below m hm).1
    constructor
    · rw [length_append]
      exact Nat.lt_succ_of_lt hlt
    intro heq
    cases heq
    exact Nat.lt_irrefl _ hlt
  promised := by
    have hwaits : ∀ n ≤ s.promises.length,
        Waits { s with pending := some s.promises.length, promises := s.promises ++ [run] } n :=
      fun n hle => ⟨_, rfl, hle⟩
    have hlook : ∀ n ≤ s.promises.length,
        Due { s with pending := some s.promises.length, promises := s.promises ++ [run] } n old := by
      intro n hle
      cases old with
      | settling m => exact .inr (hwaits n hle)
      | resuming rejected =>
        cases rejected with
        | false => exact .inr (hwaits n hle)
        | true => trivial
      | ended rejected | closed rejected | settled rejected => cases hlooks
    intro n i hi
    rcases getElem?_append_one hi with hi | ⟨rfl, rfl⟩
    · have hle := Nat.le_of_lt (lt_promises hi)
      obtain ⟨phase, hph, hdue⟩ := h.promised n i hi
      by_cases heq : i = run
      · subst heq
        exact ⟨old, hrun, hlook n hle⟩
      refine ⟨phase, hph, ?_⟩
      rcases h.ended i phase hph with hot | ho
      · rw [hin, some_inj] at hot
        exact absurd hot.symm heq
      cases phase with
      | closed rejected | settled rejected =>
        cases rejected with
        | false => exact hdue
        | true => trivial
      | settling m | resuming rejected | ended rejected => cases ho
    · exact ⟨old, hrun, hlook _ (Nat.le_refl _)⟩

/-- A new call of `drain`, before it has looked at the slot. -/
theorem Sound.begin (h : Sound s) (hin : s.inFlight = none) :
    Sound { s with
      inFlight := some s.runs.length, runs := s.runs ++ [.resuming false] } := by
  have hold : ∀ i phase, s.runs[i]? = some phase → (s.runs ++ [.resuming false])[i]? = some phase :=
    fun i phase hi => (getElem?_append_left (getElem?_eq_some_iff.mp hi).1).trans hi
  refine ⟨?_, ?_, ?_, h.latest, h.ordered, h.below, ?_⟩
  · intro i phase hi
    rcases getElem?_append_one hi with hi | ⟨rfl, -⟩
    · rcases h.ended i phase hi with hot | ho
      · rw [hin] at hot
        cases hot
      · exact .inr ho
    · exact .inl rfl
  · intro i hi
    cases hi
    exact ⟨.resuming false, getElem?_concat_length, rfl⟩
  · intro n hn
    obtain ⟨-, i, phase, hi, -⟩ := h.waiting n hn
    rw [hin] at hi
    cases hi
  intro n i hi
  obtain ⟨phase, hph, hdue⟩ := h.promised n i hi
  refine ⟨phase, hold i phase hph, ?_⟩
  cases phase with
  | settling m => exact hdue
  | resuming rejected | ended rejected | closed rejected | settled rejected =>
    cases rejected with
    | false => exact hdue
    | true => trivial

theorem Sound.request (h : Sound s) (hquiet : Undisturbed s .request) : Sound s.request := by
  unfold SettlementCoordinator.request
  cases hin : s.inFlight with
  | some run =>
    obtain ⟨phase, hph, hnot⟩ := h.flying run hin
    have hlooks : phase.looksAgain = true := by
      cases phase with
      | settling m | resuming rejected => rfl
      | ended rejected => exact absurd hph (hquiet run rejected hin)
      | closed rejected | settled rejected => cases hnot
    simpa only [hin] using h.join hin hph hlooks
  | none =>
    have hbegun := (h.begin hin).join rfl getElem?_concat_length rfl
    exact hbegun.drain getElem?_concat_length

theorem Sound.next (h : Sound s) (e : SettlementEvent) (hquiet : Undisturbed s e) :
    Sound (s.next e) := by
  cases e with rw [SettlementCoordinator.next]
  | request => exact h.request hquiet
  | fulfil run =>
    split
    · rename_i request hrun
      have hmem : request ∈ s.finished ++ [request] := mem_append_right _ (mem_singleton_self _)
      exact h.move (.resuming false) hrun (fun m hm => mem_append_left _ hm)
        (.inl ⟨rfl, rfl⟩) (fun hin _ => ⟨hin, rfl⟩)
        (fun n hdue => hdue.imp (fun hle => ⟨request, hmem, hle⟩) id)
    · exact h
  | reject run =>
    split
    · rename_i request hrun
      exact h.move (.resuming true) hrun (fun _ hm => hm) (.inl ⟨rfl, rfl⟩)
        (fun hin _ => ⟨hin, rfl⟩) (fun _ _ => trivial)
    · exact h
  | resume run =>
    split
    · rename_i hrun
      exact h.move (.ended true) hrun (fun _ hm => hm) (.inl ⟨rfl, rfl⟩)
        (fun _ hne => absurd (hquiet hrun) hne) (fun _ _ => trivial)
    · rename_i hrun
      exact h.drain hrun
    · exact h
  | reset run =>
    split
    · rename_i rejected hrun
      have hin := h.eq_of_not_over hrun rfl
      rw [if_pos hin]
      refine h.move (.closed rejected) hrun (fun _ hm => hm) (.inr ⟨rfl, hin, rfl⟩) ?_ ?_
      · intro _ hne
        obtain ⟨n, hn⟩ := Option.ne_none_iff_exists'.mp hne
        obtain ⟨-, i, phase, hi, hph, hlooks⟩ := h.waiting n hn
        rw [hin, some_inj] at hi
        subst hi
        rw [hrun, some_inj] at hph
        subst hph
        cases hlooks
      intro n hdue
      cases rejected with
      | false => exact hdue
      | true => trivial
    · exact h
  | deliver run =>
    split
    · rename_i rejected hrun
      refine h.move (.settled rejected) hrun (fun _ hm => hm) (.inl ⟨rfl, rfl⟩) ?_ ?_
      · intro hin
        obtain ⟨phase, hph, hnot⟩ := h.flying run hin
        rw [hrun, some_inj] at hph
        subst hph
        cases hnot
      intro n hdue
      cases rejected with
      | false => exact hdue
      | true => trivial
    · exact h

theorem Sound.losesNone (h : Sound s) : LosesNone s where
  apart := by
    intro i j m n hi hj
    have hin := (h.eq_of_not_over hi rfl).symm.trans (h.eq_of_not_over hj rfl)
    exact Option.some.inj hin
  ordered := h.ordered
  skipped := by
    intro n hn
    by_cases hl : s.promises.length = n + 1
    · exact (h.latest n hl).symm.imp id .inl
    · exact .inr (.inr (by omega))
  idle := by
    intro hin n hn
    rcases h.latest n hn with hwait | hs
    · obtain ⟨-, i, phase, hi, -⟩ := h.waiting n hwait
      rw [hin] at hi
      cases hi
    · exact hs
  fulfilled := by
    intro n run hn hrun
    obtain ⟨phase, hph, hdue⟩ := h.promised n run hn
    rw [hrun, some_inj] at hph
    subst hph
    exact hdue

/-- In every run whose requests stay out of the gap before the reset, and whose rejections find the
slot empty, no generation is lost in any state. -/
theorem settlement_losesNone (events : List SettlementEvent)
    (hquiet : ∀ n e, events[n]? = some e → Undisturbed (stateAt next {} events n) e) (n : ℕ) :
    LosesNone (stateAt next {} events n) := by
  have hs : Sound (stateAt next {} events n) :=
    stateAt_from (Nat.zero_le n) sound_initial fun k e _ he h => h.next e (hquiet k e he)
  exact hs.losesNone

/-- Two requests, the second while the first is settled. -/
def twoRequests : List SettlementEvent :=
  [.request, .request, .fulfil 0, .resume 0, .fulfil 0, .resume 0, .reset 0, .deliver 0]

theorem settlement_losesNone_two : LosesNone (stateAt next {} twoRequests 8) := by
  refine settlement_losesNone twoRequests ?_ 8
  intro n e he
  match n, he with
  | 0, rfl =>
    exact nofun
  | 1, rfl =>
    intro run rejected hin
    cases hin
    exact nofun
  | 3, rfl | 5, rfl => exact nofun
  | 2, rfl | 4, rfl | 6, rfl | 7, rfl => trivial

/-- A request between the loop's last look and the reset is never settled, and its promise is
fulfilled. -/
theorem gap_request_lost : ¬ LosesNone (stateAt next {}
    [.request, .fulfil 0, .resume 0, .request, .reset 0, .deliver 0] 6) := by
  intro h
  exact absurd (h.idle rfl 1 rfl) (by decide)

end SettlementCoordinator

end Kaos.Runtime
