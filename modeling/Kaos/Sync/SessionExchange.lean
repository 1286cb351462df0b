import Kaos.Lib.JsString
import Kaos.Lib.Run

/-! The session of a device: one exchange at a time, kept until it is invalidated. -/
namespace Kaos.Sync

open Kaos.Lib List Option

structure DeviceSession where
  value : JsString
  expiresAt : ℤ
  deriving DecidableEq

/-- A `createSession`: running, returned or thrown, and past the `finally` of its promise. -/
inductive ExchangePhase
  | running
  | returned (session : Option DeviceSession)
  | ended (session : Option DeviceSession)
  deriving DecidableEq

/-- The promise and the session are kept with the exchange they are of. -/
structure SessionClient where
  session : Option (ℕ × DeviceSession) := none
  sessionPromise : Option ℕ := none
  exchanges : List ExchangePhase := []

inductive SessionEvent
  | getSession (force : Bool) (now : ℤ)
  | invalidateSession
  | returns (exchange : ℕ) (session : Option DeviceSession)
  | settles (exchange : ℕ)

namespace SessionClient

def sessionRefreshBufferMs : ℤ := 30000

variable (s : SessionClient)

/-- The exchange whose session the call returns. -/
def getSession (force : Bool) (now : ℤ) : ℕ × SessionClient :=
  match s.session.filter fun session =>
    !force && decide (session.2.expiresAt - now > sessionRefreshBufferMs) with
  | some (exchange, _) => (exchange, s)
  | none =>
    match s.sessionPromise with
    | some exchange => (exchange, s)
    | none =>
      (s.exchanges.length,
        { s with
          sessionPromise := some s.exchanges.length
          exchanges := s.exchanges ++ [.running] })

def next : SessionEvent → SessionClient
  | .getSession force now => (s.getSession force now).2
  | .invalidateSession => { s with session := none }
  | .returns exchange session =>
    if s.exchanges[exchange]? = some .running then
      { s with
        session := (session.map (exchange, ·)).or s.session
        exchanges := s.exchanges.set exchange (.returned session) }
    else s
  | .settles exchange =>
    match s.exchanges[exchange]? with
    | some (.returned session) =>
      { s with sessionPromise := none, exchanges := s.exchanges.set exchange (.ended session) }
    | _ => s

def Ended (exchange : ℕ) : Prop := ∃ session, s.exchanges[exchange]? = some (.ended session)

/-- Started, and not past its `finally`. -/
def InFlight (exchange : ℕ) : Prop :=
  s.exchanges[exchange]? = some .running ∨
    ∃ session, s.exchanges[exchange]? = some (.returned session)

end SessionClient

def sessionAt (events : List SessionEvent) (n : ℕ) : SessionClient :=
  stateAt SessionClient.next {} events n

/-- One exchange is in flight at a time; a session whose exchange had ended does not outlive an
invalidation and does not answer a forced call, which joins the exchange in flight or starts one;
and a failed exchange answers no later call and leaves no session. -/
structure AnswersFresh (events : List SessionEvent) (n : ℕ) : Prop where
  single : ∀ e e', (sessionAt events n).InFlight e → (sessionAt events n).InFlight e' → e = e'
  invalidated : ∀ m < n, events[m]? = some .invalidateSession → ∀ force now,
    ¬ (sessionAt events m).Ended ((sessionAt events n).getSession force now).1
  /-- Where no exchange is overtaken, only later ones answer. -/
  idle : ∀ m < n, events[m]? = some .invalidateSession →
    (∀ e, ¬ (sessionAt events m).InFlight e) → ∀ force now,
    (sessionAt events m).exchanges.length ≤ ((sessionAt events n).getSession force now).1
  forced : ∀ now, ¬ (sessionAt events n).Ended ((sessionAt events n).getSession true now).1
  joins : ∀ now, (sessionAt events n).InFlight ((sessionAt events n).getSession true now).1 ∨
    ((sessionAt events n).getSession true now).1 = (sessionAt events n).exchanges.length
  failed : ∀ force now, (sessionAt events n).exchanges[
    ((sessionAt events n).getSession force now).1]? ≠ some (.ended none)
  kept : ∀ e session, (sessionAt events n).session = some (e, session) →
    (sessionAt events n).exchanges[e]? = some (.returned session) ∨
      (sessionAt events n).exchanges[e]? = some (.ended session)

namespace SessionClient

/-- The promise is that of the exchange in flight, and the session that of its exchange. -/
structure Inv (s : SessionClient) : Prop where
  promise : ∀ e, s.InFlight e ↔ s.sessionPromise = some e
  kept : ∀ e session, s.session = some (e, session) →
    s.exchanges[e]? = some (.returned session) ∨ s.exchanges[e]? = some (.ended session)

variable {s : SessionClient} {events : List SessionEvent} {e : ℕ}

/-- A call is answered by the session that is kept, by the exchange in flight, or by a new one. -/
theorem getSession_cases (s : SessionClient) (force : Bool) (now : ℤ) :
    (∃ session, force = false ∧ s.session = some ((s.getSession force now).1, session) ∧
        (s.getSession force now).2 = s) ∨
      (s.sessionPromise = some (s.getSession force now).1 ∧ (s.getSession force now).2 = s) ∨
      s.sessionPromise = none ∧ s.getSession force now = (s.exchanges.length,
        { s with
          sessionPromise := some s.exchanges.length
          exchanges := s.exchanges ++ [.running] }) := by
  unfold getSession
  split
  · next exchange session hk =>
    obtain ⟨hsess, hfr⟩ := filter_eq_some_iff.mp hk
    rw [Bool.and_eq_true] at hfr
    exact .inl ⟨session, by simpa using hfr.1, hsess, rfl⟩
  · split
    · next exchange hprom => exact .inr (.inl ⟨hprom, rfl⟩)
    · next hprom => exact .inr (.inr ⟨hprom, rfl⟩)

theorem InFlight.not_ended (h : s.InFlight e) : ¬ s.Ended e := by
  rintro ⟨session, he⟩
  rcases h with h | ⟨_, h⟩ <;> cases h.symm.trans he

theorem length_le_of_idle (hidle : ∀ e, ¬ s.InFlight e) (h : ¬ s.Ended e) :
    s.exchanges.length ≤ e := by
  by_contra hle
  have hlt := Nat.lt_of_not_le hle
  have hph := getElem?_eq_getElem hlt
  cases hcase : s.exchanges[e] with rw [hcase] at hph
  | running => exact hidle e (.inl hph)
  | returned session => exact hidle e (.inr ⟨session, hph⟩)
  | ended session => exact h ⟨session, hph⟩

/-- What has ended stays so. -/
theorem ended_next (h : s.Ended e) (event : SessionEvent) : (s.next event).Ended e := by
  obtain ⟨session, h⟩ := h
  refine ⟨session, ?_⟩
  have hset : ∀ {i phase}, s.exchanges[i]? ≠ some (.ended session) →
      (s.exchanges.set i phase)[e]? = some (.ended session) := by
    intro i phase hi
    have hne : i ≠ e := by
      rintro rfl
      exact hi h
    rwa [getElem?_set_ne hne]
  cases event with
  | getSession force now =>
    rcases s.getSession_cases force now with ⟨_, -, -, hs⟩ | ⟨-, hs⟩ | ⟨-, hnew⟩
    · rwa [SessionClient.next, hs]
    · rwa [SessionClient.next, hs]
    · rw [SessionClient.next, hnew]
      exact (List.getElem?_append_left (List.getElem?_eq_some_iff.mp h).1).trans h
  | invalidateSession => exact h
  | returns i session' =>
    rw [SessionClient.next]
    split
    · next hi => exact hset fun he => by cases hi.symm.trans he
    · exact h
  | settles i =>
    rw [SessionClient.next]
    split
    · next hi => exact hset fun he => by cases hi.symm.trans he
    · exact h

theorem inv_getSession (h : s.Inv) (force : Bool) (now : ℤ) : (s.getSession force now).2.Inv := by
  rcases s.getSession_cases force now with ⟨_, -, -, hs⟩ | ⟨-, hs⟩ | ⟨hprom, hnew⟩
  · rwa [hs]
  · rwa [hs]
  have hn : ∀ e, ¬ s.InFlight e := fun e he => by cases hprom.symm.trans ((h.promise e).mp he)
  rw [hnew]
  refine ⟨?_, ?_⟩
  · intro e
    rw [some_inj]
    constructor
    · intro ho
      by_contra hne
      refine hn e ?_
      have hold : ∀ phase, (s.exchanges ++ [.running])[e]? = some phase →
          s.exchanges[e]? = some phase := by
        intro phase hph
        rcases getElem?_append_one hph with hph | ⟨heq, -⟩
        · exact hph
        · exact absurd heq.symm hne
      exact ho.imp (hold _) fun ⟨session, hph⟩ => ⟨session, hold _ hph⟩
    · rintro rfl
      exact .inl getElem?_concat_length
  · intro e session hsess
    have hk := h.kept e session hsess
    have hlt : e < s.exchanges.length := by
      rcases hk with hph | hph
      all_goals exact (List.getElem?_eq_some_iff.mp hph).1
    rwa [List.getElem?_append_left hlt]

theorem inv_returns (h : s.Inv) {i : ℕ} (hi : s.exchanges[i]? = some .running)
    (session : Option DeviceSession) : Inv
      { s with
        session := (session.map (i, ·)).or s.session
        exchanges := s.exchanges.set i (.returned session) } := by
  have hs := List.getElem?_set_self (a := ExchangePhase.returned session)
    (List.getElem?_eq_some_iff.mp hi).1
  refine ⟨?_, ?_⟩
  · intro e
    rw [← h.promise]
    by_cases hei : e = i
    · subst hei
      exact ⟨fun _ => .inl hi, fun _ => .inr ⟨session, hs⟩⟩
    · rw [InFlight, getElem?_set_ne (Ne.symm hei), InFlight]
  · intro e kept hk
    rcases or_eq_some_iff.mp hk with hnew | ⟨-, hold⟩
    · obtain ⟨_, rfl, heq⟩ := map_eq_some_iff.mp hnew
      cases heq
      exact .inl hs
    · have hph := h.kept e kept hold
      have hei : i ≠ e := by
        rintro rfl
        rw [hi] at hph
        rcases hph with hph | hph <;> cases hph
      rwa [getElem?_set_ne hei]

theorem inv_settles (h : s.Inv) {i : ℕ} {session : Option DeviceSession}
    (hi : s.exchanges[i]? = some (.returned session)) : Inv
      { s with sessionPromise := none, exchanges := s.exchanges.set i (.ended session) } := by
  have hs := List.getElem?_set_self (a := ExchangePhase.ended session)
    (List.getElem?_eq_some_iff.mp hi).1
  have hprom := (h.promise i).mp (.inr ⟨session, hi⟩)
  refine ⟨?_, ?_⟩
  · intro e
    refine ⟨fun ho => absurd ho ?_, nofun⟩
    by_cases hei : e = i
    · subst hei
      exact fun ho => ho.not_ended ⟨session, hs⟩
    · rw [InFlight, getElem?_set_ne (Ne.symm hei), ← InFlight, h.promise, hprom]
      exact fun heq => hei (some.inj heq).symm
  · intro e kept hk
    have hph := h.kept e kept hk
    by_cases hei : i = e
    · subst hei
      rw [hi] at hph
      rcases hph with hph | hph <;> cases hph
      exact .inr hs
    · rwa [getElem?_set_ne hei]

theorem inv_next (h : s.Inv) (event : SessionEvent) : (s.next event).Inv := by
  cases event with
  | getSession force now => exact inv_getSession h force now
  | invalidateSession => exact ⟨h.promise, nofun⟩
  | returns i session =>
    rw [next]
    split
    · next hi => exact inv_returns h hi session
    · exact h
  | settles i =>
    rw [next]
    split
    · next session hi => exact inv_settles h hi
    · exact h

theorem inv_sessionAt (events : List SessionEvent) (n : ℕ) : (sessionAt events n).Inv := by
  refine stateAt_invariant (P := Inv) ⟨?_, ?_⟩ (fun _ event h => inv_next h event) n
  · exact fun e => ⟨nofun, nofun⟩
  · exact nofun

theorem ended_le {m n : ℕ} (hmn : m ≤ n) (h : (sessionAt events m).Ended e) :
    (sessionAt events n).Ended e :=
  stateAt_from (P := fun s => Ended s e) hmn h fun _ event _ _ ih => ended_next ih event

/-- The session that a step leaves is an old one, or that of an exchange in flight. -/
theorem session_next {event : SessionEvent} {session : DeviceSession}
    (hsess : (s.next event).session = some (e, session)) :
    s.session = some (e, session) ∨ ¬ s.Ended e := by
  cases event with
  | getSession force now =>
    left
    rcases s.getSession_cases force now with ⟨_, -, -, hs⟩ | ⟨-, hs⟩ | ⟨-, hnew⟩
    · rwa [next, hs] at hsess
    · rwa [next, hs] at hsess
    · rwa [next, hnew] at hsess
  | invalidateSession => cases hsess
  | returns i result =>
    rw [next] at hsess
    split at hsess
    · next hi =>
      rcases or_eq_some_iff.mp hsess with hnew | ⟨-, hold⟩
      · obtain ⟨_, -, heq⟩ := map_eq_some_iff.mp hnew
        cases heq
        exact .inr (InFlight.not_ended (.inl hi))
      · exact .inl hold
    · exact .inl hsess
  | settles i =>
    rw [next] at hsess
    split at hsess
    all_goals exact .inl hsess

/-- After an invalidation no session is kept whose exchange had ended before it. -/
theorem kept_after {m n : ℕ} (hmn : m < n) (hev : events[m]? = some .invalidateSession)
    {session : DeviceSession} (hsess : (sessionAt events n).session = some (e, session)) :
    ¬ (sessionAt events m).Ended e := by
  refine stateAt_from (P := fun s : SessionClient => ∀ session, s.session = some (e, session) →
    ¬ (sessionAt events m).Ended e) (Nat.succ_le_of_lt hmn) ?_ ?_ session hsess
  · rw [stateAt_succ hev]
    exact nofun
  · intro k event hmk _ ih session hsess
    rcases session_next hsess with hold | ho
    · exact ih session hold
    · exact fun h => ho (ended_le (Nat.le_of_succ_le hmk) h)

/-- In every run, after every number of steps. -/
theorem sessions_answer_fresh (events : List SessionEvent) (n : ℕ) : AnswersFresh events n := by
  have h := inv_sessionAt events n
  have ho : ∀ e, (sessionAt events n).sessionPromise = some e → ¬ (sessionAt events n).Ended e :=
    fun e he => ((h.promise e).mpr he).not_ended
  have hnew : ¬ (sessionAt events n).Ended (sessionAt events n).exchanges.length := by
    rintro ⟨session, hen⟩
    exact absurd (List.getElem?_eq_some_iff.mp hen).1 (Nat.lt_irrefl _)
  have hinv : ∀ m < n, events[m]? = some .invalidateSession → ∀ force now,
      ¬ (sessionAt events m).Ended ((sessionAt events n).getSession force now).1 := by
    intro m hmn hev force now hen
    rcases (sessionAt events n).getSession_cases force now with
      ⟨session, -, hk, -⟩ | ⟨hprom, -⟩ | ⟨-, heq⟩
    · exact kept_after hmn hev hk hen
    · exact ho _ hprom (ended_le hmn.le hen)
    · rw [heq] at hen
      exact hnew (ended_le hmn.le hen)
  refine ⟨?_, hinv, ?_, ?_, ?_, ?_, h.kept⟩
  · intro e e' he he'
    exact some.inj (((h.promise e).mp he).symm.trans ((h.promise e').mp he'))
  · intro m hmn hev hidle force now
    exact length_le_of_idle hidle (hinv m hmn hev force now)
  · intro now
    rcases (sessionAt events n).getSession_cases true now with
      ⟨session, hforce, -, -⟩ | ⟨hprom, -⟩ | ⟨-, heq⟩
    · cases hforce
    · exact ho _ hprom
    · rwa [heq]
  · intro now
    rcases (sessionAt events n).getSession_cases true now with
      ⟨session, hforce, -, -⟩ | ⟨hprom, -⟩ | ⟨-, heq⟩
    · cases hforce
    · exact .inl ((h.promise _).mpr hprom)
    · rw [heq]
      exact .inr rfl
  · intro force now hfailed
    rcases (sessionAt events n).getSession_cases force now with
      ⟨session, -, hk, -⟩ | ⟨hprom, -⟩ | ⟨-, heq⟩
    · have hph := h.kept _ session hk
      rw [hfailed] at hph
      rcases hph with hph | hph <;> cases hph
    · exact ho _ hprom ⟨none, hfailed⟩
    · rw [heq] at hfailed
      exact hnew ⟨none, hfailed⟩

/-- A forced call joins an exchange that was started before it. -/
theorem forced_call_joins : ¬ ∀ events n now, events[n]? = some (.getSession true now) →
    (sessionAt events n).exchanges.length ≤ ((sessionAt events n).getSession true now).1 :=
  fun h => absurd (h [.getSession false 0, .getSession true 0] 1 0 rfl) (by decide)

end SessionClient

end Kaos.Sync
