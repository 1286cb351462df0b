import Mathlib
import Kaos.Lib.Window

/-! The trace budget of a room: calls within a sliding window, and the count of those turned away. -/
namespace Kaos.Server

open Kaos.Lib List

structure TraceRateLimiter where
  maxPerWindow : ℕ
  windowMs : ℚ
  admitted : List ℚ := []
  dropped : ℕ := 0

namespace TraceRateLimiter

variable (limiter : TraceRateLimiter) (now : ℚ)

def compactWindow : TraceRateLimiter :=
  { limiter with admitted := limiter.admitted.dropWhile (· < now - limiter.windowMs) }

def tryAdmit : TraceRateLimiter × Bool :=
  let compacted := limiter.compactWindow now
  if compacted.maxPerWindow ≤ compacted.admitted.length then
    ({ compacted with dropped := compacted.dropped + 1 }, false)
  else ({ compacted with admitted := compacted.admitted ++ [now] }, true)

def drainDropped : TraceRateLimiter × ℕ := ({ limiter with dropped := 0 }, limiter.dropped)

end TraceRateLimiter

inductive LimiterCall
  | tryAdmit (now : ℚ)
  | drainDropped

def LimiterCall.time : LimiterCall → Option ℚ
  | .tryAdmit now => some now
  | .drainDropped => none

/-- The limiter, with the times it was asked at and what it answered. -/
structure LimiterRun where
  limiter : TraceRateLimiter
  answers : List (ℚ × Bool) := []
  drained : List ℕ := []

namespace LimiterRun

def next (run : LimiterRun) : LimiterCall → LimiterRun
  | .tryAdmit now =>
    let (limiter, admitted) := run.limiter.tryAdmit now
    { run with limiter := limiter, answers := run.answers ++ [(now, admitted)] }
  | .drainDropped =>
    let (limiter, count) := run.limiter.drainDropped
    { run with limiter := limiter, drained := run.drained ++ [count] }

def after (maxPerWindow : ℕ) (windowMs : ℚ) (calls : List LimiterCall) : LimiterRun :=
  calls.foldl next { limiter := { maxPerWindow, windowMs } }

def admittedTimes (run : LimiterRun) : List ℚ := (run.answers.filter (·.2)).map (·.1)

def rejectedTimes (run : LimiterRun) : List ℚ := (run.answers.filter (! ·.2)).map (·.1)

/-- What was admitted in the window is in the queue; what left the queue was out of some window. -/
structure Windowed (maxPerWindow : ℕ) (windowMs : ℚ) (run : LimiterRun) : Prop where
  capacity : run.limiter.maxPerWindow = maxPerWindow
  duration : run.limiter.windowMs = windowMs
  queued : ∃ old, run.admittedTimes = old ++ run.limiter.admitted ∧
    ∀ time ∈ old, ∃ answer ∈ run.answers, time < answer.1 - windowMs
  sorted : run.admittedTimes.Pairwise (· ≤ ·)
  length : run.limiter.admitted.length ≤ maxPerWindow
  window : ∀ start, (run.admittedTimes.filter
    fun time => start ≤ time ∧ time ≤ start + windowMs).length ≤ maxPerWindow
  drops : run.rejectedTimes.length = run.drained.sum + run.limiter.dropped

variable {maxPerWindow : ℕ} {windowMs : ℚ} {run : LimiterRun} {now : ℚ}

theorem windowed_initial : Windowed maxPerWindow windowMs { limiter := { maxPerWindow, windowMs } } where
  capacity := rfl
  duration := rfl
  queued := ⟨[], rfl, by simp⟩
  sorted := .nil
  length := Nat.zero_le _
  window := fun _ => Nat.zero_le _
  drops := rfl

theorem mem_admittedTimes {time : ℚ} (h : time ∈ run.admittedTimes) :
    ∃ answer ∈ run.answers, answer.1 = time := by
  obtain ⟨answer, hans, rfl⟩ := mem_map.mp h
  exact ⟨answer, (mem_filter.mp hans).1, rfl⟩

section

variable (h : Windowed maxPerWindow windowMs run) (hlast : ∀ answer ∈ run.answers, answer.1 ≤ now)
include h hlast

/-- After the queue is compacted it has the admitted times of the window that ends now. -/
theorem Windowed.compact :
    ∃ old, run.admittedTimes = old ++ (run.limiter.compactWindow now).admitted ∧
      (∀ time ∈ old, time < now - windowMs) ∧
      ∀ time ∈ (run.limiter.compactWindow now).admitted, now - windowMs ≤ time ∧ time ≤ now := by
  obtain ⟨old, hqueue, hold⟩ := h.queued
  have hsp := takeWhile_append_dropWhile (p := fun time : ℚ => time < now - windowMs)
    (l := run.limiter.admitted)
  refine ⟨old ++ run.limiter.admitted.takeWhile fun time => time < now - windowMs, ?_, ?_, ?_⟩
  · rw [TraceRateLimiter.compactWindow, h.duration, append_assoc, hsp, hqueue]
  · intro time htime
    rcases mem_append.mp htime with htime | htime
    · obtain ⟨answer, hans, hlt⟩ := hold time htime
      exact hlt.trans_le (sub_le_sub_right (hlast answer hans) windowMs)
    · simpa using mem_takeWhile_imp htime
  have hs := h.sorted
  rw [hqueue, pairwise_append] at hs
  intro time htime
  rw [TraceRateLimiter.compactWindow, h.duration] at htime
  have hmem : time ∈ run.limiter.admitted := dropWhile_sublist _ |>.mem htime
  constructor
  · cases hdrop : run.limiter.admitted.dropWhile fun time => time < now - windowMs with
    | nil =>
      rw [hdrop] at htime
      cases htime
    | cons first rest =>
      have hf : ¬ first < now - windowMs := by
        have := head_dropWhile_not (fun time : ℚ => decide (time < now - windowMs))
          (l := run.limiter.admitted) (by rw [hdrop]; exact cons_ne_nil _ _)
        simpa [hdrop] using this
      have hr := hs.2.1.sublist (dropWhile_sublist (fun time : ℚ => decide (time < now - windowMs)))
      rw [hdrop] at htime hr
      rcases mem_cons.mp htime with rfl | htime
      · exact not_lt.mp hf
      · exact (not_lt.mp hf).trans ((pairwise_cons.mp hr).1 time htime)
  · obtain ⟨answer, hans, rfl⟩ := mem_admittedTimes
      (hqueue ▸ mem_append_right old hmem : time ∈ run.admittedTimes)
    exact hlast answer hans

theorem Windowed.tryAdmit : Windowed maxPerWindow windowMs (run.next (.tryAdmit now)) := by
  obtain ⟨old, hqueue, hold, hin⟩ := h.compact hlast
  have hshort : (run.limiter.compactWindow now).admitted.length ≤ maxPerWindow :=
    (dropWhile_sublist _).length_le.trans h.length
  have hcap : (run.limiter.compactWindow now).maxPerWindow = maxPerWindow := h.capacity
  by_cases hfull : maxPerWindow ≤ (run.limiter.compactWindow now).admitted.length
  · have hadm : run.limiter.tryAdmit now =
        ({ run.limiter.compactWindow now with dropped := run.limiter.dropped + 1 }, false) :=
      if_pos (hcap ▸ hfull)
    have htimes : (run.next (.tryAdmit now)).admittedTimes = run.admittedTimes := by
      simp [next, hadm, admittedTimes]
    have hrej : (run.next (.tryAdmit now)).rejectedTimes = run.rejectedTimes ++ [now] := by
      simp [next, hadm, rejectedTimes]
    constructor
    · rw [next, hadm]
      exact h.capacity
    · rw [next, hadm]
      exact h.duration
    · rw [htimes, next, hadm]
      exact ⟨old, hqueue, fun time htime => ⟨(now, false), by simp, hold time htime⟩⟩
    · rw [htimes]
      exact h.sorted
    · rw [next, hadm]
      exact hshort
    · rw [htimes]
      exact h.window
    rw [hrej, next, hadm, length_append, h.drops]
    exact Nat.add_assoc _ _ _
  have hadm : run.limiter.tryAdmit now = ({ run.limiter.compactWindow now with
      admitted := (run.limiter.compactWindow now).admitted ++ [now] }, true) :=
    if_neg (hcap ▸ hfull)
  have htimes : (run.next (.tryAdmit now)).admittedTimes = run.admittedTimes ++ [now] := by
    simp [next, hadm, admittedTimes]
  have hrej : (run.next (.tryAdmit now)).rejectedTimes = run.rejectedTimes := by
    simp [next, hadm, rejectedTimes]
  constructor
  · rw [next, hadm]
    exact h.capacity
  · rw [next, hadm]
    exact h.duration
  · rw [htimes, next, hadm]
    refine ⟨old, ?_, fun time htime => ⟨(now, true), by simp, hold time htime⟩⟩
    rw [hqueue, append_assoc]
  · rw [htimes, pairwise_append]
    refine ⟨h.sorted, pairwise_singleton _ _, ?_⟩
    intro time htime last hmem
    rw [mem_singleton.mp hmem]
    obtain ⟨answer, hans, rfl⟩ := mem_admittedTimes htime
    exact hlast answer hans
  · rw [next, hadm, length_append]
    exact Nat.lt_of_not_le hfull
  · intro start
    rw [htimes, filter_append, length_append]
    by_cases hnow : start ≤ now ∧ now ≤ start + windowMs
    · -- the window reaches now, so nothing older than the queue is in it
      have hst : now - windowMs ≤ start := sub_le_iff_le_add.mpr hnow.2
      have hn : (old.filter fun time => start ≤ time ∧ time ≤ start + windowMs) = [] := by
        rw [filter_eq_nil_iff]
        intro time htime
        have hlt := (hold time htime).trans_le hst
        simp [hlt]
      rw [hqueue, filter_append, hn, nil_append]
      have hle := length_filter_le (fun time : ℚ => decide (start ≤ time ∧
        time ≤ start + windowMs)) (run.limiter.compactWindow now).admitted
      have hone := length_filter_le (fun time : ℚ => decide (start ≤ time ∧
        time ≤ start + windowMs)) [now]
      rw [length_singleton] at hone
      omega
    have hn : ([now].filter fun time => start ≤ time ∧ time ≤ start + windowMs) = [] := by
      simp [hnow]
    rw [hn]
    exact h.window start
  · rw [hrej, next, hadm]
    exact h.drops

end

theorem Windowed.drainDropped (h : Windowed maxPerWindow windowMs run) :
    Windowed maxPerWindow windowMs (run.next .drainDropped) where
  capacity := h.capacity
  duration := h.duration
  queued := h.queued
  sorted := h.sorted
  length := h.length
  window := h.window
  drops := by
    change run.rejectedTimes.length = (run.drained ++ [run.limiter.dropped]).sum + 0
    rw [h.drops, sum_append, sum_singleton, Nat.add_zero]

/-- The clock never goes back between two calls. -/
def NonDecreasing (calls : List LimiterCall) : Prop :=
  (calls.filterMap LimiterCall.time).Pairwise (· ≤ ·)

instance (calls : List LimiterCall) : Decidable (NonDecreasing calls) :=
  inferInstanceAs (Decidable (List.Pairwise _ _))

theorem answers_after (maxPerWindow : ℕ) (windowMs : ℚ) (calls : List LimiterCall) :
    (after maxPerWindow windowMs calls).answers.map (·.1) = calls.filterMap LimiterCall.time := by
  induction calls using List.reverseRecOn with
  | nil => rfl
  | append_singleton calls call ih =>
    rw [after, foldl_append] at *
    cases call with
    | tryAdmit now | drainDropped => simp [next, ih, LimiterCall.time]

theorem le_of_nonDecreasing {calls : List LimiterCall} (h : NonDecreasing (calls ++ [.tryAdmit now]))
    (answer : ℚ × Bool) (hmem : answer ∈ (after maxPerWindow windowMs calls).answers) :
    answer.1 ≤ now := by
  rw [NonDecreasing, filterMap_append, pairwise_append] at h
  refine h.2.2 answer.1 ?_ now (mem_singleton_self _)
  rw [← answers_after maxPerWindow windowMs]
  exact mem_map_of_mem hmem

theorem windowed_after (maxPerWindow : ℕ) (windowMs : ℚ) (calls : List LimiterCall)
    (h : NonDecreasing calls) :
    Windowed maxPerWindow windowMs (after maxPerWindow windowMs calls) := by
  induction calls using List.reverseRecOn with
  | nil => exact windowed_initial
  | append_singleton calls call ih =>
    have hb : NonDecreasing calls := by
      rw [NonDecreasing, filterMap_append] at h
      exact h.sublist (sublist_append_left _ _)
    rw [after, foldl_append]
    cases call with
    | tryAdmit now => exact (ih hb).tryAdmit (le_of_nonDecreasing h)
    | drainDropped => exact (ih hb).drainDropped

/-- What holds after the calls: of every window, of the calls that were turned away and of their
count. -/
structure BudgetKept (maxPerWindow : ℕ) (windowMs : ℚ) (calls : List LimiterCall) : Prop where
  window : ∀ start, ((after maxPerWindow windowMs calls).admittedTimes.filter
    fun time => start ≤ time ∧ time ≤ start + windowMs).length ≤ maxPerWindow
  rejected : ∀ before now rest, calls = before ++ .tryAdmit now :: rest →
    ((after maxPerWindow windowMs before).limiter.tryAdmit now).2 = false →
    let recent := (after maxPerWindow windowMs before).admittedTimes.rtake maxPerWindow
    recent.length = maxPerWindow ∧ ∀ time ∈ recent, now - windowMs ≤ time ∧ time ≤ now
  counted : (after maxPerWindow windowMs calls).rejectedTimes.length =
    (after maxPerWindow windowMs calls).drained.sum +
      (after maxPerWindow windowMs calls).limiter.dropped

theorem budgetKept (maxPerWindow : ℕ) (windowMs : ℚ) (calls : List LimiterCall)
    (h : NonDecreasing calls) : BudgetKept maxPerWindow windowMs calls := by
  have ha := windowed_after maxPerWindow windowMs calls h
  refine ⟨ha.window, ?_, ha.drops⟩
  intro before now rest hc hrej
  have hfront : NonDecreasing (before ++ [.tryAdmit now]) := by
    rw [hc, show before ++ .tryAdmit now :: rest = before ++ [.tryAdmit now] ++ rest by simp,
      NonDecreasing, filterMap_append] at h
    exact h.sublist (sublist_append_left _ _)
  have hb : NonDecreasing before := by
    rw [NonDecreasing, filterMap_append] at hfront
    exact hfront.sublist (sublist_append_left _ _)
  have hrun := windowed_after maxPerWindow windowMs before hb
  obtain ⟨old, hqueue, -, hin⟩ := hrun.compact (le_of_nonDecreasing hfront)
  have hfull : maxPerWindow ≤
      ((after maxPerWindow windowMs before).limiter.compactWindow now).admitted.length := by
    by_contra hnot
    rw [TraceRateLimiter.tryAdmit, if_neg (by rwa [show
      ((after maxPerWindow windowMs before).limiter.compactWindow now).maxPerWindow = maxPerWindow
        from hrun.capacity])] at hrej
    cases hrej
  have hlen : ((after maxPerWindow windowMs before).limiter.compactWindow now).admitted.length =
      maxPerWindow :=
    Nat.le_antisymm ((dropWhile_sublist _).length_le.trans hrun.length) hfull
  rw [hqueue, rtake_append_of_le hfull, rtake_of_length_le hlen.le]
  exact ⟨hlen, hin⟩

/-- Five calls at the end and at the start of windows, two of them turned away. -/
theorem budgetKept_boundary : BudgetKept 2 10
    [.tryAdmit 0, .tryAdmit 10, .tryAdmit 10, .drainDropped, .tryAdmit 11, .tryAdmit 20] :=
  budgetKept 2 10 _ (by decide)

end LimiterRun

end Kaos.Server
