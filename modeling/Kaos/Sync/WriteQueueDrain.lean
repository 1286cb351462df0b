import Kaos.Lib.OrderedMap
import Kaos.Lib.Run
import Kaos.Lib.JsString

/-! The disk mirror's write queue: a loop that flushes it in batches, and the microtasks in which the
loop ends and its promise is cleared. -/
namespace Kaos.Sync

open Kaos.Lib List Option

def MAX_CONCURRENT_WRITES : ℕ := 5

def BURST_THRESHOLD : ℕ := 20

/-- How far a call of `drain` is; a batch has the numbers of its calls of `flushWrite`. -/
inductive MirrorDrainPhase
  | coolingDown
  | flushing (batch : List ℕ)
  | ended (rejected : Bool)
  | closed
  deriving DecidableEq

/-- What was done to a path: queued, given an admission, or handed to `flushWrite`. -/
inductive WriteQueueRecord (L : Type*)
  | queued (path : JsString) (force : Bool)
  | attached (path : JsString) (admission : L)
  | flushed (path : JsString) (force : Bool) (admission : Option L)

/-- A call of `flushWrite` is in progress, or has fulfilled or rejected. -/
structure WriteQueue (L : Type*) where
  writeQueue : List JsString := []
  forcedWritePaths : List JsString := []
  remoteProjectionWriteAdmissions : OrderedMap JsString L := .empty
  drainPromise : Option ℕ := none
  drains : List MirrorDrainPhase := []
  flushes : List (Option Bool) := []
  records : List (WriteQueueRecord L) := []

open WriteQueue

namespace WriteQueue

variable {L : Type*} (s : WriteQueue L)

/-- A path of the batch is handed to `flushWrite`, with what was attached to it. -/
def startFlush (s : WriteQueue L) (path : JsString) : WriteQueue L :=
  { s with
    forcedWritePaths := s.forcedWritePaths.filter (· ≠ path)
    remoteProjectionWriteAdmissions := s.remoteProjectionWriteAdmissions.delete path
    flushes := s.flushes ++ [none]
    records := s.records ++ [.flushed path (path ∈ s.forcedWritePaths)
      (s.remoteProjectionWriteAdmissions.get? path)] }

def takeBatch (drain : ℕ) : WriteQueue L :=
  let batch := s.writeQueue.take MAX_CONCURRENT_WRITES
  let started := batch.foldl startFlush
    { s with writeQueue := s.writeQueue.drop MAX_CONCURRENT_WRITES }
  { started with
    drains := started.drains.set drain
      (.flushing ((List.range batch.length).map (s.flushes.length + ·))) }

/-- The head of the loop, and what follows up to its next `await`. -/
def drainLoop (drain : ℕ) : WriteQueue L :=
  if s.writeQueue = [] then { s with drains := s.drains.set drain (.ended false) }
  else if BURST_THRESHOLD < s.writeQueue.length then
    { s with drains := s.drains.set drain .coolingDown }
  else s.takeBatch drain

def kickDrain : WriteQueue L :=
  match s.drainPromise with
  | some _ => s
  | none =>
    let drain := s.drains.length
    let looped := drainLoop { s with drains := s.drains ++ [.coolingDown] } drain
    { looped with drainPromise := some drain }

def queuePath (path : JsString) (force : Bool) : WriteQueue L :=
  { s with
    forcedWritePaths := if force then path :: s.forcedWritePaths else s.forcedWritePaths
    writeQueue := if path ∈ s.writeQueue then s.writeQueue else s.writeQueue ++ [path]
    records := s.records ++ [.queued path force] }

def enqueue (path : JsString) (force : Bool) : WriteQueue L := (s.queuePath path force).kickDrain

def attach (path : JsString) (admission : L) : WriteQueue L :=
  { s with
    remoteProjectionWriteAdmissions := s.remoteProjectionWriteAdmissions.set path admission
    records := s.records ++ [.attached path admission] }

end WriteQueue

/-- `cooled` is the timer of the burst pause, `resume` the loop after its batch, `reset` the
`finally`. -/
inductive WriteQueueEvent (L : Type*)
  | enqueue (path : JsString) (force : Bool)
  | attach (path : JsString) (admission : L)
  | settle (flush : ℕ) (rejected : Bool)
  | cooled (drain : ℕ)
  | resume (drain : ℕ)
  | reset (drain : ℕ)

namespace WriteQueue

variable {L : Type*}

def rejects (s : WriteQueue L) (batch : List ℕ) : Bool :=
  batch.any fun flush => s.flushes[flush]? = some (some true)

def fulfils (s : WriteQueue L) (batch : List ℕ) : Bool :=
  batch.all fun flush => s.flushes[flush]? = some (some false)

def next (s : WriteQueue L) : WriteQueueEvent L → WriteQueue L
  | .enqueue path force => s.enqueue path force
  | .attach path admission => s.attach path admission
  | .settle flush rejected =>
    if s.flushes[flush]? = some none then
      { s with flushes := s.flushes.set flush (some rejected) }
    else s
  | .cooled drain =>
    match s.drains[drain]? with
    | some .coolingDown => s.takeBatch drain
    | _ => s
  | .resume drain =>
    match s.drains[drain]? with
    | some (.flushing batch) =>
      if s.rejects batch then { s with drains := s.drains.set drain (.ended true) }
      else if s.fulfils batch then s.drainLoop drain
      else s
    | _ => s
  | .reset drain =>
    match s.drains[drain]? with
    | some (.ended _) => { s with drains := s.drains.set drain .closed, drainPromise := none }
    | _ => s

/-- What is due to a path: a flush, by force or not, under an admission. -/
structure PathDue (L : Type*) where
  queued : Bool := false
  force : Bool := false
  admission : Option L := none

/-- What a record leaves due to the path; a flush takes everything. -/
def dueNext (path : JsString) (due : PathDue L) : WriteQueueRecord L → PathDue L
  | .queued other force =>
    if other = path then { due with queued := true, force := force || due.force } else due
  | .attached other admission => if other = path then { due with admission := some admission } else due
  | .flushed other _ _ => if other = path then {} else due

def due (records : List (WriteQueueRecord L)) (path : JsString) : PathDue L :=
  records.foldl (dueNext path) {}

/-- No path is stranded, and each flush is called with what was due to its path and nothing else. -/
structure StrandsNone (s : WriteQueue L) : Prop where
  idle : (∀ phase ∈ s.drains, phase = .closed) →
    s.writeQueue = [] ∧ ∀ path, (due s.records path).queued = false
  passed : ∀ before path force admission after,
    s.records = before ++ .flushed path force admission :: after →
    force = (due before path).force ∧ admission = (due before path).admission

/-- Nothing is queued between the end of the loop and the reset of its promise, and a rejection
finds nothing left in the queue. -/
def Undisturbed (s : WriteQueue L) : WriteQueueEvent L → Prop
  | .enqueue _ _ => ∀ drain rejected, s.drainPromise = some drain →
    s.drains[drain]? ≠ some (.ended rejected)
  | .resume drain => ∀ batch, s.drains[drain]? = some (.flushing batch) → s.rejects batch = true →
    s.writeQueue = []
  | _ => True

end WriteQueue

/-- The loop will look at the queue again, if no flush rejects. -/
def MirrorDrainPhase.looksAgain : MirrorDrainPhase → Bool
  | .coolingDown | .flushing _ => true
  | _ => false

namespace WriteQueue

variable {L : Type*} {s : WriteQueue L} {drain : ℕ} {old new : MirrorDrainPhase} {path : JsString}

/-- The containers have what is due to each path; `hand` is what the loop took from the queue. -/
structure Kept (hand : List JsString) (s : WriteQueue L) : Prop where
  nodup : (hand ++ s.writeQueue).Nodup
  due : ∀ path, due s.records path = {
    queued := path ∈ hand ++ s.writeQueue
    force := path ∈ s.forcedWritePaths
    admission := s.remoteProjectionWriteAdmissions.get? path }
  passed : ∀ before path force admission after,
    s.records = before ++ .flushed path force admission :: after →
    force = (WriteQueue.due before path).force ∧ admission = (WriteQueue.due before path).admission

theorem due_concat (records : List (WriteQueueRecord L)) (record : WriteQueueRecord L) :
    due (records ++ [record]) path = dueNext path (due records path) record := by
  rw [due, due, foldl_append]
  rfl

/-- A record at the end of the log that is no flush keeps what is known of the flushes. -/
theorem passed_concat {records : List (WriteQueueRecord L)} {record : WriteQueueRecord L}
    (h : ∀ before path force admission after,
      records = before ++ .flushed path force admission :: after →
      force = (due before path).force ∧ admission = (due before path).admission)
    (hr : ∀ path force admission, record = .flushed path force admission →
      force = (due records path).force ∧ admission = (due records path).admission)
    (before : List (WriteQueueRecord L)) (path : JsString) (force : Bool) (admission : Option L)
    (after : List (WriteQueueRecord L))
    (heq : records ++ [record] = before ++ .flushed path force admission :: after) :
    force = (due before path).force ∧ admission = (due before path).admission := by
  rcases eq_nil_or_concat after with rfl | ⟨after, last, rfl⟩
  · obtain ⟨rfl, hl⟩ := append_inj' heq rfl
    exact hr path force admission (singleton_inj.mp hl)
  rw [concat_eq_append, ← cons_append, ← append_assoc] at heq
  exact h before path force admission after (append_inj' heq rfl).1

variable {hand : List JsString}

theorem Kept.startFlush (h : Kept (path :: hand) s) : Kept hand (s.startFlush path) := by
  have hnd := h.nodup
  rw [cons_append, nodup_cons] at hnd
  refine ⟨hnd.2, ?_, ?_⟩
  · intro other
    rw [WriteQueue.startFlush, due_concat, h.due, dueNext]
    by_cases heq : path = other
    · subst heq
      simp only [if_pos, mem_filter, OrderedMap.get?_delete_self]
      simp [hnd.1]
    have hne : other ≠ path := Ne.symm heq
    simp [heq, hne, OrderedMap.get?_delete_of_ne hne]
  refine passed_concat h.passed ?_
  intro other force admission hr
  cases hr
  rw [h.due]
  exact ⟨rfl, rfl⟩

theorem Kept.foldl_startFlush (h : Kept hand s) : Kept [] (hand.foldl WriteQueue.startFlush s) := by
  induction hand generalizing s with
  | nil => exact h
  | cons path hand ih => exact ih h.startFlush

/-- Starting flushes leaves the queue and the loop alone. -/
theorem foldl_startFlush (hand : List JsString) (s : WriteQueue L) :
    (hand.foldl startFlush s).writeQueue = s.writeQueue ∧
    (hand.foldl startFlush s).drains = s.drains ∧
    (hand.foldl startFlush s).drainPromise = s.drainPromise := by
  induction hand generalizing s with
  | nil => exact ⟨rfl, rfl, rfl⟩
  | cons path hand ih => exact ih (s.startFlush path)

theorem Kept.takeBatch (h : Kept [] s) (drain : ℕ) : Kept [] (s.takeBatch drain) := by
  have hhand : Kept (s.writeQueue.take MAX_CONCURRENT_WRITES)
      { s with writeQueue := s.writeQueue.drop MAX_CONCURRENT_WRITES } := by
    refine ⟨?_, ?_, h.passed⟩
    · rw [take_append_drop]
      exact h.nodup
    intro path
    rw [take_append_drop]
    exact h.due path
  have hfold := hhand.foldl_startFlush
  exact ⟨hfold.nodup, hfold.due, hfold.passed⟩

theorem Kept.drainLoop (h : Kept [] s) (drain : ℕ) : Kept [] (s.drainLoop drain) := by
  unfold WriteQueue.drainLoop
  split
  · exact ⟨h.nodup, h.due, h.passed⟩
  split
  · exact ⟨h.nodup, h.due, h.passed⟩
  · exact h.takeBatch drain

/-- The loop goes on to one phase, which looks again at what is left in the queue. -/
structure GoesOn (s t : WriteQueue L) (drain : ℕ) (new : MirrorDrainPhase) : Prop where
  drains : t.drains = s.drains.set drain new
  drainPromise : t.drainPromise = s.drainPromise
  running : new ≠ .closed
  looks : t.writeQueue ≠ [] → new.looksAgain = true

theorem goesOn_takeBatch (s : WriteQueue L) (drain : ℕ) :
    ∃ new, GoesOn s (s.takeBatch drain) drain new := by
  obtain ⟨-, hdrains, hprom⟩ := foldl_startFlush (s.writeQueue.take MAX_CONCURRENT_WRITES)
    { s with writeQueue := s.writeQueue.drop MAX_CONCURRENT_WRITES }
  exact ⟨.flushing _, congrArg (List.set · drain _) hdrains, hprom, fun h => (by cases h),
    fun _ => rfl⟩

theorem goesOn_drainLoop (s : WriteQueue L) (drain : ℕ) :
    ∃ new, GoesOn s (s.drainLoop drain) drain new := by
  unfold drainLoop
  split
  · rename_i he
    exact ⟨.ended false, rfl, rfl, fun h => (by cases h), fun hne => absurd he hne⟩
  split
  · exact ⟨.coolingDown, rfl, rfl, fun h => (by cases h), fun _ => rfl⟩
  · exact goesOn_takeBatch s drain

structure Sound (s : WriteQueue L) : Prop where
  kept : Kept [] s
  ended : ∀ drain phase, s.drains[drain]? = some phase → s.drainPromise = some drain ∨ phase = .closed
  flying : ∀ drain, s.drainPromise = some drain →
    ∃ phase, s.drains[drain]? = some phase ∧ phase ≠ .closed
  waiting : s.writeQueue ≠ [] → ∃ drain phase, s.drainPromise = some drain ∧
    s.drains[drain]? = some phase ∧ phase.looksAgain = true

/-- The call of `drain` that runs goes on. -/
theorem Sound.goesOn (h : Sound s) {t : WriteQueue L} (hk : Kept [] t)
    (hrun : s.drains[drain]? = some old) (hin : s.drainPromise = some drain)
    (hn : GoesOn s t drain new) : Sound t := by
  have hset : t.drains[drain]? = some new := by
    rw [hn.drains]
    exact List.getElem?_set_self (List.getElem?_eq_some_iff.mp hrun).1
  refine ⟨hk, ?_, ?_, ?_⟩
  · intro i phase hi
    rw [hn.drains] at hi
    rw [hn.drainPromise]
    rcases getElem?_set_cases hi with ⟨-, hi⟩ | ⟨rfl, -⟩
    · exact h.ended i phase hi
    · exact .inl hin
  · intro i hi
    rw [hn.drainPromise, hin, some_inj] at hi
    subst hi
    exact ⟨new, hset, hn.running⟩
  intro hne
  exact ⟨drain, new, hn.drainPromise.trans hin, hset, hn.looks hne⟩

theorem Sound.eq_of_running (h : Sound s) (hrun : s.drains[drain]? = some old)
    (hnot : old ≠ .closed) : s.drainPromise = some drain :=
  (h.ended drain old hrun).resolve_right hnot

theorem sound_initial : Sound ({} : WriteQueue L) where
  kept := ⟨nodup_nil, fun _ => rfl, fun before path force admission after h => by simp at h⟩
  ended := fun drain phase h => by simp at h
  flying := nofun
  waiting := fun h => absurd rfl h

theorem Kept.queuePath (h : Kept [] s) (path : JsString) (force : Bool) :
    Kept [] (s.queuePath path force) := by
  unfold WriteQueue.queuePath
  constructor
  · have hnd : s.writeQueue.Nodup := h.nodup
    rw [nil_append]
    split
    · exact hnd
    · rename_i hnot
      rw [nodup_append]
      refine ⟨hnd, nodup_singleton path, ?_⟩
      rintro a ha b hb rfl
      exact hnot (mem_singleton.mp hb ▸ ha)
  · intro other
    have hqueue : (other ∈ if path ∈ s.writeQueue then s.writeQueue else s.writeQueue ++ [path]) ↔
        other ∈ s.writeQueue ∨ other = path := by
      split
      · rename_i hmem
        exact ⟨.inl, fun hor => hor.elim id fun heq => heq ▸ hmem⟩
      · rw [mem_append, mem_singleton]
    have hfor : (other ∈ if force then path :: s.forcedWritePaths else s.forcedWritePaths) ↔
        other ∈ s.forcedWritePaths ∨ force = true ∧ other = path := by
      cases force <;> simp [or_comm]
    rw [due_concat, h.due, dueNext]
    by_cases heq : path = other
    · subst heq
      simp only [nil_append, hqueue, hfor]
      cases force <;> simp
    have hne : other ≠ path := Ne.symm heq
    simp only [nil_append, hqueue, hfor]
    simp [heq, hne]
  · exact passed_concat h.passed (by rintro _ _ _ ⟨⟩)

theorem Kept.attach (h : Kept [] s) (path : JsString) (admission : L) :
    Kept [] (s.attach path admission) := by
  refine ⟨h.nodup, ?_, passed_concat h.passed nofun⟩
  intro other
  rw [WriteQueue.attach, due_concat, h.due, dueNext, OrderedMap.get?_set]
  by_cases heq : path = other
  · rw [if_pos heq, if_pos heq.symm]
  · rw [if_neg heq, if_neg (Ne.symm heq)]

/-- A call of `drain` that runs takes note of the queue; where none runs, a new one looks at it. -/
theorem Sound.enqueue (h : Sound s) (path : JsString) (force : Bool)
    (hq : Undisturbed s (.enqueue path force)) : Sound (s.enqueue path force) := by
  have hk := h.kept.queuePath path force
  unfold WriteQueue.enqueue
  have ho : ∀ drain phase, (s.queuePath path force).drains[drain]? = some phase →
      (s.queuePath path force).drainPromise = some drain ∨ phase = .closed := h.ended
  have hfly : ∀ drain, (s.queuePath path force).drainPromise = some drain →
      ∃ phase, (s.queuePath path force).drains[drain]? = some phase ∧ phase ≠ .closed := h.flying
  have hq' : ∀ drain rejected, (s.queuePath path force).drainPromise = some drain →
      (s.queuePath path force).drains[drain]? ≠ some (.ended rejected) := hq
  generalize s.queuePath path force = t at *
  cases hin : t.drainPromise with
  | some drain =>
    obtain ⟨phase, hph, hnot⟩ := hfly drain hin
    have hs : t.kickDrain = t := by rw [kickDrain, hin]
    rw [hs]
    refine ⟨hk, ho, hfly, ?_⟩
    intro _
    refine ⟨drain, phase, hin, hph, ?_⟩
    cases phase with
    | coolingDown | flushing batch => rfl
    | ended rejected => exact absurd hph (hq' drain rejected hin)
    | closed => exact absurd rfl hnot
  | none =>
    obtain ⟨new, hn⟩ := goesOn_drainLoop { t with drains := t.drains ++ [.coolingDown] }
      t.drains.length
    have hbegun : Kept [] { t with drains := t.drains ++ [.coolingDown] } :=
      ⟨hk.nodup, hk.due, hk.passed⟩
    have hloop := hbegun.drainLoop t.drains.length
    have hkick : t.kickDrain = { drainLoop { t with drains := t.drains ++ [.coolingDown] }
        t.drains.length with drainPromise := some t.drains.length } := by
      rw [kickDrain, hin]
    rw [hkick]
    generalize drainLoop { t with drains := t.drains ++ [.coolingDown] } t.drains.length = looped
      at hn hloop
    have hset : looped.drains[t.drains.length]? = some new := by
      rw [hn.drains]
      exact getElem?_set_self (by simp)
    refine ⟨⟨hloop.nodup, hloop.due, hloop.passed⟩, ?_, ?_, ?_⟩
    · intro i phase hi
      simp only [hn.drains] at hi
      rcases getElem?_set_cases hi with ⟨hne, hi⟩ | ⟨rfl, -⟩
      · rcases getElem?_append_one hi with hi | ⟨heq, -⟩
        · rcases ho i phase hi with hot | hclosed
          · rw [hin] at hot
            cases hot
          · exact .inr hclosed
        · exact absurd heq hne
      · exact .inl rfl
    · intro i hi
      cases hi
      exact ⟨new, hset, hn.running⟩
    intro hne
    exact ⟨_, new, rfl, hset, hn.looks hne⟩

theorem Sound.next (h : Sound s) (e : WriteQueueEvent L) (hquiet : Undisturbed s e) :
    Sound (s.next e) := by
  cases e with
  | enqueue path force => exact h.enqueue path force hquiet
  | attach path admission => exact ⟨h.kept.attach path admission, h.ended, h.flying, h.waiting⟩
  | settle flush rejected =>
    rw [WriteQueue.next]
    split
    · exact ⟨⟨h.kept.nodup, h.kept.due, h.kept.passed⟩, h.ended, h.flying, h.waiting⟩
    · exact h
  | cooled drain =>
    rw [WriteQueue.next]
    split
    · rename_i hrun
      obtain ⟨new, hn⟩ := goesOn_takeBatch s drain
      exact h.goesOn (h.kept.takeBatch drain) hrun (h.eq_of_running hrun nofun) hn
    · exact h
  | resume drain =>
    rw [WriteQueue.next]
    split
    · rename_i batch hrun
      have hin := h.eq_of_running hrun nofun
      split
      · rename_i hrej
        have he := hquiet batch hrun hrej
        have hn : GoesOn s { s with drains := s.drains.set drain (.ended true) } drain
            (.ended true) := ⟨rfl, rfl, fun heq => (by cases heq), fun hne => absurd he hne⟩
        exact h.goesOn ⟨h.kept.nodup, h.kept.due, h.kept.passed⟩ hrun hin hn
      split
      · obtain ⟨new, hn⟩ := goesOn_drainLoop s drain
        exact h.goesOn (h.kept.drainLoop drain) hrun hin hn
      · exact h
    · exact h
  | reset drain =>
    rw [WriteQueue.next]
    split
    · rename_i rejected hrun
      have hin := h.eq_of_running hrun nofun
      refine ⟨⟨h.kept.nodup, h.kept.due, h.kept.passed⟩, ?_, ?_, ?_⟩
      · intro i phase hi
        rcases getElem?_set_cases hi with ⟨hne, hi⟩ | ⟨-, hclosed⟩
        · rcases h.ended i phase hi with ho | hclosed
          · rw [hin, some_inj] at ho
            exact absurd ho.symm hne
          · exact .inr hclosed
        · exact .inr hclosed
      · nofun
      intro hne
      obtain ⟨i, phase, hi, hph, hlooks⟩ := h.waiting hne
      rw [hin, some_inj] at hi
      subst hi
      rw [hrun, some_inj] at hph
      subst hph
      cases hlooks
    · exact h

theorem Sound.strandsNone (h : Sound s) : StrandsNone s where
  idle := by
    intro hclosed
    have he : s.writeQueue = [] := by
      by_contra hne
      obtain ⟨drain, phase, hin, hph, hlooks⟩ := h.waiting hne
      rw [hclosed phase (mem_of_getElem? hph)] at hlooks
      cases hlooks
    refine ⟨he, fun path => ?_⟩
    rw [h.kept.due, he]
    rfl
  passed := h.kept.passed

/-- In every run that queues nothing in the gap before the reset, and whose rejections find the
queue empty, no path is stranded in any state. -/
theorem writeQueue_strandsNone (events : List (WriteQueueEvent L))
    (hquiet : ∀ n e, events[n]? = some e → Undisturbed (stateAt next {} events n) e) (n : ℕ) :
    StrandsNone (stateAt next {} events n) := by
  have hs : Sound (stateAt next {} events n) :=
    stateAt_from (Nat.zero_le n) sound_initial fun k e _ he h => h.next e (hquiet k e he)
  exact hs.strandsNone

/-- A path is queued again, by force, while it is flushed. -/
def queuedTwice : List (WriteQueueEvent ℕ) :=
  [.enqueue (js "a.md") false, .enqueue (js "a.md") true, .settle 0 false, .resume 0,
    .settle 1 false, .resume 0, .reset 0]

theorem writeQueue_strandsNone_twice : StrandsNone (stateAt next {} queuedTwice 7) := by
  refine writeQueue_strandsNone queuedTwice ?_ 7
  intro n e he
  match n, he with
  | 0, rfl =>
    exact nofun
  | 1, rfl =>
    intro drain rejected hin
    cases hin
    exact nofun
  | 3, rfl | 5, rfl =>
    intro batch hrun hrej
    cases hrun
    cases hrej
  | 2, rfl | 4, rfl | 6, rfl => trivial

/-- What is queued between the loop's end and the reset stays in the queue. -/
theorem gap_path_stranded : ¬ StrandsNone (stateAt (next (L := ℕ)) {}
    [.enqueue (js "a.md") false, .settle 0 false, .resume 0, .enqueue (js "b.md") false, .reset 0]
    5) := by
  intro h
  exact absurd (h.idle (by decide)).1 (by decide)

end WriteQueue

end Kaos.Sync
