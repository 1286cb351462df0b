import Kaos.Lib.Run

/-! Requests for a socket ticket: one call in flight, one forced request queued behind it, and the
promise reactions by which both slots are cleared. -/
namespace Kaos.Sync

open Kaos.Lib List

/-- A job of the promise queue. `adopt` calls `then` on what a queued request has returned. -/
inductive TicketJob
  | clearInFlight (call : ℕ)
  | startQueued (queued : ℕ)
  | adopt (queued : ℕ)
  | settleQueued (queued : ℕ)
  | clearQueued (queued : ℕ)
  deriving DecidableEq

/-- A call of `getSocketTicket`, with the reactions registered on its promise so far. -/
structure TicketCall where
  force : Bool
  settled : Bool
  reactions : List TicketJob

/-- A promise of `null`, of a call or of a queued request. -/
inductive TicketPromise
  | null
  | call (id : ℕ)
  | queued (id : ℕ)
  deriving DecidableEq

/-- A queued request, with the promise its reaction has returned. -/
structure QueuedTicket where
  source : Option TicketPromise
  settled : Bool

structure SocketTickets where
  getSocketTicket : Bool
  calls : List TicketCall := []
  queued : List QueuedTicket := []
  inFlight : Option ℕ := none
  inFlightForce : Bool := false
  forcedQueued : Option ℕ := none
  jobs : List TicketJob := []

structure TicketConnection where
  stopped : Bool
  wanted : Bool
  offline : Bool

def TicketConnection.blocked (connection : TicketConnection) : Bool :=
  connection.stopped || !connection.wanted || connection.offline

namespace SocketTickets

variable (s : SocketTickets)

/-- `ready` if the promise of the call is settled when the call returns. -/
def startSocketTicketRequest (force ready : Bool) : SocketTickets × TicketPromise :=
  if s.getSocketTicket = false then (s, .null)
  else
    let id := s.calls.length
    ({ s with
      calls := s.calls ++ [⟨force, ready, if ready then [] else [.clearInFlight id]⟩]
      inFlight := some id
      inFlightForce := force
      jobs := s.jobs ++ if ready then [.clearInFlight id] else [] }, .call id)

/-- `then` on the promise of a call. -/
def thenCall (call : ℕ) (job : TicketJob) : SocketTickets :=
  match s.calls[call]? with
  | none => s
  | some c =>
    if c.settled then { s with jobs := s.jobs ++ [job] }
    else { s with calls := s.calls.set call { c with reactions := c.reactions ++ [job] } }

def startQueuedForcedSocketTicketRequest (connection : TicketConnection) (ready : Bool) :
    SocketTickets × TicketPromise :=
  if connection.blocked then (s, .null)
  else s.startSocketTicketRequest true ready

def requestSocketTicket (force ready : Bool) : SocketTickets × TicketPromise :=
  if s.getSocketTicket = false then (s, .null)
  else match s.inFlight with
    | none => s.startSocketTicketRequest force ready
    | some active =>
      if force = false ∨ s.inFlightForce = true then (s, .call active)
      else match s.forcedQueued with
        | some id => (s, .queued id)
        | none =>
          let id := s.queued.length
          let s : SocketTickets :=
            { s with queued := s.queued ++ [⟨none, false⟩], forcedQueued := some id }
          (s.thenCall active (.startQueued id), .queued id)

def runJob (connection : TicketConnection) (ready : Bool) : TicketJob → SocketTickets
  | .clearInFlight call =>
    if s.inFlight = some call then { s with inFlight := none, inFlightForce := false } else s
  | .startQueued id =>
    let (s, promise) := s.startQueuedForcedSocketTicketRequest connection ready
    { s with
      queued := s.queued.modify id ({ · with source := some promise })
      jobs := s.jobs ++ [.adopt id] }
  | .adopt id =>
    match s.queued[id]?.bind (·.source) with
    | some (.call call) => s.thenCall call (.settleQueued id)
    | _ => { s with jobs := s.jobs ++ [.settleQueued id] }
  | .settleQueued id =>
    { s with
      queued := s.queued.modify id ({ · with settled := true })
      jobs := s.jobs ++ [.clearQueued id] }
  | .clearQueued id => if s.forcedQueued = some id then { s with forcedQueued := none } else s

/-- What the promise has been settled with: nothing, `null` or the outcome of a call. -/
def settledWith : TicketPromise → Option TicketPromise
  | .null => some .null
  | .call id => s.calls[id]?.bind fun c => if c.settled then some (.call id) else none
  | .queued id => s.queued[id]?.bind fun q => if q.settled then q.source else none

end SocketTickets

namespace TicketJob

def isMain : TicketJob → Bool
  | clearInFlight _ | startQueued _ => true
  | _ => false

/-- The queued request whose start the job comes after. -/
def late : TicketJob → Option ℕ
  | adopt id | settleQueued id | clearQueued id => some id
  | _ => none

/-- The queued request that the job brings on. -/
def serves : TicketJob → Option ℕ
  | startQueued id | adopt id | settleQueued id => some id
  | _ => none

end TicketJob

/-- `settle` is the fulfilment or the rejection of a call: the reactions to both are the same. -/
inductive TicketEvent
  | request (force ready : Bool)
  | settle (call : ℕ)
  | job (connection : TicketConnection) (ready : Bool)

namespace SocketTickets

variable (s : SocketTickets)

def next : TicketEvent → SocketTickets
  | .request force ready => (s.requestSocketTicket force ready).1
  | .settle call =>
    match s.calls[call]? with
    | none => s
    | some c =>
      if c.settled then s
      else
        { s with
          calls := s.calls.set call { c with settled := true, reactions := [] }
          jobs := s.jobs ++ c.reactions }
  | .job connection ready =>
    match s.jobs with
    | [] => s
    | job :: jobs => { s with jobs }.runJob connection ready job

variable {s} {force ready : Bool} {call id k : ℕ} {job : TicketJob} {event : TicketEvent}
  {connection : TicketConnection}

def forceOf (s : SocketTickets) (k : ℕ) : Option Bool := s.calls[k]?.map (·.force)

def source (s : SocketTickets) (id : ℕ) : Option TicketPromise := s.queued[id]?.bind (·.source)

/-- What a step leaves of the calls that there are and of the slot for the one in flight. -/
structure Grows (s s' : SocketTickets) : Prop where
  getter : s'.getSocketTicket = s.getSocketTicket
  calls : s.calls.length ≤ s'.calls.length
  force : ∀ k force, s.forceOf k = some force → s'.forceOf k = some force
  inFlight : ∀ k, s'.inFlight = some k → s.inFlight = some k ∧ s'.inFlightForce = s.inFlightForce ∨
    k = s.calls.length ∧ s'.forceOf k = some s'.inFlightForce

/-- A queued request returns `null` or the promise of a new forced call. -/
def Returns (s s' : SocketTickets) (event : TicketEvent) (id : ℕ) (promise : TicketPromise) :
    Prop :=
  promise = .null ∧ (s.getSocketTicket = false ∨ s.jobs.head? = some (.startQueued id) ∧
    ∃ connection ready, event = .job connection ready ∧ connection.blocked = true) ∨
  promise = .call s.calls.length ∧ s'.forceOf s.calls.length = some true

variable {s' : SocketTickets}

theorem Grows.same (h : s' = { s with
    queued := s'.queued, forcedQueued := s'.forcedQueued, jobs := s'.jobs }) : s.Grows s' := by
  rw [h]
  exact ⟨rfl, Nat.le_refl _, fun _ _ h => h, fun _ h => .inl ⟨h, rfl⟩⟩

theorem grows_start (force ready : Bool) : s.Grows (s.startSocketTicketRequest force ready).1 := by
  unfold startSocketTicketRequest
  split
  · exact .same rfl
  refine ⟨rfl, by simp, ?_, ?_⟩
  · grind [forceOf]
  rintro k ⟨⟩
  exact .inr ⟨rfl, by simp [forceOf]⟩

theorem grows_thenCall (call : ℕ) (job : TicketJob) : s.Grows (s.thenCall call job) := by
  unfold thenCall
  split
  · exact .same rfl
  split
  · exact .same rfl
  refine ⟨rfl, by simp, ?_, fun _ h => .inl ⟨h, rfl⟩⟩
  intro k force h
  grind [forceOf]

theorem queued_thenCall : (s.thenCall call job).queued = s.queued := by
  unfold thenCall
  split
  · rfl
  · split <;> rfl

theorem queued_start : (s.startSocketTicketRequest force ready).1.queued = s.queued := by
  unfold startSocketTicketRequest
  split <;> rfl

theorem queued_startQueued (s : SocketTickets) (connection : TicketConnection) (ready : Bool) :
    (s.startQueuedForcedSocketTicketRequest connection ready).1.queued = s.queued := by
  unfold startQueuedForcedSocketTicketRequest
  split
  · rfl
  · exact queued_start

theorem startQueued_returns (s : SocketTickets) (connection : TicketConnection) (ready : Bool) :
    let r := s.startQueuedForcedSocketTicketRequest connection ready
    r.2 = .null ∧ (s.getSocketTicket = false ∨ connection.blocked = true) ∨
    r.2 = .call s.calls.length ∧ r.1.forceOf s.calls.length = some true := by
  unfold startQueuedForcedSocketTicketRequest startSocketTicketRequest
  split
  · next hbloc => exact .inl ⟨rfl, .inr hbloc⟩
  split
  · next hget => exact .inl ⟨rfl, .inl hget⟩
  · exact .inr ⟨rfl, by simp [forceOf]⟩

theorem grows_next (s : SocketTickets) (event : TicketEvent) : s.Grows (s.next event) := by
  cases event with
  | request force ready =>
    simp only [next, requestSocketTicket]
    split
    · exact .same rfl
    split
    · exact grows_start ..
    split
    · exact .same rfl
    split
    · exact .same rfl
    have h := @grows_thenCall { s with
      queued := s.queued ++ [⟨none, false⟩], forcedQueued := some s.queued.length }
    exact ⟨(h _ _).getter, (h _ _).calls, (h _ _).force, (h _ _).inFlight⟩
  | settle call =>
    simp only [next]
    split
    · exact .same rfl
    split
    · exact .same rfl
    refine ⟨rfl, by simp, ?_, fun _ h => .inl ⟨h, rfl⟩⟩
    grind [forceOf]
  | job connection ready =>
    simp only [next]
    split
    · exact .same rfl
    · next job jobs hjobs =>
      cases job with simp only [runJob]
      | clearInFlight call =>
        split
        · exact ⟨rfl, Nat.le_refl _, fun _ _ h => h, nofun⟩
        · exact .same rfl
      | startQueued id =>
        unfold startQueuedForcedSocketTicketRequest
        split
        · exact .same rfl
        have h := @grows_start { s with jobs } true ready
        exact ⟨h.getter, h.calls, h.force, h.inFlight⟩
      | adopt id =>
        split
        · have h := @grows_thenCall { s with jobs }
          exact ⟨(h _ _).getter, (h _ _).calls, (h _ _).force, (h _ _).inFlight⟩
        · exact .same rfl
      | settleQueued id => exact .same rfl
      | clearQueued id => split <;> exact .same rfl

variable {promise : TicketPromise}

theorem source_next (s : SocketTickets) (event : TicketEvent)
    (h : (s.next event).source id = some promise) :
    s.source id = some promise ∨ s.Returns (s.next event) event id promise := by
  cases event with
  | request force ready =>
    left
    simp only [next, requestSocketTicket, source] at h ⊢
    split at h
    · exact h
    split at h
    · rwa [queued_start] at h
    split at h
    · exact h
    split at h
    · exact h
    simp only [queued_thenCall] at h
    grind
  | settle call =>
    left
    simp only [next, source] at h ⊢
    grind
  | job connection ready =>
    simp only [next] at h ⊢
    split at h
    · exact .inl h
    · next job jobs hjobs =>
      cases job with simp only [runJob, source] at h ⊢
      | startQueued id' =>
        rw [queued_startQueued, getElem?_modify] at h
        split at h
        · next heq =>
          subst heq
          right
          cases hq : s.queued[id']? with rw [hq] at h
          | none => cases h
          | some q =>
            cases h
            exact (startQueued_returns { s with jobs } connection ready).imp_left
              (And.imp_right (Or.imp_right fun hbloc =>
                ⟨by rw [hjobs]; rfl, _, _, rfl, hbloc⟩))
        · left
          simpa using h
      | adopt id' =>
        left
        split at h
        · rwa [queued_thenCall] at h
        · exact h
      | settleQueued id' =>
        left
        grind
      | _ => left; split at h <;> exact h

def reactions (s : SocketTickets) (call : ℕ) : List TicketJob :=
  (s.calls[call]?.map (·.reactions)).getD []

/-- The clearings and starts to come, with those that the call in flight will add. -/
def mains (s : SocketTickets) : List TicketJob :=
  (s.jobs ++ (s.inFlight.map s.reactions).getD []).filter TicketJob.isMain

theorem mains_of_none (hn : s.inFlight = none) : s.mains = s.jobs.filter TicketJob.isMain := by
  simp [mains, hn]

def Unstarted (s : SocketTickets) (id : ℕ) : Prop :=
  ∃ q, s.queued[id]? = some q ∧ q.source = none

theorem Unstarted.source (h : s.Unstarted id) : s.source id = none := by
  obtain ⟨q, hq, hn⟩ := h
  simp [SocketTickets.source, hq, hn]

/-- Only the call in flight is outstanding, and a forced request is queued behind its clearing. -/
structure SingleFlight (s : SocketTickets) : Prop where
  outstanding : ∀ k c, s.calls[k]? = some c → c.settled = false →
    s.inFlight = some k ∧ .clearInFlight k ∈ c.reactions
  settled : ∀ c : TicketCall, c ∈ s.calls → c.settled = true → c.reactions = []
  due : ∃ due : Option ℕ,
    s.mains = s.inFlight.toList.map .clearInFlight ++ due.toList.map .startQueued ∧
    ∀ id, due = some id → s.forcedQueued = some id ∧ s.Unstarted id
  late : ∀ job id, job.late = some id → (job ∈ s.jobs ∨ ∃ c ∈ s.calls, job ∈ c.reactions) →
    s.source id ≠ none

theorem SingleFlight.start (h : s.SingleFlight) (hnone : s.inFlight = none) (hmains : s.mains = [])
    (force ready : Bool) : (s.startSocketTicketRequest force ready).1.SingleFlight := by
  unfold startSocketTicketRequest
  split
  · exact h
  constructor
  · have := h.outstanding
    grind
  · have := h.settled
    grind
  · refine ⟨none, ?_, nofun⟩
    rw [mains_of_none hnone] at hmains
    cases ready <;> simp [mains, reactions, hmains, TicketJob.isMain]
  intro job id hlate hjob
  refine h.late job id hlate ?_
  cases ready <;> simp at hjob <;> grind [TicketJob.late]

theorem SingleFlight.thenCall (h : s.SingleFlight) {call : ℕ} {job : TicketJob}
    (hlate : ∀ id, job.late = some id → s.source id ≠ none)
    (hmain : job.isMain = true → ∃ id, job = .startQueued id ∧ s.inFlight = some call ∧
      s.mains = [.clearInFlight call] ∧
      s.forcedQueued = some id ∧ s.Unstarted id) :
    (s.thenCall call job).SingleFlight := by
  unfold SocketTickets.thenCall
  split
  · exact h
  · next c hc =>
    have hl : ∀ s' : SocketTickets, s'.inFlight = s.inFlight →
        s'.forcedQueued = s.forcedQueued → s'.queued = s.queued →
        s'.mains = s.mains ++ [job].filter TicketJob.isMain → ∃ due : Option ℕ,
        s'.mains = s'.inFlight.toList.map .clearInFlight ++ due.toList.map .startQueued ∧
        ∀ id, due = some id → s'.forcedQueued = some id ∧ s'.Unstarted id := by
      intro s' hfl hslot hq hmains
      simp only [hfl, hslot, hmains, Unstarted, hq]
      cases hjob : job.isMain with
      | false => simpa [hjob, Unstarted] using h.due
      | true =>
        obtain ⟨id, rfl, hca, hclr, hid⟩ := hmain hjob
        refine ⟨some id, by simp [hclr, hca, hjob], ?_⟩
        rintro _ ⟨⟩
        exact hid
    split
    · next hset =>
      refine ⟨h.outstanding, h.settled, hl _ rfl rfl rfl ?_, ?_⟩
      · have hn : job.isMain = true → (s.inFlight.map s.reactions).getD [] = [] := by
          intro hjob
          obtain ⟨-, -, hca, -⟩ := hmain hjob
          simp [hca, reactions, hc, h.settled c (List.mem_of_getElem? hc) hset]
        change (s.jobs ++ [job] ++ (s.inFlight.map s.reactions).getD []).filter _ = _
        unfold mains
        cases hjob : job.isMain with
        | false => simp [hjob]
        | true => simp [hn hjob]
      · have := h.late
        simp only [source] at hlate this ⊢
        grind
    · next hset =>
      have hfl := h.outstanding call c hc (by simpa using hset)
      refine ⟨?_, ?_, hl _ rfl rfl rfl ?_, ?_⟩
      · have := h.outstanding
        grind
      · have := h.settled
        grind
      · obtain ⟨hlt, rfl⟩ := List.getElem?_eq_some_iff.mp hc
        simp [mains, reactions, hfl.1, hlt]
      have := h.late
      simp only [source] at hlate this ⊢
      grind

theorem SingleFlight.of_source (h : s.SingleFlight) (jobs : List TicketJob) (hs' : s' = { s with
      queued := s'.queued, forcedQueued := s'.forcedQueued, jobs := s.jobs ++ jobs })
    (hjobs : ∀ job ∈ jobs, ∃ id, job.late = some id ∧ s'.source id ≠ none)
    (hsrc : ∀ id, s.source id ≠ none → s'.source id ≠ none)
    (hdue : ∀ id, .startQueued id ∈ s.mains → s.forcedQueued = some id → s.Unstarted id →
      s'.forcedQueued = some id ∧ s'.Unstarted id) : s'.SingleFlight := by
  obtain ⟨due, hmains, hslot⟩ := h.due
  have hlate : jobs.filter TicketJob.isMain = [] := by
    refine filter_eq_nil_iff.mpr fun job hjob => ?_
    obtain ⟨id, hid, -⟩ := hjobs job hjob
    cases job <;> simp [TicketJob.late, TicketJob.isMain] at hid ⊢
  refine ⟨?_, ?_, ⟨due, ?_, ?_⟩, ?_⟩
  · rw [hs']
    exact h.outstanding
  · rw [hs']
    exact h.settled
  · refine Eq.trans ?_ (hmains.trans (by rw [hs']))
    rw [hs', mains]
    change (s.jobs ++ jobs ++ (s.inFlight.map s.reactions).getD []).filter _ = _
    simp [mains, hlate]
  · exact fun id hid => hdue id (by simp [hmains, hid]) (hslot id hid).1 (hslot id hid).2
  intro job id hid hjob
  have hjob' : job ∈ s.jobs ++ jobs ∨ ∃ c ∈ s.calls, job ∈ c.reactions := by rwa [hs'] at hjob
  by_cases hnew : job ∈ jobs
  · obtain ⟨id', hid', hs⟩ := hjobs job hnew
    cases hid.symm.trans hid'
    exact hs
  · exact hsrc id (h.late job id hid (by simpa [hnew] using hjob'))

/-- Something is asked while nothing is in flight but a queued request is still to start. -/
def Disturbs (s : SocketTickets) (event : TicketEvent) : Prop :=
  (∃ force ready, event = .request force ready) ∧ s.inFlight = none ∧ ∃ id, .startQueued id ∈ s.jobs

theorem startQueued_notMem (hn : s.inFlight = none) (hmains : s.mains = []) (id : ℕ) :
    .startQueued id ∉ (s.startSocketTicketRequest force ready).1.mains := by
  unfold startSocketTicketRequest
  split
  · simp [hmains]
  rw [mains_of_none hn] at hmains
  cases ready <;> simp [mains, reactions, hmains, TicketJob.isMain]

theorem SingleFlight.request (h : s.SingleFlight) (hcalm : ¬ s.Disturbs (.request force ready)) :
    (s.requestSocketTicket force ready).1.SingleFlight := by
  obtain ⟨due, hdue, hslot⟩ := h.due
  unfold requestSocketTicket
  split
  · exact h
  split
  · next hn =>
    refine h.start hn ?_ force ready
    rcases due with _ | id
    · simpa [hn] using hdue
    have hmem : .startQueued id ∈ s.mains := by simp [hdue]
    rw [mains_of_none hn] at hmem
    exact absurd ⟨⟨_, _, rfl⟩, hn, id, mem_of_mem_filter hmem⟩ hcalm
  · next active hact =>
    split
    · exact h
    split
    · exact h
    · next hf =>
      have hnodue : due = none := by cases due <;> grind
      have hnew : SingleFlight { s with
          queued := s.queued ++ [⟨none, false⟩], forcedQueued := some s.queued.length } := by
        refine h.of_source [] (by simp) (by simp) ?_ (by simp [hf])
        simp only [source]
        grind
      refine hnew.thenCall (fun _ h => by cases h) fun _ => ⟨_, rfl, hact, ?_, rfl, ?_⟩
      · exact hdue.trans (by simp [hnodue, hact])
      · exact ⟨_, getElem?_concat_length, rfl⟩

theorem SingleFlight.settle (h : s.SingleFlight) : (s.next (.settle call)).SingleFlight := by
  obtain ⟨due, hdue, hslot⟩ := h.due
  simp only [SocketTickets.next]
  split
  · exact h
  · next c hc =>
    split
    · exact h
    · next hset =>
      have hfl := h.outstanding call c hc (by simpa using hset)
      refine ⟨?_, ?_, ⟨due, ?_, hslot⟩, ?_⟩
      · have := h.outstanding
        grind
      · have := h.settled
        grind
      · refine Eq.trans ?_ hdue
        obtain ⟨hlt, rfl⟩ := List.getElem?_eq_some_iff.mp hc
        simp [mains, reactions, hfl.1, hlt]
      have := h.late
      simp only [source] at this ⊢
      grind

theorem SingleFlight.nextJob (h : s.SingleFlight) :
    (s.next (.job connection ready)).SingleFlight := by
  obtain ⟨due, hdue, hslot⟩ := h.due
  simp only [SocketTickets.next]
  split
  · exact h
  · next job jobs hjobs =>
    have hr : s.mains = [job].filter TicketJob.isMain ++ mains { s with jobs } := by
      unfold mains
      rw [hjobs]
      exact filter_append [job] _
    rw [hr] at hdue
    -- without the job everything is as before, but for what stands first among the main jobs
    have hpop : ∀ due' : Option ℕ, mains { s with jobs } =
        s.inFlight.toList.map .clearInFlight ++ due'.toList.map .startQueued →
        (∀ id, due' = some id → s.forcedQueued = some id ∧ s.Unstarted id) →
        SingleFlight { s with jobs } := fun due' hdue' hslot' =>
      ⟨h.outstanding, h.settled, ⟨due', hdue', hslot'⟩, fun job' id hid hjob' =>
        h.late job' id hid (hjob'.imp_left fun hmem => hjobs ▸ mem_cons_of_mem _ hmem)⟩
    have hl : ∀ id, job.late = some id → SingleFlight { s with jobs } ∧ s.source id ≠ none ∧
        .startQueued id ∉ mains { s with jobs } := by
      intro id hid
      have hs := h.late job id hid (.inl (hjobs ▸ mem_cons_self))
      have hdue' : mains { s with jobs } =
          s.inFlight.toList.map .clearInFlight ++ due.toList.map .startQueued := by
        rw [← hdue]
        cases job <;> simp [TicketJob.late, TicketJob.isMain] at hid ⊢
      refine ⟨hpop due hdue' hslot, hs, fun hmem => hs (hslot id ?_).2.source⟩
      simpa [hdue'] using hmem
    cases job with simp only [runJob]
    | clearInFlight call =>
      change .clearInFlight call :: mains { s with jobs } = _ at hdue
      rcases Option.eq_none_or_eq_some s.inFlight with hfl | ⟨k, hfl⟩
      · cases due <;> simp [hfl] at hdue
      obtain ⟨rfl, hst⟩ : call = k ∧ mains { s with jobs } = due.toList.map .startQueued := by
        simpa [hfl] using hdue
      have hall : ∀ (k : ℕ) (c : TicketCall), s.calls[k]? = some c → c.settled = true := by
        intro k c hc
        by_contra hset
        obtain ⟨hk, hclr⟩ := h.outstanding k c hc (by simpa using hset)
        have hmem : .clearInFlight k ∈ mains { s with jobs } := mem_filter.mpr
          ⟨mem_append_right _ (by simpa [hk, reactions, hc] using hclr), rfl⟩
        simp [hst] at hmem
      have hnil : s.reactions call = [] := by
        have := h.settled
        grind [reactions]
      rw [if_pos hfl]
      refine ⟨?_, h.settled, ⟨due, ?_, hslot⟩, ?_⟩
      · intro k c hc hset
        cases hset.symm.trans (hall k c hc)
      · rw [mains, hfl] at hst
        change (jobs ++ s.reactions call).filter _ = _ at hst
        rwa [hnil] at hst
      have := h.late
      simp only [source, hjobs] at this ⊢
      grind
    | startQueued id =>
      change .startQueued id :: mains { s with jobs } = _ at hdue
      rcases Option.eq_none_or_eq_some s.inFlight with hfl | ⟨k, hfl⟩
      · cases hid : due with
        | none => simp [hfl, hid] at hdue
        | some id' =>
          obtain ⟨rfl, hnil⟩ : id = id' ∧ mains { s with jobs } = [] := by
            simpa [hfl, hid] using hdue
          have hold := hpop none (hnil.trans (by simp [hfl])) fun _ h => by cases h
          obtain ⟨q, hq, -⟩ := (hslot id hid).2
          have hqueued := queued_startQueued { s with jobs } connection ready
          have hnx : SingleFlight
              (startQueuedForcedSocketTicketRequest { s with jobs } connection ready).1 ∧
              ∀ id, .startQueued id ∉ mains
                (startQueuedForcedSocketTicketRequest { s with jobs } connection ready).1 := by
            unfold startQueuedForcedSocketTicketRequest
            split
            · exact ⟨hold, by simp [hnil]⟩
            · exact ⟨hold.start hfl hnil true ready, startQueued_notMem hfl hnil⟩
          refine hnx.1.of_source _ rfl ?_ ?_ fun id' hmem => absurd hmem (hnx.2 id')
          · intro job hjob
            refine ⟨id, by rw [mem_singleton.mp hjob]; rfl, ?_⟩
            simp [source, hqueued, hq]
          intro id' hs
          simp only [source, hqueued] at hs ⊢
          grind
      · simp [hfl] at hdue
    | adopt id =>
      obtain ⟨hold, hs, -⟩ := hl id rfl
      split
      · exact hold.thenCall (fun _ h => by cases h; exact hs) (fun h => by cases h)
      refine hold.of_source _ rfl ?_ (fun _ h => h) fun _ _ hslot h => ⟨hslot, h⟩
      exact fun job hjob => ⟨id, by rw [mem_singleton.mp hjob]; rfl, hs⟩
    | settleQueued id =>
      obtain ⟨hold, hs, -⟩ := hl id rfl
      have hsa : ∀ id', source { s with
          queued := s.queued.modify id ({ · with settled := true }) } id' = s.source id' := by
        intro id'
        simp only [source]
        grind
      refine hold.of_source _ rfl ?_ (fun id' h => (hsa id').trans_ne h) ?_
      · exact fun job hjob => ⟨id, by rw [mem_singleton.mp hjob]; rfl, (hsa id).trans_ne hs⟩
      rintro id' - hslot ⟨q, hq, hn⟩
      refine ⟨hslot, ?_⟩
      simp only [Unstarted]
      grind
    | clearQueued id =>
      obtain ⟨hold, hs, hnot⟩ := hl id rfl
      split
      · next hslot' =>
        refine hold.of_source [] (by simp) (by simp) (fun _ h => h) ?_
        intro id' hmem hid' _
        cases hslot'.symm.trans hid'
        exact absurd hmem hnot
      · exact hold

theorem SingleFlight.next (h : s.SingleFlight) (hcalm : ¬ s.Disturbs event) :
    (s.next event).SingleFlight := by
  cases event with
  | request force ready => exact h.request hcalm
  | settle call => exact h.settle
  | job connection ready => exact h.nextJob

/-- The calls of forced requests are forced ones. -/
structure Forced (s : SocketTickets) : Prop where
  flight : ∀ k, s.inFlight = some k → s.forceOf k = some s.inFlightForce
  queued : ∀ id k, s.source id = some (.call k) → s.forceOf k = some true

theorem Forced.next (h : s.Forced) (event : TicketEvent) : (s.next event).Forced := by
  have hgrows := grows_next s event
  constructor
  · intro k hk
    rcases hgrows.inFlight k hk with ⟨hold, hforce⟩ | ⟨-, hnew⟩
    · rw [hforce]
      exact hgrows.force k _ (h.flight k hold)
    · exact hnew
  intro id k hsrc
  rcases source_next s event hsrc with hold | ⟨hnull, -⟩ | ⟨hc, hforce⟩
  · exact hgrows.force k _ (h.queued id k hold)
  · cases hnull
  cases hc
  exact hforce

/-- A forced request waits behind the unforced call in flight. -/
structure Waits (s : SocketTickets) (k id : ℕ) : Prop where
  unforced : s.inFlightForce = false
  slot : s.forcedQueued = some id
  source : s.source id = none

theorem SingleFlight.start_alone (h : s.SingleFlight) {jobs : List TicketJob}
    (hjobs : s.jobs = .startQueued id :: jobs) : s.inFlight = none := by
  obtain ⟨due, hdue, -⟩ := h.due
  rcases Option.eq_none_or_eq_some s.inFlight with hn | ⟨k, hk⟩
  · exact hn
  rw [mains, hjobs, hk, cons_append, filter_cons_of_pos rfl] at hdue
  cases (List.cons.inj hdue).1

theorem Waits.thenCall (h : s.Waits k id) (call : ℕ) (job : TicketJob) :
    (s.thenCall call job).Waits k id := by
  obtain ⟨hunf, hslot, hsrc⟩ := h
  unfold SocketTickets.thenCall
  split
  · exact ⟨hunf, hslot, hsrc⟩
  · split <;> exact ⟨hunf, hslot, hsrc⟩

theorem waits_request (hget : s.getSocketTicket = true) (hfl : s.inFlight = some k)
    (hunf : s.inFlightForce = false) (ready : Bool)
    (hsrc : ∀ id, (s.requestSocketTicket true ready).2 = .queued id → s.source id = none) :
    ∃ id, (s.requestSocketTicket true ready).2 = .queued id ∧
      (s.requestSocketTicket true ready).1.Waits k id := by
  simp only [requestSocketTicket, hget, hfl, hunf, reduceCtorEq, or_self, if_false] at hsrc ⊢
  split at hsrc
  · next id hid => exact ⟨id, rfl, hunf, hid, hsrc id rfl⟩
  · refine ⟨s.queued.length, rfl, Waits.thenCall ⟨?_, ?_, ?_⟩ ..⟩ <;> simp [source]

theorem Waits.next (h : s.Waits k id) (hs : s.SingleFlight) (hflight : s.inFlight = some k)
    (hnext : (s.next event).inFlight = some k) : (s.next event).Waits k id := by
  obtain ⟨hunf, hslot, hsrc⟩ := h
  cases event with
  | request force ready =>
    simp only [SocketTickets.next, requestSocketTicket, hflight, hslot]
    split
    · exact ⟨hunf, hslot, hsrc⟩
    · split <;> exact ⟨hunf, hslot, hsrc⟩
  | settle call =>
    simp only [SocketTickets.next]
    split
    · exact ⟨hunf, hslot, hsrc⟩
    · split <;> exact ⟨hunf, hslot, hsrc⟩
  | job connection ready =>
    simp only [SocketTickets.next] at hnext ⊢
    split at hnext
    · exact ⟨hunf, hslot, hsrc⟩
    · next job jobs hjobs =>
      cases job with simp only [runJob] at hnext ⊢
      | clearInFlight call =>
        split
        · next hca =>
          rw [if_pos hca] at hnext
          cases hnext
        · exact ⟨hunf, hslot, hsrc⟩
      | startQueued id' => cases (hs.start_alone hjobs).symm.trans hflight
      | adopt id' =>
        split
        · refine Waits.thenCall ⟨?_, ?_, ?_⟩ .. <;> assumption
        · exact ⟨hunf, hslot, hsrc⟩
      | settleQueued id' =>
        refine ⟨hunf, hslot, ?_⟩
        simp only [SocketTickets.source] at hsrc ⊢
        grind
      | clearQueued id' =>
        split
        · next hc =>
          cases hc.symm.trans hslot
          exact absurd hsrc (hs.late _ _ rfl (.inl (hjobs ▸ mem_cons_self)))
        · exact ⟨hunf, hslot, hsrc⟩

theorem eq_of_settledWith (h : s.settledWith (.call k) = some promise) : promise = .call k := by
  obtain ⟨c, -, hs⟩ := Option.bind_eq_some_iff.mp h
  split at hs
  · exact (Option.some.inj hs).symm
  · cases hs

theorem source_of_settledWith
    (h : s.settledWith (.queued id) = some promise) : s.source id = some promise := by
  obtain ⟨q, hq, hs⟩ := Option.bind_eq_some_iff.mp h
  split at hs
  · simp [source, hq, hs]
  · cases hs

/-- The job is to come, at once or when a call settles. -/
def ToCome (s : SocketTickets) (job : TicketJob) : Prop :=
  job ∈ s.jobs ∨ ∃ k, job ∈ s.reactions k

/-- Settled calls have passed their reactions on. -/
def Spent (s : SocketTickets) : Prop := ∀ c ∈ s.calls, c.settled = true → c.reactions = []

/-- A queued request that is not settled has a job to come. -/
structure Serves (s : SocketTickets) : Prop where
  spent : s.Spent
  served : ∀ (id : ℕ) (q : QueuedTicket), s.queued[id]? = some q → q.settled = false →
    ∃ job, job.serves = some id ∧ s.ToCome job

theorem reactions_set {c c' : TicketCall} (hc : s.calls[call]? = some c) (k : ℕ) :
    reactions { s with calls := s.calls.set call c' } k =
      if k = call then c'.reactions else s.reactions k := by
  have hlt := (List.getElem?_eq_some_iff.mp hc).1
  by_cases hk : k = call
  · simp [reactions, hk, hlt]
  · simp [reactions, hk, Ne.symm hk]

theorem toCome_thenCall {c : TicketCall} (hc : s.calls[call]? = some c) {job' : TicketJob}
    (h : s.ToCome job' ∨ job' = job) : (s.thenCall call job).ToCome job' := by
  unfold ToCome SocketTickets.thenCall
  rw [hc]
  dsimp only
  split
  · rcases h with (hjob | hl) | rfl
    · exact .inl (mem_append_left _ hjob)
    · exact .inr hl
    · exact .inl (mem_append_right _ (mem_singleton_self _))
  · rcases h with (hjob | ⟨k, hmem⟩) | rfl
    · exact .inl hjob
    · refine .inr ⟨k, ?_⟩
      rw [reactions_set hc]
      grind [reactions]
    · refine .inr ⟨call, ?_⟩
      simp [reactions_set hc]

theorem Spent.thenCall (h : s.Spent) : (s.thenCall call job).Spent := by
  unfold Spent SocketTickets.thenCall at *
  grind

theorem toCome_start (h : s.ToCome job) :
    (s.startSocketTicketRequest force ready).1.ToCome job := by
  unfold ToCome startSocketTicketRequest at *
  split
  · exact h
  · exact h.imp (mem_append_left _) fun ⟨k, hk⟩ => ⟨k, by grind [reactions]⟩

theorem Spent.start (h : s.Spent) : (s.startSocketTicketRequest force ready).1.Spent := by
  unfold Spent startSocketTicketRequest at *
  grind

theorem Serves.next (h : s.Serves) (hforced : s.Forced) (event : TicketEvent) :
    (s.next event).Serves := by
  cases event with
  | request force ready =>
    simp only [SocketTickets.next, requestSocketTicket]
    split
    · exact h
    split
    · refine ⟨h.spent.start, fun id q hq ho => ?_⟩
      rw [queued_start] at hq
      exact (h.served id q hq ho).imp fun _ => And.imp_right toCome_start
    · next active hact =>
      split
      · exact h
      split
      · exact h
      obtain ⟨c, hc, -⟩ := Option.map_eq_some_iff.mp (hforced.flight active hact)
      refine ⟨Spent.thenCall h.spent, fun id q hq ho => ?_⟩
      rw [queued_thenCall] at hq
      rcases getElem?_append_one hq with hold | ⟨rfl, -⟩
      · obtain ⟨job, hser, hcome⟩ := h.served id q hold ho
        exact ⟨job, hser, toCome_thenCall (by exact hc) (.inl hcome)⟩
      · exact ⟨.startQueued _, rfl, toCome_thenCall (by exact hc) (.inr rfl)⟩
  | settle call =>
    simp only [SocketTickets.next]
    split
    · exact h
    · next c hc =>
      split
      · exact h
      refine ⟨?_, fun id q hq ho => (h.served id q hq ho).imp fun _ => And.imp_right ?_⟩
      · have := h.spent
        unfold Spent at *
        grind
      · rintro (hjob | ⟨k, hk⟩)
        · exact .inl (mem_append_left _ hjob)
        by_cases heq : k = call
        · refine .inl (mem_append_right _ ?_)
          simpa [heq, reactions, hc] using hk
        · refine .inr ⟨k, ?_⟩
          exact (reactions_set hc k).trans (if_neg heq) ▸ hk
  | job connection ready =>
    simp only [SocketTickets.next]
    split
    · exact h
    · next job jobs hjobs =>
      have hr : ∀ (id : ℕ) (q : QueuedTicket), s.queued[id]? = some q → q.settled = false →
          job.serves = some id ∨ ∃ job', job'.serves = some id ∧ ToCome { s with jobs } job' := by
        intro id q hq ho
        obtain ⟨job', hser, hcome⟩ := h.served id q hq ho
        by_cases heq : job' = job
        · exact .inl (heq ▸ hser)
        · exact .inr ⟨job', hser, hcome.imp_left fun hmem =>
            (mem_cons.mp (hjobs ▸ hmem)).resolve_left heq⟩
      have hs : job.serves = none → Serves { s with jobs } := fun hn =>
        ⟨h.spent, fun id q hq ho => (hr id q hq ho).resolve_left (by simp [hn])⟩
      cases job with simp only [runJob]
      | clearInFlight call =>
        have hs := hs rfl
        split
        · exact ⟨hs.spent, hs.served⟩
        · exact hs
      | clearQueued id =>
        have hs := hs rfl
        split
        · exact ⟨hs.spent, hs.served⟩
        · exact hs
      | startQueued id =>
        obtain ⟨hspent, hcomes⟩ : Spent (startQueuedForcedSocketTicketRequest { s with jobs }
            connection ready).1 ∧ ∀ job, ToCome { s with jobs } job →
            (startQueuedForcedSocketTicketRequest { s with jobs } connection ready).1.ToCome job := by
          unfold startQueuedForcedSocketTicketRequest
          split
          · exact ⟨h.spent, fun _ hcome => hcome⟩
          · exact ⟨Spent.start h.spent, fun _ => toCome_start⟩
        refine ⟨hspent, fun id' q hq ho => ?_⟩
        rw [queued_startQueued] at hq
        obtain ⟨old, hold, heq⟩ := Option.map_eq_some_iff.mp ((getElem?_modify ..).symm.trans hq)
        have ho' : old.settled = false := by
          split at heq <;> subst heq <;> exact ho
        rcases hr id' old hold ho' with hser | ⟨job, hser, hcome⟩
        · exact ⟨.adopt id, hser, .inl (mem_append_right _ (mem_singleton_self _))⟩
        · exact ⟨job, hser, (hcomes job hcome).imp_left (mem_append_left _)⟩
      | adopt id =>
        split
        · next call hca =>
          obtain ⟨c, hc, -⟩ := Option.map_eq_some_iff.mp (hforced.queued id call hca)
          refine ⟨Spent.thenCall h.spent, fun id' q hq ho => ?_⟩
          rw [queued_thenCall] at hq
          rcases hr id' q hq ho with hser | ⟨job, hser, hcome⟩
          · exact ⟨.settleQueued id, hser, toCome_thenCall (by exact hc) (.inr rfl)⟩
          · exact ⟨job, hser, toCome_thenCall (by exact hc) (.inl hcome)⟩
        · refine ⟨h.spent, fun id' q hq ho => ?_⟩
          rcases hr id' q hq ho with hser | ⟨job, hser, hcome⟩
          · exact ⟨.settleQueued id, hser, .inl (mem_append_right _ (mem_singleton_self _))⟩
          · exact ⟨job, hser, hcome.imp_left (mem_append_left _)⟩
      | settleQueued id =>
        refine ⟨h.spent, fun id' q hq ho => ?_⟩
        obtain ⟨old, hold, heq⟩ := Option.map_eq_some_iff.mp ((getElem?_modify ..).symm.trans hq)
        split at heq <;> subst heq
        · cases ho
        · next hid =>
          obtain ⟨job, hser, hcome⟩ :=
            (hr id' old hold ho).resolve_left fun h => hid (Option.some.inj h)
          exact ⟨job, hser, hcome.imp_left (mem_append_left _)⟩

end SocketTickets

structure TicketRun where
  getSocketTicket : Bool
  events : List TicketEvent

namespace TicketRun

open SocketTickets

variable (run : TicketRun)

def after (n : ℕ) : SocketTickets :=
  stateAt next { getSocketTicket := run.getSocketTicket } run.events n

/-- What a forced request gets that is made when `n` events have happened. -/
def forced (ready : Bool) (n : ℕ) : TicketPromise :=
  ((run.after n).requestSocketTicket true ready).2

def Undisturbed : Prop :=
  ∀ n event, run.events[n]? = some event → ¬ (run.after n).Disturbs event

/-- `null`, for a reason, or a call made after the first `n` events. -/
def Fresh (n m : ℕ) (asked promise : TicketPromise) : Prop :=
  promise = .null ∧ (run.getSocketTicket = false ∨
    ∃ i id connection ready, asked = .queued id ∧ n ≤ i ∧ i < m ∧
      (run.after i).jobs.head? = some (.startQueued id) ∧
      run.events[i]? = some (.job connection ready) ∧ connection.blocked = true) ∨
  ∃ k, promise = .call k ∧ (run.after n).calls.length ≤ k

variable {run} {n m k id : ℕ} {asked promise : TicketPromise}

theorem after_step (run : TicketRun) (n : ℕ) :
    (run.events[n]? = none ∧ run.after (n + 1) = run.after n) ∨
      ∃ event, run.events[n]? = some event ∧ run.after (n + 1) = (run.after n).next event :=
  stateAt_step ..

theorem singleFlight_after (h : run.Undisturbed) (n : ℕ) : (run.after n).SingleFlight := by
  induction n with
  | zero =>
    refine ⟨by simp [after], by simp [after], ⟨none, rfl, by simp⟩, ?_⟩
    rintro _ _ - (hjob | ⟨_, hc, -⟩)
    · cases hjob
    · cases hc
  | succ n ih =>
    rcases run.after_step n with ⟨-, heq⟩ | ⟨event, he, heq⟩ <;> rw [heq]
    · exact ih
    · exact ih.next (h n event he)

theorem forced_after (n : ℕ) : (run.after n).Forced :=
  stateAt_invariant ⟨fun _ h => (by cases h), fun _ _ h => (by cases h)⟩
    (fun _ event h => h.next event) n

theorem serves_after (n : ℕ) : (run.after n).Serves := by
  induction n with
  | zero => exact ⟨nofun, nofun⟩
  | succ n ih =>
    rcases run.after_step n with ⟨-, heq⟩ | ⟨event, -, heq⟩ <;> rw [heq]
    · exact ih
    · exact ih.next (forced_after n) event

theorem getter_after (n : ℕ) : (run.after n).getSocketTicket = run.getSocketTicket :=
  stateAt_invariant (P := fun s => s.getSocketTicket = run.getSocketTicket) rfl
    (fun s event h => (grows_next s event).getter.trans h) n

theorem calls_after (hle : n ≤ m) : (run.after n).calls.length ≤ (run.after m).calls.length ∧
    ∀ k force, (run.after n).forceOf k = some force → (run.after m).forceOf k = some force := by
  induction hle with
  | refl => exact ⟨Nat.le_refl _, fun _ _ h => h⟩
  | @step m hle ih =>
    rcases run.after_step m with ⟨-, heq⟩ | ⟨event, -, heq⟩ <;> rw [heq]
    · exact ih
    have hgrows := grows_next (run.after m) event
    exact ⟨Nat.le_trans ih.1 hgrows.calls, fun k force h => hgrows.force k force (ih.2 k force h)⟩

theorem Fresh.succ (h : run.Fresh n m asked promise) : run.Fresh n (m + 1) asked promise := by
  refine h.imp_left (And.imp_right (Or.imp_right ?_))
  rintro ⟨i, id, connection, ready, hasked, hn, hm, hbloc⟩
  exact ⟨i, id, connection, ready, hasked, hn, Nat.lt_succ_of_lt hm, hbloc⟩

/-- What a queued request that has not started at first has returned since. -/
theorem fresh_since (hle : n ≤ m) (hn : (run.after n).source id = none)
    (h : (run.after m).source id = some promise) : run.Fresh n m (.queued id) promise := by
  induction hle with
  | refl => cases hn.symm.trans h
  | @step m hle ih =>
    rcases run.after_step m with ⟨-, heq⟩ | ⟨event, he, heq⟩ <;> rw [heq] at h
    · exact (ih h).succ
    rcases source_next _ event h with hsrc | ⟨rfl, hnull⟩ | ⟨rfl, -⟩
    · exact (ih hsrc).succ
    · refine .inl ⟨rfl, hnull.imp (getter_after m).symm.trans ?_⟩
      rintro ⟨hstarts, connection, ready, rfl, hbloc⟩
      exact ⟨m, id, connection, ready, rfl, hle, Nat.lt_succ_self m, hstarts, he, hbloc⟩
    · exact .inr ⟨_, rfl, (calls_after hle).1⟩

/-- What a forced request gets: a promise of the call in flight or of one it starts, both forced, or
one of a queued request. -/
theorem forced_cases (n : ℕ) (ready : Bool) :
    run.forced ready n = .null ∧ run.getSocketTicket = false ∨
    (∃ k, run.forced ready n = .call k ∧
      ((run.after n).requestSocketTicket true ready).1.forceOf k = some true ∧
      ((run.after n).inFlight = some k ∨ (run.after n).calls.length ≤ k)) ∨
    ∃ id, run.forced ready n = .queued id := by
  unfold forced requestSocketTicket startSocketTicketRequest
  rw [getter_after]
  split
  · next hget => exact .inl ⟨rfl, hget⟩
  split
  · exact .inr (.inl ⟨_, rfl, by simp [forceOf], .inr (Nat.le_refl _)⟩)
  · next active hact =>
    split
    · next hforce =>
      refine .inr (.inl ⟨active, rfl, ?_, .inl hact⟩)
      have hfl := (forced_after n).flight active hact
      rwa [hforce.resolve_left (by decide)] at hfl
    · split <;> exact .inr (.inr ⟨_, rfl⟩)

theorem waits_since (h : run.Undisturbed) (hle : n ≤ m) (hwaits : (run.after n).Waits k id)
    (hk : k < (run.after n).calls.length) (hfl : (run.after m).inFlight = some k) :
    (run.after m).Waits k id := by
  induction hle with
  | refl => exact hwaits
  | @step m hle ih =>
    rcases run.after_step m with ⟨-, heq⟩ | ⟨event, he, heq⟩ <;> rw [heq] at hfl ⊢
    · exact ih hfl
    have hb : (run.after m).inFlight = some k := by
      rcases (grows_next _ event).inFlight k hfl with ⟨hold, -⟩ | ⟨rfl, -⟩
      · exact hold
      · exact absurd (Nat.lt_of_lt_of_le hk (calls_after hle).1) (Nat.lt_irrefl _)
    exact (ih hb).next (singleFlight_after h m) hb hfl

/-- A forced request is answered by a forced call, in flight or made later, or with `null` if the
connection was blocked, unless it joins a queued request that has started. If nothing is asked
between a call's clearing and the start of the request behind it, one call is outstanding at most
and forced requests behind one unforced call share a promise. -/
theorem forced_answered (run : TicketRun) :
    (∀ n m ready promise, run.events[n]? = some (.request true ready) → n < m →
      (run.after m).settledWith (run.forced ready n) = some promise →
      (∀ k, promise = .call k → (run.after m).forceOf k = some true) ∧
      ((∀ id, run.forced ready n = .queued id → (run.after n).source id = none) →
        run.Fresh n m (run.forced ready n) promise ∨
          ∃ k, promise = .call k ∧ (run.after n).inFlight = some k)) ∧
    (run.Undisturbed →
      (∀ (n k k' : ℕ) (c c' : TicketCall), (run.after n).calls[k]? = some c →
        (run.after n).calls[k']? = some c' → c.settled = false → c'.settled = false → k = k') ∧
      ∀ n m ready ready' k, run.events[n]? = some (.request true ready) → n < m →
        (run.after n).inFlight = some k → (run.after n).inFlightForce = false →
        (∀ id, run.forced ready n = .queued id → (run.after n).source id = none) →
        (run.after m).inFlight = some k → run.forced ready' m = run.forced ready n) := by
  refine ⟨?_, fun h => ⟨?_, ?_⟩⟩
  · intro n m ready promise hn hlt hs
    rcases forced_cases n ready with ⟨hnull, hget⟩ | ⟨k, hk, hforce, hwhen⟩ | ⟨id, hid⟩
    · rw [hnull] at hs
      cases hs
      exact ⟨fun _ h => (by cases h), fun _ => .inl (.inl ⟨rfl, .inl hget⟩)⟩
    · rw [hk] at hs
      cases eq_of_settledWith hs
      refine ⟨?_, fun _ => hwhen.elim (fun h => .inr ⟨k, rfl, h⟩) fun h => .inl (.inr ⟨k, rfl, h⟩)⟩
      rintro _ ⟨⟩
      refine (calls_after hlt).2 k true ?_
      rw [after, stateAt_succ hn]
      exact hforce
    rw [hid] at hs ⊢
    have hsrc := source_of_settledWith hs
    refine ⟨fun k hk => (forced_after m).queued id k (hk ▸ hsrc), fun hno => .inl ?_⟩
    exact fresh_since (Nat.le_of_lt hlt) (hno id rfl) hsrc
  · intro n k k' c c' hc hc' hs hs'
    have hfl := singleFlight_after h n
    exact Option.some.inj ((hfl.outstanding k c hc hs).1.symm.trans
      (hfl.outstanding k' c' hc' hs').1)
  intro n m ready ready' k hn hlt hfl hunf hsrc hfl'
  cases hget : run.getSocketTicket with
  | false => simp [forced, requestSocketTicket, getter_after, hget]
  | true =>
    obtain ⟨id, hid, hwaits⟩ := waits_request ((getter_after n).trans hget) hfl hunf ready hsrc
    have hlen : k < (run.after (n + 1)).calls.length := by
      obtain ⟨c, hc, -⟩ := Option.map_eq_some_iff.mp ((forced_after n).flight k hfl)
      exact Nat.lt_of_lt_of_le (List.getElem?_eq_some_iff.mp hc).1 (calls_after (Nat.le_succ n)).1
    have hwaits' := waits_since h hlt (by rwa [after, stateAt_succ hn]) hlen hfl'
    refine Eq.trans ?_ hid.symm
    simp [forced, requestSocketTicket, getter_after, hget, hfl', hwaits'.unforced, hwaits'.slot]

/-- When the jobs are drained, a queued request is settled, or it waits for a call that is not. -/
theorem queued_settles (run : TicketRun) (n : ℕ) (hdrained : (run.after n).jobs = []) {id : ℕ}
    {q : QueuedTicket} (hq : (run.after n).queued[id]? = some q) (ho : q.settled = false) :
    ∃ c ∈ (run.after n).calls, c.settled = false ∧ ∃ job ∈ c.reactions, job.serves = some id := by
  have hser := @serves_after run n
  obtain ⟨job, hid, hjob | ⟨k, hjob⟩⟩ := hser.served id q hq ho
  · rw [hdrained] at hjob
    cases hjob
  cases hc : (run.after n).calls[k]? with simp only [reactions, hc] at hjob
  | none => cases hjob
  | some c =>
    refine ⟨c, mem_of_getElem? hc, ?_, job, hjob, hid⟩
    by_contra hs
    rw [Option.map_some, Option.getD_some,
      hser.spent c (mem_of_getElem? hc) (by simpa using hs)] at hjob
    cases hjob

/-- Two forced requests are made behind an unforced call, which is settled. -/
def twoForced : TicketRun where
  getSocketTicket := true
  events := [.request false false, .request true false, .request true false, .settle 0]

theorem forced_answered_twoForced : twoForced.Undisturbed ∧
    twoForced.forced false 2 = twoForced.forced false 1 := by
  have hcalm : twoForced.Undisturbed := by
    rintro n event hev ⟨⟨force, ready, rfl⟩, hn, id, hjob⟩
    rcases n with _ | _ | _ | _ | n
    · cases hjob
    · cases hn
    · cases hn
    · cases hev
    · cases hev
  refine ⟨hcalm, ?_⟩
  refine ((forced_answered twoForced).2 hcalm).2 1 2 false false 0 rfl (by decide) rfl rfl
    ?_ rfl
  rintro _ ⟨⟩
  rfl

/-- The second forced request gets the first one's call. -/
theorem forced_gets_earlier : ¬ ∀ (run : TicketRun) n m ready promise,
    run.events[n]? = some (.request true ready) → n < m →
    (run.after m).settledWith (run.forced ready n) = some promise →
    run.Fresh n m (run.forced ready n) promise := by
  intro h
  have hfr := h ⟨true, [.request true false, .request true false, .settle 0]⟩ 1 3 false (.call 0)
    rfl (by decide) rfl
  rcases hfr with ⟨hnull, -⟩ | ⟨_, ⟨⟩, hle⟩
  · cases hnull
  · exact absurd hle (by decide)

end TicketRun

end Kaos.Sync
