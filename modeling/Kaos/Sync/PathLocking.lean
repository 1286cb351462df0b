import Kaos.Sync.PathLockInvariants

/-! Path locks exclude each other, keep the order of requests and never deadlock. -/
namespace Kaos.Sync

open Kaos.Lib Kaos.Lib.LockChains PathLocks List Option

namespace PathLocks

variable {w : PathLocks} {k : ℕ} {link : PathLink}

variable {request : LockRequest}

variable {path : JsString}

/-- A running link has the links of its request's earlier paths running around it. -/
theorem exists_running (h : Locking w) (hk : w.chains.links[k]? = some link)
    (hrun : link.status = .running) (hr : w.requests[link.work.request]? = some request)
    (hp : path ∈ request.paths) : path ∈ link.work.rest ∨ ∃ (j : ℕ) (link' : PathLink),
      w.chains.links[j]? = some link' ∧ link'.work.request = link.work.request ∧
        link'.status = .running ∧ link'.key = path := by
  -- outwards over the links of the request, whose remaining paths grow
  induction hn : request.paths.length - link.work.rest.length using Nat.strongRecOn
    generalizing k link with
  | _ n ih =>
    rcases h.parent k link hk with ⟨request', hr', hps⟩ | ⟨j, link', hj, hs, hrs, -, hstatus⟩
    · rw [hr, Option.some.injEq] at hr'
      subst hr'
      rw [hps] at hp
      rcases mem_cons.mp hp with rfl | hp
      · exact .inr ⟨k, link, hk, rfl, hrun, rfl⟩
      · exact .inl hp
    have hrun' : link'.status = .running := by
      rcases hstatus with hstatus | hstatus
      · exact hstatus
      rw [hrun] at hstatus
      cases hstatus
    have hle : (link'.key :: link'.work.rest).length ≤ request.paths.length := by
      obtain ⟨request', hr', hsuf⟩ := h.owner j link' hj
      rw [hs, hr, Option.some.injEq] at hr'
      subst hr'
      exact hsuf.length_le
    rw [hrs, length_cons, length_cons] at hle
    have hlt : request.paths.length - link'.work.rest.length < n := by
      rw [hrs, length_cons]
      omega
    rcases ih _ hlt hj hrun' (hs ▸ hr) rfl with hmem | ⟨i, link'', hi, hs', hi'⟩
    · rw [hrs] at hmem
      rcases mem_cons.mp hmem with rfl | hmem
      · exact .inr ⟨k, link, hk, rfl, hrun, rfl⟩
      · exact .inl hmem
    · exact .inr ⟨i, link'', hi, hs'.trans hs, hi'⟩

/-- A running work holds every path of its request. -/
theorem holds_paths (h : Locking w) {r : ℕ} (hr : w.requests[r]? = some request)
    (hrun : request.work = .running) (hp : path ∈ request.paths) :
    ∃ (k : ℕ) (link : PathLink),
      w.chains.links[k]? = some link ∧ link.work.request = r ∧ link.status = .running ∧
        link.key = path := by
  rcases h.running r request hr hrun with he | ⟨k, link, hk, rfl, hstatus, hrs⟩
  · rw [he] at hp
    cases hp
  rcases exists_running h hk hstatus hr hp with hmem | hf
  · rw [hrs] at hmem
    cases hmem
  · exact hf

theorem disjoint_of_running (h : Locking w) {r r' : ℕ} {request request' : LockRequest}
    (hr : w.requests[r]? = some request) (hr' : w.requests[r']? = some request') (hne : r ≠ r')
    (hrun : request.work = .running) (hrun' : request'.work = .running) :
    request.paths.Disjoint request'.paths := by
  intro path hp hp'
  obtain ⟨k, link, hk, rfl, hstatus, hkey⟩ := holds_paths h hr hrun hp
  obtain ⟨j, link', hj, rfl, hstatus', hkey'⟩ := holds_paths h hr' hrun' hp'
  have hkj := h.chained.eq_of_running hk hj (hkey.trans hkey'.symm) hstatus hstatus'
  subst hkj
  rw [hk, Option.some.injEq] at hj
  exact hne (congrArg (fun link : PathLink => link.work.request) hj)

theorem settled_of_started (h : Locking w) {r r' : ℕ} {request request' : LockRequest}
    {rest rest' : List JsString} (hr : w.requests[r]? = some request)
    (hr' : w.requests[r']? = some request') (hlt : r < r') (hp : request.paths = path :: rest)
    (hp' : request'.paths = path :: rest') (hs : request'.work ≠ .notStarted) :
    ∃ fulfilled, request.work = .settled fulfilled := by
  obtain ⟨k, link, hk, rfl, hf⟩ := h.first r request hr (by rw [hp]; exact cons_ne_nil _ _)
  obtain ⟨k', link', hk', rfl, hf'⟩ := h.first r' request' hr' (by rw [hp']; exact cons_ne_nil _ _)
  have hkk : k < k' := by
    rcases Nat.lt_trichotomy k k' with hlt' | rfl | hlt'
    · exact hlt'
    · rw [hk, Option.some.injEq] at hk'
      subst hk'
      omega
    have := h.inOrder k' k link' link request' request hk' hk hlt' hr' hr hf' hf
    omega
  have hstatus : link'.status ≠ .waiting := by
    intro hwait
    exact hs ((h.newest k' link' hk' hwait).1 request' hr')
  have hkey : link.key = link'.key := by
    rw [hp] at hf
    rw [hp'] at hf'
    rw [← (List.cons.inj hf).1, ← (List.cons.inj hf').1]
  obtain ⟨request'', fulfilled, hr'', -, hset⟩ :=
    h.ended k link hk (h.chained.isOver_of_started hk' hstatus hk hkey hkk)
  rw [hr, Option.some.injEq] at hr''
  subst hr''
  exact ⟨fulfilled, hset⟩

/-- Neither a promise job nor the end of a work can happen. -/
def Quiescent (norm : JsString → JsString) (w : PathLocks) : Prop :=
  ∀ event : LockEvent, event.isRequest = false → w.lockStep norm event = none

/-- Every work has run, every promise is settled and no path is locked. -/
structure Drained (w : PathLocks) : Prop where
  works : ∀ request ∈ w.requests, ∃ fulfilled, request.work = .settled fulfilled
  links : ∀ link ∈ w.chains.links, link.status = .settled
  pathWriteLocks : w.chains.tails.entries = []

theorem lt_trans {p q s : JsString} (hpq : lt p q) (hqs : lt q s) : lt p s := by
  refine ⟨JsString.le_trans hpq.1 hqs.1, ?_⟩
  rintro rfl
  exact hpq.2 (JsString.le_antisymm hpq.1 hqs.1)

variable {norm : JsString → JsString}

/-- An unsettled link of a quiescent state waits for its predecessor or for its inner link. -/
theorem blocked_of_quiescent (h : Locking w) (hq : Quiescent norm w)
    (hk : w.chains.links[k]? = some link) (huns : link.status ≠ .settled) :
    w.chains.isFree link = false ∨ ∃ (m : ℕ) (link' : PathLink),
      w.chains.links[m]? = some link' ∧ link'.status ≠ .settled ∧ lt link.key link'.key := by
  cases hstatus : link.status with
  | waiting =>
    left
    have hn := hq (.start k) rfl
    rw [lockStep, hk] at hn
    by_contra hf
    simp [hstatus, hf] at hn
  | running =>
    right
    have hn := hq (.clean k) rfl
    rw [lockStep, hk] at hn
    have hout : w.workOutcome link = none := by
      cases hout : w.workOutcome link with
      | none => rfl
      | some fulfilled => simp [hstatus, hout] at hn
    obtain ⟨request, hr, hsuf⟩ := h.owner k link hk
    cases hinner : link.work.inner with
    | none =>
      have hs := h.own k link request hk hstatus hinner hr
      have hnot : request.work ≠ .running := by
        intro hrun
        have hn' := hq (.settleWork link.work.request true) rfl
        rw [lockStep, hr] at hn'
        simp [hrun] at hn'
      rw [workOutcome, hinner, hr] at hout
      cases hwork : request.work with
      | notStarted => exact absurd hwork hs
      | running => exact absurd hwork hnot
      | settled fulfilled => simp [hwork] at hout
    | some c =>
      obtain ⟨link', hc, -, hrs⟩ := h.inner k link c hk hinner
      refine ⟨c, link', hc, ?_, ?_⟩
      · intro hset
        obtain ⟨-, fulfilled, -, hful, -⟩ := h.ended c link' hc (by rw [hset]; rfl)
        rw [workOutcome, hinner] at hout
        simp [hc, hset, hful] at hout
      have hso := (h.sorted request (mem_of_getElem? hr)).sublist hsuf.sublist
      apply rel_of_pairwise_cons hso
      rw [hrs]
      exact mem_cons_self
  | cleaned =>
    have hn := hq (.settle k) rfl
    rw [lockStep, hk] at hn
    simp [hstatus] at hn
  | settled => exact absurd hstatus huns

theorem works_settled (h : Locking w) (hlinks : ∀ link ∈ w.chains.links, link.status = .settled)
    (hmem : request ∈ w.requests) (hne : request.paths ≠ []) :
    ∃ fulfilled, request.work = .settled fulfilled := by
  obtain ⟨r, hlt, hget⟩ := mem_iff_getElem.mp hmem
  have hr : w.requests[r]? = some request := by rw [getElem?_eq_getElem hlt, hget]
  obtain ⟨k, link, hk, rfl, -⟩ := h.first r request hr hne
  have hstatus := hlinks link (mem_of_getElem? hk)
  obtain ⟨request', fulfilled, hr', -, hset⟩ := h.ended k link hk (by rw [hstatus]; rfl)
  rw [hr, Option.some.injEq] at hr'
  subst hr'
  exact ⟨fulfilled, hset⟩

theorem tails_eq_empty (h : Locking w) (hlinks : ∀ link ∈ w.chains.links, link.status = .settled) :
    w.chains.tails.entries = [] := by
  apply h.chained.tails_eq_empty
  intro k link hk
  rw [hlinks link (mem_of_getElem? hk)]
  rfl

theorem drained_of_quiescent (h : Locking w) (hq : Quiescent norm w) : Drained w := by
  have hlinks : ∀ link ∈ w.chains.links, link.status = .settled := by
    apply h.chained.all_settled lt
    · intro a b d
      exact lt_trans
    · intro a ha
      exact ha.2 rfl
    intro k link hk huns
    exact blocked_of_quiescent h hq hk huns
  refine ⟨?_, hlinks, tails_eq_empty h hlinks⟩
  intro request hmem
  by_cases hne : request.paths = []
  · cases hwork : request.work with
    | notStarted => exact absurd hwork (h.empty request hmem hne)
    | running =>
      obtain ⟨r, hlt, hget⟩ := mem_iff_getElem.mp hmem
      have hn := hq (.settleWork r true) rfl
      rw [lockStep, getElem?_eq_getElem hlt, hget] at hn
      simp [hwork] at hn
    | settled fulfilled => exact ⟨fulfilled, rfl⟩
  · exact works_settled h hlinks hmem hne

/-- What a link has still to do; a path it has not acquired yet counts for a whole link. -/
def linkCost (link : PathLink) : ℕ :=
  match link.status with
  | .waiting => 6 * link.work.rest.length + 5
  | .running => 2
  | .cleaned => 1
  | .settled => 0

def workCost (request : LockRequest) : ℕ :=
  match request.work with
  | .notStarted => 2
  | .running => 1
  | .settled _ => 0

/-- A bound on the promise jobs and ends of works to come. -/
def remaining (w : PathLocks) : ℕ :=
  (w.chains.links.map linkCost).sum + (w.requests.map workCost).sum

theorem sum_map_set {α : Type*} {l : List α} {i : ℕ} {a : α} (hi : l[i]? = some a) (f : α → ℕ)
    (b : α) : ((l.set i b).map f).sum + f a = (l.map f).sum + f b := by
  induction l generalizing i with
  | nil => cases hi
  | cons c l ih =>
    cases i with
    | zero =>
      cases hi
      simp only [set_cons_zero, map_cons, sum_cons]
      omega
    | succ i =>
      have := ih hi
      simp only [set_cons_succ, map_cons, sum_cons]
      omega

theorem remaining_start (hk : w.chains.links[k]? = some link) (hwait : link.status = .waiting)
    (hr : w.requests[link.work.request]? = some request) :
    (w.start k link).remaining < w.remaining := by
  have hcost : linkCost link = 6 * link.work.rest.length + 5 := by
    rw [linkCost, hwait]
  cases hrs : link.work.rest with
  | nil =>
    have hlinks := sum_map_set hk linkCost
      { link with status := .running, work := { link.work with inner := none } }
    have hworks := sum_map_set hr workCost { request with work := .running }
    simp only [start_nil hr hrs, remaining, LockChains.start]
    simp only [linkCost, workCost] at hlinks hworks hcost ⊢
    omega
  | cons path rest =>
    have hk' : (w.chains.push path { request := link.work.request, rest }).links[k]? = some link :=
      getElem?_push hk
    have hlinks := sum_map_set hk' linkCost { link with
      status := .running, work := { link.work with inner := some w.chains.links.length } }
    simp only [links_push, map_append, map_cons, map_nil, sum_append, sum_cons, sum_nil] at hlinks
    simp only [start_cons hrs, remaining, LockChains.start, links_push]
    simp only [linkCost, newLink, hwait, hrs, length_cons] at hlinks ⊢
    omega

variable {w' : PathLocks}

theorem remaining_step (h : Locking w) {event : LockEvent} (hreq : event.isRequest = false)
    (hs : w.lockStep norm event = some w') : w'.remaining < w.remaining := by
  cases lockStep_cases hs with
  | request hp =>
    cases event with
    | runPathWriteLocked | runPathWritesLocked => cases hreq
    | _ => cases hp
  | @start k link hk hwait hf =>
    obtain ⟨request, hr, -⟩ := h.owner k link hk
    exact remaining_start hk hwait hr
  | @settleWork r fulfilled request hr hrun =>
    have hworks := sum_map_set hr workCost { request with work := .settled fulfilled }
    simp only [workCost, hrun] at hworks
    simp only [remaining]
    omega
  | @clean k link fulfilled hk hrun hout =>
    have hlinks := sum_map_set hk linkCost { link with
      status := .cleaned, work := { link.work with outcome := some fulfilled } }
    simp only [linkCost, hrun] at hlinks
    simp only [remaining, LockChains.clean]
    omega
  | @settle k link hk hc =>
    have hlinks := sum_map_set hk linkCost { link with status := .settled }
    simp only [linkCost, hc] at hlinks
    simp only [remaining, LockChains.settle]
    omega

/-- A call appends its request, nothing else adds, removes or changes one's paths. -/
theorem map_paths_step {event : LockEvent} (hs : w.lockStep norm event = some w') :
    w'.requests.map (·.paths) = w.requests.map (·.paths) ++ (requestedPaths norm event).toList := by
  have hacq : ∀ (w : PathLocks) (r : ℕ) (paths : List JsString),
      (w.acquire r paths).1.requests.map (·.paths) = w.requests.map (·.paths) := by
    intro w r paths
    cases paths with
    | nil =>
      apply List.ext_getElem?
      intro i
      rw [acquire, getElem?_map, getElem?_map, getElem?_modify]
      split <;> simp [Function.comp_def]
    | cons path rest => rfl
  cases lockStep_cases hs with
  | request hp =>
    rw [hp]
    exact (hacq _ _ _).trans map_append
  | start => exact (hacq _ _ _).trans (append_nil _).symm
  | settleWork hr =>
    obtain ⟨hlt, rfl⟩ := List.getElem?_eq_some_iff.mp hr
    refine Eq.trans ?_ (append_nil _).symm
    apply List.ext_getElem?
    intro i
    rw [getElem?_map, getElem?_map, getElem?_set]
    split
    · next heq => simp [← heq, hlt]
    · rfl
  | clean | settle => exact (append_nil _).symm

/-- A work is settled by the end of that work alone, and while it runs. -/
theorem settled_step {event : LockEvent} (hst : w.lockStep norm event = some w') {r : ℕ}
    {fulfilled : Bool} (hr : w'.requests[r]? = some request)
    (hs : request.work = .settled fulfilled) : w.requests[r]? = some request ∨
      event = .settleWork r fulfilled ∧
        ∃ running, w.requests[r]? = some running ∧ running.work = .running := by
  have hacq : ∀ (w : PathLocks) (r' : ℕ) (paths : List JsString),
      (w.acquire r' paths).1.requests[r]? = some request → w.requests[r]? = some request := by
    intro w r' paths hr
    cases paths with
    | cons path rest => exact hr
    | nil =>
      rw [acquire, getElem?_modify] at hr
      split at hr
      · obtain ⟨old, -, rfl⟩ := Option.map_eq_some_iff.mp hr
        cases hs
      · simpa using hr
  cases lockStep_cases hst with
  | request hp =>
    left
    have hold := hacq _ _ _ hr
    rcases Nat.lt_or_ge r w.requests.length with hlt | hge
    · rwa [getElem?_append_left hlt] at hold
    rw [getElem?_append_right hge] at hold
    rw [mem_singleton.mp (mem_of_getElem? hold)] at hs
    cases hs
  | start => exact .inl (hacq _ _ _ hr)
  | @settleWork r' _ running hr' hrun =>
    rcases getElem?_set_cases hr with ⟨-, hr⟩ | ⟨rfl, rfl⟩
    · exact .inl hr
    · cases hs
      exact .inr ⟨rfl, running, hr', hrun⟩
  | clean | settle => exact .inl hr

/-- A promise job or the end of a work. -/
def Internal (norm : JsString → JsString) (w : PathLocks) (event : LockEvent)
    (w' : PathLocks) : Prop :=
  event.isRequest = false ∧ w.lockStep norm event = some w'

theorem locking_internal {more : List LockEvent} (h : Locking w)
    (htrace : Trace (Internal norm) w more w') :
    Locking w' ∧ more.length + w'.remaining ≤ w.remaining := by
  induction htrace with
  | refl => exact ⟨h, Nat.le_of_eq (Nat.zero_add _)⟩
  | stepL hs _ ih =>
    obtain ⟨hloc, hle⟩ := ih (locking_step h hs.2)
    have hlt := remaining_step h hs.1 hs.2
    refine ⟨hloc, ?_⟩
    rw [length_cons]
    omega

theorem paths_internal {more : List LockEvent} (htrace : Trace (Internal norm) w more w') :
    w'.requests.map (·.paths) = w.requests.map (·.paths) := by
  induction htrace with
  | refl => rfl
  | @stepL w _ _ event _ hs _ ih =>
    have hn : requestedPaths norm event = none := by
      cases event with
      | runPathWriteLocked | runPathWritesLocked => cases hs.1
      | _ => rfl
    rw [ih, map_paths_step hs.2, hn, Option.toList_none, append_nil]

section Runs

variable (norm : JsString → JsString) (events : List LockEvent) (n : ℕ)

/-- Nothing has happened, or something that could not, or a step has been made. -/
theorem locksAt_step : (∀ event, events[n]? = some event →
      requestedPaths norm event = none) ∧
      locksAt norm events (n + 1) = locksAt norm events n ∨
    ∃ event, events[n]? = some event ∧ (locksAt norm events n).lockStep norm event =
      some (locksAt norm events (n + 1)) := by
  rcases stateAt_step (lockNext norm) {} events n with ⟨hn, hsa⟩ | ⟨event, hev, hnx⟩
  · exact .inl ⟨by simp [hn], hsa⟩
  change locksAt norm events (n + 1) = lockNext norm (locksAt norm events n) event at hnx
  cases hs : (locksAt norm events n).lockStep norm event with
  | none =>
    refine .inl ⟨?_, by rw [hnx, lockNext, hs, Option.getD_none]⟩
    rintro event' hev'
    cases hev.symm.trans hev'
    cases event with
    | runPathWriteLocked | runPathWritesLocked => cases hs
    | _ => rfl
  | some w' =>
    refine .inr ⟨event, hev, ?_⟩
    rw [hnx, lockNext, hs, Option.getD_some]

theorem map_paths_locksAt : (locksAt norm events n).requests.map (·.paths) =
    (events.take n).filterMap (requestedPaths norm) := by
  induction n with
  | zero => rfl
  | succ n ih =>
    rw [take_add_one, filterMap_append, ← ih]
    rcases locksAt_step norm events n with ⟨hn, hs⟩ | ⟨event, hev, hst⟩
    · rw [hs]
      cases hev : events[n]? with
      | none => simp
      | some event => simp [hn event hev]
    · rw [map_paths_step hst, hev]
      cases hp : requestedPaths norm event with
      | none => simp [hp]
      | some paths => simp [hp]

theorem links_locksAt (event : LockEvent) (path : JsString) (rest : List JsString)
    (hev : events[n]? = some event)
    (hp : requestedPaths norm event = some (path :: rest)) :
    (locksAt norm events (n + 1)).chains.links =
      (locksAt norm events n).chains.links ++
        [(locksAt norm events n).chains.newLink path
          { request := (locksAt norm events n).requests.length, rest }] := by
  rcases locksAt_step norm events n with ⟨hn, -⟩ | ⟨event', hev', hs⟩
  · cases (hn event hev).symm.trans hp
  cases hev.symm.trans hev'
  cases event with
  | runPathWriteLocked path' =>
    cases hp
    rw [← Option.some.inj hs]
    rfl
  | runPathWritesLocked paths =>
    rw [← Option.some.inj hs, runPathWritesLocked, Option.some.inj hp]
    rfl
  | _ => cases hp

theorem settled_locksAt {r : ℕ} {fulfilled : Bool}
    (hr : (locksAt norm events n).requests[r]? = some request)
    (hs : request.work = .settled fulfilled) : ∃ m < n,
      events[m]? = some (.settleWork r fulfilled) ∧ ∃ running,
        (locksAt norm events m).requests[r]? = some running ∧ running.work = .running := by
  induction n with
  | zero => cases hr
  | succ n ih =>
    rcases locksAt_step norm events n with ⟨-, hsa⟩ | ⟨event, hev, hst⟩
    · obtain ⟨m, hm, hrs⟩ := ih (hsa ▸ hr)
      exact ⟨m, Nat.lt_succ_of_lt hm, hrs⟩
    rcases settled_step hst hr hs with hold | ⟨rfl, hrun⟩
    · obtain ⟨m, hm, hrs⟩ := ih hold
      exact ⟨m, Nat.lt_succ_of_lt hm, hrs⟩
    · exact ⟨n, Nat.lt_succ_self n, hev, hrun⟩

end Runs

end PathLocks

/-- Per-path locking is exclusive, ordered and free of deadlocks. Each call appends its request and
the link of its first path, and a work is settled by its own end. -/
structure PathLocking (norm : JsString → JsString) (events : List LockEvent) : Prop where
  requested : ∀ n, (locksAt norm events n).requests.map (·.paths) =
    (events.take n).filterMap (requestedPaths norm)
  linked : ∀ (n : ℕ) (event : LockEvent) path rest, events[n]? = some event →
    requestedPaths norm event = some (path :: rest) →
    (locksAt norm events (n + 1)).chains.links =
      (locksAt norm events n).chains.links ++
        [(locksAt norm events n).chains.newLink path
          { request := (locksAt norm events n).requests.length, rest }]
  ran : ∀ (n r : ℕ) (request : LockRequest) (fulfilled : Bool),
    (locksAt norm events n).requests[r]? = some request →
    request.work = .settled fulfilled → ∃ m < n, events[m]? = some (.settleWork r fulfilled) ∧
      ∃ running, (locksAt norm events m).requests[r]? = some running ∧ running.work = .running
  exclusive : ∀ (n r r' : ℕ) (request request' : LockRequest),
    (locksAt norm events n).requests[r]? = some request →
    (locksAt norm events n).requests[r']? = some request' → r ≠ r' →
    request.work = .running → request'.work = .running →
    request.paths.Disjoint request'.paths
  ordered : ∀ (n r r' : ℕ) (request request' : LockRequest) path rest rest',
    (locksAt norm events n).requests[r]? = some request →
    (locksAt norm events n).requests[r']? = some request' → r < r' →
    request.paths = path :: rest → request'.paths = path :: rest' →
    request'.work ≠ .notStarted → ∃ fulfilled, request.work = .settled fulfilled
  outcome : ∀ (n k : ℕ) (link : PathLink),
    (locksAt norm events n).chains.links[k]? = some link →
    link.status = .settled → ∃ request fulfilled,
      (locksAt norm events n).requests[link.work.request]? = some request ∧
        link.work.outcome = some fulfilled ∧ request.work = .settled fulfilled
  cleared : ∀ n, (∀ link ∈ (locksAt norm events n).chains.links,
    link.status = .settled) → (locksAt norm events n).chains.tails.entries = []
  bounded : ∀ n more w, Trace (PathLocks.Internal norm)
    (locksAt norm events n) more w →
    more.length ≤ (locksAt norm events n).remaining
  drained : ∀ n more w, Trace (PathLocks.Internal norm)
    (locksAt norm events n) more w → PathLocks.Quiescent norm w →
    w.requests.map (·.paths) = (events.take n).filterMap (requestedPaths norm) ∧ PathLocks.Drained w

theorem path_locking (norm : JsString → JsString) (events : List LockEvent) :
    PathLocking norm events := by
  have hloc := locking_at norm events
  refine ⟨map_paths_locksAt norm events, links_locksAt norm events, ?_, ?_, ?_, ?_, ?_, ?_, ?_⟩
  · intro n r request fulfilled hr hs
    exact settled_locksAt norm events n hr hs
  · intro n r r' request request' hr hr' hne hrun hrun'
    exact disjoint_of_running (hloc n) hr hr' hne hrun hrun'
  · intro n r r' request request' path rest rest' hr hr' hlt hp hp' hstd
    exact settled_of_started (hloc n) hr hr' hlt hp hp' hstd
  · intro n k link hk hs
    apply (hloc n).ended k link hk
    rw [hs]
    rfl
  · intro n hlinks
    exact tails_eq_empty (hloc n) hlinks
  · intro n more w htrace
    have hle := (locking_internal (hloc n) htrace).2
    omega
  intro n more w htrace hq
  exact ⟨(paths_internal htrace).trans (map_paths_locksAt norm events n),
    drained_of_quiescent (locking_internal (hloc n) htrace).1 hq⟩

section Example

/-- The first of two writes of a path fails; the second takes another path before it. -/
def twoWrites : List LockEvent :=
  [.runPathWriteLocked (js "b"), .runPathWritesLocked [js "b", js "a", js "b"], .start 0, .start 1,
    .settleWork 0 false, .clean 0, .settle 0, .start 2, .settleWork 1 true, .clean 2, .settle 2,
    .clean 1, .settle 1]

theorem path_locking_twoWrites : PathLocking id twoWrites ∧
    (locksAt id twoWrites 13).requests.map (·.paths) = [[js "b"], [js "a", js "b"]] ∧
    (locksAt id twoWrites 13).requests.map (·.work) = [.settled false, .settled true] ∧
    (locksAt id twoWrites 13).chains.tails.entries = [] := by
  have hloc := path_locking id twoWrites
  refine ⟨hloc, hloc.requested 13, ?_, ?_⟩ <;> decide

end Example

end Kaos.Sync
