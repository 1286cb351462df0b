import Kaos.Sync.PathWriteLocks

/-! What the path locks are at all times. -/
namespace Kaos.Sync.PathLocks

open Kaos.Lib Kaos.Lib.LockChains List Option

/-- The order in which a request takes its paths. -/
def lt (p q : JsString) : Prop := p.le q = true ∧ p ≠ q

/-- What the links and their requests are at all times. -/
structure Locking (w : PathLocks) : Prop where
  chained : w.chains.Chained
  owner : ∀ (k : ℕ) (link : PathLink), w.chains.links[k]? = some link →
    ∃ request, w.requests[link.work.request]? = some request ∧
      (link.key :: link.work.rest) <:+ request.paths
  inner : ∀ (k : ℕ) (link : PathLink) (c : ℕ), w.chains.links[k]? = some link →
    link.work.inner = some c → ∃ link' : PathLink, w.chains.links[c]? = some link' ∧
      link'.work.request = link.work.request ∧ link.work.rest = link'.key :: link'.work.rest
  own : ∀ (k : ℕ) (link : PathLink) (request : LockRequest), w.chains.links[k]? = some link →
    link.status = .running → link.work.inner = none →
    w.requests[link.work.request]? = some request → request.work ≠ .notStarted
  ended : ∀ (k : ℕ) (link : PathLink), w.chains.links[k]? = some link → link.status.isOver = true →
    ∃ request fulfilled, w.requests[link.work.request]? = some request ∧
      link.work.outcome = some fulfilled ∧ request.work = .settled fulfilled
  parent : ∀ (k : ℕ) (link : PathLink), w.chains.links[k]? = some link →
    (∃ request, w.requests[link.work.request]? = some request ∧
      request.paths = link.key :: link.work.rest) ∨
    ∃ (j : ℕ) (link' : PathLink), w.chains.links[j]? = some link' ∧
      link'.work.request = link.work.request ∧ link'.work.rest = link.key :: link.work.rest ∧
      link'.work.inner = some k ∧ (link'.status = .running ∨ link.status = .settled)
  running : ∀ (r : ℕ) (request : LockRequest), w.requests[r]? = some request →
    request.work = .running → request.paths = [] ∨ ∃ (k : ℕ) (link : PathLink),
      w.chains.links[k]? = some link ∧ link.work.request = r ∧ link.status = .running ∧
        link.work.rest = []
  newest : ∀ (k : ℕ) (link : PathLink), w.chains.links[k]? = some link → link.status = .waiting →
    (∀ request, w.requests[link.work.request]? = some request → request.work = .notStarted) ∧
    ∀ (j : ℕ) (link' : PathLink), w.chains.links[j]? = some link' → j ≠ k →
      link'.work.request = link.work.request → link.work.rest.length < link'.work.rest.length
  inOrder : ∀ (j k : ℕ) (link link' : PathLink) (request request' : LockRequest),
    w.chains.links[j]? = some link → w.chains.links[k]? = some link' → j < k →
    w.requests[link.work.request]? = some request → w.requests[link'.work.request]? = some request' →
    request.paths = link.key :: link.work.rest → request'.paths = link'.key :: link'.work.rest →
    link.work.request < link'.work.request
  first : ∀ (r : ℕ) (request : LockRequest), w.requests[r]? = some request → request.paths ≠ [] →
    ∃ (k : ℕ) (link : PathLink), w.chains.links[k]? = some link ∧ link.work.request = r ∧
      request.paths = link.key :: link.work.rest
  sorted : ∀ request ∈ w.requests, request.paths.Pairwise lt
  empty : ∀ request ∈ w.requests, request.paths = [] → request.work ≠ .notStarted

variable {w : PathLocks} {k : ℕ} {link : PathLink}

theorem locking_settle (h : Locking w) (hk : w.chains.links[k]? = some link)
    (hc : link.status = .cleaned) : Locking { w with chains := w.chains.settle k link } := by
  have hlt : k < w.chains.links.length := by grind
  refine ⟨chained_settle h.chained hk hc, ?_, ?_, ?_, ?_, ?_, ?_, ?_, ?_, ?_, h.sorted, h.empty⟩
  all_goals simp only [settle]
  · have := h.owner
    grind
  · have := h.inner
    grind
  · have := h.own
    grind
  · have := h.ended
    grind [LinkStatus.isOver]
  · intro i l hi
    have hold : ∃ l₀, w.chains.links[i]? = some l₀ ∧ l.key = l₀.key ∧ l.work = l₀.work ∧
        (l₀.status = .settled → l.status = .settled) := by
      grind
    obtain ⟨l₀, hi₀, hkey, hwork, hset⟩ := hold
    rw [hkey, hwork]
    rcases h.parent i l₀ hi₀ with hf | ⟨j, l', hj, hl'⟩
    · exact .inl hf
    obtain ⟨l'', hj', hl''⟩ := exists_getElem?_set hk { link with status := .settled } hj
    right
    refine ⟨j, l'', hj', ?_⟩
    grind
  · intro r request hr hrun
    rcases h.running r request hr hrun with he | ⟨j, l', hj, hl'⟩
    · exact .inl he
    obtain ⟨l'', hj', hl''⟩ := exists_getElem?_set hk { link with status := .settled } hj
    right
    refine ⟨j, l'', hj', ?_⟩
    grind
  · have := h.newest
    grind
  · have := h.inOrder
    grind
  intro r request hr hne
  obtain ⟨j, l', hj, hl'⟩ := h.first r request hr hne
  obtain ⟨l'', hj', hl''⟩ := exists_getElem?_set hk { link with status := .settled } hj
  refine ⟨j, l'', hj', ?_⟩
  grind

theorem locking_clean (h : Locking w) (hk : w.chains.links[k]? = some link)
    (hrunning : link.status = .running) {fulfilled : Bool}
    (hout : w.workOutcome link = some fulfilled) :
    Locking { w with
      chains := w.chains.clean k link { link.work with outcome := some fulfilled } } := by
  have hlt : k < w.chains.links.length := by grind
  have ho : ∃ request, w.requests[link.work.request]? = some request ∧
      request.work = .settled fulfilled := by
    have := h.ended
    have := h.inner
    unfold workOutcome at hout
    grind [LinkStatus.isOver]
  have hinner : ∀ c, link.work.inner = some c → ∃ link' : PathLink,
      w.chains.links[c]? = some link' ∧ link'.status = .settled := by
    intro c hc
    unfold workOutcome at hout
    grind
  have hset : ∀ {j : ℕ} {l' : PathLink}, w.chains.links[j]? = some l' → _ :=
    exists_getElem?_set hk
      { link with status := .cleaned, work := { link.work with outcome := some fulfilled } }
  refine ⟨chained_clean h.chained hk hrunning, ?_, ?_, ?_, ?_, ?_, ?_, ?_, ?_, ?_, h.sorted, h.empty⟩
  all_goals simp only [clean]
  · have := h.owner
    grind
  · have := h.inner
    grind
  · have := h.own
    grind
  · have := h.ended
    grind [LinkStatus.isOver]
  · intro i l hi
    have hold : ∃ l₀, w.chains.links[i]? = some l₀ ∧ l.key = l₀.key ∧
        l.work.rest = l₀.work.rest ∧ l.work.request = l₀.work.request ∧
        (l₀.status = .settled → l.status = .settled) ∧ (l.status = l₀.status ∨ i = k) := by
      grind
    obtain ⟨l₀, hi₀, hkey, hrs₀, hreq₀, hsettle⟩ := hold
    rw [hkey, hrs₀, hreq₀]
    rcases h.parent i l₀ hi₀ with hf | ⟨j, l', hj, hl'⟩
    · exact .inl hf
    obtain ⟨l'', hj', hl''⟩ := hset hj
    right
    refine ⟨j, l'', hj', ?_⟩
    grind
  · intro r request hr hrun
    rcases h.running r request hr hrun with he | ⟨j, l', hj, hl'⟩
    · exact .inl he
    obtain ⟨l'', hj', hl''⟩ := hset hj
    right
    refine ⟨j, l'', hj', ?_⟩
    grind
  · have := h.newest
    grind
  · have := h.inOrder
    grind
  intro r request hr hne
  obtain ⟨j, l', hj, hl'⟩ := h.first r request hr hne
  obtain ⟨l'', hj', hl''⟩ := hset hj
  refine ⟨j, l'', hj', ?_⟩
  grind

variable {request : LockRequest}

theorem locking_settleWork (h : Locking w) {r : ℕ}
    (hr : w.requests[r]? = some request) (hrun : request.work = .running) (fulfilled : Bool) :
    Locking { w with
      requests := w.requests.set r { request with work := .settled fulfilled } } := by
  have hlt : r < w.requests.length := by grind
  refine ⟨h.chained, ?_, h.inner, ?_, ?_, ?_, ?_, ?_, ?_, ?_, ?_, ?_⟩
  · have := h.owner
    grind
  · have := h.own
    grind
  · have := h.ended
    grind
  · intro i l hi
    rcases h.parent i l hi with ⟨request', hr', hp⟩ | hpar
    · left
      by_cases hs : l.work.request = r
      · refine ⟨{ request with work := .settled fulfilled }, ?_, ?_⟩ <;> grind
      refine ⟨request', ?_, hp⟩
      grind
    · exact .inr hpar
  · have := h.running
    grind
  · have := h.newest
    grind
  · have := h.inOrder
    grind
  · have := h.first
    grind
  · have := h.sorted
    grind
  have := h.empty
  grind

theorem start_nil (hr : w.requests[link.work.request]? = some request)
    (hrs : link.work.rest = []) : w.start k link = { w with
      chains := w.chains.start k link { link.work with inner := none }
      requests := w.requests.set link.work.request { request with work := .running } } := by
  obtain ⟨hltr, -⟩ := List.getElem?_eq_some_iff.mp hr
  have hmod : w.requests.modify link.work.request
      (fun request => { request with work := .running }) =
      w.requests.set link.work.request { request with work := .running } := by
    apply List.ext_getElem?
    intro i
    rw [List.getElem?_modify, List.getElem?_set]
    by_cases hi : link.work.request = i
    · subst hi
      simp only [hr, hltr, if_true, Option.map_eq_map, Option.map_some]
    · simp [hi]
  rw [PathLocks.start, hrs, acquire, hmod]

variable {path : JsString} {rest : List JsString}

theorem start_cons (hr : link.work.rest = path :: rest) : w.start k link = { w with
      chains := (w.chains.push path { request := link.work.request, rest }).start k link
        { link.work with inner := some w.chains.links.length } } := by
  rw [PathLocks.start, hr, acquire]

section

variable (h : Locking w) (hk : w.chains.links[k]? = some link) (hwaiting : link.status = .waiting)
include h hk hwaiting

/-- Two links that wait are of two requests. -/
theorem request_ne_of_waiting {i : ℕ} {l : PathLink} (hi : w.chains.links[i]? = some l)
    (hw : l.status = .waiting) (hne : i ≠ k) : l.work.request ≠ link.work.request := by
  intro heq
  have h₁ := (h.newest i l hi hw).2 k link hk (Ne.symm hne) heq.symm
  have h₂ := (h.newest k link hk hwaiting).2 i l hi hne heq
  omega

variable (hfree : w.chains.isFree link = true)
include hfree

/-- The start of a link with no path left starts its request's work. -/
theorem locking_start_nil (hrs : link.work.rest = []) : Locking (w.start k link) := by
  obtain ⟨request, hr, hsuf⟩ := h.owner k link hk
  obtain ⟨hnot, hnew⟩ := h.newest k link hk hwaiting
  have hlt : k < w.chains.links.length := by grind
  have hltr : link.work.request < w.requests.length := by grind
  rw [start_nil hr hrs]
  have hreq : ∀ (r : ℕ) (request' : LockRequest), w.requests[r]? = some request' →
      ∃ request'' : LockRequest,
      (w.requests.set link.work.request { request with work := .running })[r]? = some request'' ∧
        request''.paths = request'.paths := by
    intro r request' hr'
    by_cases hs : r = link.work.request
    · refine ⟨{ request with work := .running }, ?_, ?_⟩ <;> grind
    refine ⟨request', ?_, rfl⟩
    grind
  have hb : ∀ (r : ℕ) (request' : LockRequest),
      (w.requests.set link.work.request { request with work := .running })[r]? = some request' →
      ∃ request'' : LockRequest, w.requests[r]? = some request'' ∧
        request'.paths = request''.paths := by
    grind
  have hlinks : ∀ (i : ℕ) (l : PathLink), (w.chains.links.set k { link with
        status := .running, work := { link.work with inner := none } })[i]? = some l →
      ∃ l₀ : PathLink, w.chains.links[i]? = some l₀ ∧ l.key = l₀.key ∧
        l.work.rest = l₀.work.rest ∧ l.work.request = l₀.work.request := by
    grind
  have hset : ∀ {j : ℕ} {l' : PathLink}, w.chains.links[j]? = some l' → _ :=
    exists_getElem?_set hk
      { link with status := .running, work := { link.work with inner := none } }
  refine ⟨chained_start h.chained hk hwaiting hfree, ?_, ?_, ?_, ?_, ?_, ?_, ?_, ?_, ?_, ?_, ?_⟩
  all_goals simp only [LockChains.start]
  · have := h.owner
    grind
  · have := h.inner
    grind
  · have := h.own
    grind
  · have := h.ended
    grind [LinkStatus.isOver]
  · intro i l hi
    have hold : ∃ l₀, w.chains.links[i]? = some l₀ ∧ l.key = l₀.key ∧
        l.work.rest = l₀.work.rest ∧ l.work.request = l₀.work.request ∧
        (l₀.status = .settled → l.status = .settled) := by
      grind
    obtain ⟨l₀, hi₀, hkey, hrs₀, hreq₀, hsettle⟩ := hold
    rw [hkey, hrs₀, hreq₀]
    rcases h.parent i l₀ hi₀ with ⟨request', hr', hps⟩ | ⟨j, l', hj, hl'⟩
    · left
      obtain ⟨request'', hr'', hps'⟩ := hreq _ request' hr'
      exact ⟨request'', hr'', hps'.trans hps⟩
    obtain ⟨l'', hj', hl''⟩ := hset hj
    right
    refine ⟨j, l'', hj', ?_⟩
    -- a settled link's request has run, so `k` is no parent of one
    grind [LinkStatus.isOver]
  · intro r request' hr' hrun
    by_cases hs : r = link.work.request
    · right
      refine ⟨k, _, getElem?_set_link hk, ?_⟩
      grind
    have hold : w.requests[r]? = some request' := by
      grind
    rcases h.running r request' hold hrun with he | ⟨j, l', hj, hl'⟩
    · exact .inl he
    right
    obtain ⟨l'', hj', hl''⟩ := hset hj
    refine ⟨j, l'', hj', ?_⟩
    grind
  · intro i l hi hw
    rcases getElem?_set_cases hi with ⟨hne, hi⟩ | ⟨-, rfl⟩
    · obtain ⟨hn, hlen⟩ := h.newest i l hi hw
      have hdiff := request_ne_of_waiting h hk hwaiting hi hw hne
      rw [getElem?_set_ne (Ne.symm hdiff)]
      refine ⟨hn, ?_⟩
      intro j l' hj hji hs
      rcases getElem?_set_cases hj with ⟨-, hj⟩ | ⟨rfl, rfl⟩
      · exact hlen j l' hj hji hs
      · exact hlen j link hk hji hs
    · cases hw
  · intro i j l l' q q' hi hj hij hq hq' hp hp'
    obtain ⟨l₀, hi₀, hkey, hrs₀, hreq₀⟩ := hlinks i l hi
    obtain ⟨l₁, hj₁, hkey', hrs₁, hreq₁⟩ := hlinks j l' hj
    obtain ⟨q₀, hq₀, hps⟩ := hb _ q hq
    obtain ⟨q₁, hq₁, hps'⟩ := hb _ q' hq'
    rw [hreq₀] at hq₀ ⊢
    rw [hreq₁] at hq₁ ⊢
    apply h.inOrder i j l₀ l₁ q₀ q₁ hi₀ hj₁ hij hq₀ hq₁
    · rw [← hps, hp, hkey, hrs₀]
    · rw [← hps', hp', hkey', hrs₁]
  · intro r request' hr' hne
    obtain ⟨request'', hr'', hps⟩ := hb r request' hr'
    obtain ⟨j, l', hj, hl'⟩ := h.first r request'' hr'' (hps ▸ hne)
    obtain ⟨l'', hj', hl''⟩ := hset hj
    refine ⟨j, l'', hj', ?_⟩
    grind
  · have := h.sorted
    grind
  have := h.empty
  grind

/-- The start of a link with a path left makes the link of that path. -/
theorem locking_start_cons {path : JsString} {rest : List JsString}
    (hrs : link.work.rest = path :: rest) : Locking (w.start k link) := by
  obtain ⟨request, hr, hsuf⟩ := h.owner k link hk
  obtain ⟨hnot, hnewest⟩ := h.newest k link hk hwaiting
  have hlt : k < w.chains.links.length := by grind
  rw [start_cons hrs]
  have hchained : (w.chains.push path { request := link.work.request, rest }).Chained :=
    chained_push h.chained
  refine ⟨chained_start hchained (getElem?_push hk) hwaiting (isFree_push hfree), ?_, ?_, ?_, ?_,
    ?_, ?_, ?_, ?_, ?_, h.sorted, h.empty⟩
  · intro i l hi
    rcases start_push_cases hk hi with ⟨l₀, hi₀, hl⟩ | ⟨-, rfl⟩
    · have := h.owner i l₀ hi₀
      grind
    refine ⟨request, hr, ?_⟩
    rw [hrs] at hsuf
    exact (suffix_cons _ _).trans hsuf
  · intro i l c hi hc
    rcases start_push_cases hk hi with ⟨l₀, hi₀, hl⟩ | ⟨-, rfl⟩
    · rcases hl with ⟨-, rfl⟩ | ⟨-, rfl, rfl⟩
      · obtain ⟨l', hc', hl'⟩ := h.inner i l c hi₀ hc
        obtain ⟨l'', hc'', hcases⟩ := exists_start_push hk hc'
        refine ⟨l'', hc'', ?_⟩
        grind
      cases hc
      exact ⟨_, start_push_new hk, rfl, hrs⟩
    · cases hc
  · intro i l request' hi hrunning hinner hreq
    rcases start_push_cases hk hi with ⟨l₀, hi₀, hl⟩ | ⟨-, rfl⟩
    · have := h.own i l₀ request' hi₀
      grind
    · cases hrunning
  · intro i l hi ho
    rcases start_push_cases hk hi with ⟨l₀, hi₀, hl⟩ | ⟨-, rfl⟩
    · have := h.ended i l₀ hi₀
      grind [LinkStatus.isOver]
    · cases ho
  · intro i l hi
    rcases start_push_cases hk hi with ⟨l₀, hi₀, hl⟩ | ⟨rfl, rfl⟩
    · rcases h.parent i l₀ hi₀ with ⟨request', hr', hps⟩ | ⟨j, l', hj, hl'⟩
      · left
        refine ⟨request', ?_, ?_⟩ <;> grind
      right
      obtain ⟨l'', hj', hcases⟩ := exists_start_push hk hj
      refine ⟨j, l'', hj', ?_⟩
      -- a settled link's request has run, so `k` is no parent of one
      grind [LinkStatus.isOver]
    right
    obtain ⟨l'', hj', hcases⟩ := exists_start_push hk hk
    refine ⟨k, l'', hj', ?_⟩
    grind
  · intro r request' hr' hrun
    rcases h.running r request' hr' hrun with he | ⟨j, l', hj, hl'⟩
    · exact .inl he
    right
    obtain ⟨l'', hj', hcases⟩ := exists_start_push hk hj
    refine ⟨j, l'', hj', ?_⟩
    grind
  · intro i l hi hw
    rcases start_push_cases hk hi with ⟨l₀, hi₀, hl⟩ | ⟨rfl, rfl⟩
    · rcases hl with ⟨hne, rfl⟩ | ⟨-, -, rfl⟩
      · obtain ⟨hn, hlen⟩ := h.newest i l hi₀ hw
        refine ⟨hn, ?_⟩
        intro j l' hj hji hs
        have hdiff := request_ne_of_waiting h hk hwaiting hi₀ hw hne
        rcases start_push_cases hk hj with ⟨l₁, hj₁, hl'⟩ | ⟨-, rfl⟩
        · have := hlen j l₁ hj₁ hji
          grind
        · exact absurd hs.symm hdiff
      · cases hw
    refine ⟨hnot, ?_⟩
    intro j l' hj hji hs
    rcases start_push_cases hk hj with ⟨l₁, hj₁, hl'⟩ | ⟨rfl, -⟩
    · have hlen : link.work.rest.length = rest.length + 1 := by rw [hrs, length_cons]
      rcases hl' with ⟨hjk, rfl⟩ | ⟨-, -, rfl⟩
      · have := hnewest j l' hj₁ hjk hs
        simp only
        omega
      simp only
      omega
    · exact absurd rfl hji
  · intro i j l l' q q' hi hj hij hq hq' hp hp'
    have hchild : ∀ request', w.requests[link.work.request]? = some request' →
        request'.paths ≠ path :: rest := by
      intro request' hr' heq
      rw [hr, Option.some.injEq] at hr'
      subst hr'
      have hle := hsuf.length_le
      rw [heq, hrs, length_cons] at hle
      omega
    rcases start_push_cases hk hi with ⟨l₀, hi₀, hl⟩ | ⟨-, rfl⟩
    · rcases start_push_cases hk hj with ⟨l₁, hj₁, hl'⟩ | ⟨-, rfl⟩
      · have := h.inOrder i j l₀ l₁ q q' hi₀ hj₁ hij
        grind
      · exact absurd hp' (hchild q' hq')
    · exact absurd hp (hchild q hq)
  intro r request' hr' hne
  obtain ⟨j, l', hj, hl'⟩ := h.first r request' hr' hne
  obtain ⟨l'', hj', hcases⟩ := exists_start_push hk hj
  refine ⟨j, l'', hj', ?_⟩
  grind

end

/-- A request with no path runs its work at once. -/
theorem locking_request_nil (h : Locking w) : Locking (w.request []) := by
  have hreq : w.request [] =
      { w with requests := w.requests ++ [{ paths := [], work := .running }] } := by
    rw [request, acquire, modify_eq_take_cons_drop (by simp)]
    simp
  have ho : ∀ (k : ℕ) (link : PathLink), w.chains.links[k]? = some link →
      (w.requests ++ [{ paths := [], work := .running }])[link.work.request]? =
        w.requests[link.work.request]? := by
    have := h.owner
    grind
  rw [hreq]
  refine ⟨h.chained, ?_, h.inner, ?_, ?_, ?_, ?_, ?_, ?_, ?_, ?_, ?_⟩
  · intro k link hk
    rw [ho k link hk]
    exact h.owner k link hk
  · intro k link request hk
    rw [ho k link hk]
    exact h.own k link request hk
  · intro k link hk
    rw [ho k link hk]
    exact h.ended k link hk
  · intro k link hk
    rw [ho k link hk]
    exact h.parent k link hk
  · have := h.running
    grind
  · intro k link hk
    rw [ho k link hk]
    exact h.newest k link hk
  · intro j k link link' request request' hj hk
    rw [ho j link hj, ho k link' hk]
    exact h.inOrder j k link link' request request' hj hk
  · have := h.first
    grind
  · have := h.sorted
    grind
  have := h.empty
  grind

/-- A request with a path makes the link of its first path. -/
theorem locking_request_cons (h : Locking w) (hs : (path :: rest).Pairwise lt) :
    Locking (w.request (path :: rest)) := by
  have hreq : w.request (path :: rest) =
      { chains := w.chains.push path { request := w.requests.length, rest }
        requests := w.requests ++ [{ paths := path :: rest }] } := rfl
  have ho : ∀ (k : ℕ) (link : PathLink), w.chains.links[k]? = some link →
      link.work.request < w.requests.length ∧
      (w.requests ++ [{ paths := path :: rest }])[link.work.request]? =
        w.requests[link.work.request]? := by
    have := h.owner
    grind
  have hl : (w.requests ++ [{ paths := path :: rest }])[w.requests.length]? =
      some { paths := path :: rest } := by
    grind
  have hb : ∀ r request,
      (w.requests ++ [{ paths := path :: rest }])[r]? = some request →
      w.requests[r]? = some request ∨
        (r = w.requests.length ∧ request = { paths := path :: rest }) := by
    grind
  rw [hreq]
  refine ⟨chained_push h.chained, ?_, ?_, ?_, ?_, ?_, ?_, ?_, ?_, ?_, ?_, ?_⟩
  · intro k link hk
    rcases push_cases hk with ⟨hk, -⟩ | ⟨-, rfl⟩
    · rw [(ho k link hk).2]
      exact h.owner k link hk
    · exact ⟨_, hl, suffix_rfl⟩
  · intro k link c hk hc
    rcases push_cases hk with ⟨hk, -⟩ | ⟨-, rfl⟩
    · obtain ⟨link', hc', hlink'⟩ := h.inner k link c hk hc
      exact ⟨link', getElem?_push hc', hlink'⟩
    · cases hc
  · intro k link request hk
    rcases push_cases hk with ⟨hk, -⟩ | ⟨-, rfl⟩
    · rw [(ho k link hk).2]
      exact h.own k link request hk
    · nofun
  · intro k link hk
    rcases push_cases hk with ⟨hk, -⟩ | ⟨-, rfl⟩
    · rw [(ho k link hk).2]
      exact h.ended k link hk
    · nofun
  · intro k link hk
    rcases push_cases hk with ⟨hk, -⟩ | ⟨-, rfl⟩
    · rw [(ho k link hk).2]
      rcases h.parent k link hk with hf | ⟨j, link', hj, hlink'⟩
      · exact .inl hf
      · exact .inr ⟨j, link', getElem?_push hj, hlink'⟩
    · exact .inl ⟨_, hl, rfl⟩
  · intro r request hr hrun
    rcases hb r request hr with hr | ⟨-, rfl⟩
    · rcases h.running r request hr hrun with he | ⟨k, link, hk, hlink⟩
      · exact .inl he
      · exact .inr ⟨k, link, getElem?_push hk, hlink⟩
    · cases hrun
  · intro k link hk hwaiting
    rcases push_cases hk with ⟨hk, hlt⟩ | ⟨rfl, rfl⟩
    · obtain ⟨hnot, hnew⟩ := h.newest k link hk hwaiting
      rw [(ho k link hk).2]
      refine ⟨hnot, ?_⟩
      intro j link' hj hjk hsa
      rcases push_cases hj with ⟨hj, -⟩ | ⟨-, rfl⟩
      · exact hnew j link' hj hjk hsa
      have hlt' := (ho k link hk).1
      change w.requests.length = link.work.request at hsa
      omega
    constructor
    · intro request hr
      have hr' : some request = some { paths := path :: rest } := hr.symm.trans hl
      cases hr'
      rfl
    intro j link' hj hjk hsa
    rcases push_cases hj with ⟨hj, -⟩ | ⟨rfl, -⟩
    · have hlt' := (ho j link' hj).1
      change link'.work.request = w.requests.length at hsa
      omega
    · exact absurd rfl hjk
  · intro j k link link' request request' hj hk hjk
    rcases push_cases hj with ⟨hj, -⟩ | ⟨rfl, rfl⟩
    · rcases push_cases hk with ⟨hk, -⟩ | ⟨rfl, rfl⟩
      · rw [(ho j link hj).2, (ho k link' hk).2]
        exact h.inOrder j k link link' request request' hj hk hjk
      intros
      exact (ho j link hj).1
    · rcases push_cases hk with ⟨-, hlt⟩ | ⟨rfl, -⟩ <;> omega
  · intro r request hr hne
    rcases hb r request hr with hr | ⟨rfl, rfl⟩
    · obtain ⟨k, link, hk, hlink⟩ := h.first r request hr hne
      exact ⟨k, link, getElem?_push hk, hlink⟩
    · exact ⟨_, _, getElem?_push_length, rfl, rfl⟩
  · intro request hmem
    rcases mem_append.mp hmem with hmem | hmem
    · exact h.sorted request hmem
    rw [mem_singleton.mp hmem]
    exact hs
  intro request hmem he
  rcases mem_append.mp hmem with hmem | hmem
  · exact h.empty request hmem he
  rw [mem_singleton.mp hmem] at he
  cases he

theorem locking_request (h : Locking w) {paths : List JsString} (hs : paths.Pairwise lt)
    : Locking (w.request paths) := by
  cases paths with
  | nil => exact locking_request_nil h
  | cons path rest => exact locking_request_cons h hs

theorem pairwise_normalizedPaths (norm : JsString → JsString) (paths : List JsString) :
    (normalizedPaths norm paths).Pairwise lt := by
  have htotal : Std.Total (fun p q : JsString => p.le q = true) := ⟨JsString.le_total⟩
  have ht : IsTrans JsString (fun p q => p.le q = true) := ⟨fun _ _ _ => JsString.le_trans⟩
  have hle : (normalizedPaths norm paths).Pairwise fun p q => p.le q = true :=
    pairwise_insertionSort _ _
  have hne : (normalizedPaths norm paths).Nodup :=
    (perm_insertionSort _ _).nodup_iff.mpr (nodup_dedup _)
  exact hle.and hne

theorem locking_initial : Locking {} := by
  refine ⟨chained_empty, ?_, ?_, ?_, ?_, ?_, ?_, ?_, ?_, ?_, ?_, ?_⟩ <;> simp

/-- What can happen, with what it finds. -/
inductive LockStep (norm : JsString → JsString) (w : PathLocks) :
    LockEvent → PathLocks → Prop
  | request {event : LockEvent} {paths : List JsString}
    (hpaths : requestedPaths norm event = some paths) :
    LockStep norm w event (w.request paths)
  | start {k : ℕ} {link : PathLink} (hk : w.chains.links[k]? = some link)
    (hwaiting : link.status = .waiting) (hfree : w.chains.isFree link = true) :
    LockStep norm w (.start k) (w.start k link)
  | settleWork {r : ℕ} {fulfilled : Bool} {request : LockRequest}
    (hr : w.requests[r]? = some request) (hrunning : request.work = .running) :
    LockStep norm w (.settleWork r fulfilled)
      { w with requests := w.requests.set r { request with work := .settled fulfilled } }
  | clean {k : ℕ} {link : PathLink} {fulfilled : Bool} (hk : w.chains.links[k]? = some link)
    (hrunning : link.status = .running) (houtcome : w.workOutcome link = some fulfilled) :
    LockStep norm w (.clean k) { w with
      chains := w.chains.clean k link { link.work with outcome := some fulfilled } }
  | settle {k : ℕ} {link : PathLink} (hk : w.chains.links[k]? = some link)
    (hcleaned : link.status = .cleaned) :
    LockStep norm w (.settle k) { w with chains := w.chains.settle k link }

variable {norm : JsString → JsString} {event : LockEvent} {w' : PathLocks}

theorem lockStep_cases (hs : w.lockStep norm event = some w') : LockStep norm w event w' := by
  cases event with
  | runPathWriteLocked path | runPathWritesLocked paths =>
    cases hs
    exact .request rfl
  | start k =>
    obtain ⟨link, hk, hif⟩ := bind_eq_some_iff.mp hs
    obtain ⟨hst, rfl⟩ := ite_some_none_eq_some.mp hif
    exact .start hk hst.1 hst.2
  | settleWork r fulfilled =>
    obtain ⟨request, hr, hif⟩ := bind_eq_some_iff.mp hs
    obtain ⟨hrun, rfl⟩ := ite_some_none_eq_some.mp hif
    exact .settleWork hr hrun
  | clean k =>
    obtain ⟨link, hk, hbind⟩ := bind_eq_some_iff.mp hs
    obtain ⟨fulfilled, hout, hif⟩ := bind_eq_some_iff.mp hbind
    obtain ⟨hrun, rfl⟩ := ite_some_none_eq_some.mp hif
    exact .clean hk hrun hout
  | settle k =>
    obtain ⟨link, hk, hif⟩ := bind_eq_some_iff.mp hs
    obtain ⟨hc, rfl⟩ := ite_some_none_eq_some.mp hif
    exact .settle hk hc

theorem pairwise_requestedPaths {paths : List JsString}
    (h : requestedPaths norm event = some paths) : paths.Pairwise lt := by
  cases event with
  | runPathWriteLocked path =>
    cases h
    exact pairwise_singleton _ _
  | runPathWritesLocked paths =>
    cases h
    exact pairwise_normalizedPaths norm paths
  | _ => cases h

theorem locking_step (h : Locking w) (hs : w.lockStep norm event = some w') : Locking w' := by
  cases lockStep_cases hs with
  | request hp => exact locking_request h (pairwise_requestedPaths hp)
  | @start k link hk hwaiting hfree =>
    cases hrs : link.work.rest with
    | nil => exact locking_start_nil h hk hwaiting hfree hrs
    | cons path rest => exact locking_start_cons h hk hwaiting hfree hrs
  | @settleWork r fulfilled request hr hrun => exact locking_settleWork h hr hrun fulfilled
  | clean hk hrun hout => exact locking_clean h hk hrun hout
  | settle hk hc => exact locking_settle h hk hc

theorem locking_at (norm : JsString → JsString) (events : List LockEvent) (n : ℕ) :
    Locking (locksAt norm events n) := by
  apply stateAt_invariant locking_initial
  intro w event h
  unfold lockNext
  cases hs : w.lockStep norm event with
  | none => exact h
  | some w' => exact locking_step h hs

end Kaos.Sync.PathLocks
