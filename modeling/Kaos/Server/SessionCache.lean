import Kaos.Lib.OrderedMap
import Kaos.Lib.Run
import Kaos.Server.Credentials

/-! The Worker's session cache: who fills it, who clears it, and in which order. -/
namespace Kaos.Server

open Kaos.Lib ServerConfig List Option

namespace Worker

structure CachedSession where
  principal : DevicePrincipal
  expiresAt : ℕ
  deriving DecidableEq

abbrev SessionCache := OrderedMap JsString CachedSession

@[irreducible] def MAX_SESSION_CACHE_ENTRIES : ℕ := 5000

def cacheKey (vaultId sessionHash : JsString) : JsString := vaultId ++ js ":" ++ sessionHash

def invalidateSessionCache (cache : SessionCache) (vaultId : JsString) : SessionCache :=
  cache.filterKeys fun key => ¬ (vaultId ++ js ":").isPrefixOf key

def getCachedSession (cache : SessionCache) (vaultId sessionHash : JsString) (now : ℕ) :
    Option DevicePrincipal × SessionCache :=
  let key := cacheKey vaultId sessionHash
  match cache.get? key with
  | none => (none, cache)
  | some cached =>
    if cached.expiresAt ≤ now then (none, cache.delete key) else (some cached.principal, cache)

/-- The oldest entry makes room. -/
def setCachedSession (cache : SessionCache) (vaultId sessionHash : JsString)
    (principal : DevicePrincipal) (expiresAt : ℕ) : SessionCache :=
  let cache :=
    if MAX_SESSION_CACHE_ENTRIES ≤ cache.size then
      match cache.keys.head? with
      | some firstKey => if firstKey = [] then cache else cache.delete firstKey
      | none => cache
    else cache
  cache.set (cacheKey vaultId sessionHash) ⟨principal, expiresAt⟩

def getHttpAuthToken (authorization : Option JsString) : Option JsString :=
  match authorization with
  | some auth =>
    let token := JsString.trim (auth.drop (js "Bearer ").length)
    if ¬ (js "Bearer ").isPrefixOf auth ∨ token = [] then none else some token
  | none => none

inductive DeviceAuthFailure
  | unclaimed | unauthorized | owner_required | server_misconfigured
  deriving DecidableEq

abbrev DeviceAuthResult := Except DeviceAuthFailure DevicePrincipal

/-- A call of `authorizeDeviceRequest` between its awaits. -/
inductive AuthTask
  | hashing (vaultId session : JsString)
  | validating (vaultId session : JsString)
  | validated (vaultId session : JsString) (response : Response)
  | done (result : DeviceAuthResult)

/-- What the code makes of the answer to `validate-session`: the principal and its expiry. -/
def principalOfResponse (vaultId : JsString) (now : ℕ) :
    Response → Except DeviceAuthFailure (DevicePrincipal × ℕ)
  | .principal principal expiresAt =>
    if validVaultId principal.vaultId ∧ principal.vaultId = vaultId then
      .ok (principal, expiresAt.getD (now + 5 * 60000))
    else .error .unauthorized
  | .error status _ => if status = 503 then .error .unclaimed else .error .unauthorized
  | _ => .error .unauthorized

/-- A role change, a revocation or a recovery the object has committed and answered with success,
before its continuation signals it. -/
structure VaultChange where
  vaultId : JsString
  authGeneration : ℕ
  deriving DecidableEq

/-- One Worker isolate beside the Config object; calls keep their place in the list. -/
structure Isolate where
  storage : ConfigStorage := {}
  cache : SessionCache := .empty
  tasks : List AuthTask := []
  changes : List VaultChange := []

/-- `start` to `store` are the parts of `authorizeDeviceRequest`; `change` is the commit of a role
change, revocation or recovery and `signal` the start of its `signalVaultAuthChange`; the object
serves any other request in `serve`. -/
inductive CacheEvent
  | start (vaultId : JsString) (authorization : Option JsString)
  | lookup (i : ℕ) (now : ℕ)
  | validate (i : ℕ) (context : RequestContext)
  | disconnect (i : ℕ)
  | store (i : ℕ) (now : ℕ)
  | change (request : Request)
  | signal (i : ℕ)
  | serve (request : Request)

/-- The operations whose success the Worker signals. -/
def signalled (operation : Operation) : Bool :=
  operation = .recover ∨ operation = .changeDeviceRole ∨ operation = .revokeDevice

/-- The change a successful answer reports. -/
def vaultChange (body : Record) (response : Response) : Option VaultChange := do
  let vaultId ← guardStr validVaultId (body "vaultId")
  match response with
  | .recovered _ authGeneration | .roleChanged _ _ authGeneration | .revoked _ authGeneration =>
    some ⟨vaultId, authGeneration⟩
  | _ => none

def validateRequest (vaultId session : JsString) (context : RequestContext) : Request where
  operation := .validateSession
  body key := if key = "session" then .str session else if key = "vaultId" then .str vaultId
    else .undefined
  context

variable (platform P : Platform)

def isolateNext (s : Isolate) : CacheEvent → Isolate
  | .start vaultId authorization =>
    { s with tasks := s.tasks ++ [match getHttpAuthToken authorization with
      | some session => .hashing vaultId session
      | none => .done (.error .unauthorized)] }
  | .lookup i now =>
    match s.tasks[i]? with
    | some (.hashing vaultId session) =>
      match getCachedSession s.cache vaultId (platform.sha256Hex session) now with
      | (some principal, cache) => { s with cache, tasks := s.tasks.set i (.done (.ok principal)) }
      | (none, cache) => { s with cache, tasks := s.tasks.set i (.validating vaultId session) }
    | _ => s
  | .validate i context =>
    match s.tasks[i]? with
    | some (.validating vaultId session) =>
      let (response, storage) := fetch platform (validateRequest vaultId session context) s.storage
      { s with storage, tasks := s.tasks.set i (.validated vaultId session response) }
    | _ => s
  | .disconnect i =>
    match s.tasks[i]? with
    | some (.validating _ _) | some (.validated _ _ _) =>
      { s with tasks := s.tasks.set i (.done (.error .server_misconfigured)) }
    | _ => s
  | .store i now =>
    match s.tasks[i]? with
    | some (.validated vaultId session response) =>
      match principalOfResponse vaultId now response with
      | .ok (principal, expiresAt) =>
        { s with
          cache := setCachedSession s.cache vaultId (platform.sha256Hex session) principal expiresAt
          tasks := s.tasks.set i (.done (.ok principal)) }
      | .error failure => { s with tasks := s.tasks.set i (.done (.error failure)) }
    | _ => s
  | .change request =>
    if signalled request.operation then
      let (response, storage) := fetch platform request s.storage
      { s with storage, changes := s.changes ++ (vaultChange request.body response).toList }
    else s
  | .signal i =>
    match s.changes[i]? with
    | some change =>
      { s with
        cache := invalidateSessionCache s.cache change.vaultId
        changes := s.changes.eraseIdx i }
    | none => s
  | .serve request =>
    if signalled request.operation then s
    else { s with storage := (fetch platform request s.storage).2 }

variable (events : List CacheEvent)

def isolateAt (n : ℕ) : Isolate := stateAt (isolateNext platform) {} events n

/-- The call of `authorizeDeviceRequest` that starts at `n`. -/
def startedAt (n : ℕ) : Option ℕ :=
  match events[n]? with
  | some (.start _ _) => some (isolateAt platform events n).tasks.length
  | _ => none

/-- The change that is signalled at `n`. -/
def signalledAt (n : ℕ) : Option VaultChange :=
  match events[n]? with
  | some (.signal i) => (isolateAt platform events n).changes[i]?
  | _ => none

/-- When a change is signalled, no call holds an older principal that it stores later. -/
def NoLateStore : Prop :=
  ∀ m i k now change vaultId session principal expiresAt,
    signalledAt platform events m = some change →
    (isolateAt platform events m).tasks[i]? =
      some (.validated vaultId session (.principal principal expiresAt)) →
    principal.authGeneration < change.authGeneration → m < k →
    events[k]? ≠ some (.store i now)

section Steps

variable {platform P : Platform} {events : List CacheEvent} {s : Isolate} {event : CacheEvent}
  {vaultId session : JsString} {context : RequestContext}

/-- The answer that a validated call stores. -/
def Stores (s : Isolate) (event : CacheEvent) (i : ℕ) (vaultId session : JsString)
    (principal : DevicePrincipal) (expiresAt : ℕ) : Prop :=
  ∃ now response, event = .store i now ∧
    s.tasks[i]? = some (.validated vaultId session response) ∧
    principalOfResponse vaultId now response = .ok (principal, expiresAt)

theorem mem_set_cases {tasks : List AuthTask} {i j : ℕ} {task t : AuthTask}
    (h : (tasks.set i task)[j]? = some t) : (j = i ∧ t = task) ∨ tasks[j]? = some t := by
  rw [getElem?_set] at h
  split at h
  · next hij =>
    split at h
    · exact .inl ⟨hij.symm, (some.inj h).symm⟩
    · cases h
  · exact .inr h

/-- What one step can make of a call. -/
inductive TaskNext (platform : Platform) (s : Isolate) (event : CacheEvent) (j : ℕ) : AuthTask → Prop
  | kept {t : AuthTask} (h : s.tasks[j]? = some t) : TaskNext platform s event j t
  | hashing (vaultId session : JsString) : TaskNext platform s event j (.hashing vaultId session)
  | validating (vaultId session : JsString) :
      TaskNext platform s event j (.validating vaultId session)
  | validated (vaultId session : JsString) (context : RequestContext) :
      TaskNext platform s event j (.validated vaultId session (fetch platform
        (validateRequest vaultId session context) s.storage).1)
  | cached {key : JsString} {cached : CachedSession} (h : (key, cached) ∈ s.cache.entries) :
      TaskNext platform s event j (.done (.ok cached.principal))
  | stored {vaultId session : JsString} {principal : DevicePrincipal} {expiresAt : ℕ}
      (h : Stores s event j vaultId session principal expiresAt) :
      TaskNext platform s event j (.done (.ok principal))
  | failed (failure : DeviceAuthFailure) : TaskNext platform s event j (.done (.error failure))

variable {cache : SessionCache} {sessionHash : JsString} {now : ℕ} {principal : DevicePrincipal}

theorem getCachedSession_some {cache' : SessionCache}
    (h : getCachedSession cache vaultId sessionHash now = (some principal, cache')) :
    cache' = cache ∧ ∃ cached,
      (cacheKey vaultId sessionHash, cached) ∈ cache.entries ∧ cached.principal = principal := by
  unfold getCachedSession at h
  dsimp only at h
  split at h
  · cases h
  · next cached hget =>
    split at h
    · cases h
    cases h
    exact ⟨rfl, cached, OrderedMap.get?_eq_some.mp hget, rfl⟩

theorem getCachedSession_none {cache' : SessionCache}
    (h : getCachedSession cache vaultId sessionHash now = (none, cache')) :
    cache'.entries.Sublist cache.entries := by
  unfold getCachedSession at h
  dsimp only at h
  split at h
  · cases h
    exact .refl _
  split at h
  · cases h
    exact filter_sublist
  · cases h

theorem task_next {j : ℕ} {t : AuthTask}
    (h : (isolateNext P s event).tasks[j]? = some t) : TaskNext P s event j t := by
  cases event with simp only [isolateNext] at h
  | start vaultId authorization =>
    rw [getElem?_append] at h
    split at h
    · exact .kept h
    rw [getElem?_singleton] at h
    split at h
    · split at h <;> cases h
      · exact .hashing ..
      · exact .failed _
    · cases h
  | lookup i now =>
    split at h
    · split at h
      · next hc =>
        obtain ⟨-, cached, hmem, rfl⟩ := getCachedSession_some hc
        rcases mem_set_cases h with ⟨rfl, rfl⟩ | h
        · exact .cached hmem
        · exact .kept h
      · rcases mem_set_cases h with ⟨rfl, rfl⟩ | h
        · exact .validating ..
        · exact .kept h
    · exact .kept h
  | validate i context =>
    split at h
    · rcases mem_set_cases h with ⟨rfl, rfl⟩ | h
      · exact .validated ..
      · exact .kept h
    · exact .kept h
  | disconnect i =>
    split at h
    · rcases mem_set_cases h with ⟨rfl, rfl⟩ | h
      · exact .failed _
      · exact .kept h
    · rcases mem_set_cases h with ⟨rfl, rfl⟩ | h
      · exact .failed _
      · exact .kept h
    · exact .kept h
  | store i now =>
    split at h
    · next hi =>
      split at h
      · next hres =>
        rcases mem_set_cases h with ⟨rfl, rfl⟩ | h
        · exact .stored ⟨now, _, rfl, hi, hres⟩
        · exact .kept h
      rcases mem_set_cases h with ⟨rfl, rfl⟩ | h
      · exact .failed _
      · exact .kept h
    · exact .kept h
  | change request | signal i | serve request => split at h <;> exact .kept h

variable {expiresAt : ℕ} {entry : JsString × CachedSession}

theorem mem_setCachedSession
    (h : entry ∈ (setCachedSession cache vaultId sessionHash principal expiresAt).entries) :
    entry = (cacheKey vaultId sessionHash, ⟨principal, expiresAt⟩) ∨ entry ∈ cache.entries := by
  rcases OrderedMap.eq_or_mem_of_mem_set h with h | h
  · exact .inl h
  right
  split at h
  · split at h
    · split at h
      · exact h
      · exact OrderedMap.mem_of_mem_delete h
    · exact h
  · exact h

/-- A cache entry after a step was there before or is the answer it stores. -/
theorem cache_next (h : entry ∈ (isolateNext P s event).cache.entries) :
    entry ∈ s.cache.entries ∨ ∃ i vaultId session principal expiresAt,
      Stores s event i vaultId session principal expiresAt ∧
      entry = (cacheKey vaultId (P.sha256Hex session), ⟨principal, expiresAt⟩) := by
  cases event with
  | lookup i now =>
    simp only [isolateNext] at h
    split at h
    · split at h
      · next hc =>
        rw [(getCachedSession_some hc).1] at h
        exact .inl h
      · next hc => exact .inl ((getCachedSession_none hc).mem h)
    · exact .inl h
  | store i now =>
    simp only [isolateNext] at h
    split at h
    · next hi =>
      split at h
      · next hres =>
        rcases mem_setCachedSession h with h | h
        · exact .inr ⟨i, _, _, _, _, ⟨now, _, rfl, hi, hres⟩, h⟩
        · exact .inl h
      · exact .inl h
    · exact .inl h
  | signal i =>
    simp only [isolateNext] at h
    split at h
    · exact .inl (mem_of_mem_filter h)
    · exact .inl h
  | start vaultId authorization => exact .inl h
  | validate i context | disconnect i | change request | serve request =>
    simp only [isolateNext] at h
    split at h <;> exact .inl h

/-- The object serves at most one request in a step. -/
theorem storage_next (P : Platform) (s : Isolate) (event : CacheEvent) :
    (isolateNext P s event).storage = s.storage ∨ ∃ request, (isolateNext P s event).storage =
      (fetch P request s.storage).2 := by
  cases event with
  | start vaultId authorization => exact .inl rfl
  | validate i context =>
    simp only [isolateNext]
    split
    · exact .inr ⟨_, rfl⟩
    · exact .inl rfl
  | change request =>
    simp only [isolateNext]
    split
    · exact .inr ⟨request, rfl⟩
    · exact .inl rfl
  | serve request =>
    simp only [isolateNext]
    split
    · exact .inl rfl
    · exact .inr ⟨request, rfl⟩
  | store i now | lookup i now =>
    simp only [isolateNext]
    split
    · split <;> exact .inl rfl
    · exact .inl rfl
  | disconnect i | signal i =>
    simp only [isolateNext]
    split <;> exact .inl rfl

variable {change : VaultChange}

/-- A pending change was pending before or has just been committed. -/
theorem changes_next (h : change ∈ (isolateNext P s event).changes) :
    change ∈ s.changes ∨ ∃ request,
      (isolateNext P s event).storage = (fetch P request s.storage).2 ∧
      vaultChange request.body (fetch P request s.storage).1 = some change := by
  cases event with simp only [isolateNext] at h
  | start vaultId authorization => exact .inl h
  | change request =>
    simp only [isolateNext] at h ⊢
    split at h
    · next hsig =>
      rw [if_pos hsig]
      rcases mem_append.mp h with h | h
      · exact .inl h
      · exact .inr ⟨request, rfl, mem_toList.mp h⟩
    · exact .inl h
  | signal i =>
    split at h
    · exact .inl (mem_of_mem_eraseIdx h)
    · exact .inl h
  | store i now | lookup i now =>
    split at h
    · split at h <;> exact .inl h
    · exact .inl h
  | validate i context | disconnect i | serve request => split at h <;> exact .inl h

theorem principalOfResponse_ok {response : Response}
    (h : principalOfResponse vaultId now response = .ok (principal, expiresAt)) :
    principal.vaultId = vaultId ∧ ∃ sent, response = .principal principal sent := by
  unfold principalOfResponse at h
  split at h
  · split at h
    · next hv =>
      cases h
      exact ⟨hv.2, _, rfl⟩
    · cases h
  · split at h <;> cases h
  · cases h

variable {storage : ConfigStorage}

/-- The object answers with a principal of its vault and its current generation. -/
theorem validated_principal (hb : ServerConfig.VaultBound storage) {expiresAt : Option ℕ}
    (h : (fetch P (validateRequest vaultId session context) storage).1 =
      .principal principal expiresAt) : storage.readAuthValues.claimed = true ∧
      principal.vaultId = storage.readAuthValues.vaultId ∧
      principal.authGeneration = storage.readAuthValues.authGeneration := by
  have hch := fetch_change P (validateRequest vaultId session context) storage
  rw [h] at hch
  generalize hoper : (validateRequest vaultId session context).operation = operation at hch
  generalize (fetch P (validateRequest vaultId session context) storage).2 = storage' at hch
  cases hch with
  | validateSession hsess hv hl =>
    obtain ⟨-, hdev, hcl, -⟩ := lookupSession_eq_some hl
    exact ⟨hcl, hb.devices _ (mem_of_mem_filter (ServerConfig.mem_of_find? hdev).1), rfl⟩
  | consumeTicket => cases hoper

/-- A change that is answered with success is one of the object's vault, under the generation it
reports. -/
theorem vaultChange_eq_some {request : Request}
    (h : vaultChange request.body (fetch P request storage).1 = some change) :
    storage.readAuthValues.claimed = true ∧ change.vaultId = storage.readAuthValues.vaultId ∧
      change.authGeneration = (fetch P request storage).2.readAuthValues.authGeneration := by
  have hch := fetch_change P request storage
  generalize (fetch P request storage).1 = response at hch h
  generalize (fetch P request storage).2 = storage' at hch ⊢
  obtain ⟨operation, body, context⟩ := request
  obtain ⟨vaultId, hv, hs⟩ := bind_eq_some_iff.mp h
  have hn : storage.readAuthValues.authGeneration + 1 =
      max 1 (storage.readAuthValues.authGeneration + 1) := by omega
  have ho : ∀ {principal : DevicePrincipal},
      storage.ownerPrincipal P context.authNow body = some principal →
      storage.readAuthValues.claimed = true ∧ vaultId = storage.readAuthValues.vaultId := by
    intro principal hp
    obtain ⟨_, vaultId', -, hv', hfor⟩ := bodyPrincipal_eq_some
      (ownerPrincipal_eq_some hp).1
    obtain ⟨_, _, hl, -⟩ := principalForSession_eq_some hfor
    obtain ⟨-, -, hcl, hser, -⟩ := lookupSession_eq_some hl
    obtain rfl := some.inj (hv.symm.trans hv')
    exact ⟨hcl, hser.symm⟩
  cases hch with
  | recover hver hh hv' hcl hdev =>
    obtain rfl := some.inj (hv.symm.trans hv')
    cases hs
    exact ⟨hcl, rfl, hn⟩
  | keepRole hp =>
    cases hs
    exact ⟨(ho hp).1, (ho hp).2, rfl⟩
  | changeRole hp | revoke hp =>
    cases hs
    exact ⟨(ho hp).1, (ho hp).2, hn⟩
  | _ => cases hs

/-- All that an isolate holds belongs to the object's vault and to no later generation. -/
structure Bounded (s : Isolate) : Prop where
  bound : ServerConfig.VaultBound s.storage
  cache : ∀ entry ∈ s.cache.entries, s.storage.readAuthValues.claimed = true ∧
    (s.storage.readAuthValues.vaultId ++ js ":").isPrefixOf entry.1 = true
  tasks : ∀ (i : ℕ) vaultId session principal expiresAt,
    s.tasks[i]? = some (.validated vaultId session (.principal principal expiresAt)) →
    s.storage.readAuthValues.claimed = true ∧ principal.vaultId = s.storage.readAuthValues.vaultId
  changes : ∀ change ∈ s.changes, s.storage.readAuthValues.claimed = true ∧
    change.vaultId = s.storage.readAuthValues.vaultId ∧
    change.authGeneration ≤ s.storage.readAuthValues.authGeneration

theorem vaultBound_next (h : ServerConfig.VaultBound s.storage) :
    ServerConfig.VaultBound (isolateNext P s event).storage := by
  rcases storage_next P s event with hs | ⟨request, hn⟩
  · rwa [hs]
  rw [hn]
  exact vaultBound_change h (fetch_change P request s.storage)

theorem generation_next (h : ServerConfig.VaultBound s.storage) :
    s.storage.readAuthValues.authGeneration ≤
      (isolateNext P s event).storage.readAuthValues.authGeneration := by
  rcases storage_next P s event with hs | ⟨request, hn⟩
  · rw [hs]
  rw [hn]
  exact authGeneration_change h (fetch_change P request s.storage)

theorem vault_next (P : Platform) (event : CacheEvent)
    (h : s.storage.readAuthValues.claimed = true) :
    (isolateNext P s event).storage.readAuthValues.claimed = true ∧
      (isolateNext P s event).storage.readAuthValues.vaultId =
        s.storage.readAuthValues.vaultId := by
  rcases storage_next P s event with hs | ⟨request, hn⟩
  · rw [hs]
    exact ⟨h, rfl⟩
  rw [hn]
  exact claimed_change h (fetch_change P request s.storage)

theorem bounded_next (h : Bounded s) : Bounded (isolateNext P s event) := by
  refine ⟨vaultBound_next h.bound, fun entry he => ?_,
    fun i vaultId session principal expiresAt ht => ?_, fun change hch => ?_⟩
  · rcases cache_next he with he | ⟨i, vaultId, session, principal, expiresAt, hstores, rfl⟩
    · obtain ⟨hcl, hstarts⟩ := h.cache entry he
      obtain ⟨hcl', hv⟩ := vault_next P event hcl
      exact ⟨hcl', by rwa [hv]⟩
    obtain ⟨now, response, -, htask, hres⟩ := hstores
    obtain ⟨rfl, sent, rfl⟩ := principalOfResponse_ok hres
    obtain ⟨hcl, hv⟩ := h.tasks i _ _ _ _ htask
    obtain ⟨hcl', hv'⟩ := vault_next P event hcl
    refine ⟨hcl', ?_⟩
    rw [hv', ← hv, isPrefixOf_iff_prefix]
    exact prefix_append _ _
  · generalize htask : AuthTask.validated vaultId session (.principal principal expiresAt) = task at ht
    cases task_next ht with
    | kept hk =>
      subst htask
      obtain ⟨hcl, hv⟩ := h.tasks i _ _ _ _ hk
      obtain ⟨hcl', hv'⟩ := vault_next P event hcl
      exact ⟨hcl', by rwa [hv']⟩
    | validated vaultId session context =>
      injection htask with _ _ hres
      obtain ⟨hcl, hv, -⟩ := validated_principal h.bound hres.symm
      obtain ⟨hcl', hv'⟩ := vault_next P event hcl
      exact ⟨hcl', by rwa [hv']⟩
    | _ => cases htask
  rcases changes_next hch with hch | ⟨request, hn, hs⟩
  · obtain ⟨hcl, hv, hgen⟩ := h.changes change hch
    obtain ⟨hcl', hv'⟩ := vault_next P event hcl
    exact ⟨hcl', hv.trans hv'.symm, hgen.trans (generation_next h.bound)⟩
  obtain ⟨hcl, hv, hgen⟩ := vaultChange_eq_some hs
  obtain ⟨hcl', hv'⟩ := vault_next P event hcl
  rw [← hn] at hgen
  exact ⟨hcl', hv.trans hv'.symm, hgen.le⟩

theorem bounded_at (n : ℕ) : Bounded (isolateAt P events n) :=
  stateAt_invariant ⟨vaultBound_empty, by simp [OrderedMap.empty], by simp, by simp⟩
    (fun _ _ h => bounded_next h) n

theorem size_set_le (cache : SessionCache) (key : JsString) (cached : CachedSession) :
    (cache.set key cached).size ≤ cache.size + 1 := by
  unfold OrderedMap.set OrderedMap.size
  split <;> simp

/-- At the limit the oldest entry makes room, unless its key is the empty string. -/
theorem size_setCachedSession (hk : ∀ entry ∈ cache.entries, entry.1 ≠ [])
    (h : cache.size ≤ MAX_SESSION_CACHE_ENTRIES) :
    (setCachedSession cache vaultId sessionHash principal expiresAt).size ≤
      MAX_SESSION_CACHE_ENTRIES := by
  refine (size_set_le ..).trans ?_
  split
  · next hfull =>
    rw [OrderedMap.keys]
    cases hent : cache.entries with
    | nil =>
      simp [OrderedMap.size, hent, MAX_SESSION_CACHE_ENTRIES]
    | cons first rest =>
      have hne := hk first (hent ▸ mem_cons_self)
      have hlt : (cache.delete first.1).size < cache.size := by
        refine length_filter_lt_length_iff_exists.mpr ⟨first, hent ▸ mem_cons_self, ?_⟩
        simp
      simp only [map_cons, head?_cons, if_neg hne]
      omega
  · omega

theorem size_next (h : Bounded s) (hs : s.cache.size ≤ MAX_SESSION_CACHE_ENTRIES) :
    (isolateNext P s event).cache.size ≤ MAX_SESSION_CACHE_ENTRIES := by
  cases event with
  | lookup i now =>
    simp only [isolateNext]
    split
    · split
      · next hc => exact (getCachedSession_some hc).1 ▸ hs
      · next hc => exact (getCachedSession_none hc).length_le.trans hs
    · exact hs
  | store i now =>
    have hk : ∀ entry ∈ s.cache.entries, entry.1 ≠ [] := by
      intro entry he hnil
      have hprefix := (h.cache entry he).2
      simp only [hnil, isPrefixOf_iff_prefix, prefix_nil, append_eq_nil_iff] at hprefix
      exact absurd hprefix.2 (by decide)
    simp only [isolateNext]
    split
    · split
      · exact size_setCachedSession hk hs
      · exact hs
    · exact hs
  | signal i =>
    simp only [isolateNext]
    split
    · exact (length_filter_le _ _).trans hs
    · exact hs
  | start vaultId authorization => exact hs
  | validate i context | disconnect i | change request | serve request =>
    simp only [isolateNext]
    split <;> exact hs

/-- The cache keeps to its limit, and all that it holds is under the vault of the object. -/
theorem session_cache_bounded (platform : Platform) (events : List CacheEvent) (n : ℕ) :
    (isolateAt platform events n).cache.size ≤ MAX_SESSION_CACHE_ENTRIES ∧
      ∀ entry ∈ (isolateAt platform events n).cache.entries,
        ((isolateAt platform events n).storage.readAuthValues.vaultId ++ js ":").isPrefixOf
          entry.1 = true := by
  refine ⟨?_, fun entry he => ((bounded_at n).cache entry he).2⟩
  exact stateAt_from (P := fun s : Isolate => s.cache.size ≤ MAX_SESSION_CACHE_ENTRIES)
    (Nat.zero_le n) (Nat.zero_le _) fun k event _ _ h => size_next (bounded_at k) h

/-- Calls keep their place. -/
theorem tasks_length_next (P : Platform) (s : Isolate) (event : CacheEvent) :
    s.tasks.length ≤ (isolateNext P s event).tasks.length := by
  cases event with
  | start vaultId authorization => simp [isolateNext]
  | lookup i now | store i now =>
    simp only [isolateNext]
    split
    · split <;> simp
    · exact le_rfl
  | validate i context | disconnect i | change request | signal i | serve request =>
    simp only [isolateNext]
    split <;> simp

theorem tasks_length_mono (P : Platform) (events : List CacheEvent) :
    Monotone fun n => (isolateAt P events n).tasks.length := by
  refine monotone_nat_of_le_succ fun n => ?_
  rcases stateAt_step (isolateNext P) {} events n with ⟨-, hs⟩ | ⟨event, -, hn⟩
  · rw [isolateAt, isolateAt, hs]
  rw [isolateAt, isolateAt, hn]
  exact tasks_length_next P _ event

/-- What holds from the signal of a change on: nothing older is cached, held for a later store, or
answered to a call that starts after it. -/
structure Signalled (platform : Platform) (events : List CacheEvent) (m generation : ℕ)
    (s : Isolate) : Prop where
  storage : generation ≤ s.storage.readAuthValues.authGeneration
  cache : ∀ entry ∈ s.cache.entries, generation ≤ entry.2.principal.authGeneration
  validated : ∀ (i : ℕ) vaultId session principal expiresAt,
    s.tasks[i]? = some (.validated vaultId session (.principal principal expiresAt)) →
    generation ≤ principal.authGeneration ∨ (isolateAt platform events m).tasks[i]? =
      some (.validated vaultId session (.principal principal expiresAt))
  done : ∀ i principal, (isolateAt platform events m).tasks.length ≤ i →
    s.tasks[i]? = some (.done (.ok principal)) → generation ≤ principal.authGeneration

/-- The signal empties the cache. -/
theorem signalled_start {m : ℕ} (h : signalledAt P events m = some change) :
    Signalled P events m change.authGeneration (isolateAt P events (m + 1)) := by
  have hboun : Bounded (isolateAt P events m) := bounded_at m
  unfold signalledAt at h
  split at h
  · next i hm =>
    have hn : isolateAt P events (m + 1) = isolateNext P
        (isolateAt P events m) (.signal i) := stateAt_succ hm
    obtain ⟨-, hv, hgen⟩ := hboun.changes change (mem_of_getElem? h)
    rw [hn]
    simp only [isolateNext, h]
    refine ⟨hgen, fun entry he => ?_, fun i _ _ _ _ hi => .inr hi,
      fun i principal hlen hi => ?_⟩
    · obtain ⟨hmem, hk⟩ := mem_filter.mp he
      rw [hv] at hk
      exact absurd (hboun.cache entry hmem).2 (by simpa using hk)
    rw [getElem?_eq_none hlen] at hi
    cases hi
  · cases h

/-- No step after the signal brings anything older, but for a late store. -/
theorem signalled_next {m generation : ℕ}
    (hlate : ∀ i now vaultId session principal expiresAt, event = .store i now →
      (isolateAt P events m).tasks[i]? =
        some (.validated vaultId session (.principal principal expiresAt)) →
      generation ≤ principal.authGeneration)
    (hboun : Bounded s) (h : Signalled P events m generation s) :
    Signalled P events m generation (isolateNext P s event) := by
  have hstores : ∀ {i vaultId session principal expiresAt},
      Stores s event i vaultId session principal expiresAt →
      generation ≤ principal.authGeneration := by
    rintro i vaultId session principal expiresAt ⟨now, response, hev, htask, hres⟩
    obtain ⟨-, sent, rfl⟩ := principalOfResponse_ok hres
    rcases h.validated i _ _ _ _ htask with hle | hold
    · exact hle
    · exact hlate i now _ _ _ _ hev hold
  refine ⟨h.storage.trans (generation_next hboun.bound), fun entry he => ?_,
    fun i vaultId session principal expiresAt ht => ?_, fun i principal hlen ht => ?_⟩
  · rcases cache_next he with he | ⟨i, vaultId, session, principal, expiresAt, hs, rfl⟩
    · exact h.cache entry he
    · exact hstores hs
  · generalize htask : AuthTask.validated vaultId session (.principal principal expiresAt) = task at ht
    cases task_next ht with
    | kept hk =>
      subst htask
      exact h.validated i _ _ _ _ hk
    | validated vaultId session context =>
      injection htask with _ _ hres
      obtain ⟨-, -, hgen⟩ := validated_principal hboun.bound hres.symm
      exact .inl (hgen ▸ h.storage)
    | _ => cases htask
  generalize htask : AuthTask.done (.ok principal) = task at ht
  cases task_next ht with
  | kept hk =>
    subst htask
    exact h.done i principal hlen hk
  | cached hc =>
    cases htask
    exact h.cache _ hc
  | stored hs =>
    cases htask
    exact hstores hs
  | _ => cases htask

theorem signalled_at (hlate : NoLateStore P events) {m n : ℕ}
    (h : signalledAt P events m = some change) (hmn : m < n) :
    Signalled P events m change.authGeneration (isolateAt P events n) := by
  refine stateAt_from hmn (signalled_start h) fun k event hmk hev ih => ?_
  refine signalled_next (fun i now vaultId session principal expiresAt hs htask => ?_)
    (bounded_at k) ih
  by_contra hlt
  exact hlate m i k now change vaultId session principal expiresAt h htask (by omega)
    hmk (hev.trans (congrArg some hs))

end Steps

/-- While no late store happens, a call that starts after a change was signalled is answered with no
principal of an older generation. -/
theorem signalled_generation_served (platform : Platform) (events : List CacheEvent)
    (hlate : NoLateStore platform events) :
    ∀ m n k i change principal, signalledAt platform events m = some change → m < n →
      startedAt platform events n = some i →
      (isolateAt platform events k).tasks[i]? = some (.done (.ok principal)) →
      change.authGeneration ≤ principal.authGeneration := by
  intro m n k i change principal hsig hmn hs hd
  have hplace : (isolateAt platform events m).tasks.length ≤ i := by
    unfold startedAt at hs
    split at hs
    · cases hs
      exact tasks_length_mono platform events hmn.le
    · cases hs
  have hmk : m < k := by
    by_contra hkm
    have hlen := tasks_length_mono platform events (not_lt.mp hkm)
    have hi := (List.getElem?_eq_some_iff.mp hd).1
    dsimp only at hlen
    omega
  exact (signalled_at hlate hsig hmk).done i principal hplace hd

namespace Sample

open ServerConfig.Sample

def authorize (session : JsString) : CacheEvent :=
  .start (js "vault-0001") (some (js "Bearer " ++ session))

/-- Device A recovers the server. -/
def recoverDeviceA : Request where
  operation := .recover
  body := fun key => if key = "recoveryVerified" then .bool true
    else if key = "nextRecoverySecretHash" then .str (ServerConfig.Sample.sha256Hex recovery1)
    else body (vault :: deviceFields "device-A" "Laptop" keyA) key
  context := context 4000 [] []

def challengeA2 : Request where
  operation := .challenge
  body := body [vault, ("deviceId", .str (js "device-A"))]
  context := context 5000 nonceA2 challengeIdA2

def sessionA2 : Request where
  operation := .session
  body := body [("challengeId", .str challengeIdA2), ("signature", .str signatureA2)]
  context := context 6000 secretA2 sessionIdA2

def signedIn : List CacheEvent := [.serve claimA, .serve challengeA, .serve sessionA]

/-- The recovered device signs in again and is authorized. -/
def signedInAgain : List CacheEvent := signedIn ++ [.change recoverDeviceA, .signal 0,
  .serve challengeA2, .serve sessionA2, authorize secretA2, .lookup 0 7000,
  .validate 0 (context 7000 [] []), .store 0 7000]

/-- A validation answered before the recovery is stored after its signal. -/
def lateStore : List CacheEvent := signedIn ++ [authorize secretA, .lookup 0 3500,
  .validate 0 (context 3500 [] []), .change recoverDeviceA, .signal 0, .store 0 5000,
  authorize secretA, .lookup 1 6000]

end Sample

/-- A call has been answered with a principal that passes a test. -/
def answered (task : AuthTask) (p : DevicePrincipal → Bool) : Bool :=
  match task with
  | .done (.ok principal) => p principal
  | _ => false

theorem answered_eq_true {tasks : List AuthTask} {i : ℕ} {p : DevicePrincipal → Bool}
    (h : (tasks[i]?.any fun task => answered task p) = true) :
    ∃ principal, tasks[i]? = some (.done (.ok principal)) ∧ p principal = true := by
  obtain ⟨task, htask, hans⟩ := (any_eq_true _ _).mp h
  unfold answered at hans
  split at hans
  · exact ⟨_, htask, hans⟩
  · cases hans

def CacheEvent.isSignal : CacheEvent → Bool
  | .signal _ => true
  | _ => false

/-- Only a signal makes a change signalled. -/
theorem signal_of_signalledAt {P : Platform} {events : List CacheEvent} {n : ℕ}
    {change : VaultChange} (h : signalledAt P events n = some change) :
    ∃ i, events[n]? = some (.signal i) := by
  unfold signalledAt at h
  split at h
  · next i hev => exact ⟨i, hev⟩
  · cases h

theorem signal_signedInAgain {m i : ℕ} (h : Sample.signedInAgain[m]? = some (.signal i)) :
    m = 4 := by
  have hlt : m < 11 := (List.getElem?_eq_some_iff.mp h).1
  have ho : ∀ m < 11, m ≠ 4 → Sample.signedInAgain[m]?.any CacheEvent.isSignal = false := by
    decide
  by_contra hne
  have hn := ho m hlt hne
  rw [h] at hn
  cases hn

/-- The events of a recovered device that is served after its signal. -/
def Sample.servedAgainRun : { events : List CacheEvent //
    (isolateAt ServerConfig.Sample.platform events 4).tasks.length = 0 ∧
      signalledAt ServerConfig.Sample.platform events 4 = some ⟨js "vault-0001", 2⟩ ∧
      startedAt ServerConfig.Sample.platform events 7 = some 0 ∧
      ((isolateAt ServerConfig.Sample.platform events 11).tasks[0]?.any
        fun task => answered task fun _ => true) = true } :=
  ⟨Sample.signedInAgain, by decide +kernel⟩

theorem signalled_generation_served_again :
    ∃ principal, (isolateAt ServerConfig.Sample.platform Sample.signedInAgain 11).tasks[0]? =
      some (.done (.ok principal)) ∧ 2 ≤ principal.authGeneration := by
  have hrun : (isolateAt ServerConfig.Sample.platform Sample.signedInAgain 4).tasks.length = 0 ∧
      signalledAt ServerConfig.Sample.platform Sample.signedInAgain 4 = some ⟨js "vault-0001", 2⟩ ∧
      startedAt ServerConfig.Sample.platform Sample.signedInAgain 7 = some 0 ∧
      ((isolateAt ServerConfig.Sample.platform Sample.signedInAgain 11).tasks[0]?.any
        fun task => answered task fun _ => true) = true := Sample.servedAgainRun.property
  obtain ⟨he, hsig, hs, hans⟩ := hrun
  have hlate : NoLateStore ServerConfig.Sample.platform Sample.signedInAgain := by
    intro m i k now change vaultId session principal expiresAt hm htask
    obtain ⟨_, hev⟩ := signal_of_signalledAt hm
    obtain rfl := signal_signedInAgain hev
    cases htask
  obtain ⟨principal, hd, -⟩ := answered_eq_true hans
  exact ⟨principal, hd, signalled_generation_served ServerConfig.Sample.platform
    Sample.signedInAgain hlate 4 7 11 0 ⟨js "vault-0001", 2⟩ principal hsig (by omega)
    hs hd⟩

/-- The events of a device whose revoked generation is stored after the signal. -/
def Sample.lateStoreRun : { events : List CacheEvent //
    signalledAt ServerConfig.Sample.platform events 7 = some ⟨js "vault-0001", 2⟩ ∧
      startedAt ServerConfig.Sample.platform events 9 = some 1 ∧
      ((isolateAt ServerConfig.Sample.platform events 11).tasks[1]?.any
        fun task => answered task fun principal => principal.authGeneration < 2) = true } :=
  ⟨Sample.lateStore, by decide +kernel⟩

/-- A revoked generation is served from the cache. -/
theorem late_store_serves_old_generation :
    ∃ change principal,
      signalledAt ServerConfig.Sample.platform Sample.lateStore 7 = some change ∧
      startedAt ServerConfig.Sample.platform Sample.lateStore 9 = some 1 ∧
      (isolateAt ServerConfig.Sample.platform Sample.lateStore 11).tasks[1]? =
        some (.done (.ok principal)) ∧
      principal.authGeneration < change.authGeneration := by
  have hrun : signalledAt ServerConfig.Sample.platform Sample.lateStore 7 =
        some ⟨js "vault-0001", 2⟩ ∧
      startedAt ServerConfig.Sample.platform Sample.lateStore 9 = some 1 ∧
      ((isolateAt ServerConfig.Sample.platform Sample.lateStore 11).tasks[1]?.any
        fun task => answered task fun principal => principal.authGeneration < 2) = true :=
    Sample.lateStoreRun.property
  obtain ⟨hsig, hs, hans⟩ := hrun
  obtain ⟨principal, hd, hold⟩ := answered_eq_true hans
  exact ⟨_, principal, hsig, hs, hd, of_decide_eq_true hold⟩

end Worker

end Kaos.Server
