import Kaos.Lib.Run
import Kaos.Server.Credentials

/-! The recover route: the Worker checks the secret against a config it read, then posts. -/
namespace Kaos.Server

open Kaos.Lib ServerConfig.Sample ServerConfig List Option

namespace Worker

def validSecret (value : JsString) : Bool :=
  32 ≤ value.length ∧ value.length ≤ 512 ∧ value.all fun c => 0x21 ≤ c ∧ c ≤ 0x7e

def sameHash (expected supplied : JsString) : Bool := sameSecretHash expected supplied

/-- A recover request whose secret has been verified, with the config it was verified against and
the body it is about to post. -/
structure VerifiedRecovery where
  recoverySecret : JsString
  nextRecoverySecret : JsString
  config : StoredServerConfig
  post : Record

section Route

variable (platform pf : Platform) (recoverySecretVar : Option JsString)

/-- The body posted to the Config object: without the secrets, with the next one's hash. -/
def recoveryPost (body : Record) (nextRecoverySecret : JsString) : Record := fun key =>
  if key = "recoverySecret" ∨ key = "nextRecoverySecret" then .undefined
  else if key = "recoveryVerified" then .bool true
  else if key = "nextRecoverySecretHash" then .str (platform.sha256Hex nextRecoverySecret)
  else body key

/-- The stored hash, or that of `KAOS_RECOVERY_SECRET` while none is stored. -/
def expectedHash (config : StoredServerConfig) : Option JsString :=
  config.recoverySecretHash.or ((recoverySecretVar.filter validSecret).map platform.sha256Hex)

/-- `handlePublicDeviceAuthRoute` on `recover`, from the config it read up to its post. -/
def verifyRecovery (body : Record) (config : StoredServerConfig) :
    Except Response VerifiedRecovery :=
  match guardStr validVaultId (body "vaultId"), guardStr validSecret (body "recoverySecret"),
      guardStr validSecret (body "nextRecoverySecret") with
  | some vaultId, some recoverySecret, some nextRecoverySecret =>
    if ¬ config.claimed ∨ config.vaultId ≠ some vaultId then .error (.error 503 "unclaimed")
    else if ¬ (expectedHash platform recoverySecretVar config).any fun expected =>
        sameHash expected (platform.sha256Hex recoverySecret) then
      .error (.error 403 "recovery_invalid")
    else .ok ⟨recoverySecret, nextRecoverySecret, config,
      recoveryPost platform body nextRecoverySecret⟩
  | _, _, _ => .error (.error 400 "invalid recovery")

/-- The Config object and the recover requests between their read and their post. -/
structure RecoverySystem where
  storage : ConfigStorage
  inFlight : List VerifiedRecovery

/-- A recover request reads the config, or one in flight posts, or the object serves any other
request. -/
inductive RecoveryEvent
  | read (body : Record)
  | post (i : ℕ) (context : RequestContext)
  | serve (request : Request)

/-- The request of the Config object that a post makes. -/
def VerifiedRecovery.request (verified : VerifiedRecovery) (context : RequestContext) : Request :=
  ⟨.recover, verified.post, context⟩

/-- The object accepts `recover` from the route alone. -/
def recoveryNext (system : RecoverySystem) : RecoveryEvent → RecoverySystem
  | .read body =>
    match verifyRecovery platform recoverySecretVar body system.storage.readConfig with
    | .ok verified => { system with inFlight := system.inFlight ++ [verified] }
    | .error _ => system
  | .post i context =>
    match system.inFlight[i]? with
    | some verified =>
      { storage := (fetch platform (verified.request context) system.storage).2
        inFlight := system.inFlight.eraseIdx i }
    | none => system
  | .serve request =>
    if request.operation = .recover then system
    else { system with storage := (fetch platform request system.storage).2 }

variable (storage : ConfigStorage) (events : List RecoveryEvent)

def recoveryStateAt (n : ℕ) : RecoverySystem :=
  stateAt (recoveryNext platform recoverySecretVar) ⟨storage, []⟩ events n

/-- The request that posts at `n`. -/
def postedAt (n : ℕ) : Option (VerifiedRecovery × RequestContext) :=
  match events[n]? with
  | some (.post i context) =>
    (recoveryStateAt platform recoverySecretVar storage events n).inFlight[i]?.map (·, context)
  | _ => none

/-- The request that succeeds at `n`. -/
def recoveredAt (n : ℕ) : Option VerifiedRecovery :=
  ((postedAt platform recoverySecretVar storage events n).filter fun (verified, context) =>
    (fetch platform (verified.request context)
      (recoveryStateAt platform recoverySecretVar storage events n).storage).1.ok).map Prod.fst

/-- A well-formed post still finds the stored hash it was verified against. -/
def SnapshotCurrent : Prop :=
  ∀ n verified context,
    postedAt platform recoverySecretVar storage events n = some (verified, context) →
    (deviceFromBody platform verified.post).isSome = true →
    verified.config.recoverySecretHash =
      (recoveryStateAt platform recoverySecretVar storage events n).storage.readConfig.recoverySecretHash

/-- The secrets that requests bring. -/
def recoverySecrets : RecoveryEvent → List JsString
  | .read body =>
    ["recoverySecret", "nextRecoverySecret"].filterMap fun key => guardStr validSecret (body key)
  | _ => []

end Route

section Runs

variable {platform pf : Platform} {recoverySecretVar : Option JsString} {body : Record}
  {config : StoredServerConfig} {verified : VerifiedRecovery} {context : RequestContext}
  {storage storage' : ConfigStorage} {response : Response} {events : List RecoveryEvent}

/-- What verification leaves in flight. -/
structure Checked (platform : Platform) (recoverySecretVar : Option JsString)
    (secrets : List JsString) (verified : VerifiedRecovery) : Prop where
  supplied : expectedHash platform recoverySecretVar verified.config =
    some (platform.sha256Hex verified.recoverySecret)
  next : verified.post "nextRecoverySecretHash" =
    .str (platform.sha256Hex verified.nextRecoverySecret)
  supplied_mem : verified.recoverySecret ∈ secrets
  next_mem : verified.nextRecoverySecret ∈ secrets

theorem verifyRecovery_checked
    (h : verifyRecovery pf recoverySecretVar body config = .ok verified) :
    verified.config = config ∧
      Checked pf recoverySecretVar (recoverySecrets (.read body)) verified := by
  unfold verifyRecovery at h
  split at h
  · next vaultId recoverySecret nextRecoverySecret hv hsup hn =>
    split at h
    · cases h
    split at h
    · cases h
    next hh =>
    cases h
    rw [not_not, Option.any_eq_true] at hh
    obtain ⟨expected, hexp, hs⟩ := hh
    rw [sameSecretHash_iff.mp hs] at hexp
    exact ⟨rfl, hexp, by simp [recoveryPost], by simp [recoverySecrets, hsup],
      by simp [recoverySecrets, hn]⟩
  · cases h

theorem Checked.mono {secrets secrets' : List JsString}
    (h : Checked pf recoverySecretVar secrets verified)
    (hsub : ∀ s ∈ secrets, s ∈ secrets') : Checked pf recoverySecretVar secrets' verified :=
  ⟨h.supplied, h.next, hsub _ h.supplied_mem, hsub _ h.next_mem⟩

theorem checked_at (n : ℕ) :
    ∀ v ∈ (recoveryStateAt pf recoverySecretVar storage events n).inFlight,
      Checked pf recoverySecretVar (events.flatMap recoverySecrets) v := by
  refine stateAt_induction (P := fun _ (s : RecoverySystem) => ∀ v ∈ s.inFlight,
    Checked pf recoverySecretVar (events.flatMap recoverySecrets) v) (by simp)
    (fun _ _ h => h) (fun n s event hn h => ?_) n
  intro v hv
  cases event with dsimp only [recoveryNext] at hv
  | read body =>
    split at hv
    · next verified hver =>
      rcases mem_append.mp hv with hv | hv
      · exact h v hv
      obtain rfl := mem_singleton.mp hv
      exact (verifyRecovery_checked hver).2.mono fun s hs =>
        mem_flatMap.mpr ⟨_, mem_of_getElem? hn, hs⟩
    · exact h v hv
  | post i context =>
    split at hv
    · exact h v (mem_of_mem_eraseIdx hv)
    · exact h v hv
  | serve request => split at hv <;> exact h v hv

/-- A recover request of the object is refused or stores the next hash. -/
theorem recover_outcome
    (hch : ServerConfig.Change pf body context storage .recover response storage') :
    (response.ok = false ∧ storage' = storage) ∨
      (response.ok = true ∧ (deviceFromBody pf body).isSome = true ∧
        storage'.readAuthValues.claimed = true ∧ ∃ hash, body "nextRecoverySecretHash" = .str hash ∧
          storage'.recoverySecretHash = some hash) := by
  generalize hoper : Operation.recover = operation at hch
  cases hch with
  | refused => exact .inl ⟨rfl, rfl⟩
  | recover hv hh hvault hcl hdev =>
    exact .inr ⟨rfl, by simp [hdev], (claimed_eq rfl rfl).trans hcl, _,
      (guardStr_eq_some hh).1, rfl⟩
  | _ => cases hoper

/-- No other request of a claimed server touches the hash. -/
theorem recoverySecretHash_change {operation : Operation}
    (hcl : storage.readAuthValues.claimed = true) (hoper : operation ≠ .recover)
    (hch : ServerConfig.Change pf body context storage operation response storage') :
    storage'.recoverySecretHash = storage.recoverySecretHash := by
  cases hch with
  | claimByDevice _ _ hf | claimByServer _ _ hf => simp [hcl] at hf
  | recover => exact absurd rfl hoper
  | _ => rfl

theorem postedAt_eq_some {n : ℕ}
    (h : postedAt pf recoverySecretVar storage events n = some (verified, context)) :
    ∃ i, events[n]? = some (.post i context) ∧
      (recoveryStateAt pf recoverySecretVar storage events n).inFlight[i]? = some verified := by
  unfold postedAt at h
  split at h
  · next i context' hn =>
    obtain ⟨v, hv, heq⟩ := map_eq_some_iff.mp h
    obtain ⟨rfl, rfl⟩ := Prod.mk.inj heq
    exact ⟨i, hn, hv⟩
  · cases h

/-- A success installs the hash of the secret it registers. -/
theorem recoveredAt_eq_some {n : ℕ}
    (h : recoveredAt pf recoverySecretVar storage events n = some verified) :
    ∃ context, postedAt pf recoverySecretVar storage events n = some (verified, context) ∧
      (deviceFromBody pf verified.post).isSome = true ∧
      (recoveryStateAt pf recoverySecretVar storage events (n + 1)).storage.recoverySecretHash
        = some (pf.sha256Hex verified.nextRecoverySecret) ∧
      (recoveryStateAt pf recoverySecretVar storage events
        (n + 1)).storage.readAuthValues.claimed = true := by
  obtain ⟨⟨verified, context⟩, hfil, rfl⟩ := map_eq_some_iff.mp h
  obtain ⟨hpos, hok⟩ := filter_eq_some_iff.mp hfil
  obtain ⟨i, hn, hfl⟩ := postedAt_eq_some hpos
  have hnx : recoveryStateAt pf recoverySecretVar storage events (n + 1) =
      recoveryNext pf recoverySecretVar
        (recoveryStateAt pf recoverySecretVar storage events n) (.post i context) :=
    stateAt_succ hn
  rw [hnx]
  simp only [recoveryNext, hfl]
  have hc := checked_at n verified (mem_of_getElem? hfl)
  rcases recover_outcome (fetch_change pf (verified.request context)
    (recoveryStateAt pf recoverySecretVar storage events n).storage) with
    ⟨hf, -⟩ | ⟨-, hdev, hcl, hash, hh, hst⟩
  · exact absurd hok (by simp [hf])
  refine ⟨context, hpos, hdev, hst.trans ?_, hcl⟩
  exact congrArg some (Json.str.inj (hh.symm.trans hc.next))

/-- One step of a claimed server succeeds in a recovery or leaves the stored hash alone. -/
theorem recoverySecretHash_step {m : ℕ} (hcl : (recoveryStateAt pf recoverySecretVar
      storage events m).storage.readAuthValues.claimed = true) :
    (∃ u, recoveredAt pf recoverySecretVar storage events m = some u) ∨
      ((recoveryStateAt pf recoverySecretVar storage events
          (m + 1)).storage.recoverySecretHash =
        (recoveryStateAt pf recoverySecretVar storage events m).storage.recoverySecretHash ∧
      (recoveryStateAt pf recoverySecretVar storage events
        (m + 1)).storage.readAuthValues.claimed = true) := by
  rcases stateAt_step (recoveryNext pf recoverySecretVar) ⟨storage, []⟩ events m with
    ⟨-, hn⟩ | ⟨event, hev, hn⟩
  · exact .inr ⟨congrArg (·.storage.recoverySecretHash) hn, by rwa [recoveryStateAt, hn]⟩
  rw [← recoveryStateAt, ← recoveryStateAt] at hn
  cases event with
  | read body =>
    right
    rw [hn, recoveryNext]
    split <;> exact ⟨rfl, hcl⟩
  | serve request =>
    right
    rw [hn, recoveryNext]
    split
    · exact ⟨rfl, hcl⟩
    · next hoper =>
      have hch := fetch_change pf request
        (recoveryStateAt pf recoverySecretVar storage events m).storage
      exact ⟨recoverySecretHash_change hcl hoper hch, (claimed_change hcl hch).1⟩
  | post i context =>
    cases hfl : (recoveryStateAt pf recoverySecretVar storage events m).inFlight[i]? with
    | none =>
      right
      rw [hn, recoveryNext, hfl]
      exact ⟨rfl, hcl⟩
    | some verified =>
      rcases recover_outcome (fetch_change pf (verified.request context)
        (recoveryStateAt pf recoverySecretVar storage events m).storage) with
        ⟨-, hs⟩ | ⟨hok, -⟩
      · right
        rw [hn, recoveryNext, hfl]
        dsimp only
        rw [hs]
        exact ⟨rfl, hcl⟩
      · exact .inl ⟨verified, by simp [recoveredAt, postedAt, hev, hfl, Option.filter, hok]⟩

/-- After a success the stored hash is that of the secret registered last. -/
theorem registered_after {i : ℕ}
    (h : recoveredAt pf recoverySecretVar storage events i = some verified) (m : ℕ)
    (hm : i < m) : ∃ k u, i ≤ k ∧ k < m ∧
      recoveredAt pf recoverySecretVar storage events k = some u ∧
      (recoveryStateAt pf recoverySecretVar storage events m).storage.recoverySecretHash =
        some (pf.sha256Hex u.nextRecoverySecret) ∧
      (recoveryStateAt pf recoverySecretVar storage events
        m).storage.readAuthValues.claimed = true := by
  induction m, hm using Nat.le_induction with
  | base =>
    obtain ⟨_, -, -, hst, hcl⟩ := recoveredAt_eq_some h
    exact ⟨i, verified, le_rfl, Nat.lt_succ_self i, h, hst, hcl⟩
  | succ m hm ih =>
    obtain ⟨k, u, hik, hkm, hu, hst, hcl⟩ := ih
    rcases recoverySecretHash_step hcl with ⟨u', hu'⟩ | ⟨hs, hcl'⟩
    · obtain ⟨_, -, -, hst', hcl'⟩ := recoveredAt_eq_some hu'
      exact ⟨m, u', by omega, Nat.lt_succ_self m, hu', hst', hcl'⟩
    · exact ⟨k, u, hik, by omega, hu, hs.trans hst, hcl'⟩

/-- Hashing is injective on the recovery secrets of the run. -/
def RecoveryHashesApart (platform : Platform) (events : List RecoveryEvent) : Prop :=
  ∀ s ∈ events.flatMap recoverySecrets, ∀ t ∈ events.flatMap recoverySecrets,
    platform.sha256Hex s = platform.sha256Hex t → s = t

theorem readConfig_recoverySecretHash {secret : JsString}
    (h : storage.recoverySecretHash = some (pf.sha256Hex secret)) :
    storage.readConfig.recoverySecretHash = some (pf.sha256Hex secret) := by
  simp [ConfigStorage.readConfig, ConfigStorage.readAuthValues, h, Option.filter,
    pf.validHash_sha256Hex]

theorem checked_of_recoveredAt {n : ℕ}
    (h : recoveredAt pf recoverySecretVar storage events n = some verified) :
    Checked pf recoverySecretVar (events.flatMap recoverySecrets) verified := by
  obtain ⟨context, hpos, -⟩ := recoveredAt_eq_some h
  obtain ⟨i, -, hfl⟩ := postedAt_eq_some hpos
  exact checked_at n verified (mem_of_getElem? hfl)

end Runs

/-- While every post still finds the hash it was verified against, two successes with one secret
have a registration of it between them. -/
theorem recovery_secret_used_once (platform : Platform) (recoverySecretVar : Option JsString)
    (storage : ConfigStorage) (events : List RecoveryEvent)
    (hhash : RecoveryHashesApart platform events)
    (hcurrent : SnapshotCurrent platform recoverySecretVar storage events) :
    ∀ i j v w, i < j → recoveredAt platform recoverySecretVar storage events i = some v →
      recoveredAt platform recoverySecretVar storage events j = some w →
      v.recoverySecret = w.recoverySecret →
      ∃ k u, i ≤ k ∧ k < j ∧ recoveredAt platform recoverySecretVar storage events k = some u ∧
        u.nextRecoverySecret = w.recoverySecret := by
  intro i j v w hij hv hw _
  obtain ⟨k, u, hik, hkj, hu, hst, -⟩ := registered_after hv j hij
  obtain ⟨context, hpos, hdev, -⟩ := recoveredAt_eq_some hw
  have hsnap := (hcurrent j w context hpos hdev).trans
    (readConfig_recoverySecretHash hst)
  have hw' := checked_of_recoveredAt hw
  have hsup := hw'.supplied
  rw [expectedHash, hsnap, some_or] at hsup
  exact ⟨k, u, hik, hkj, hu, hhash _ (checked_of_recoveredAt hu).next_mem _ hw'.supplied_mem
    (some.inj hsup)⟩

namespace Sample

open ServerConfig.Sample

/-- Device A asks for a recovery. -/
def recoverA (recoverySecret nextRecoverySecret : JsString) : RecoveryEvent :=
  .read (body (vault :: ("recoverySecret", .str recoverySecret) ::
    ("nextRecoverySecret", .str nextRecoverySecret) :: deviceFields "device-A" "Laptop" keyA))

def postFirst (now : ℕ) : RecoveryEvent := .post 0 (context now [] [])

/-- Three recoveries one after the other; the second registers the first secret again. -/
def inTurn : List RecoveryEvent := [.serve claimA, recoverA recovery0 recovery1, postFirst 2000,
  recoverA recovery1 recovery0, postFirst 3000, recoverA recovery0 recovery2, postFirst 4000]

/-- Two requests read the config before either posts. -/
def overlapping : List RecoveryEvent := [.serve claimA, recoverA recovery0 recovery1,
  recoverA recovery0 recovery2, postFirst 2000, postFirst 3000]

end Sample

theorem recovery_secret_used_once_inTurn :
    ∃ k u, 2 ≤ k ∧ k < 6 ∧
      recoveredAt platform none {} Sample.inTurn k = some u ∧
      u.nextRecoverySecret = recovery0 := by
  have hc : ∀ n < 7, (postedAt platform none {} Sample.inTurn n).all
      (fun p => p.1.config.recoverySecretHash = (recoveryStateAt platform none
        {} Sample.inTurn n).storage.readConfig.recoverySecretHash) = true := by
    decide
  have hrun : ((recoveredAt platform none {} Sample.inTurn 2).any fun v =>
      v.recoverySecret = recovery0) = true ∧
      ((recoveredAt platform none {} Sample.inTurn 6).any fun w =>
        w.recoverySecret = recovery0) = true := by
    decide
  obtain ⟨v, hv, hv0⟩ := (any_eq_true _ _).mp hrun.1
  obtain ⟨w, hw, hw0⟩ := (any_eq_true _ _).mp hrun.2
  have hv0 := of_decide_eq_true hv0
  have hw0 := of_decide_eq_true hw0
  rw [← hw0]
  refine recovery_secret_used_once platform none {} Sample.inTurn
    (by unfold RecoveryHashesApart; decide) ?_ 2 6 v w (by omega) hv hw
    (hv0.trans hw0.symm)
  intro n verified context hpos _
  obtain ⟨i, hn, -⟩ := postedAt_eq_some hpos
  have hall := hc n (List.getElem?_eq_some_iff.mp hn).1
  rw [hpos] at hall
  exact of_decide_eq_true hall

/-- Both succeed with one secret and neither registers it again. -/
theorem overlapping_recoveries_share_secret :
    ∃ v w, recoveredAt platform none {} Sample.overlapping 3 = some v ∧
      recoveredAt platform none {} Sample.overlapping 4 = some w ∧
      v.recoverySecret = w.recoverySecret ∧ v.nextRecoverySecret ≠ w.recoverySecret := by
  have hrun : ((recoveredAt platform none {} Sample.overlapping 3).any fun v =>
      v.recoverySecret = recovery0 ∧ v.nextRecoverySecret ≠ recovery0) = true ∧
      ((recoveredAt platform none {} Sample.overlapping 4).any fun w =>
        w.recoverySecret = recovery0) = true := by
    decide
  obtain ⟨v, hv, hv0⟩ := (any_eq_true _ _).mp hrun.1
  obtain ⟨w, hw, hw0⟩ := (any_eq_true _ _).mp hrun.2
  obtain ⟨hsec, hn⟩ := of_decide_eq_true hv0
  have hw0 := of_decide_eq_true hw0
  exact ⟨v, w, hv, hw, hsec.trans hw0.symm, by rwa [hw0]⟩

end Worker

end Kaos.Server
