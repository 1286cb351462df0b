import Kaos.Server.Credentials

/-! Pairings and the authority of the owners that create them. -/
namespace Kaos.Server

open Kaos.Lib List Option

namespace ServerConfig

/-- An active owner of this id is in the registry as it is read back. -/
def OwnerActive (storage : ConfigStorage) (id : JsString) : Prop :=
  ∃ d ∈ devices storage, d.id = id ∧ ActiveOwner d

/-- A request that would take the authority of the device it names: it revokes the device, makes it
a member, or gives it a name that `isDevice` rejects. -/
def TargetsAuthority (request : Request) (id : JsString) : Prop :=
  guardStr validId (request.body "targetDeviceId") = some id ∧
    (request.operation = .revokeDevice ∨
      (request.operation = .changeDeviceRole ∧ roleFromJson (request.body "role") = some .member) ∨
      (request.operation = .renameDevice ∧
        (guardStr (fun _ => true) (request.body "deviceName")).any fun rawName =>
          ¬ validName rawName.trim))

/-- The request succeeds in it. -/
def Deposes (platform : Platform) (request : Request) (storage : ConfigStorage) (id : JsString) :
    Prop :=
  (fetch platform request storage).1.ok = true ∧ TargetsAuthority request id

/-- The pairing a claim leaves for its first owner. -/
def claimPairingAt (platform : Platform) (requests : List Request) (n : ℕ) : Option StoredPairing :=
  requests[n]?.bind fun request =>
    match (fetch platform request (storageAt platform requests n)).1 with
    | .claimedByServer _ _ _ => some (ownerPairing platform request.context)
    | _ => none

/-- The pairing was created by an earlier claim. -/
def ClaimPairing (platform : Platform) (requests : List Request) (n : ℕ) (pairing : StoredPairing) :
    Prop :=
  ∃ i < n, claimPairingAt platform requests i = some pairing

/-- The pairing with which a request makes a device active. -/
def activatedAt (platform : Platform) (requests : List Request) (n : ℕ) : Option StoredPairing :=
  requests[n]?.bind fun request =>
    let storage := storageAt platform requests n
    match (fetch platform request storage).1 with
    | .paired _ _ _ _ _ => namedPairing platform request.body request.context storage
    | _ => none

/-- No request deposes a device while a pairing it created is stored that a later `pair` still
finds live. -/
def PairingsEndFirst (platform : Platform) (requests : List Request) : Prop :=
  ∀ i request, requests[i]? = some request →
    ∀ p ∈ (storageAt platform requests i).readAuthValues.pairings,
      Deposes platform request (storageAt platform requests i) p.createdBy →
      ¬ ClaimPairing platform requests i p →
      ∀ j later, i < j → requests[j]? = some later → later.operation = .pair →
        p.expiresAt ≤ later.context.now

section Steps

variable {platform : Platform} {context : RequestContext} {body : Record}
  {operation : Operation} {storage storage' : ConfigStorage} {response : Response}

def UniqueIds (storage : ConfigStorage) : Prop := (storage.authDevices.map StoredDevice.id).Nodup

theorem UniqueIds.devices (h : UniqueIds storage) : ((devices storage).map StoredDevice.id).Nodup :=
  h.sublist (filter_sublist.map _)

theorem nodup_id_append {devices : List StoredDevice} {device : StoredDevice}
    (h : (devices.map StoredDevice.id).Nodup) (hnew : ∀ d ∈ devices, d.id ≠ device.id) :
    ((devices ++ [device]).map StoredDevice.id).Nodup := by
  rw [map_append, map_cons, map_nil, nodup_append_comm]
  refine nodup_cons.mpr ⟨fun hmem => ?_, h⟩
  obtain ⟨d, hd, hid⟩ := mem_map.mp hmem
  exact hnew d hd hid

theorem uniqueIds_change (h : UniqueIds storage)
    (hch : Change platform body context storage operation response storage') :
    UniqueIds storage' := by
  have hr := h.devices
  have hu : ∀ id (update : StoredDevice → StoredDevice), (∀ d, d.id = id → (update d).id = id) →
      ((updateById id update (devices storage)).map StoredDevice.id).Nodup := by
    intro id update hid
    rwa [map_id_updateById hid]
  cases hch with
  | claimByDevice => exact nodup_singleton _
  | claimByServer => exact nodup_nil
  | @recover _ candidate =>
    obtain ⟨kept, heq, hids, hk⟩ := recoveredDevices_eq context storage.readAuthValues.devices
      (recoveredOwner platform context candidate storage.readAuthValues.vaultId)
    rw [UniqueIds, heq]
    exact nodup_id_append (hr.sublist hids) fun d hd => (hk d hd).1
  | pairActive devices hv hcl hdev hm he hact hdevs =>
    rcases hdevs with rfl | rfl
    · exact hr
    · exact hu _ _ fun _ hd => hd
  | pairNew hv hcl hdev hm he hrole =>
    split
    · exact hu _ _ fun _ _ => rfl
    · next hn =>
      rw [not_isSome_iff_eq_none, find?_eq_none] at hn
      exact nodup_id_append hr fun d hd hid => hn d hd (decide_eq_true hid)
  | session | changeRole | revoke | rename => exact hu _ _ fun _ hd => hd
  | _ => exact h

variable {id : JsString}

/-- An owner stays active under an update in place that keeps its row valid and an owner's. -/
theorem ownerActive_updateById {target : JsString} {update : StoredDevice → StoredDevice}
    (hdevs : storage'.authDevices = updateById target update (devices storage))
    (hu : ∀ d, isDevice d = true → d.id = id → ActiveOwner d → d.id = target →
      isDevice (update d) = true ∧ (update d).id = id ∧ ActiveOwner (update d))
    (h : OwnerActive storage id) : OwnerActive storage' id := by
  obtain ⟨d, hd, rfl, ho⟩ := h
  have hv : isDevice d = true := of_mem_filter hd
  by_cases htgt : d.id = target
  · obtain ⟨hv', hid, ho'⟩ := hu d hv rfl ho htgt
    exact ⟨update d, mem_filter.mpr ⟨hdevs ▸ mem_updateById_of_eq hd htgt, hv'⟩, hid, ho'⟩
  · exact ⟨d, mem_filter.mpr ⟨hdevs ▸ mem_updateById_of_ne hd htgt, hv⟩, rfl, ho⟩

theorem ownerActive_of_authDevices_eq (hdevs : storage'.authDevices = storage.authDevices ∨
      storage'.authDevices = devices storage) (h : OwnerActive storage id) :
    OwnerActive storage' id := by
  obtain ⟨d, hd, hid, ho⟩ := h
  refine ⟨d, mem_filter.mpr ⟨?_, of_mem_filter hd⟩, hid, ho⟩
  rcases hdevs with hdevs | hdevs <;> rw [hdevs]
  · exact mem_of_mem_filter hd
  · exact hd

/-- The rows of `pairNew` leave an active owner in place. -/
theorem ownerActive_pairNew (hids : UniqueIds storage) (device : StoredDevice)
    (he : ∀ d ∈ (devices storage).find? fun d => d.id = device.id, d.status ≠ .active)
    (hdevs : storage'.authDevices =
      if ((devices storage).find? fun d => d.id = device.id).isSome then
        updateById device.id (fun _ => device) (devices storage)
      else devices storage ++ [device]) (h : OwnerActive storage id) : OwnerActive storage' id := by
  obtain ⟨d, hd, rfl, ho⟩ := h
  have hne : d.id ≠ device.id := by
    intro hid
    cases hf : (devices storage).find? fun d => d.id = device.id with
    | none => exact find?_eq_none.mp hf d hd (decide_eq_true hid)
    | some d' =>
      obtain ⟨hmem, hid'⟩ := mem_of_find? hf
      obtain rfl : d = d' := inj_on_of_nodup_map hids.devices hd hmem
        (hid.trans (of_decide_eq_true hid').symm)
      exact he d hf ho.1
  refine ⟨d, mem_filter.mpr ⟨?_, of_mem_filter hd⟩, rfl, ho⟩
  rw [hdevs]
  split
  · exact mem_updateById_of_ne hd hne
  · exact mem_append_left _ hd

theorem ownerActive_of_ownerPrincipal {now : ℕ} {principal : DevicePrincipal}
    (h : storage.ownerPrincipal platform now body = some principal) :
    OwnerActive storage principal.deviceId := by
  obtain ⟨hp, ho⟩ := ownerPrincipal_eq_some h
  obtain ⟨d, hd, hid, hact, hrole⟩ := device_of_bodyPrincipal hp
  exact ⟨d, hd, hid, hact, hrole.trans ho⟩

/-- An active owner stays one unless the request recovers the server or deposes it. -/
theorem ownerActive_change (hids : UniqueIds storage)
    (hchange : Change platform body context storage operation response storage')
    (h : OwnerActive storage id) :
    OwnerActive storage' id ∨ operation = .claim ∨ operation = .recover ∨
      (response.ok = true ∧ TargetsAuthority ⟨operation, body, context⟩ id) := by
  cases hchange with
  | claimByDevice | claimByServer => exact .inr (.inl rfl)
  | recover => exact .inr (.inr (.inl rfl))
  | pairActive devices hvault hcl hdev hm he hact hd =>
    refine .inl ?_
    rcases hd with rfl | rfl
    · exact ownerActive_of_authDevices_eq (.inr rfl) h
    exact ownerActive_updateById rfl (fun d hv hid ho _ =>
      ⟨isDevice_rename hv (deviceFromBody_valid hdev).2.1, hid, ho⟩) h
  | pairNew hvault hcl hdev hm he hrole =>
    exact .inl (ownerActive_pairNew hids (pairedDevice _ _ _ _ _) he rfl h)
  | session hid hsig hchal hcl hgen hdev hver hsess =>
    exact .inl (ownerActive_updateById rfl (fun d hv hid ho _ =>
      ⟨isDevice_with hv .., hid, ho⟩) h)
  | @changeRole _ target role hp hid hrole htgt hch hown =>
    by_cases hs : target.id = id
    · subst hs
      cases role with
      | owner =>
        exact .inl (ownerActive_updateById rfl (fun d hv hid ho _ =>
          ⟨isDevice_with hv .., hid, ho.1, rfl⟩) h)
      | member => exact .inr (.inr (.inr ⟨rfl, hid, .inr (.inl ⟨rfl, hrole⟩)⟩))
    · exact .inl (ownerActive_updateById rfl (fun d _ hid _ htgt =>
        absurd (htgt.symm.trans hid) hs) h)
  | @revoke _ target hp hid htgt hown =>
    by_cases hs : target.id = id
    · subst hs
      exact .inr (.inr (.inr ⟨rfl, hid, .inl rfl⟩))
    exact .inl (ownerActive_updateById rfl (fun d _ hid _ htgt =>
      absurd (htgt.symm.trans hid) hs) h)
  | @rename _ target rawName hp hid hn hnon hlen hallowed htgt hch =>
    by_cases hval : validName rawName.trim = true
    · exact .inl (ownerActive_updateById rfl (fun d hv hid ho _ =>
        ⟨isDevice_rename hv hval, hid, ho⟩) h)
    by_cases hs : target.id = id
    · subst hs
      exact .inr (.inr (.inr ⟨rfl, hid, .inr (.inr ⟨rfl, by simp [hn, hval]⟩)⟩))
    exact .inl (ownerActive_updateById rfl (fun d _ hid _ htgt =>
      absurd (htgt.symm.trans hid) hs) h)
  | _ => exact .inl (ownerActive_of_authDevices_eq (.inl rfl) h)

/-- A pairing after a request was created by its claim, belongs to an active owner, or was there
before and its owner, if one was active, was deposed. -/
theorem pairing_change (hids : UniqueIds storage)
    (hch : Change platform body context storage operation response storage')
    {p : StoredPairing} (hp : p ∈ storage'.readAuthValues.pairings) :
    (∃ vaultId authGeneration, response = .claimedByServer vaultId authGeneration
      (grant p context.secret) ∧ p = ownerPairing platform context) ∨
    OwnerActive storage' p.createdBy ∨
    (p ∈ storage.readAuthValues.pairings ∧ (OwnerActive storage p.createdBy →
      response.ok = true ∧ TargetsAuthority ⟨operation, body, context⟩ p.createdBy)) := by
  have hk : operation ≠ .claim → operation ≠ .recover → p ∈ storage.readAuthValues.pairings →
      OwnerActive storage' p.createdBy ∨
      (p ∈ storage.readAuthValues.pairings ∧ (OwnerActive storage p.createdBy →
        response.ok = true ∧ TargetsAuthority ⟨operation, body, context⟩ p.createdBy)) := by
    intro hcl hrec hmem
    by_cases ho : OwnerActive storage p.createdBy
    · rcases ownerActive_change hids hch ho with h | h | h | h
      · exact .inl h
      · exact absurd h hcl
      · exact absurd h hrec
      · exact .inr ⟨hmem, fun _ => h⟩
    · exact .inr ⟨hmem, fun h => absurd h ho⟩
  have hst : p ∈ storage'.authPairings := mem_of_mem_filter hp
  cases hch with
  | claimByDevice | recover => cases hst
  | claimByServer =>
    obtain rfl := mem_singleton.mp hst
    exact .inl ⟨_, _, rfl, rfl⟩
  | createPairing hpr =>
    rcases mem_append.mp (mem_of_mem_rtake hst) with hold | hnew
    · exact .inr (hk (by simp) (by simp) (mem_of_mem_filter hold))
    obtain rfl := mem_singleton.mp hnew
    exact .inr (.inl (ownerActive_of_authDevices_eq (.inl rfl) (ownerActive_of_ownerPrincipal hpr)))
  | pairActive | pairNew =>
    exact .inr (hk (by simp) (by simp) (mem_of_mem_filter (mem_of_mem_erase hst)))
  | refused operation =>
    exact .inr (by
      by_cases ho : OwnerActive storage p.createdBy
      · exact .inl ho
      · exact .inr ⟨hp, fun h => absurd h ho⟩)
  | _ => exact .inr (hk (by simp) (by simp) hp)

end Steps

section Runs

variable {platform : Platform} {requests : List Request}

theorem uniqueIds_at (n : ℕ) : UniqueIds (storageAt platform requests n) :=
  stateAt_invariant (P := UniqueIds) (show UniqueIds {} from nodup_nil)
    (fun storage request h => uniqueIds_change h (fetch_change platform request storage)) n

variable {n : ℕ} {p : StoredPairing}

theorem createdBy_of_claimPairing
    (h : ClaimPairing platform requests n p) : p.createdBy = js "server_claim" := by
  obtain ⟨i, -, hcl⟩ := h
  obtain ⟨request, -, hs⟩ := bind_eq_some_iff.mp hcl
  split at hs
  · obtain rfl := some.inj hs
    rfl
  · cases hs

/-- Every stored pairing is a claim's, or an active owner's, or expired for all that follows. -/
theorem pairings_accounted (hend : PairingsEndFirst platform requests) (n : ℕ) :
    ∀ p ∈ (storageAt platform requests n).readAuthValues.pairings,
      ClaimPairing platform requests n p ∨
      OwnerActive (storageAt platform requests n) p.createdBy ∨
      ∀ j later, n ≤ j → requests[j]? = some later → later.operation = .pair →
        p.expiresAt ≤ later.context.now := by
  induction n with
  | zero =>
    exact nofun
  | succ n ih =>
    intro p hp
    have hold : ClaimPairing platform requests n p → ClaimPairing platform requests (n + 1) p :=
      fun ⟨i, hi, hcl⟩ => ⟨i, by omega, hcl⟩
    cases hn : requests[n]? with
    | none =>
      rw [storageAt_succ_none hn] at hp ⊢
      rcases ih p hp with h | h | h
      · exact .inl (hold h)
      · exact .inr (.inl h)
      · exact .inr (.inr fun j later hj => h j later (by omega))
    | some request =>
      rw [storageAt_succ hn] at hp ⊢
      rcases pairing_change (uniqueIds_at n) (fetch_change platform request _) hp with
        ⟨vaultId, authGeneration, hres, rfl⟩ | ho | ⟨hmem, hdep⟩
      · exact .inl ⟨n, by omega, by simp [claimPairingAt, hn, hres]⟩
      · exact .inr (.inl ho)
      rcases ih p hmem with h | h | h
      · exact .inl (hold h)
      · by_cases hcl : ClaimPairing platform requests n p
        · exact .inl (hold hcl)
        exact .inr (.inr fun j later hj =>
          hend n request hn p hmem (hdep h) hcl j later (by omega))
      · exact .inr (.inr fun j later hj => h j later (by omega))

theorem activatedAt_eq_some
    (h : activatedAt platform requests n = some p) : ∃ request, requests[n]? = some request ∧
      request.operation = .pair ∧ p ∈ (storageAt platform requests n).readAuthValues.pairings ∧
      request.context.now < p.expiresAt := by
  obtain ⟨request, hn, hpaired⟩ := bind_eq_some_iff.mp h
  have hch := fetch_change platform request (storageAt platform requests n)
  dsimp only at hpaired
  generalize (fetch platform request (storageAt platform requests n)).1 = response at hch hpaired
  generalize (fetch platform request (storageAt platform requests n)).2 = storage' at hch
  split at hpaired
  · obtain ⟨proof, -, hm⟩ := bind_eq_some_iff.mp hpaired
    have hmem : p ∈ cleanup StoredPairing.expiresAt
        (storageAt platform requests n).readAuthValues.pairings request.context.now := by
      cases proof <;> exact (mem_of_find? hm).1
    obtain ⟨hmem, hl⟩ := mem_filter.mp hmem
    refine ⟨request, hn, ?_, hmem, of_decide_eq_true hl⟩
    generalize request.operation = operation at hch
    cases hch
    rfl
  · cases hpaired

end Runs

/-- While pairings end before their owners are deposed, a device becomes active only with a pairing
of the claim or of an owner that is still active. -/
theorem pairing_needs_owner (platform : Platform) (requests : List Request)
    (hend : PairingsEndFirst platform requests) :
    ∀ n p, activatedAt platform requests n = some p →
      ClaimPairing platform requests n p ∨
        OwnerActive (storageAt platform requests n) p.createdBy := by
  intro n p h
  obtain ⟨request, hn, hpair, hmem, hl⟩ := activatedAt_eq_some h
  rcases pairings_accounted hend n p hmem with hcl | ho | hexp
  · exact .inl hcl
  · exact .inr ho
  · exact absurd (hexp n request le_rfl hn hpair) (by omega)

namespace Sample

def createPairingA (now : ℕ) (secret id : JsString) : Request where
  operation := .createPairing
  body := body [vault, ("session", .str secretA)]
  context := context now secret id

def pairWith (now : ℕ) (qrSecret : JsString) (fields : List (String × Json)) : Request where
  operation := .pair
  body := body (vault :: ("qrSecret", .str qrSecret) :: fields)
  context := context now [] []

def deviceA : List (String × Json) := deviceFields "device-A" "Laptop" keyA
def deviceB : List (String × Json) := deviceFields "device-B" "Phone" keyB

/-- Device A claims the server and lets device B in. -/
def paired : List Request :=
  claimed ++ [createPairingA 4000 secretP1 pairingId1, pairWith 5000 secretP1 deviceB]

def promoteB : Request where
  operation := .changeDeviceRole
  body := body [vault, ("session", .str secretA), ("targetDeviceId", .str (js "device-B")),
    ("role", .str (js "owner"))]
  context := context 7000 [] []

def challengeB : Request where
  operation := .challenge
  body := body [vault, ("deviceId", .str (js "device-B"))]
  context := context 8000 nonceB challengeIdB

def sessionB : Request where
  operation := .session
  body := body [("challengeId", .str challengeIdB), ("signature", .str signatureB)]
  context := context 9000 secretB sessionIdB

def revokeA : Request where
  operation := .revokeDevice
  body := body [vault, ("session", .str secretB), ("targetDeviceId", .str (js "device-A"))]
  context := context 10000 [] []

/-- A second pairing of device A survives A's revocation by the new owner B, and A uses it. -/
def revoked : List Request := paired ++ [createPairingA 6000 secretP2 pairingId2, promoteB,
  challengeB, sessionB, revokeA, pairWith 11000 secretP2 deviceA]

/-- Device A leaves a pairing that lasts a minute; B becomes an owner, creates one of its own and
revokes A, which is let in again with B's after that minute. -/
def handedOver : List Request := paired ++ [
  { createPairingA 6000 secretP2 pairingId2 with
    body := body [vault, ("session", .str secretA), ("ttlMs", .num (some 60000))] },
  promoteB, challengeB, sessionB,
  { createPairingA 9500 secretT sessionIdA2 with body := body [vault, ("session", .str secretB)] },
  revokeA, pairWith 80000 secretT deviceA]

end Sample

instance (storage : ConfigStorage) (id : JsString) : Decidable (OwnerActive storage id) :=
  inferInstanceAs (Decidable (∃ d ∈ _, _ ∧ _))

/-- The requests of a pairing, which is activated at the last; when A is revoked there is one of A's,
which has expired by then. -/
def Sample.handedOverRun : { requests : List Request //
    (activatedAt Sample.platform requests 11).isSome = true ∧
      (storageAt Sample.platform requests 10).readAuthValues.pairings.map (·.createdBy) =
        [js "device-A", js "device-B"] ∧
      ∀ p ∈ (storageAt Sample.platform requests 10).readAuthValues.pairings,
        p.createdBy = js "device-A" → p.expiresAt ≤ 80000 } :=
  ⟨Sample.handedOver, by decide +kernel⟩

theorem pairing_needs_owner_paired :
    ∃ p, activatedAt Sample.platform Sample.handedOver 11 = some p ∧
      (ClaimPairing Sample.platform Sample.handedOver 11 p ∨
        OwnerActive (storageAt Sample.platform Sample.handedOver 11) p.createdBy) := by
  obtain ⟨hact, -, hexp⟩ := Sample.handedOverRun.property
  have hdeposing : ∀ k < 12, k ≠ 10 → ∀ request ∈ Sample.handedOver[k]?,
      request.operation ≠ .revokeDevice ∧ request.operation ≠ .renameDevice ∧
      roleFromJson (request.body "role") ≠ some .member := by decide
  have hpairs : ∀ k < 12, 10 < k → ∀ request ∈ Sample.handedOver[k]?, request.operation = .pair →
      request.context.now = 80000 := by decide
  have hend : PairingsEndFirst Sample.platform Sample.handedOver := by
    intro i request hi p hp hdep _ j later hij hj hpair
    have hat : i = 10 := by
      by_contra hne
      obtain ⟨hrev, hren, hrole⟩ := hdeposing i (List.getElem?_eq_some_iff.mp hi).1 hne request hi
      rcases hdep.2.2 with h | ⟨-, h⟩ | ⟨h, -⟩
      · exact hrev h
      · exact hrole h
      · exact hren h
    subst hat
    cases hi
    have hcreator : js "device-A" = p.createdBy := Option.some.inj hdep.2.1
    rw [hpairs j (List.getElem?_eq_some_iff.mp hj).1 hij later hj hpair]
    exact hexp p hp hcreator.symm
  obtain ⟨p, hp⟩ := isSome_iff_exists.mp hact
  exact ⟨p, hp, pairing_needs_owner Sample.platform Sample.handedOver hend 11 p hp⟩

/-- The requests of a revoked owner, whose pairing is activated at the last. -/
def Sample.revokedRun : { requests : List Request //
    (activatedAt Sample.platform requests 10).any (fun p =>
      p.createdBy ≠ js "server_claim" ∧
      ¬ OwnerActive (storageAt Sample.platform requests 10) p.createdBy) = true } :=
  ⟨Sample.revoked, by decide +kernel⟩

/-- A revoked owner is active again with a pairing it created before. -/
theorem revoked_owner_pairs_itself :
    ∃ p, activatedAt Sample.platform Sample.revoked 10 = some p ∧
      ¬ ClaimPairing Sample.platform Sample.revoked 10 p ∧
      ¬ OwnerActive (storageAt Sample.platform Sample.revoked 10) p.createdBy := by
  have hrun : (activatedAt Sample.platform Sample.revoked 10).any (fun p =>
      p.createdBy ≠ js "server_claim" ∧
      ¬ OwnerActive (storageAt Sample.platform Sample.revoked 10) p.createdBy) = true :=
    Sample.revokedRun.property
  obtain ⟨p, hp, hall⟩ := (any_eq_true _ _).mp hrun
  obtain ⟨hcreator, hinac⟩ := of_decide_eq_true hall
  exact ⟨p, hp, fun hcl => hcreator (createdBy_of_claimPairing hcl), hinac⟩

end ServerConfig

end Kaos.Server
