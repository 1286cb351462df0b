import Kaos.Server.ServerConfig

/-! All that one request of the Config Durable Object can do. -/
namespace Kaos.Server

open Kaos.Lib Option List

namespace ServerConfig

variable {P : Platform} {context : RequestContext} {body : Record}
  {storage storage' : ConfigStorage} {response : Response}

/-- The live pairing a body names. -/
def namedPairing (platform : Platform) (body : Record) (context : RequestContext)
    (storage : ConfigStorage) : Option StoredPairing :=
  (pairingProof body).bind (matchedPairing platform
    (cleanup StoredPairing.expiresAt storage.readAuthValues.pairings context.now))

/-- The writes of `fetch` with their guards, one constructor for each outcome. -/
inductive Change (platform : Platform) (body : Record) (context : RequestContext)
    (storage : ConfigStorage) : Operation → Response → ConfigStorage → Prop
  | refused (operation : Operation) (status : ℕ) (error : String) :
      Change platform body context storage operation (.error status error) storage
  | config : Change platform body context storage .config (.config storage.readConfig) storage
  | claimByDevice {vaultId recoverySecretHash : JsString} {ownerDevice : DeviceCandidate}
      (hvault : guardStr validVaultId (body "vaultId") = some vaultId)
      (hhash : guardStr validHash (body "recoverySecretHash") = some recoverySecretHash)
      (hclaimed : storage.readAuthValues.claimed = false)
      (hdevice : deviceFromBody platform body = some ownerDevice) :
      Change platform body context storage .claim
        (.claimedByDevice ownerDevice.id (fingerprintForKey platform ownerDevice.publicKey) vaultId
          1)
        (claimedStorage storage vaultId recoverySecretHash
          [claimOwner platform context ownerDevice vaultId] []
          ⟨context.now, .claimed, some ownerDevice.id, some ownerDevice.id,
            some (fingerprintForKey platform ownerDevice.publicKey)⟩)
  | claimByServer {vaultId recoverySecretHash : JsString}
      (hvault : guardStr validVaultId (body "vaultId") = some vaultId)
      (hhash : guardStr validHash (body "recoverySecretHash") = some recoverySecretHash)
      (hclaimed : storage.readAuthValues.claimed = false) :
      Change platform body context storage .claim
        (.claimedByServer vaultId 1 (grant (ownerPairing platform context) context.secret))
        (claimedStorage storage vaultId recoverySecretHash [] [ownerPairing platform context]
          ⟨context.now, .claimed, none, none, none⟩)
  | metadata (updateProvider : Option UpdateProvider) (updateRepoUrl updateRepoBranch :
      Option JsString) (config : StoredServerConfig) :
      Change platform body context storage .updateMetadata (.metadata config)
        { storage with updateProvider, updateRepoUrl, updateRepoBranch }
  | recover {nextRecoverySecretHash : JsString} {candidate : DeviceCandidate}
      (hverified : isTrue (body "recoveryVerified") = true)
      (hhash : guardStr validHash (body "nextRecoverySecretHash") = some nextRecoverySecretHash)
      (hvault : guardStr validVaultId (body "vaultId") = some storage.readAuthValues.vaultId)
      (hclaimed : storage.readAuthValues.claimed = true)
      (hdevice : deviceFromBody platform body = some candidate) :
      Change platform body context storage .recover
        (.recovered candidate.id (storage.readAuthValues.authGeneration + 1))
        { storage with
          authDevices := recoveredDevices context storage.readAuthValues.devices
            (recoveredOwner platform context candidate storage.readAuthValues.vaultId)
          authPairings := []
          authChallenges := []
          authSessions := []
          authTickets := []
          authGeneration := some (storage.readAuthValues.authGeneration + 1)
          recoverySecretHash := some nextRecoverySecretHash
          authAudit := addAudit storage.readAuthValues.audit ⟨context.now, .recovery, none,
            some candidate.id, some (fingerprintForKey platform candidate.publicKey)⟩ }
  | createPairing {principal : DevicePrincipal}
      (hprincipal : storage.ownerPrincipal platform context.authNow body = some principal) :
      Change platform body context storage .createPairing
        (.pairing (grant (memberPairing platform context body principal.deviceId) context.secret)
          principal.vaultId)
        { storage with
          authPairings := (cleanup StoredPairing.expiresAt storage.readAuthValues.pairings
            context.now ++ [memberPairing platform context body principal.deviceId]).rtake
              MAX_PAIRINGS
          authAudit := addAudit storage.readAuthValues.audit
            ⟨context.now, .pairing_created, some principal.deviceId, none, none⟩ }
  | pairActive {candidate : DeviceCandidate} {matched : StoredPairing}
      {existing : StoredDevice} (devices : List StoredDevice)
      (hvault : guardStr validVaultId (body "vaultId") = some storage.readAuthValues.vaultId)
      (hclaimed : storage.readAuthValues.claimed = true)
      (hdevice : deviceFromBody platform body = some candidate)
      (hmatched : namedPairing platform body context storage = some matched)
      (hexisting : (storage.readAuthValues.devices.find? fun device => device.id = candidate.id) =
        some existing)
      (hactive : existing.status = .active)
      (hdevices : devices = storage.readAuthValues.devices ∨
        devices = storage.readAuthValues.devices.map fun d =>
          if d.id = candidate.id then { d with name := candidate.name } else d) :
      Change platform body context storage .pair
        (.alreadyPaired existing.id existing.fingerprint storage.readAuthValues.vaultId)
        { storage with
          authDevices := devices
          authPairings := (cleanup StoredPairing.expiresAt storage.readAuthValues.pairings
            context.now).erase matched }
  | pairNew {candidate : DeviceCandidate} {matched : StoredPairing}
      {role : DeviceRole}
      (hvault : guardStr validVaultId (body "vaultId") = some storage.readAuthValues.vaultId)
      (hclaimed : storage.readAuthValues.claimed = true)
      (hdevice : deviceFromBody platform body = some candidate)
      (hmatched : namedPairing platform body context storage = some matched)
      (hexisting : ∀ device ∈ storage.readAuthValues.devices.find? fun device =>
        device.id = candidate.id, device.status ≠ .active)
      (hrole : role = assignedRole matched storage.readAuthValues.devices) :
      Change platform body context storage .pair
        (.paired candidate.id role (fingerprintForKey platform candidate.publicKey)
          storage.readAuthValues.vaultId storage.readAuthValues.authGeneration)
        { storage with
          authDevices :=
            if (storage.readAuthValues.devices.find? fun device =>
                device.id = candidate.id).isSome then
              storage.readAuthValues.devices.map fun d =>
                if d.id = candidate.id then
                  pairedDevice platform context candidate storage.readAuthValues.vaultId role else d
            else storage.readAuthValues.devices ++
              [pairedDevice platform context candidate storage.readAuthValues.vaultId role]
          authPairings := (cleanup StoredPairing.expiresAt storage.readAuthValues.pairings
            context.now).erase matched
          authAudit := addAudit storage.readAuthValues.audit ⟨context.now, .device_paired,
            some matched.createdBy, some candidate.id,
            some (fingerprintForKey platform candidate.publicKey)⟩ }
  | challenge {device : StoredDevice} {challenge : StoredChallenge}
      (hvault : guardStr validVaultId (body "vaultId") = some storage.readAuthValues.vaultId)
      (hclaimed : storage.readAuthValues.claimed = true)
      (hid : guardStr validId (body "deviceId") = some device.id)
      (hdevice : device ∈ storage.readAuthValues.devices) (hactive : device.status = .active)
      (hchallenge : challenge = ⟨context.id, device.id, storage.readAuthValues.vaultId,
        context.secret, storage.readAuthValues.authGeneration, context.now + CHALLENGE_TTL_MS⟩) :
      Change platform body context storage .challenge
        (.challenge challenge.id challenge.nonce challenge.expiresAt challenge.authGeneration)
        { storage with
          authChallenges := (cleanup StoredChallenge.expiresAt storage.readAuthValues.challenges
            context.now ++ [challenge]).rtake MAX_SESSIONS }
  | session {challengeId encodedSignature : JsString} {challenge : StoredChallenge}
      {device : StoredDevice} {session : StoredSession}
      (hid : guardStr validId (body "challengeId") = some challengeId)
      (hsignature : guardStr (fun s => 16 ≤ s.length ∧ s.length ≤ 512) (body "signature") =
        some encodedSignature)
      (hchallenge : ((cleanup StoredChallenge.expiresAt storage.readAuthValues.challenges
        context.now).find? fun entry => entry.id = challengeId) = some challenge)
      (hclaimed : storage.readAuthValues.claimed = true)
      (hgeneration : challenge.authGeneration = storage.readAuthValues.authGeneration)
      (hdevice : (storage.readAuthValues.devices.find? fun entry =>
        entry.id = challenge.deviceId ∧ entry.status = .active ∧
          entry.vaultId = challenge.vaultId) = some device)
      (hverify : verifySignature platform device challenge encodedSignature = true)
      (hsession : session = ⟨context.id, platform.sha256Hex context.secret, device.id,
        device.vaultId, storage.readAuthValues.authGeneration, context.now + SESSION_TTL_MS⟩) :
      Change platform body context storage .session
        (.session context.secret session.expiresAt device.id device.role
          storage.readAuthValues.authGeneration)
        { storage with
          authChallenges := storage.readAuthValues.challenges.filter fun entry =>
            entry.id ≠ challenge.id
          authSessions := (cleanup StoredSession.expiresAt storage.readAuthValues.sessions
            context.now ++ [session]).rtake MAX_SESSIONS
          authDevices := storage.readAuthValues.devices.map fun entry =>
            if entry.id = device.id then { entry with lastSeenAt := some context.now } else entry }
  | validateSession {session vaultId : JsString} {stored : StoredSession} {device : StoredDevice}
      (hsession : guardStr isToken (body "session") = some session)
      (hvault : guardStr validVaultId (body "vaultId") = some vaultId)
      (hlookup : storage.lookupSession platform context.now session vaultId =
        some (stored, device)) :
      Change platform body context storage .validateSession
        (.principal ⟨device.id, device.vaultId, device.role,
          storage.readAuthValues.authGeneration⟩ (some stored.expiresAt)) storage
  | issueTicket {principal : DevicePrincipal} {stored : StoredTicket}
      (hprincipal : storage.bodyPrincipal platform context.authNow body = some principal)
      (hstored : stored = ⟨platform.sha256Hex context.secret, principal.deviceId,
        principal.vaultId, principal.authGeneration, context.now + DEVICE_TICKET_TTL_MS⟩) :
      Change platform body context storage .issueTicket
        (.ticket context.secret stored.expiresAt)
        { storage with
          authTickets := (cleanup StoredTicket.expiresAt storage.readAuthValues.tickets
            context.now ++ [stored]).rtake MAX_TICKETS }
  | rejectTicket (status : ℕ) (error : String) {tickets : List StoredTicket}
      (htickets : tickets.Sublist storage.readAuthValues.tickets) :
      Change platform body context storage .consumeTicket (.error status error)
        { storage with authTickets := tickets }
  | consumeTicket {rawTicket vaultId : JsString} {ticket : StoredTicket} {device : StoredDevice}
      (hticket : guardStr isToken (body "ticket") = some rawTicket)
      (hvault : guardStr validVaultId (body "vaultId") = some vaultId)
      (hfind : ((cleanup StoredTicket.expiresAt storage.readAuthValues.tickets
        context.now).find? fun entry =>
          sameSecretHash entry.hash (platform.sha256Hex rawTicket)) = some ticket)
      (hdevice : (storage.readAuthValues.devices.find? fun entry => entry.id = ticket.deviceId) =
        some device)
      (hclaimed : storage.readAuthValues.claimed = true)
      (hvaultId : storage.readAuthValues.vaultId = vaultId) (hticketVault : ticket.vaultId = vaultId)
      (hgeneration : ticket.authGeneration = storage.readAuthValues.authGeneration)
      (hactive : device.status = .active) :
      Change platform body context storage .consumeTicket
        (.principal ⟨device.id, device.vaultId, device.role,
          storage.readAuthValues.authGeneration⟩ none)
        { storage with
          authTickets := (cleanup StoredTicket.expiresAt storage.readAuthValues.tickets
            context.now).erase ticket }
  | listDevices {principal : DevicePrincipal}
      (hprincipal : storage.ownerPrincipal platform context.authNow body = some principal) :
      Change platform body context storage .listDevices
        (.devices storage.readAuthValues.devices storage.readAuthValues.authGeneration) storage
  | keepRole {principal : DevicePrincipal} {target : StoredDevice} {role : DeviceRole}
      (hprincipal : storage.ownerPrincipal platform context.authNow body = some principal)
      (hid : guardStr validId (body "targetDeviceId") = some target.id)
      (hrole : roleFromJson (body "role") = some role)
      (htarget : findActive storage.readAuthValues.devices target.id = some target)
      (hkept : target.role = role) :
      Change platform body context storage .changeDeviceRole
        (.roleChanged target.id role storage.readAuthValues.authGeneration) storage
  | changeRole {principal : DevicePrincipal} {target : StoredDevice} {role : DeviceRole}
      (hprincipal : storage.ownerPrincipal platform context.authNow body = some principal)
      (hid : guardStr validId (body "targetDeviceId") = some target.id)
      (hrole : roleFromJson (body "role") = some role)
      (htarget : findActive storage.readAuthValues.devices target.id = some target)
      (hchanged : target.role ≠ role)
      (howners : target.role = .owner → 1 < (activeOwners storage.readAuthValues.devices).length) :
      Change platform body context storage .changeDeviceRole
        (.roleChanged target.id role (storage.readAuthValues.authGeneration + 1))
        (advanceGeneration storage
          (storage.readAuthValues.devices.map fun device =>
            if device.id = target.id then { device with role } else device)
          ⟨context.now, .device_role_changed, some principal.deviceId, some target.id,
            some target.fingerprint⟩)
  | revoke {principal : DevicePrincipal} {target : StoredDevice}
      (hprincipal : storage.ownerPrincipal platform context.authNow body = some principal)
      (hid : guardStr validId (body "targetDeviceId") = some target.id)
      (htarget : findActive storage.readAuthValues.devices target.id = some target)
      (howners : target.role = .owner → 1 < (activeOwners storage.readAuthValues.devices).length) :
      Change platform body context storage .revokeDevice
        (.revoked target.id (storage.readAuthValues.authGeneration + 1))
        (advanceGeneration storage
          (storage.readAuthValues.devices.map fun device =>
            if device.id = target.id then
              { device with status := .revoked, revokedAt := some context.now }
            else device)
          ⟨context.now, .device_revoked, some principal.deviceId, some target.id,
            some target.fingerprint⟩)
  | keepName {principal : DevicePrincipal} {target : StoredDevice}
      (hprincipal : storage.bodyPrincipal platform context.authNow body = some principal)
      (hid : guardStr validId (body "targetDeviceId") = some target.id)
      (htarget : findActive storage.readAuthValues.devices target.id = some target) :
      Change platform body context storage .renameDevice (.renamed target.id target.name) storage
  | rename {principal : DevicePrincipal} {target : StoredDevice} {rawName : JsString}
      (hprincipal : storage.bodyPrincipal platform context.authNow body = some principal)
      (hid : guardStr validId (body "targetDeviceId") = some target.id)
      (hname : guardStr (fun _ => true) (body "deviceName") = some rawName)
      (hnonempty : rawName.trim ≠ []) (hlength : rawName.trim.length ≤ 64)
      (hallowed : principal.role = .owner ∨ principal.deviceId = target.id)
      (htarget : findActive storage.readAuthValues.devices target.id = some target)
      (hchanged : target.name ≠ rawName.trim) :
      Change platform body context storage .renameDevice (.renamed target.id rawName.trim)
        { storage with
          authDevices := storage.readAuthValues.devices.map fun device =>
            if device.id = target.id then { device with name := rawName.trim } else device
          authAudit := addAudit storage.readAuthValues.audit ⟨context.now, .device_renamed,
            some principal.deviceId, some target.id, some target.fingerprint⟩ }

theorem mem_of_find? {α : Type*} {p : α → Bool} {xs : List α} {x : α} (h : xs.find? p = some x) :
    x ∈ xs ∧ p x = true :=
  ⟨mem_of_find?_eq_some h, find?_some h⟩

variable {device : StoredDevice}

theorem findActive_eq_some {devices : List StoredDevice} {id : JsString}
    (h : findActive devices id = some device) :
    device ∈ devices ∧ device.id = id ∧ device.status = .active := by
  obtain ⟨hmem, hdev⟩ := mem_of_find? h
  exact ⟨hmem, by simpa using hdev⟩

variable {vaultId : JsString}

theorem claimed_of_not (h : ¬ (¬ storage.readAuthValues.claimed = true ∨
    storage.readAuthValues.vaultId ≠ vaultId)) :
    storage.readAuthValues.claimed = true ∧ vaultId = storage.readAuthValues.vaultId := by
  simp only [not_or, not_not] at h
  exact ⟨h.1, h.2.symm⟩

variable {now : ℕ} {rawSession : JsString}

/-- What an open session is: live, of the vault and generation, on an active device. -/
theorem lookupSession_eq_some {session : StoredSession}
    (h : storage.lookupSession P now rawSession vaultId = some (session, device)) :
    ((cleanup StoredSession.expiresAt storage.readAuthValues.sessions now).find? fun entry =>
        sameSecretHash entry.hash (P.sha256Hex rawSession)) = some session ∧
      (storage.readAuthValues.devices.find? fun entry => entry.id = session.deviceId) =
        some device ∧
      storage.readAuthValues.claimed = true ∧ storage.readAuthValues.vaultId = vaultId ∧
      session.vaultId = vaultId ∧
      session.authGeneration = storage.readAuthValues.authGeneration ∧ device.status = .active := by
  simp only [ConfigStorage.lookupSession, bind, bind_eq_some_iff] at h
  obtain ⟨session', hsess, device', hdev, hs⟩ := h
  split at hs
  · next hall =>
    obtain ⟨rfl, rfl⟩ := Prod.mk.inj (some.inj hs)
    exact ⟨hsess, hdev, hall⟩
  · cases hs

theorem principalForSession_eq_some {principal : DevicePrincipal}
    (h : storage.principalForSession P now rawSession vaultId = some principal) :
    ∃ session device, storage.lookupSession P now rawSession vaultId = some (session, device) ∧
      principal = ⟨device.id, device.vaultId, device.role,
        storage.readAuthValues.authGeneration⟩ := by
  obtain ⟨⟨session, device⟩, hl, rfl⟩ := map_eq_some_iff.mp h
  exact ⟨session, device, hl, rfl⟩

section

variable {now : ℕ} {principal : DevicePrincipal}

theorem bodyPrincipal_eq_some (h : storage.bodyPrincipal P now body = some principal) :
    ∃ rawSession vaultId, body "session" = .str rawSession ∧
      guardStr validVaultId (body "vaultId") = some vaultId ∧
      storage.principalForSession P now rawSession vaultId = some principal := by
  simp only [ConfigStorage.bodyPrincipal, bind, bind_eq_some_iff] at h
  obtain ⟨rawSession, hsess, vaultId, hv, hp⟩ := h
  refine ⟨rawSession, vaultId, ?_, hv, hp⟩
  cases hbody : body "session" <;> simp_all [guardStr]

theorem ownerPrincipal_eq_some (h : storage.ownerPrincipal P now body = some principal) :
    storage.bodyPrincipal P now body = some principal ∧ principal.role = .owner := by
  obtain ⟨hp, hrole⟩ := filter_eq_some_iff.mp h
  exact ⟨hp, by simpa using hrole⟩

theorem claimed_of_bodyPrincipal (h : storage.bodyPrincipal P now body = some principal) :
    storage.readAuthValues.claimed = true := by
  obtain ⟨_, _, -, -, hp⟩ := bodyPrincipal_eq_some h
  obtain ⟨_, _, hl, -⟩ := principalForSession_eq_some hp
  exact (lookupSession_eq_some hl).2.2.1

/-- The caller is an active device in the role of its principal. -/
theorem device_of_bodyPrincipal (h : storage.bodyPrincipal P now body = some principal) :
    ∃ device ∈ storage.readAuthValues.devices, device.id = principal.deviceId ∧
      device.status = .active ∧ device.role = principal.role := by
  obtain ⟨_, _, -, -, hp⟩ := bodyPrincipal_eq_some h
  obtain ⟨session, device, hl, rfl⟩ := principalForSession_eq_some hp
  obtain ⟨-, hdev, -, -, -, -, hact⟩ := lookupSession_eq_some hl
  exact ⟨device, (mem_of_find? hdev).1, rfl, hact, rfl⟩

end

theorem claim_change : Change P body context storage .claim
    (claim P context body storage).1 (claim P context body storage).2 := by
  unfold claim
  split
  · next vaultId hash hv hh =>
    split
    · exact .refused ..
    · next hcl =>
      have hcl : storage.readAuthValues.claimed = false := by simpa using hcl
      split
      · next ownerDevice hdev => exact .claimByDevice hv hh hcl hdev
      · exact .claimByServer hv hh hcl
  · exact .refused ..

theorem updateMetadata_change : Change P body context storage .updateMetadata
    (updateMetadata P body storage).1 (updateMetadata P body storage).2 := by
  unfold updateMetadata
  split
  · exact .metadata ..
  all_goals exact .refused ..

theorem recover_change : Change P body context storage .recover
    (recover P context body storage).1 (recover P context body storage).2 := by
  unfold recover
  split
  · next hash vaultId hv hh hvault =>
    dsimp only
    split
    · exact .refused ..
    · next hcl =>
      obtain ⟨ho, rfl⟩ := claimed_of_not hcl
      split
      · exact .refused ..
      · next candidate hdev => exact .recover hv hh hvault ho hdev
  · exact .refused ..

theorem createPairing_change : Change P body context storage .createPairing
    (createPairing P context body storage).1
    (createPairing P context body storage).2 := by
  unfold createPairing
  split
  · exact .refused ..
  · next principal hp => exact .createPairing hp

theorem pair_change : Change P body context storage .pair
    (pair P context body storage).1 (pair P context body storage).2 := by
  unfold pair
  split
  · exact .refused ..
  next vaultId hv =>
  split
  · exact .refused ..
  next candidate hdev =>
  split
  · exact .refused ..
  next proof hproof =>
  dsimp only
  split
  · exact .refused ..
  next hcl =>
  obtain ⟨ho, rfl⟩ := claimed_of_not hcl
  split
  · exact .refused ..
  next matched hm =>
  have hm : namedPairing P body context storage = some matched := by
    rw [namedPairing, hproof, bind_some]
    exact hm
  split
  · next existing he =>
    obtain ⟨he, hact⟩ := filter_eq_some_iff.mp he
    split
    · exact .refused ..
    refine .pairActive _ hv ho hdev hm he (by simpa using hact) ?_
    split
    · exact .inr rfl
    · exact .inl rfl
  · next he =>
    split
    · exact .refused ..
    refine .pairNew hv ho hdev hm ?_ rfl
    intro device hf hact
    rw [mem_def.mp hf, filter_some_pos (by simpa using hact)] at he
    exact absurd he (by simp)

theorem challenge_change : Change P body context storage .challenge
    (challenge context body storage).1 (challenge context body storage).2 := by
  unfold challenge
  split
  · next vaultId deviceId hv hid =>
    dsimp only
    split
    · exact .refused ..
    · next hcl =>
      obtain ⟨ho, rfl⟩ := claimed_of_not hcl
      split
      · exact .refused ..
      · next device hdev =>
        obtain ⟨hmem, rfl, hact⟩ := findActive_eq_some hdev
        exact .challenge hv ho hid hmem hact rfl
  · exact .refused ..

theorem session_change : Change P body context storage .session
    (session P context body storage).1 (session P context body storage).2 := by
  unfold session
  split
  · next challengeId encodedSignature hid hsig =>
    dsimp only
    split
    · exact .refused ..
    next challenge hchal =>
    split
    · exact .refused ..
    next hcl =>
    simp only [not_or, not_not, ne_eq] at hcl
    split
    · exact .refused ..
    next device hdev =>
    split
    · exact .refused ..
    next hv =>
    exact .session hid hsig hchal hcl.1 hcl.2 hdev (by simpa using hv)
      rfl
  · exact .refused ..

theorem validateSession_change : Change P body context storage .validateSession
    (validateSession P context body storage).1
    (validateSession P context body storage).2 := by
  unfold validateSession
  split
  · next session vaultId hsess hv =>
    split
    · exact .refused ..
    · next stored device hl => exact .validateSession hsess hv hl
  · exact .refused ..

theorem issueTicket_change : Change P body context storage .issueTicket
    (issueTicket P context body storage).1
    (issueTicket P context body storage).2 := by
  unfold issueTicket
  split
  · exact .refused ..
  · next principal hp => exact .issueTicket hp rfl

theorem consumeTicket_change : Change P body context storage .consumeTicket
    (consumeTicket P context body storage).1
    (consumeTicket P context body storage).2 := by
  unfold consumeTicket
  split
  · next rawTicket vaultId htic hv =>
    dsimp only
    split
    · exact .rejectTicket _ _ filter_sublist
    next ticket hf =>
    have herase := (erase_sublist (a := ticket)).trans
      (filter_sublist (l := storage.readAuthValues.tickets)
        (p := fun entry => context.now < entry.expiresAt))
    split
    · exact .rejectTicket _ _ herase
    next device hdev =>
    split
    · exact .rejectTicket _ _ herase
    next hacc =>
    simp only [not_or, not_not, ne_eq] at hacc
    obtain ⟨hcl, hvaultId, hticketVault, hgen, hact⟩ := hacc
    exact .consumeTicket htic hv hf hdev hcl hvaultId hticketVault hgen
      hact
  · exact .refused ..

theorem listDevices_change : Change P body context storage .listDevices
    (listDevices P context body storage).1
    (listDevices P context body storage).2 := by
  unfold listDevices
  split
  · exact .refused ..
  · next principal hp => exact .listDevices hp

theorem changeDeviceRole_change : Change P body context storage .changeDeviceRole
    (changeDeviceRole P context body storage).1
    (changeDeviceRole P context body storage).2 := by
  unfold changeDeviceRole
  split
  · next targetDeviceId role hid hrole =>
    split
    · exact .refused ..
    next principal hp =>
    dsimp only
    split
    · exact .refused ..
    next target htgt =>
    obtain ⟨-, rfl, -⟩ := findActive_eq_some htgt
    split
    · next hk => exact .keepRole hp hid hrole htgt hk
    next hch =>
    split
    · exact .refused ..
    next hown =>
    refine .changeRole hp hid hrole htgt hch fun ho => ?_
    cases role with
    | owner => exact absurd ho hch
    | member => simpa [ho] using hown
  · exact .refused ..

theorem revokeDevice_change : Change P body context storage .revokeDevice
    (revokeDevice P context body storage).1
    (revokeDevice P context body storage).2 := by
  unfold revokeDevice
  split
  · exact .refused ..
  next targetDeviceId hid =>
  split
  · exact .refused ..
  next principal hp =>
  dsimp only
  split
  · exact .refused ..
  next target htgt =>
  obtain ⟨-, rfl, -⟩ := findActive_eq_some htgt
  split
  · exact .refused ..
  next hown =>
  exact .revoke hp hid htgt fun ho => by simpa [ho] using hown

theorem renameDevice_change : Change P body context storage .renameDevice
    (renameDevice P context body storage).1
    (renameDevice P context body storage).2 := by
  unfold renameDevice
  split
  · next targetDeviceId rawName hid hn =>
    dsimp only
    split
    · exact .refused ..
    next hlen =>
    rw [not_or, not_lt] at hlen
    split
    · exact .refused ..
    next principal hp =>
    split
    · exact .refused ..
    next hallowed =>
    split
    · exact .refused ..
    next target htgt =>
    obtain ⟨-, rfl, -⟩ := findActive_eq_some htgt
    split
    · next hk =>
      rw [← hk]
      exact .keepName hp hid htgt
    next hch =>
    refine .rename hp hid hn hlen.1 hlen.2 ?_ htgt hch
    by_contra hnot
    exact hallowed (by simpa [not_or] using hnot)
  · exact .refused ..

/-- Every request does one of the listed changes. -/
theorem fetch_change (P : Platform) (request : Request) (storage : ConfigStorage) :
    Change P request.body request.context storage request.operation
      (fetch P request storage).1 (fetch P request storage).2 := by
  obtain ⟨operation, body, context⟩ := request
  cases operation with
  | config => exact .config
  | claim => exact claim_change
  | updateMetadata => exact updateMetadata_change
  | recover => exact recover_change
  | pair => exact pair_change
  | challenge => exact challenge_change
  | session => exact session_change
  | validateSession => exact validateSession_change
  | issueTicket => exact issueTicket_change
  | consumeTicket => exact consumeTicket_change
  | listDevices => exact listDevices_change
  | createPairing => exact createPairing_change
  | changeDeviceRole => exact changeDeviceRole_change
  | revokeDevice => exact revokeDevice_change
  | renameDevice => exact renameDevice_change

theorem fetch_eq (P : Platform) (request : Request) (storage : ConfigStorage) :
    ∃ response storage', fetch P request storage = (response, storage') ∧
      Change P request.body request.context storage request.operation response storage' :=
  ⟨_, _, rfl, fetch_change P request storage⟩

end ServerConfig

end Kaos.Server
