import Kaos.Server.Config

/-! The request handlers of the Config Durable Object, each one atomic over its storage. -/
namespace Kaos.Server

open Kaos.Lib

namespace ServerConfig

variable (platform : Platform) (context : RequestContext) (body : Record) (storage : ConfigStorage)

/-- The code as it is shown: `KAOS-abc-def`. -/
def displayCode (code : JsString) : JsString := js "KAOS-" ++ code.take 3 ++ js "-" ++ code.drop 3

def grant (pairing : StoredPairing) (qrSecret : JsString) : PairingGrant where
  pairingId := pairing.id
  qrSecret
  code := displayCode pairing.code
  rawCode := pairing.code
  expiresAt := pairing.expiresAt

/-- The first owner, of a claim that names a device. -/
def claimOwner (ownerDevice : DeviceCandidate) (vaultId : JsString) : StoredDevice where
  id := ownerDevice.id
  vaultId
  name := ownerDevice.name
  publicKey := ownerDevice.publicKey
  fingerprint := fingerprintForKey platform ownerDevice.publicKey
  role := .owner
  status := .active
  createdAt := context.now
  approvedAt := context.now
  revokedAt := none
  lastSeenAt := some context.now

/-- The pairing a claim without a device leaves for its first owner. -/
def ownerPairing : StoredPairing where
  id := context.id
  secretHash := platform.sha256Hex context.secret
  code := context.code
  createdBy := js "server_claim"
  createdAt := context.now
  expiresAt := context.now + 15 * 60000
  role := some .owner

/-- What both branches of a claim put. -/
def claimedStorage (vaultId recoverySecretHash : JsString) (devices : List StoredDevice)
    (pairings : List StoredPairing) (event : AuditEvent) : ConfigStorage :=
  { storage with
    claimed := true
    vaultId := some vaultId
    recoverySecretHash := some recoverySecretHash
    authGeneration := some 1
    authDevices := devices
    authPairings := pairings
    authChallenges := []
    authSessions := []
    authTickets := []
    authAudit := [event] }

def claim : Response × ConfigStorage :=
  match guardStr validVaultId (body "vaultId"), guardStr validHash (body "recoverySecretHash") with
  | some vaultId, some recoverySecretHash =>
    if storage.readAuthValues.claimed then (.error 403 "already_claimed", storage)
    else
      match deviceFromBody platform body with
      | some ownerDevice =>
        let owner := claimOwner platform context ownerDevice vaultId
        (.claimedByDevice owner.id owner.fingerprint vaultId 1,
          claimedStorage storage vaultId recoverySecretHash [owner] []
            ⟨context.now, .claimed, some owner.id, some owner.id, some owner.fingerprint⟩)
      | none =>
        let pairing := ownerPairing platform context
        (.claimedByServer vaultId 1 (grant pairing context.secret),
          claimedStorage storage vaultId recoverySecretHash [] [pairing]
            ⟨context.now, .claimed, none, none, none⟩)
  | _, _ => (.error 400 "invalid claim", storage)

def updateMetadata : Response × ConfigStorage :=
  match normalizeUpdateProvider (body "updateProvider"),
      normalizeUpdateRepoUrl platform (body "updateRepoUrl"),
      normalizeUpdateRepoBranch (body "updateRepoBranch") with
  | .ok updateProvider, .ok updateRepoUrl, .ok updateRepoBranch =>
    let storage' := { storage with
      updateProvider := updateProvider.or storage.updateProvider
      updateRepoUrl := updateRepoUrl.or storage.updateRepoUrl
      updateRepoBranch := updateRepoBranch.or storage.updateRepoBranch }
    (.metadata storage'.readConfig, storage')
  | .error err, _, _ | .ok _, .error err, _ | .ok _, .ok _, .error err => (.error 400 err, storage)

/-- The owner a recovery installs. -/
def recoveredOwner (candidate : DeviceCandidate) (vaultId : JsString) : StoredDevice :=
  { claimOwner platform context candidate vaultId with lastSeenAt := none }

/-- The devices after a recovery: the others revoked, the new owner last. -/
def recoveredDevices (devices : List StoredDevice) (owner : StoredDevice) : List StoredDevice :=
  let revoked := (devices.filter fun device => device.id ≠ owner.id).map fun device =>
    if device.status = .revoked then device
    else { device with status := .revoked, revokedAt := some context.now }
  (revoked ++ [owner]).rtake MAX_DEVICES

def isTrue : Json → Bool
  | .bool value => value
  | _ => false

def recover : Response × ConfigStorage :=
  match isTrue (body "recoveryVerified"),
      guardStr validHash (body "nextRecoverySecretHash"), guardStr validVaultId (body "vaultId") with
  | true, some nextRecoverySecretHash, some vaultId =>
    let values := storage.readAuthValues
    if ¬ values.claimed ∨ values.vaultId ≠ vaultId then (.error 503 "unclaimed", storage)
    else
      match deviceFromBody platform body with
      | none => (.error 400 "invalid device", storage)
      | some candidate =>
        let owner := recoveredOwner platform context candidate values.vaultId
        let generation := values.authGeneration + 1
        (.recovered owner.id generation,
          { storage with
            authDevices := recoveredDevices context values.devices owner
            authPairings := []
            authChallenges := []
            authSessions := []
            authTickets := []
            authGeneration := some generation
            recoverySecretHash := some nextRecoverySecretHash
            authAudit := addAudit values.audit
              ⟨context.now, .recovery, none, some owner.id, some owner.fingerprint⟩ })
  | _, _, _ => (.error 400 "invalid recovery", storage)

def requestedTtl : Json → ℤ
  | .num (some ttlMs) => ⌊ttlMs⌋
  | _ => PAIRING_TTL_MS

/-- The pairing an owner creates. -/
def memberPairing (createdBy : JsString) : StoredPairing where
  id := context.id
  secretHash := platform.sha256Hex context.secret
  code := context.code
  createdBy
  createdAt := context.now
  expiresAt := context.now +
    (max 60000 (min (MAX_PAIRING_TTL_MS : ℤ) (requestedTtl (body "ttlMs")))).toNat
  role := some .member

def createPairing : Response × ConfigStorage :=
  match storage.ownerPrincipal platform context.authNow body with
  | none => (.error 403 "owner_required", storage)
  | some principal =>
    let values := storage.readAuthValues
    let pairing := memberPairing platform context body principal.deviceId
    (.pairing (grant pairing context.secret) principal.vaultId,
      { storage with
        authPairings := (cleanup StoredPairing.expiresAt values.pairings context.now ++
          [pairing]).rtake MAX_PAIRINGS
        authAudit := addAudit values.audit
          ⟨context.now, .pairing_created, some principal.deviceId, none, none⟩ })

/-- How a pairing is named: by its secret or by its code. -/
inductive PairingProof
  | secret (rawSecret : JsString)
  | code (rawCode : JsString)

/-- An empty secret counts as none, a code must have six characters. -/
def pairingProof : Option PairingProof :=
  let rawSecret := (guardStr (fun _ => true) (body "qrSecret")).filter (· ≠ [])
  let rawCode := (guardStr (fun _ => true) (body "code")).map normalizePairingCode
  match rawSecret with
  | some rawSecret => some (.secret rawSecret)
  | none => (rawCode.filter fun rawCode => rawCode.length = 6).map .code

def matchedPairing (activePairings : List StoredPairing) : PairingProof → Option StoredPairing
  | .secret rawSecret =>
    activePairings.find? fun p => sameSecretHash p.secretHash (platform.sha256Hex rawSecret)
  | .code rawCode => activePairings.find? fun p => p.code = rawCode

/-- The role a pairing assigns: owner when it says so or when no owner is active. -/
def assignedRole (pairing : StoredPairing) (devices : List StoredDevice) : DeviceRole :=
  if pairing.role = some .owner ∨
      (devices.filter fun device => device.status = .active ∧ device.role = .owner).length = 0
  then .owner else .member

def pairedDevice (candidate : DeviceCandidate) (vaultId : JsString) (role : DeviceRole) :
    StoredDevice :=
  { claimOwner platform context candidate vaultId with role }

def pair : Response × ConfigStorage :=
  match guardStr validVaultId (body "vaultId") with
  | none => (.error 400 "invalid pairing request", storage)
  | some vaultId =>
    match deviceFromBody platform body with
    | none => (.error 400 "invalid device", storage)
    | some candidate =>
      match pairingProof body with
      | none => (.error 400 "pairing_code_or_secret_required", storage)
      | some proof =>
        let values := storage.readAuthValues
        if ¬ values.claimed ∨ values.vaultId ≠ vaultId then (.error 503 "unclaimed", storage)
        else
          let activePairings := cleanup StoredPairing.expiresAt values.pairings context.now
          match matchedPairing platform activePairings proof with
          | none => (.error 403 "pairing_invalid_or_expired", storage)
          | some matched =>
            let existing := values.devices.find? fun device => device.id = candidate.id
            match existing.filter fun device => device.status = .active with
            | some existing =>
              if ¬ samePublicKey existing.publicKey candidate.publicKey then
                (.error 409 "active_device_key_mismatch", storage)
              else
                let updatedDevices :=
                  if candidate.name ≠ [] ∧ candidate.name ≠ existing.name then
                    values.devices.map fun d =>
                      if d.id = candidate.id then { d with name := candidate.name } else d
                  else values.devices
                (.alreadyPaired existing.id existing.fingerprint values.vaultId,
                  { storage with
                    authDevices := updatedDevices
                    authPairings := activePairings.erase matched })
            | none =>
              if existing.isNone ∧
                  (values.devices.filter fun device => device.status = .active).length ≥ MAX_DEVICES
              then (.error 429 "device_limit_reached", storage)
              else
                let role := assignedRole matched values.devices
                let newDevice := pairedDevice platform context candidate values.vaultId role
                let devices :=
                  if existing.isSome then
                    values.devices.map fun d => if d.id = candidate.id then newDevice else d
                  else values.devices ++ [newDevice]
                (.paired newDevice.id role newDevice.fingerprint values.vaultId
                    values.authGeneration,
                  { storage with
                    authDevices := devices
                    authPairings := activePairings.erase matched
                    authAudit := addAudit values.audit ⟨context.now, .device_paired,
                      some matched.createdBy, some newDevice.id, some newDevice.fingerprint⟩ })

/-- The first active device with an id. -/
def findActive (devices : List StoredDevice) (id : JsString) : Option StoredDevice :=
  devices.find? fun device => device.id = id ∧ device.status = .active

def challenge : Response × ConfigStorage :=
  match guardStr validVaultId (body "vaultId"), guardStr validId (body "deviceId") with
  | some vaultId, some deviceId =>
    let values := storage.readAuthValues
    if ¬ values.claimed ∨ values.vaultId ≠ vaultId then (.error 503 "unclaimed", storage)
    else
      match findActive values.devices deviceId with
      | none => (.error 403 "device_not_approved", storage)
      | some device =>
        let challenge : StoredChallenge :=
          { id := context.id
            deviceId := device.id
            vaultId := values.vaultId
            nonce := context.secret
            authGeneration := values.authGeneration
            expiresAt := context.now + CHALLENGE_TTL_MS }
        (.challenge challenge.id challenge.nonce challenge.expiresAt challenge.authGeneration,
          { storage with
            authChallenges := (cleanup StoredChallenge.expiresAt values.challenges context.now ++
              [challenge]).rtake MAX_SESSIONS })
  | _, _ => (.error 400 "invalid challenge", storage)

/-- The message a device signs. -/
def challengeMessage (challenge : StoredChallenge) : JsString :=
  js "kaos-device-auth-v1|" ++ challenge.id ++ js "|" ++ challenge.nonce ++ js "|" ++
    challenge.vaultId ++ js "|" ++ challenge.deviceId ++ js "|" ++
    js (toString challenge.authGeneration)

def verifySignature (device : StoredDevice) (challenge : StoredChallenge)
    (encodedSignature : JsString) : Bool :=
  platform.importKey device.publicKey &&
    match base64UrlToBytes encodedSignature with
    | none => false
    | some signature => platform.verify device.publicKey signature (challengeMessage challenge)

def session : Response × ConfigStorage :=
  match guardStr validId (body "challengeId"),
      guardStr (fun s => 16 ≤ s.length ∧ s.length ≤ 512) (body "signature") with
  | some challengeId, some encodedSignature =>
    let values := storage.readAuthValues
    match (cleanup StoredChallenge.expiresAt values.challenges context.now).find? fun entry =>
        entry.id = challengeId with
    | none => (.error 401 "challenge_invalid_or_expired", storage)
    | some challenge =>
      if ¬ values.claimed ∨ challenge.authGeneration ≠ values.authGeneration then
        (.error 401 "challenge_invalid_or_expired", storage)
      else
        match values.devices.find? fun entry => entry.id = challenge.deviceId ∧
            entry.status = .active ∧ entry.vaultId = challenge.vaultId with
        | none => (.error 403 "device_not_approved", storage)
        | some device =>
          if ¬ verifySignature platform device challenge encodedSignature then
            (.error 401 "invalid_signature", storage)
          else
            let session : StoredSession :=
              { id := context.id
                hash := platform.sha256Hex context.secret
                deviceId := device.id
                vaultId := device.vaultId
                authGeneration := values.authGeneration
                expiresAt := context.now + SESSION_TTL_MS }
            (.session context.secret session.expiresAt device.id device.role values.authGeneration,
              { storage with
                authChallenges := values.challenges.filter fun entry => entry.id ≠ challenge.id
                authSessions := (cleanup StoredSession.expiresAt values.sessions context.now ++
                  [session]).rtake MAX_SESSIONS
                authDevices := values.devices.map fun entry =>
                  if entry.id = device.id then { entry with lastSeenAt := some context.now }
                  else entry })
  | _, _ => (.error 400 "invalid session", storage)

/-- The length a presented secret must have. -/
def isToken (s : JsString) : Bool := 32 ≤ s.length ∧ s.length ≤ 256

def validateSession : Response × ConfigStorage :=
  match guardStr isToken (body "session"), guardStr validVaultId (body "vaultId") with
  | some session, some vaultId =>
    match storage.lookupSession platform context.now session vaultId with
    | none => (.error 401 "unauthorized", storage)
    | some (storedSession, device) =>
      (.principal ⟨device.id, device.vaultId, device.role, storage.readAuthValues.authGeneration⟩
        (some storedSession.expiresAt), storage)
  | _, _ => (.error 401 "unauthorized", storage)

def issueTicket : Response × ConfigStorage :=
  match storage.bodyPrincipal platform context.authNow body with
  | none => (.error 401 "unauthorized", storage)
  | some principal =>
    let values := storage.readAuthValues
    let stored : StoredTicket :=
      { hash := platform.sha256Hex context.secret
        deviceId := principal.deviceId
        vaultId := principal.vaultId
        authGeneration := principal.authGeneration
        expiresAt := context.now + DEVICE_TICKET_TTL_MS }
    (.ticket context.secret stored.expiresAt,
      { storage with
        authTickets := (cleanup StoredTicket.expiresAt values.tickets context.now ++
          [stored]).rtake MAX_TICKETS })

/-- The ticket leaves the list whether or not it is accepted. -/
def consumeTicket : Response × ConfigStorage :=
  match guardStr isToken (body "ticket"), guardStr validVaultId (body "vaultId") with
  | some rawTicket, some vaultId =>
    let values := storage.readAuthValues
    let hash := platform.sha256Hex rawTicket
    let live := cleanup StoredTicket.expiresAt values.tickets context.now
    match live.find? fun entry => sameSecretHash entry.hash hash with
    | none => (.error 401 "unauthorized", { storage with authTickets := live })
    | some ticket =>
      let storage' := { storage with authTickets := live.erase ticket }
      match values.devices.find? fun entry => entry.id = ticket.deviceId with
      | none => (.error 401 "unauthorized", storage')
      | some device =>
        if ¬ values.claimed ∨ values.vaultId ≠ vaultId ∨ ticket.vaultId ≠ vaultId ∨
            ticket.authGeneration ≠ values.authGeneration ∨ device.status ≠ .active then
          (.error 401 "unauthorized", storage')
        else
          (.principal ⟨device.id, device.vaultId, device.role, values.authGeneration⟩ none,
            storage')
  | _, _ => (.error 401 "unauthorized", storage)

def listDevices : Response × ConfigStorage :=
  match storage.ownerPrincipal platform context.authNow body with
  | none => (.error 403 "owner_required", storage)
  | some _ =>
    (.devices storage.readAuthValues.devices storage.readAuthValues.authGeneration, storage)

def roleFromJson : Json → Option DeviceRole
  | .str s => if s = js "owner" then some .owner else if s = js "member" then some .member else none
  | _ => none

/-- The active owners a guard counts. -/
def activeOwners (devices : List StoredDevice) : List StoredDevice :=
  devices.filter fun device => device.status = .active ∧ device.role = .owner

/-- What a role change and a revocation put: new devices and a generation without credentials. -/
def advanceGeneration (devices : List StoredDevice) (event : AuditEvent) : ConfigStorage :=
  { storage with
    authDevices := devices
    authGeneration := some (storage.readAuthValues.authGeneration + 1)
    authSessions := []
    authTickets := []
    authChallenges := []
    authAudit := addAudit storage.readAuthValues.audit event }

def changeDeviceRole : Response × ConfigStorage :=
  match guardStr validId (body "targetDeviceId"), roleFromJson (body "role") with
  | some targetDeviceId, some role =>
    match storage.ownerPrincipal platform context.authNow body with
    | none => (.error 403 "owner_required", storage)
    | some principal =>
      let values := storage.readAuthValues
      match findActive values.devices targetDeviceId with
      | none => (.error 404 "active_device_not_found", storage)
      | some target =>
        if target.role = role then (.roleChanged target.id role values.authGeneration, storage)
        else if target.role = .owner ∧ role = .member ∧ (activeOwners values.devices).length ≤ 1 then
          (.error 409 "last_owner_cannot_be_demoted", storage)
        else
          (.roleChanged target.id role (values.authGeneration + 1),
            advanceGeneration storage
              (values.devices.map fun device =>
                if device.id = target.id then { device with role } else device)
              ⟨context.now, .device_role_changed, some principal.deviceId, some target.id,
                some target.fingerprint⟩)
  | _, _ => (.error 400 "invalid role change", storage)

def revokeDevice : Response × ConfigStorage :=
  match guardStr validId (body "targetDeviceId") with
  | none => (.error 400 "invalid device", storage)
  | some targetDeviceId =>
    match storage.ownerPrincipal platform context.authNow body with
    | none => (.error 403 "owner_required", storage)
    | some principal =>
      let values := storage.readAuthValues
      match findActive values.devices targetDeviceId with
      | none => (.error 404 "active_device_not_found", storage)
      | some target =>
        if target.role = .owner ∧ (activeOwners values.devices).length ≤ 1 then
          (.error 409 "last_owner_cannot_be_revoked", storage)
        else
          (.revoked target.id (values.authGeneration + 1),
            advanceGeneration storage
              (values.devices.map fun device =>
                if device.id = target.id then
                  { device with status := .revoked, revokedAt := some context.now }
                else device)
              ⟨context.now, .device_revoked, some principal.deviceId, some target.id,
                some target.fingerprint⟩)

def renameDevice : Response × ConfigStorage :=
  match guardStr validId (body "targetDeviceId"),
      guardStr (fun _ => true) (body "deviceName") with
  | some targetDeviceId, some rawName =>
    let deviceName := rawName.trim
    if deviceName = [] ∨ 64 < deviceName.length then (.error 400 "invalid device name", storage)
    else
      match storage.bodyPrincipal platform context.authNow body with
      | none => (.error 401 "unauthorized", storage)
      | some principal =>
        if principal.role ≠ .owner ∧ principal.deviceId ≠ targetDeviceId then
          (.error 403 "owner_required", storage)
        else
          let values := storage.readAuthValues
          match findActive values.devices targetDeviceId with
          | none => (.error 404 "active_device_not_found", storage)
          | some target =>
            if target.name = deviceName then (.renamed target.id deviceName, storage)
            else
              (.renamed target.id deviceName,
                { storage with
                  authDevices := values.devices.map fun device =>
                    if device.id = target.id then { device with name := deviceName } else device
                  authAudit := addAudit values.audit ⟨context.now, .device_renamed,
                    some principal.deviceId, some target.id, some target.fingerprint⟩ })
  | _, _ => (.error 400 "invalid device rename", storage)

end ServerConfig

/-- The routes of `fetch`. -/
inductive Operation
  | config | claim | updateMetadata | recover | pair | challenge | session | validateSession
  | issueTicket | consumeTicket | listDevices | createPairing | changeDeviceRole | revokeDevice
  | renameDevice
  deriving DecidableEq

structure Request where
  operation : Operation
  body : Record
  context : RequestContext

open ServerConfig in
/-- One request of the Config Durable Object. -/
def ServerConfig.fetch (platform : Platform) (request : Request) (storage : ConfigStorage) :
    Response × ConfigStorage :=
  let ⟨operation, body, context⟩ := request
  match operation with
  | .config => (.config storage.readConfig, storage)
  | .claim => claim platform context body storage
  | .updateMetadata => updateMetadata platform body storage
  | .recover => recover platform context body storage
  | .pair => pair platform context body storage
  | .challenge => challenge context body storage
  | .session => session platform context body storage
  | .validateSession => validateSession platform context body storage
  | .issueTicket => issueTicket platform context body storage
  | .consumeTicket => consumeTicket platform context body storage
  | .listDevices => listDevices platform context body storage
  | .createPairing => createPairing platform context body storage
  | .changeDeviceRole => changeDeviceRole platform context body storage
  | .revokeDevice => revokeDevice platform context body storage
  | .renameDevice => renameDevice platform context body storage

end Kaos.Server
