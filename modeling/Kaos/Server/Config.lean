import Mathlib.Data.List.Infix
import Kaos.Lib.JsString

/-! The Config Durable Object: the records it stores, their validators and its request handlers. -/
namespace Kaos.Server

open Kaos.Lib

def PAIRING_TTL_MS : ℕ := 5 * 60000
def MAX_PAIRING_TTL_MS : ℕ := 15 * 60000
def CHALLENGE_TTL_MS : ℕ := 90000
def SESSION_TTL_MS : ℕ := 5 * 60000
def DEVICE_TICKET_TTL_MS : ℕ := 5 * 60000
@[irreducible] def MAX_DEVICES : ℕ := 200
@[irreducible] def MAX_PAIRINGS : ℕ := 50
@[irreducible] def MAX_AUDIT_ENTRIES : ℕ := 200
@[irreducible] def MAX_SESSIONS : ℕ := 1000
@[irreducible] def MAX_TICKETS : ℕ := 1000

inductive UpdateProvider
  | github | gitlab | unknown
  deriving DecidableEq

inductive DeviceRole
  | owner | member
  deriving DecidableEq

inductive DeviceStatus
  | active | revoked
  deriving DecidableEq

structure JsonWebKey where
  kty : JsString
  crv : JsString
  x : JsString
  y : JsString
  deriving DecidableEq

structure StoredDevice where
  id : JsString
  vaultId : JsString
  name : JsString
  publicKey : JsonWebKey
  fingerprint : JsString
  role : DeviceRole
  status : DeviceStatus
  createdAt : ℕ
  approvedAt : ℕ
  revokedAt : Option ℕ
  lastSeenAt : Option ℕ
  deriving DecidableEq

structure StoredPairing where
  id : JsString
  secretHash : JsString
  code : JsString
  createdBy : JsString
  createdAt : ℕ
  expiresAt : ℕ
  role : Option DeviceRole
  deriving DecidableEq

structure StoredChallenge where
  id : JsString
  deviceId : JsString
  vaultId : JsString
  nonce : JsString
  authGeneration : ℕ
  expiresAt : ℕ
  deriving DecidableEq

structure StoredSession where
  id : JsString
  hash : JsString
  deviceId : JsString
  vaultId : JsString
  authGeneration : ℕ
  expiresAt : ℕ
  deriving DecidableEq

structure StoredTicket where
  hash : JsString
  deviceId : JsString
  vaultId : JsString
  authGeneration : ℕ
  expiresAt : ℕ
  deriving DecidableEq

inductive AuditAction
  | claimed | recovery | pairing_created | device_paired | device_role_changed | device_revoked
  | device_renamed
  deriving DecidableEq

structure AuditEvent where
  at_ : ℕ
  action : AuditAction
  actorDeviceId : Option JsString
  targetDeviceId : Option JsString
  fingerprint : Option JsString
  deriving DecidableEq

structure StoredServerConfig where
  claimed : Bool
  vaultId : Option JsString
  authGeneration : ℕ
  activeDeviceCount : ℕ
  recoverySecretHash : Option JsString
  updateProvider : Option UpdateProvider
  updateRepoUrl : Option JsString
  updateRepoBranch : Option JsString
  deriving DecidableEq

structure DevicePrincipal where
  deviceId : JsString
  vaultId : JsString
  role : DeviceRole
  authGeneration : ℕ
  deriving DecidableEq

/-- The Durable Object's storage under the keys of the source; an absent list is empty. -/
structure ConfigStorage where
  claimed : Bool := false
  vaultId : Option JsString := none
  authGeneration : Option ℕ := none
  recoverySecretHash : Option JsString := none
  authDevices : List StoredDevice := []
  authPairings : List StoredPairing := []
  authChallenges : List StoredChallenge := []
  authSessions : List StoredSession := []
  authTickets : List StoredTicket := []
  authAudit : List AuditEvent := []
  updateProvider : Option UpdateProvider := none
  updateRepoUrl : Option JsString := none
  updateRepoBranch : Option JsString := none
  deriving DecidableEq

/-- A string value that passes a check. -/
def guardStr (check : JsString → Bool) : Json → Option JsString
  | .str s => if check s then some s else none
  | _ => none

def isStr (s : JsString) : Json → Bool
  | .str s' => s' = s
  | _ => false

def validId (value : JsString) : Bool :=
  8 ≤ value.length ∧ value.length ≤ 128 ∧ value.all JsString.isIdChar

def validVaultId (value : JsString) : Bool :=
  value = value.trim ∧ 8 ≤ value.length ∧ value.length ≤ 128 ∧ ¬ value.any JsString.isControl

def validName (value : JsString) : Bool :=
  value = value.trim ∧ 1 ≤ value.length ∧ value.length ≤ 128 ∧ ¬ value.any JsString.isControl

def validHash (value : JsString) : Bool := value.length = 64 ∧ value.all JsString.isHexChar

/-- A coordinate of a public key. -/
def validCoordinate (value : JsString) : Bool :=
  42 ≤ value.length ∧ value.length ≤ 64 ∧ value.all JsString.isIdChar

def validPublicKey (key : JsonWebKey) : Bool :=
  key.kty = js "EC" ∧ key.crv = js "P-256" ∧ validCoordinate key.x ∧ validCoordinate key.y

/-- `validPublicKey` on a parsed value, with the key it accepts. -/
def publicKeyFromJson (value : Json) : Option JsonWebKey := do
  let key ← asRecord value
  let x ← guardStr validCoordinate (key "x")
  let y ← guardStr validCoordinate (key "y")
  match isStr (js "EC") (key "kty") && isStr (js "P-256") (key "crv"), key "d" with
  | true, .undefined => some ⟨js "EC", js "P-256", x, y⟩
  | _, _ => none

def PAIRING_CHARS : JsString := js "23456789ABCDEFGHJKLMNPQRSTUVWXYZ"

def generatePairingCode (bytes : Fin 6 → UInt8) : JsString :=
  List.ofFn fun i => PAIRING_CHARS.getD ((bytes i).toNat % PAIRING_CHARS.length) 0

def normalizePairingCode (input : JsString) : JsString :=
  let raw := input.trim.toUpperCase
  let raw :=
    if (js "KAOS-").isPrefixOf raw || (js "KAOS_").isPrefixOf raw || (js "KAOS ").isPrefixOf raw
    then raw.drop 5
    else if (js "KAOS").isPrefixOf raw then raw.drop 4
    else raw
  raw.filter fun c => PAIRING_CHARS.contains c

def isDevice (d : StoredDevice) : Bool :=
  validId d.id && validVaultId d.vaultId && validName d.name && validPublicKey d.publicKey

def isPairing (p : StoredPairing) : Bool :=
  validId p.id && validHash p.secretHash && p.code.length == 6 && validId p.createdBy

def isChallenge (c : StoredChallenge) : Bool :=
  validId c.id && validId c.deviceId && validVaultId c.vaultId

def isSession (s : StoredSession) : Bool :=
  validId s.id && validHash s.hash && validId s.deviceId && validVaultId s.vaultId

def isTicket (t : StoredTicket) : Bool :=
  validHash t.hash && validId t.deviceId && validVaultId t.vaultId

/-- The actions the audit validator knows. -/
def isAudit (e : AuditEvent) : Bool :=
  [.claimed, .recovery, .pairing_created, .device_paired, .device_role_changed,
    AuditAction.device_revoked].contains e.action

def sameSecretHash (expected supplied : JsString) : Bool :=
  if expected.length ≠ supplied.length then false
  else (List.zipWith (· ^^^ ·) expected supplied).foldl (· ||| ·) 0 = 0

def cleanup {α : Type*} (expiresAt : α → ℕ) (entries : List α) (now : ℕ) : List α :=
  entries.filter fun entry => now < expiresAt entry

def addAudit (events : List AuditEvent) (event : AuditEvent) : List AuditEvent :=
  (events ++ [event]).rtake MAX_AUDIT_ENTRIES

/-- The 6-bit value of a code unit; units past the decode table read as `undefined`, that is 0. -/
def base64UrlValue (c : UInt16) : ℕ :=
  if c < 256 then
    (js "ABCDEFGHIJKLMNOPQRSTUVWXYZabcdefghijklmnopqrstuvwxyz0123456789-_").idxOf c
  else 0

def base64UrlGroups : List ℕ → List UInt8
  | a :: b :: c :: d :: rest => (a <<< 2 ||| b >>> 4).toUInt8 ::
      ((b &&& 0xf) <<< 4 ||| c >>> 2).toUInt8 :: ((c &&& 0x3) <<< 6 ||| d).toUInt8 ::
      base64UrlGroups rest
  | [a, b, c] => [(a <<< 2 ||| b >>> 4).toUInt8, ((b &&& 0xf) <<< 4 ||| c >>> 2).toUInt8]
  | [a, b] => [(a <<< 2 ||| b >>> 4).toUInt8]
  | _ => []

/-- `none` where the source throws. -/
def base64UrlToBytes (str : JsString) : Option (List UInt8) :=
  if (str.map base64UrlValue).any (64 ≤ ·) || str.length % 4 = 1 then none
  else some (base64UrlGroups (str.map base64UrlValue))

/-- What the code reads of a parsed URL; `href` is without search and hash. -/
structure ParsedUrl where
  protocol : JsString
  pathname : JsString
  href : JsString

/-- The platform below the object: SHA-256 in hex, P-256 key import, ECDSA verification and the
URL parser. -/
structure Platform where
  sha256Hex : JsString → JsString
  importKey : JsonWebKey → Bool
  verify : JsonWebKey → List UInt8 → JsString → Bool
  parseUrl : JsString → Option ParsedUrl
  validHash_sha256Hex : ∀ s, validHash (sha256Hex s) = true

/-- The common front of the three metadata normalisers. -/
def normalizeMetadata {α : Type*} (error : String) (accept : JsString → Option α) :
    Json → Except String (Option α)
  | .undefined | .null => .ok none
  | .str value =>
    if value.trim = [] then .ok none
    else match accept value.trim with
      | none => .error error
      | some result => .ok (some result)
  | _ => .error error

def normalizeUpdateProvider : Json → Except String (Option UpdateProvider) :=
  normalizeMetadata "invalid updateProvider" fun raw =>
    if raw.toLowerCase = js "github" then some .github
    else if raw.toLowerCase = js "gitlab" then some .gitlab
    else if raw.toLowerCase = js "unknown" then some .unknown
    else none

/-- A trailing `.git` in any case is dropped. -/
def dropGitSuffix (s : JsString) : JsString :=
  if ((s.rtake 4).map fun c => if 65 ≤ c ∧ c ≤ 90 then c + 32 else c) = js ".git" then s.rdrop 4
  else s

def normalizeUpdateRepoUrl (platform : Platform) : Json → Except String (Option JsString) :=
  normalizeMetadata "invalid updateRepoUrl" fun raw => do
    let parsed ← platform.parseUrl raw
    if (parsed.protocol ≠ js "https:" ∧ parsed.protocol ≠ js "http:") ∨
        ((parsed.pathname.splitOn 47).filter (· ≠ [])).length < 2 then none
    else some (dropGitSuffix (parsed.href.rdropWhile (· = 47)))

def isBranchChar (c : UInt16) : Bool := JsString.isIdChar c || c = 46 || c = 47

def normalizeUpdateRepoBranch : Json → Except String (Option JsString) :=
  normalizeMetadata "invalid updateRepoBranch" fun raw =>
    if 120 < raw.length ∨ ¬ raw.all isBranchChar ∨ js ".." <:+: raw then none else some raw

/-- What one request reads from its surroundings: the clock, at the session lookup and after it,
and fresh random values. -/
structure RequestContext where
  authNow : ℕ
  now : ℕ
  secret : JsString
  id : JsString
  codeBytes : Fin 6 → UInt8

namespace RequestContext

def code (context : RequestContext) : JsString := generatePairingCode context.codeBytes

end RequestContext

structure DeviceCandidate where
  id : JsString
  name : JsString
  publicKey : JsonWebKey
  deriving DecidableEq

def fingerprintForKey (platform : Platform) (key : JsonWebKey) : JsString :=
  (platform.sha256Hex (key.kty ++ js "." ++ key.crv ++ js "." ++ key.x ++ js "." ++ key.y)).take 24

def deviceFromBody (platform : Platform) (value : Record) : Option DeviceCandidate := do
  let candidate := ((asRecord (value "device")).or (asRecord (value "ownerDevice"))).getD value
  let id ← guardStr validId (candidate "deviceId")
  let name ← guardStr validName (candidate "deviceName")
  let publicKey ← publicKeyFromJson (candidate "publicKey")
  if platform.importKey publicKey then some ⟨id, name, publicKey⟩ else none

def samePublicKey (left right : JsonWebKey) : Bool :=
  left.kty = right.kty ∧ left.crv = right.crv ∧ left.x = right.x ∧ left.y = right.y

structure AuthValues where
  claimed : Bool
  vaultId : JsString
  authGeneration : ℕ
  recoverySecretHash : Option JsString
  devices : List StoredDevice
  pairings : List StoredPairing
  challenges : List StoredChallenge
  sessions : List StoredSession
  tickets : List StoredTicket
  audit : List AuditEvent
  deriving DecidableEq

/-- The secrets a pairing answers with. -/
structure PairingGrant where
  pairingId : JsString
  qrSecret : JsString
  code : JsString
  rawCode : JsString
  expiresAt : ℕ
  deriving DecidableEq

inductive Response
  | error (status : ℕ) (error : String)
  | config (config : StoredServerConfig)
  | claimedByDevice (deviceId fingerprint vaultId : JsString) (authGeneration : ℕ)
  | claimedByServer (vaultId : JsString) (authGeneration : ℕ) (ownerPairing : PairingGrant)
  | metadata (config : StoredServerConfig)
  | recovered (deviceId : JsString) (authGeneration : ℕ)
  | pairing (grant : PairingGrant) (vaultId : JsString)
  | alreadyPaired (deviceId fingerprint vaultId : JsString)
  | paired (deviceId : JsString) (role : DeviceRole) (fingerprint vaultId : JsString)
      (authGeneration : ℕ)
  | challenge (challengeId nonce : JsString) (expiresAt authGeneration : ℕ)
  | session (session : JsString) (expiresAt : ℕ) (deviceId : JsString) (role : DeviceRole)
      (authGeneration : ℕ)
  | principal (principal : DevicePrincipal) (expiresAt : Option ℕ)
  | ticket (ticket : JsString) (expiresAt : ℕ)
  | devices (devices : List StoredDevice) (authGeneration : ℕ)
  | roleChanged (targetDeviceId : JsString) (role : DeviceRole) (authGeneration : ℕ)
  | revoked (targetDeviceId : JsString) (authGeneration : ℕ)
  | renamed (targetDeviceId deviceName : JsString)
  deriving DecidableEq

/-- `response.ok` -/
def Response.ok : Response → Bool
  | .error _ _ => false
  | _ => true

namespace ConfigStorage

/-- Every read filters the stored rows through their validators. -/
def readAuthValues (storage : ConfigStorage) : AuthValues where
  claimed := storage.claimed && storage.vaultId.any validVaultId
  vaultId := (storage.vaultId.filter validVaultId).getD []
  authGeneration := (storage.authGeneration.map (max 1)).getD 1
  recoverySecretHash := storage.recoverySecretHash.filter validHash
  devices := storage.authDevices.filter isDevice
  pairings := storage.authPairings.filter isPairing
  challenges := storage.authChallenges.filter isChallenge
  sessions := storage.authSessions.filter isSession
  tickets := storage.authTickets.filter isTicket
  audit := storage.authAudit.filter isAudit

def readConfig (storage : ConfigStorage) : StoredServerConfig :=
  let values := storage.readAuthValues
  { claimed := values.claimed
    vaultId := if values.claimed then some values.vaultId else none
    authGeneration := values.authGeneration
    activeDeviceCount := (values.devices.filter fun device => device.status = .active).length
    recoverySecretHash := values.recoverySecretHash
    updateProvider := storage.updateProvider
    updateRepoUrl := storage.updateRepoUrl.filter fun url => 0 < url.length
    updateRepoBranch := storage.updateRepoBranch.filter fun branch => 0 < branch.length }

/-- The session a secret opens, with its device: the common part of `validateSession` and
`principalForSession`. -/
def lookupSession (platform : Platform) (storage : ConfigStorage) (now : ℕ)
    (rawSession vaultId : JsString) : Option (StoredSession × StoredDevice) := do
  let values := storage.readAuthValues
  let hash := platform.sha256Hex rawSession
  let session ← (cleanup StoredSession.expiresAt values.sessions now).find? fun entry =>
    sameSecretHash entry.hash hash
  let device ← values.devices.find? fun entry => entry.id = session.deviceId
  if values.claimed ∧ values.vaultId = vaultId ∧ session.vaultId = vaultId ∧
      session.authGeneration = values.authGeneration ∧ device.status = .active then
    some (session, device)
  else none

def principalForSession (platform : Platform) (storage : ConfigStorage) (now : ℕ)
    (rawSession vaultId : JsString) : Option DevicePrincipal :=
  (lookupSession platform storage now rawSession vaultId).map fun (_, device) =>
    ⟨device.id, device.vaultId, device.role, storage.readAuthValues.authGeneration⟩

/-- `principalForSession` on the session and vault a body names. -/
def bodyPrincipal (platform : Platform) (storage : ConfigStorage) (now : ℕ) (body : Record) :
    Option DevicePrincipal := do
  let session ← guardStr (fun _ => true) (body "session")
  let vaultId ← guardStr validVaultId (body "vaultId")
  principalForSession platform storage now session vaultId

def ownerPrincipal (platform : Platform) (storage : ConfigStorage) (now : ℕ) (body : Record) :
    Option DevicePrincipal :=
  (bodyPrincipal platform storage now body).filter fun principal => principal.role = .owner

end ConfigStorage

end Kaos.Server
