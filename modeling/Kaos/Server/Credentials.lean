import Kaos.Lib.Run
import Kaos.Lib.SingleUse
import Kaos.Server.DeviceRegistry

/-! Challenges, sessions, tickets and pairings: where they come from and how often they are used. -/
namespace Kaos.Server

open Kaos.Lib ConfigStorage List Option

namespace ServerConfig

inductive CredentialKind
  | challenge | session | ticket
  deriving DecidableEq

/-- A credential as the server answered with it; `secret` is what its holder presents later. -/
structure Credential where
  kind : CredentialKind
  secret : JsString
  deviceId : JsString
  vaultId : JsString
  authGeneration : ℕ
  expiresAt : ℕ
  deriving DecidableEq

/-- The credential a request is answered with. -/
def issued (platform : Platform) (request : Request) (storage : ConfigStorage) :
    Option Credential :=
  let vaultId := storage.readAuthValues.vaultId
  match (fetch platform request storage).1 with
  | .challenge challengeId _ expiresAt authGeneration =>
    (guardStr validId (request.body "deviceId")).map fun deviceId =>
      ⟨.challenge, challengeId, deviceId, vaultId, authGeneration, expiresAt⟩
  | .session session expiresAt deviceId _ authGeneration =>
    some ⟨.session, session, deviceId, vaultId, authGeneration, expiresAt⟩
  | .ticket ticket expiresAt =>
    (storage.bodyPrincipal platform request.context.authNow request.body).map fun principal =>
      ⟨.ticket, ticket, principal.deviceId, vaultId, principal.authGeneration, expiresAt⟩
  | _ => none

/-- An accepted credential: what was presented, for which vault, when, and whom it stood for. -/
structure Acceptance where
  kind : CredentialKind
  secret : JsString
  vaultId : JsString
  now : ℕ
  principal : DevicePrincipal
  deriving DecidableEq

/-- The credential a request presents and the server accepts. The requests of a device's owner or of
the device itself present a session and count as accepting it once it yields a principal. -/
def accepted (platform : Platform) (request : Request) (storage : ConfigStorage) :
    Option Acceptance :=
  let presented key := guardStr (fun _ => true) (request.body key)
  let named := guardStr validVaultId (request.body "vaultId")
  let now := request.context.now
  match request.operation, (fetch platform request storage).1 with
  | .session, .session _ _ deviceId role authGeneration => do
    let secret ← presented "challengeId"
    let vaultId := storage.readAuthValues.vaultId
    some ⟨.challenge, secret, vaultId, now, ⟨deviceId, vaultId, role, authGeneration⟩⟩
  | .validateSession, .principal principal _ => do
    some ⟨.session, ← presented "session", ← named, now, principal⟩
  | .consumeTicket, .principal principal _ => do
    some ⟨.ticket, ← presented "ticket", ← named, now, principal⟩
  | .issueTicket, _ | .listDevices, _ | .createPairing, _ | .changeDeviceRole, _
  | .revokeDevice, _ | .renameDevice, _ => do
    let now := request.context.authNow
    let principal ← storage.bodyPrincipal platform now request.body
    some ⟨.session, ← presented "session", ← named, now, principal⟩
  | _, _ => none

/-- The pairing a request redeems. -/
def redeemed (platform : Platform) (request : Request) (storage : ConfigStorage) :
    Option StoredPairing :=
  match (fetch platform request storage).1 with
  | .paired _ _ _ _ _ | .alreadyPaired _ _ _ =>
    namedPairing platform request.body request.context storage
  | _ => none

/-- A recovery, a change of a device's role or a revocation. -/
def invalidates (platform : Platform) (request : Request) (storage : ConfigStorage) : Bool :=
  match (fetch platform request storage).1 with
  | .recovered _ _ | .revoked _ _ => true
  | .roleChanged targetDeviceId role _ =>
    (findActive (devices storage) targetDeviceId).any fun device => device.role ≠ role
  | _ => false

/-- What an accepted credential was: issued for this device, vault and generation, and live. -/
structure Honours (storage : ConfigStorage) (credential : Credential) (acceptance : Acceptance) :
    Prop where
  kind : credential.kind = acceptance.kind
  secret : credential.secret = acceptance.secret
  device : credential.deviceId = acceptance.principal.deviceId
  vault : credential.vaultId = acceptance.principal.vaultId
  named : credential.vaultId = acceptance.vaultId
  generation : credential.authGeneration = acceptance.principal.authGeneration
  current : credential.authGeneration = storage.readAuthValues.authGeneration
  live : acceptance.now < credential.expiresAt
  active : KeptActive storage credential.deviceId

section Rows

variable {platform : Platform} {context : RequestContext} {body : Record} {request : Request}
  {operation : Operation} {storage storage' : ConfigStorage} {response : Response}

def ofChallenge (challenge : StoredChallenge) : Credential :=
  ⟨.challenge, challenge.id, challenge.deviceId, challenge.vaultId, challenge.authGeneration,
    challenge.expiresAt⟩

def ofSession (secret : JsString) (session : StoredSession) : Credential :=
  ⟨.session, secret, session.deviceId, session.vaultId, session.authGeneration, session.expiresAt⟩

def ofTicket (secret : JsString) (ticket : StoredTicket) : Credential :=
  ⟨.ticket, secret, ticket.deviceId, ticket.vaultId, ticket.authGeneration, ticket.expiresAt⟩

/-- Rows may go, and at most one comes that has the property. -/
def Gains {α : Type*} (rows rows' : List α) (P : α → Prop) : Prop :=
  ∃ row : Option α, rows'.Sublist (rows ++ row.toList) ∧ ∀ r ∈ row, P r

variable {α : Type*} {rows rows' : List α} {P : α → Prop}

theorem gains_of_sublist (h : rows'.Sublist rows) : Gains rows rows' P :=
  ⟨none, by simpa using h, by simp⟩

theorem gains_rtake {row : α} (n : ℕ)
    (h : rows'.Sublist rows) (hrow : P row) : Gains rows ((rows' ++ [row]).rtake n) P :=
  ⟨some row, (rtake_sublist _ _).trans (h.append_right _), by simpa using hrow⟩

theorem Gains.mem (h : Gains rows rows' P) {r : α} (hr : r ∈ rows') : r ∈ rows ∨ P r := by
  obtain ⟨row, hsub, hrow⟩ := h
  rcases mem_append.mp (hsub.mem hr) with hr | hr
  · exact .inl hr
  · exact .inr (hrow r (mem_toList.mp hr))

/-- The rows of an unclaimed or claimed server belong to its vault. -/
structure VaultBound (storage : ConfigStorage) : Prop where
  devices : ∀ d ∈ storage.authDevices, d.vaultId = storage.readAuthValues.vaultId
  challenges : ∀ c ∈ storage.authChallenges, c.vaultId = storage.readAuthValues.vaultId
  unclaimed : storage.readAuthValues.claimed = false → storage.authGeneration = none

theorem recoveredDevices_vaultId {devices : List StoredDevice} {owner d : StoredDevice}
    (hd : d ∈ recoveredDevices context devices owner) :
    d = owner ∨ ∃ d' ∈ devices, d'.vaultId = d.vaultId := by
  rcases mem_append.mp (mem_of_mem_rtake hd) with hd | hd
  · obtain ⟨d', hd', rfl⟩ := mem_map.mp hd
    refine .inr ⟨d', mem_of_mem_filter hd', ?_⟩
    split <;> rfl
  · exact .inl (mem_singleton.mp hd)

theorem updateById_vaultId {vaultId id : JsString} {update : StoredDevice → StoredDevice}
    {devices : List StoredDevice} (h : ∀ d ∈ devices, d.vaultId = vaultId)
    (hu : ∀ d ∈ devices, (update d).vaultId = vaultId) :
    ∀ d ∈ updateById id update devices, d.vaultId = vaultId := by
  intro d hd
  obtain ⟨d, hmem, rfl⟩ := mem_map.mp hd
  split
  · exact hu d hmem
  · exact h d hmem

theorem vaultId_eq (hv : storage'.vaultId = storage.vaultId) :
    storage'.readAuthValues.vaultId = storage.readAuthValues.vaultId := by
  simp [readAuthValues, hv]

/-- A claimed server stays claimed for its vault. -/
theorem claimed_change (h : storage.readAuthValues.claimed = true)
    (hchange : Change platform body context storage operation response storage') :
    storage'.readAuthValues.claimed = true ∧
      storage'.readAuthValues.vaultId = storage.readAuthValues.vaultId := by
  cases hchange with
  | claimByDevice _ _ hcl | claimByServer _ _ hcl => simp [h] at hcl
  | _ => exact ⟨(claimed_eq rfl rfl).trans h, vaultId_eq rfl⟩

theorem vaultBound_empty : VaultBound {} := ⟨by simp, by simp, fun _ => rfl⟩

theorem vaultBound_claimed (storage : ConfigStorage) {vaultId hash : JsString}
    {devices : List StoredDevice} (pairings : List StoredPairing) (event : AuditEvent)
    (hv : validVaultId vaultId = true) (hd : ∀ d ∈ devices, d.vaultId = vaultId) :
    VaultBound (claimedStorage storage vaultId hash devices pairings event) := by
  have hvault : (claimedStorage storage vaultId hash devices pairings
      event).readAuthValues.vaultId = vaultId := by
    simp [claimedStorage, readAuthValues, Option.filter, hv]
  refine ⟨?_, by simp [claimedStorage], ?_⟩
  · rw [hvault]
    exact hd
  · simp [claimedStorage, readAuthValues, hv]

/-- Writes that keep the claim keep the bound when their rows do. -/
theorem VaultBound.keep (h : VaultBound storage) (hcl : storage'.claimed = storage.claimed)
    (hv : storage'.vaultId = storage.vaultId)
    (hd : ∀ d ∈ storage'.authDevices, d.vaultId = storage.readAuthValues.vaultId)
    (hchal : ∀ c ∈ storage'.authChallenges, c.vaultId = storage.readAuthValues.vaultId)
    (hgen : storage'.authGeneration = storage.authGeneration ∨
      storage.readAuthValues.claimed = true) : VaultBound storage' := by
  refine ⟨?_, ?_, fun hf => ?_⟩
  · rwa [vaultId_eq hv]
  · rwa [vaultId_eq hv]
  rw [claimed_eq hcl hv] at hf
  rcases hgen with hs | ho
  · rw [hs, h.unclaimed hf]
  rw [ho] at hf
  cases hf

section

variable (h : VaultBound storage)
  (hchange : Change platform body context storage operation response storage')
include h hchange

theorem vaultBound_change : VaultBound storage' := by
  have hr : ∀ d ∈ storage.readAuthValues.devices, d.vaultId = storage.readAuthValues.vaultId :=
    fun d hd => h.devices d (mem_of_mem_filter hd)
  have hu : ∀ id (update : StoredDevice → StoredDevice),
      (∀ d ∈ storage.readAuthValues.devices, (update d).vaultId = storage.readAuthValues.vaultId) →
      ∀ d ∈ updateById id update storage.readAuthValues.devices,
        d.vaultId = storage.readAuthValues.vaultId :=
    fun _ _ hu => updateById_vaultId hr hu
  have hl : ∀ c ∈ cleanup StoredChallenge.expiresAt storage.readAuthValues.challenges
      context.now, c.vaultId = storage.readAuthValues.vaultId :=
    fun c hc => h.challenges c (mem_of_mem_filter (mem_of_mem_filter hc))
  cases hchange with
  | claimByDevice hv =>
    exact vaultBound_claimed _ _ _ (guardStr_eq_some hv).2 (by simp [claimOwner])
  | claimByServer hv => exact vaultBound_claimed _ _ _ (guardStr_eq_some hv).2 (by simp)
  | recover hver hh hv hcl hdev =>
    refine h.keep rfl rfl (fun d hd => ?_) (by simp) (.inr hcl)
    rcases recoveredDevices_vaultId hd with rfl | ⟨d', hd', heq⟩
    · rfl
    · exact heq.symm.trans (hr d' hd')
  | pairActive devices hv hcl hdev hm he hact hdevs =>
    refine h.keep rfl rfl ?_ h.challenges (.inl rfl)
    rcases hdevs with rfl | rfl
    · exact hr
    · exact hu _ _ hr
  | pairNew hv hcl hdev hm he hrole =>
    refine h.keep rfl rfl ?_ h.challenges (.inl rfl)
    split
    · exact hu _ _ fun _ _ => rfl
    intro d hd
    rcases mem_append.mp hd with hd | hd
    · exact hr d hd
    rw [mem_singleton.mp hd]
    rfl
  | challenge hv hcl hid hdev hact hchal =>
    refine h.keep rfl rfl h.devices (fun c hc => ?_) (.inl rfl)
    rcases mem_append.mp (mem_of_mem_rtake hc) with hc | hc
    · exact hl c hc
    · rw [mem_singleton.mp hc, hchal]
  | session hid hsig hchal hcl hgen hdev hverify hsess =>
    exact h.keep rfl rfl (hu _ _ hr)
      (fun c hc => h.challenges c (mem_of_mem_filter (mem_of_mem_filter hc))) (.inl rfl)
  | changeRole hp | revoke hp =>
    have hcl := claimed_of_bodyPrincipal (ownerPrincipal_eq_some hp).1
    exact h.keep rfl rfl (hu _ _ hr) (by simp [advanceGeneration]) (.inr hcl)
  | rename => exact h.keep rfl rfl (hu _ _ hr) h.challenges (.inl rfl)
  | _ => exact h.keep rfl rfl h.devices h.challenges (.inl rfl)

/-- The generation never goes back, and every invalidation advances it. -/
theorem authGeneration_change :
    storage.readAuthValues.authGeneration ≤ storage'.readAuthValues.authGeneration := by
  cases hchange with
  | claimByDevice _ _ hcl | claimByServer _ _ hcl =>
    simp [readAuthValues, claimedStorage, h.unclaimed hcl]
  | recover | changeRole | revoke =>
    show _ ≤ max 1 (storage.readAuthValues.authGeneration + 1)
    omega
  | _ => exact le_rfl

end

theorem authGeneration_invalidates (h : invalidates platform request storage = true) :
    (fetch platform request storage).2.readAuthValues.authGeneration =
      storage.readAuthValues.authGeneration + 1 := by
  obtain ⟨response, storage', hfetch, hchange⟩ := fetch_eq platform request storage
  simp only [invalidates, hfetch] at h ⊢
  obtain ⟨operation, body, context⟩ := request
  have hn : max 1 (storage.readAuthValues.authGeneration + 1) =
      storage.readAuthValues.authGeneration + 1 := by omega
  cases hchange with
  | recover | changeRole | revoke => exact hn
  | keepRole hp hid hrole htgt hk => simp [devices, htgt, hk] at h
  | _ => simp at h

/-- A request adds at most the challenge it is answered with. -/
theorem challenges_fetch (request : Request) :
    Gains storage.authChallenges (fetch platform request storage).2.authChallenges
      fun c => issued platform request storage = some (ofChallenge c) := by
  obtain ⟨response, storage', hfetch, hchange⟩ := fetch_eq platform request storage
  rw [issued, hfetch]
  obtain ⟨operation, body, context⟩ := request
  cases hchange with
  | claimByDevice | claimByServer | recover | changeRole | revoke =>
    exact gains_of_sublist (nil_sublist _)
  | challenge hv hcl hid hdev hact hchal =>
    refine gains_rtake _ (filter_sublist.trans filter_sublist) ?_
    simp [hid, hchal, ofChallenge]
  | session => exact gains_of_sublist (filter_sublist.trans filter_sublist)
  | _ => exact gains_of_sublist (List.Sublist.refl _)

/-- A request adds at most the session it is answered with. -/
theorem sessions_fetch (h : VaultBound storage) (request : Request) :
    Gains storage.authSessions (fetch platform request storage).2.authSessions fun s =>
      s.hash = platform.sha256Hex request.context.secret ∧
        issued platform request storage = some (ofSession request.context.secret s) := by
  obtain ⟨response, storage', hfetch, hchange⟩ := fetch_eq platform request storage
  rw [issued, hfetch]
  obtain ⟨operation, body, context⟩ := request
  cases hchange with
  | claimByDevice | claimByServer | recover | changeRole | revoke =>
    exact gains_of_sublist (nil_sublist _)
  | @session _ _ _ device _ hid hsig hchal hcl hgen hdev hver
      hsess =>
    have hv := h.devices device (mem_of_mem_filter (mem_of_find? hdev).1)
    refine gains_rtake _ (filter_sublist.trans filter_sublist) ?_
    simp [hsess, ofSession, hv]
  | _ => exact gains_of_sublist (List.Sublist.refl _)

/-- A principal stands for a device of the vault. -/
theorem VaultBound.principal (h : VaultBound storage) {now : ℕ} {principal : DevicePrincipal}
    (hp : storage.bodyPrincipal platform now body = some principal) :
    principal.vaultId = storage.readAuthValues.vaultId := by
  obtain ⟨_, _, -, -, hs⟩ := bodyPrincipal_eq_some hp
  obtain ⟨session, device, hl, rfl⟩ := principalForSession_eq_some hs
  exact h.devices device (mem_of_mem_filter (mem_of_find? (lookupSession_eq_some hl).2.1).1)

/-- A request adds at most the ticket it is answered with. -/
theorem tickets_fetch (h : VaultBound storage) (request : Request) :
    Gains storage.authTickets (fetch platform request storage).2.authTickets fun t =>
      t.hash = platform.sha256Hex request.context.secret ∧
        issued platform request storage = some (ofTicket request.context.secret t) := by
  obtain ⟨response, storage', hfetch, hchange⟩ := fetch_eq platform request storage
  rw [issued, hfetch]
  obtain ⟨operation, body, context⟩ := request
  cases hchange with
  | claimByDevice | claimByServer | recover | changeRole | revoke =>
    exact gains_of_sublist (nil_sublist _)
  | issueTicket hp hst =>
    refine gains_rtake _ (filter_sublist.trans filter_sublist) ?_
    simp [hp, hst, ofTicket, h.principal hp]
  | rejectTicket status error htic =>
    exact gains_of_sublist (htic.trans filter_sublist)
  | consumeTicket =>
    exact gains_of_sublist (erase_sublist.trans (filter_sublist.trans filter_sublist))
  | _ => exact gains_of_sublist (List.Sublist.refl _)

/-- A request adds at most one pairing, under its fresh id. -/
theorem pairings_fetch (request : Request) :
    Gains storage.authPairings (fetch platform request storage).2.authPairings
      fun p => p.id = request.context.id := by
  obtain ⟨response, storage', hfetch, hchange⟩ := fetch_eq platform request storage
  rw [hfetch]
  obtain ⟨operation, body, context⟩ := request
  cases hchange with
  | claimByDevice | recover => exact gains_of_sublist (nil_sublist _)
  | claimByServer =>
    exact ⟨some (ownerPairing platform context), sublist_append_right _ _, by simp [ownerPairing]⟩
  | createPairing => exact gains_rtake _ (filter_sublist.trans filter_sublist) rfl
  | pairActive | pairNew =>
    exact gains_of_sublist (erase_sublist.trans (filter_sublist.trans filter_sublist))
  | _ => exact gains_of_sublist (List.Sublist.refl _)

theorem foldl_or_eq_zero (zs : List UInt16) (acc : UInt16) :
    zs.foldl (· ||| ·) acc = 0 ↔ acc = 0 ∧ ∀ z ∈ zs, z = 0 := by
  induction zs generalizing acc with
  | nil => simp
  | cons z zs ih => simp [ih, and_assoc]

/-- The constant-time comparison is equality. -/
theorem sameSecretHash_iff {expected supplied : JsString} :
    sameSecretHash expected supplied = true ↔ expected = supplied := by
  unfold sameSecretHash
  split
  · next hlen => simp [ne_of_apply_ne List.length hlen]
  · next hlen =>
    rw [not_not] at hlen
    rw [decide_eq_true_iff, foldl_or_eq_zero]
    induction expected generalizing supplied with
    | nil => simp [length_eq_zero_iff.mp hlen.symm]
    | cons c cs ih =>
      cases supplied with
      | nil => cases hlen
      | cons d ds => simpa using fun _ => ih (Nat.succ_inj.mp hlen)

/-- How an acceptance comes about, one constructor for each kind of credential. -/
inductive AcceptedBy (platform : Platform) (storage storage' : ConfigStorage) : Acceptance → Prop
  | challenge {challenge : StoredChallenge} {device : StoredDevice} {now : ℕ}
      (hmem : challenge ∈ storage.authChallenges) (hlive : now < challenge.expiresAt)
      (hdevice : device ∈ devices storage) (hid : device.id = challenge.deviceId)
      (hactive : device.status = .active)
      (hgeneration : challenge.authGeneration = storage.readAuthValues.authGeneration)
      (hgone : ∀ c ∈ storage'.authChallenges, c.id ≠ challenge.id) :
      AcceptedBy platform storage storage' ⟨.challenge, challenge.id,
        storage.readAuthValues.vaultId, now, ⟨device.id, storage.readAuthValues.vaultId,
          device.role, storage.readAuthValues.authGeneration⟩⟩
  | session {secret vaultId : JsString} {session : StoredSession} {device : StoredDevice} {now : ℕ}
      (hlookup : storage.lookupSession platform now secret vaultId = some (session, device)) :
      AcceptedBy platform storage storage' ⟨.session, secret, vaultId, now, ⟨device.id,
        device.vaultId, device.role, storage.readAuthValues.authGeneration⟩⟩
  | ticket {secret : JsString} {ticket : StoredTicket} {device : StoredDevice} {now : ℕ}
      (hmem : ticket ∈ storage.authTickets) (hhash : ticket.hash = platform.sha256Hex secret)
      (hlive : now < ticket.expiresAt) (hdevice : device ∈ devices storage)
      (hid : device.id = ticket.deviceId) (hactive : device.status = .active)
      (hvault : ticket.vaultId = storage.readAuthValues.vaultId)
      (hgeneration : ticket.authGeneration = storage.readAuthValues.authGeneration)
      (hgone : (storage.authTickets.map StoredTicket.hash).Nodup →
        ∀ t ∈ storage'.authTickets, t.hash ≠ ticket.hash) :
      AcceptedBy platform storage storage' ⟨.ticket, secret, ticket.vaultId, now, ⟨device.id,
        device.vaultId, device.role, storage.readAuthValues.authGeneration⟩⟩

/-- What is erased from rows with distinct keys leaves with its key. -/
theorem key_ne_of_mem_erase {κ : Type*} [DecidableEq α] {key : α → κ}
    {row r : α} (hsub : rows'.Sublist rows) (hnd : (rows.map key).Nodup) (hrow : row ∈ rows)
    (hr : r ∈ rows'.erase row) : key r ≠ key row := by
  intro hkey
  have hrows' : rows'.Nodup := (List.Nodup.of_map key hnd).sublist hsub
  obtain ⟨hne, hmem⟩ := (List.Nodup.mem_erase_iff hrows').mp hr
  exact hne (inj_on_of_nodup_map hnd (hsub.mem hmem) hrow hkey)

variable {acceptance : Acceptance}

theorem accepted_session (storage' : ConfigStorage) {now : ℕ}
    (h : (storage.bodyPrincipal platform now body).bind (fun principal =>
      (guardStr (fun _ => true) (body "session")).bind fun secret =>
        (guardStr validVaultId (body "vaultId")).bind fun vaultId =>
          some (Acceptance.mk .session secret vaultId now principal)) = some acceptance) :
    AcceptedBy platform storage storage' acceptance := by
  simp only [bind_eq_some_iff] at h
  obtain ⟨principal, hp, secret, hsec, vaultId, hv, hs⟩ := h
  obtain rfl := some.inj hs
  obtain ⟨rawSession, vaultId', hraw, hv', hfor⟩ := bodyPrincipal_eq_some hp
  obtain ⟨session, device, hl, rfl⟩ := principalForSession_eq_some hfor
  obtain rfl := some.inj (hv.symm.trans hv')
  rw [hraw] at hsec
  obtain rfl : rawSession = secret := by simpa [guardStr] using hsec
  exact .session hl

theorem acceptedBy (h : accepted platform request storage = some acceptance) :
    AcceptedBy platform storage (fetch platform request storage).2 acceptance := by
  obtain ⟨response, storage', hfetch, hchange⟩ := fetch_eq platform request storage
  simp only [accepted, hfetch] at h ⊢
  obtain ⟨operation, body, context⟩ := request
  cases hchange with
  | refused operation =>
    cases operation with
    | issueTicket | listDevices | createPairing | changeDeviceRole | revokeDevice | renameDevice =>
      exact accepted_session _ h
    | _ => cases h
  | issueTicket | listDevices | createPairing | keepRole | changeRole | revoke | keepName | rename =>
    exact accepted_session _ h
  | session hid hsig hchal hcl hgen hdev hver hsess =>
    obtain ⟨hmem, hf⟩ := mem_of_find? hchal
    obtain ⟨hdev, hb⟩ := mem_of_find? hdev
    obtain ⟨hmem, hl⟩ := mem_filter.mp hmem
    simp only [decide_eq_true_eq] at hf hb hl
    rw [(guardStr_eq_some hid).1, ← hf] at h
    obtain rfl := some.inj h
    exact .challenge (mem_of_mem_filter hmem) hl hdev hb.1 hb.2.1 hgen
      fun c hc => by simpa using of_mem_filter hc
  | validateSession hsess hv hlk =>
    rw [(guardStr_eq_some hsess).1, hv] at h
    obtain rfl := some.inj h
    exact .session hlk
  | consumeTicket htic hv hfind hdev hcl hvaultId hticketVault hgen hact =>
    obtain ⟨hmem, hh⟩ := mem_of_find? hfind
    obtain ⟨hdev, hid⟩ := mem_of_find? hdev
    obtain ⟨hmem', hl⟩ := mem_filter.mp hmem
    simp only [decide_eq_true_eq] at hid hl
    rw [(guardStr_eq_some htic).1, hv, ← hticketVault] at h
    obtain rfl := some.inj h
    exact .ticket (mem_of_mem_filter hmem') (sameSecretHash_iff.mp hh) hl hdev hid
      hact (hticketVault.trans hvaultId.symm) hgen fun hnd t ht =>
        key_ne_of_mem_erase (filter_sublist.trans filter_sublist) hnd
          (mem_of_mem_filter hmem') ht
  | _ => cases h

/-- The strings a request hashes as a session or a ticket, drawn or presented. -/
def hashedSecrets (request : Request) : List JsString :=
  (if request.operation = .session ∨ request.operation = .issueTicket then
    [request.context.secret] else []) ++
    ["session", "ticket"].filterMap fun key => guardStr (fun _ => true) (request.body key)

theorem hashed_of_accepted (h : accepted platform request storage = some acceptance)
    (hk : acceptance.kind ≠ .challenge) : acceptance.secret ∈ hashedSecrets request := by
  unfold accepted at h
  refine mem_append_right _ (mem_filterMap.mpr ?_)
  split at h
  case h_1 =>
    obtain ⟨secret, -, hs⟩ := bind_eq_some_iff.mp h
    obtain rfl := some.inj hs
    exact absurd rfl hk
  case h_2 =>
    obtain ⟨secret, hsec, hnamed⟩ := bind_eq_some_iff.mp h
    obtain ⟨vaultId, -, hs⟩ := bind_eq_some_iff.mp hnamed
    obtain rfl := some.inj hs
    exact ⟨"session", by simp, hsec⟩
  case h_3 =>
    obtain ⟨secret, hsec, hnamed⟩ := bind_eq_some_iff.mp h
    obtain ⟨vaultId, -, hs⟩ := bind_eq_some_iff.mp hnamed
    obtain rfl := some.inj hs
    exact ⟨"ticket", by simp, hsec⟩
  case h_10 => cases h
  all_goals
    obtain ⟨principal, -, hpres⟩ := bind_eq_some_iff.mp h
    obtain ⟨secret, hsec, hnamed⟩ := bind_eq_some_iff.mp hpres
    obtain ⟨vaultId, -, hs⟩ := bind_eq_some_iff.mp hnamed
    obtain rfl := some.inj hs
    exact ⟨"session", by simp, hsec⟩

/-- A credential carries the current generation and this request's random value. -/
theorem issued_eq_some {credential : Credential}
    (h : issued platform request storage = some credential) :
    credential.authGeneration = storage.readAuthValues.authGeneration ∧
      ((credential.kind = .challenge ∧ credential.secret = request.context.id) ∨
        (credential.kind ≠ .challenge ∧ credential.secret = request.context.secret ∧
          request.context.secret ∈ hashedSecrets request)) := by
  obtain ⟨response, storage', hfetch, hchange⟩ := fetch_eq platform request storage
  rw [issued, hfetch] at h
  obtain ⟨operation, body, context⟩ := request
  cases hchange with
  | challenge hv hcl hid hdev hact hchal =>
    rw [hid, hchal] at h
    obtain rfl := some.inj h
    exact ⟨rfl, .inl ⟨rfl, rfl⟩⟩
  | session =>
    obtain rfl := some.inj h
    exact ⟨rfl, .inr ⟨by simp, rfl, by simp [hashedSecrets]⟩⟩
  | issueTicket hp hst =>
    rw [hp] at h
    obtain rfl := some.inj h
    obtain ⟨_, _, -, -, hs⟩ := bodyPrincipal_eq_some hp
    obtain ⟨_, _, -, rfl⟩ := principalForSession_eq_some hs
    exact ⟨rfl, .inr ⟨by simp, rfl, by simp [hashedSecrets]⟩⟩
  | _ => cases h

theorem redeemed_eq_some {pairing : StoredPairing}
    (h : redeemed platform request storage = some pairing) :
    pairing ∈ storage.authPairings ∧ ((storage.authPairings.map StoredPairing.id).Nodup →
      ∀ p ∈ (fetch platform request storage).2.authPairings, p.id ≠ pairing.id) := by
  obtain ⟨response, storage', hfetch, hchange⟩ := fetch_eq platform request storage
  simp only [redeemed, hfetch] at h ⊢
  obtain ⟨operation, body, context⟩ := request
  have hl : (cleanup StoredPairing.expiresAt storage.readAuthValues.pairings
    context.now).Sublist storage.authPairings := filter_sublist.trans filter_sublist
  have hmem : ∀ {matched}, namedPairing platform body context storage = some matched →
      matched ∈ storage.authPairings := by
    intro matched hm
    obtain ⟨proof, -, hf⟩ := bind_eq_some_iff.mp hm
    refine hl.mem ?_
    cases proof <;> exact (mem_of_find? hf).1
  cases hchange with
  | pairActive devices hv hcl hdev hm =>
    obtain rfl := some.inj (hm.symm.trans h)
    exact ⟨hmem hm, fun hnd p hp => key_ne_of_mem_erase hl hnd (hmem hm) hp⟩
  | pairNew hv hcl hdev hm =>
    obtain rfl := some.inj (hm.symm.trans h)
    exact ⟨hmem hm, fun hnd p hp => key_ne_of_mem_erase hl hnd (hmem hm) hp⟩
  | _ => cases h

end Rows

section Runs

variable (platform : Platform) (requests : List Request)

/-- The storage the `n`-th request of a run meets. -/
def storageAt (n : ℕ) : ConfigStorage :=
  stateAt (fun storage request => (fetch platform request storage).2) {} requests n

def issuedAt (n : ℕ) : Option Credential :=
  requests[n]?.bind fun request => issued platform request (storageAt platform requests n)

def acceptedAt (n : ℕ) : Option Acceptance :=
  requests[n]?.bind fun request => accepted platform request (storageAt platform requests n)

def redeemedAt (n : ℕ) : Option StoredPairing :=
  requests[n]?.bind fun request => redeemed platform request (storageAt platform requests n)

def invalidatesAt (n : ℕ) : Bool :=
  requests[n]?.any fun request => invalidates platform request (storageAt platform requests n)

/-- Fresh random values never collide. -/
def FreshRandom : Prop :=
  (requests.map fun request => request.context.secret).Nodup ∧
    (requests.map fun request => request.context.id).Nodup

/-- Hashing is injective on the secrets of the run. -/
def HashesApart : Prop :=
  ∀ s ∈ requests.flatMap hashedSecrets, ∀ t ∈ requests.flatMap hashedSecrets,
    platform.sha256Hex s = platform.sha256Hex t → s = t

instance : Decidable (FreshRandom requests) := inferInstanceAs (Decidable (_ ∧ _))

instance : Decidable (HashesApart platform requests) :=
  inferInstanceAs (Decidable (∀ _ ∈ _, ∀ _ ∈ _, _ → _))

variable {platform requests}

variable {n : ℕ} {request : Request}

theorem storageAt_succ (h : requests[n]? = some request) : storageAt platform requests (n + 1) =
      (fetch platform request (storageAt platform requests n)).2 := stateAt_succ h

theorem storageAt_succ_none (h : requests[n]? = none) :
    storageAt platform requests (n + 1) = storageAt platform requests n := stateAt_succ_none h

theorem vaultBound_at (n : ℕ) : VaultBound (storageAt platform requests n) :=
  stateAt_invariant vaultBound_empty
    (fun storage request h => vaultBound_change h (fetch_change platform request storage)) n

theorem authGeneration_mono (platform : Platform) (requests : List Request) :
    Monotone fun n => (storageAt platform requests n).readAuthValues.authGeneration := by
  refine monotone_nat_of_le_succ fun n => ?_
  cases hn : requests[n]? with
  | none => rw [storageAt_succ_none hn]
  | some request =>
    rw [storageAt_succ hn]
    exact authGeneration_change (vaultBound_at n) (fetch_change platform request _)

theorem authGeneration_lt (h : invalidatesAt platform requests n = true) :
    (storageAt platform requests n).readAuthValues.authGeneration <
      (storageAt platform requests (n + 1)).readAuthValues.authGeneration := by
  cases hn : requests[n]? with
  | none => simp [invalidatesAt, hn] at h
  | some request =>
    rw [storageAt_succ hn, authGeneration_invalidates (by simpa [invalidatesAt, hn] using h)]
    exact Nat.lt_succ_self _

theorem mem_requests (h : requests[n]? = some request) : request ∈ requests := mem_of_getElem? h

/-- What is fresh in each request tells the requests apart. -/
theorem eq_of_fresh {β : Type*} {f : Request → β} (hfr : (requests.map f).Nodup) {i j : ℕ}
    {r r' : Request} (hi : requests[i]? = some r) (hj : requests[j]? = some r')
    (heq : f r = f r') : i = j := by
  have hs : (requests.map f)[i]? = (requests.map f)[j]? := by simp [hi, hj, heq]
  exact (List.getElem?_inj (by simpa using (List.getElem?_eq_some_iff.mp hi).1) hfr).mp hs

section Rows

variable {α : Type*} (rows : ConfigStorage → List α) {P : Request → ConfigStorage → α → Prop}

/-- Every stored row came with an earlier request of the run. -/
theorem rows_issued (he : rows {} = [])
    (hgains : ∀ request storage, VaultBound storage →
      Gains (rows storage) (rows (fetch platform request storage).2) (P request storage))
    (n : ℕ) : ∀ r ∈ rows (storageAt platform requests n), ∃ i < n, ∃ request,
      requests[i]? = some request ∧ P request (storageAt platform requests i) r := by
  induction n with
  | zero =>
    intro r hr
    rw [show storageAt platform requests 0 = {} from rfl, he] at hr
    cases hr
  | succ n ih =>
    intro r hr
    cases hn : requests[n]? with
    | none =>
      rw [storageAt_succ_none hn] at hr
      obtain ⟨i, hi, hrs⟩ := ih r hr
      exact ⟨i, by omega, hrs⟩
    | some request =>
      rw [storageAt_succ hn] at hr
      rcases (hgains request _ (vaultBound_at n)).mem hr with hr | hr
      · obtain ⟨i, hi, hrs⟩ := ih r hr
        exact ⟨i, by omega, hrs⟩
      · exact ⟨n, by omega, request, hn, hr⟩

/-- Rows with a key form a single-use store when their keys are fresh and a taken one is erased. -/
theorem rows_singleUse {κ : Type*} (key : α → κ) {taken added : ℕ → Option κ}
    (he : rows {} = [])
    (hgains : ∀ request storage, VaultBound storage →
      Gains (rows storage) (rows (fetch platform request storage).2) (P request storage))
    (hadded : ∀ n request r, requests[n]? = some request →
      P request (storageAt platform requests n) r → key r ∈ added n)
    (htaken : ∀ n, ∀ k ∈ taken n, ∃ request, requests[n]? = some request ∧
      k ∈ (rows (storageAt platform requests n)).map key ∧
      (((rows (storageAt platform requests n)).map key).Nodup →
        k ∉ (rows (fetch platform request (storageAt platform requests n)).2).map key))
    (hfr : ∀ i j k, k ∈ added i → k ∈ added j → i = j) :
    SingleUse (fun n => (rows (storageAt platform requests n)).map key) taken added := by
  refine ⟨by simp [storageAt, he], fun n => ⟨fun k hk => ?_, fun hnd k hk => ?_, ?_⟩, hfr⟩
  · obtain ⟨request, -, hmem, -⟩ := htaken n k hk
    exact hmem
  · obtain ⟨request, hn, -, hg⟩ := htaken n k hk
    rw [storageAt_succ hn]
    exact hg hnd
  cases hn : requests[n]? with
  | none =>
    rw [storageAt_succ_none hn]
    exact sublist_append_left _ _
  | some request =>
    rw [storageAt_succ hn]
    obtain ⟨row, hsub, hrow⟩ := hgains request _ (vaultBound_at n)
    refine (hsub.map key).trans ?_
    rw [map_append]
    refine (List.Sublist.refl _).append ?_
    cases row with
    | none => exact nil_sublist _
    | some r => rw [mem_def.mp (hadded n request r hn (hrow r rfl))]; exact .refl _

end Rows

variable {credential : Credential}

/-- The secret of an issued credential belongs to the request that issued it. -/
theorem issuedAt_eq_some
    (h : issuedAt platform requests n = some credential) : ∃ request, requests[n]? = some request ∧
      credential.authGeneration = (storageAt platform requests n).readAuthValues.authGeneration ∧
      ((credential.kind = .challenge ∧ credential.secret = request.context.id) ∨
        (credential.kind ≠ .challenge ∧ credential.secret = request.context.secret ∧
          credential.secret ∈ requests.flatMap hashedSecrets)) := by
  obtain ⟨request, hn, hiss⟩ := bind_eq_some_iff.mp h
  obtain ⟨hgen, ⟨hk, hsec⟩ | ⟨hk, hsec, hmem⟩⟩ := issued_eq_some hiss
  · exact ⟨request, hn, hgen, .inl ⟨hk, hsec⟩⟩
  rw [← hsec] at hmem
  exact ⟨request, hn, hgen, .inr ⟨hk, hsec, mem_flatMap.mpr ⟨request, mem_requests hn, hmem⟩⟩⟩

/-- No two requests issue one secret. -/
theorem issued_once (hfr : FreshRandom requests) {i j : ℕ} {c c' : Credential}
    (hi : issuedAt platform requests i = some c) (hj : issuedAt platform requests j = some c')
    (hki : c.kind = c'.kind) (hsec : c.secret = c'.secret) : i = j := by
  obtain ⟨r, hr, -, hc⟩ := issuedAt_eq_some hi
  obtain ⟨r', hr', -, hc'⟩ := issuedAt_eq_some hj
  rcases hc with ⟨hk, hs⟩ | ⟨hk, hs, -⟩
  · rcases hc' with ⟨hk', hs'⟩ | ⟨hk', -⟩
    · exact eq_of_fresh hfr.2 hr hr' (by rw [← hs, ← hs', hsec])
    · exact absurd (hki ▸ hk) hk'
  rcases hc' with ⟨hk', -⟩ | ⟨hk', hs', -⟩
  · exact absurd (hki.trans hk') hk
  · exact eq_of_fresh hfr.1 hr hr' (by rw [← hs, ← hs', hsec])

variable {acceptance : Acceptance}

theorem acceptedAt_eq_some (h : acceptedAt platform requests n = some acceptance) :
    ∃ request, requests[n]? = some request ∧ AcceptedBy platform (storageAt platform requests n)
        (fetch platform request (storageAt platform requests n)).2 acceptance ∧
      (acceptance.kind ≠ .challenge → acceptance.secret ∈ requests.flatMap hashedSecrets) := by
  obtain ⟨request, hn, hacc⟩ := bind_eq_some_iff.mp h
  exact ⟨request, hn, acceptedBy hacc, fun hk =>
    mem_flatMap.mpr ⟨request, mem_requests hn, hashed_of_accepted hacc hk⟩⟩

/-- Secrets of the run with one hash are one secret. -/
theorem secret_eq (hh : HashesApart platform requests) {i : ℕ}
    (hiss : issuedAt platform requests i = some credential) (hk : credential.kind ≠ .challenge)
    {secret : JsString} (hmem : secret ∈ requests.flatMap hashedSecrets)
    (hs : platform.sha256Hex credential.secret = platform.sha256Hex secret) :
    credential.secret = secret := by
  obtain ⟨-, -, -, ⟨hchal, -⟩ | ⟨-, -, hdrawn⟩⟩ := issuedAt_eq_some hiss
  · exact absurd hchal hk
  · exact hh _ hdrawn _ hmem hs

/-- An accepted credential was issued earlier, for what it is accepted for, and is live. -/
theorem honoured (hh : HashesApart platform requests)
    (h : acceptedAt platform requests n = some acceptance) :
    ∃ i < n, ∃ credential, issuedAt platform requests i = some credential ∧
      Honours (storageAt platform requests n) credential acceptance := by
  obtain ⟨request, hn, hby, hpres⟩ := acceptedAt_eq_some h
  have hb : VaultBound (storageAt platform requests n) := vaultBound_at n
  cases hby with
  | challenge hmem hl hdev hid hact hgen hg =>
    obtain ⟨i, hi, r, hr, hiss⟩ := rows_issued authChallenges rfl
      (fun request _ _ => challenges_fetch request) n _ hmem
    have hv := hb.challenges _ hmem
    exact ⟨i, hi, _, bind_eq_some_iff.mpr ⟨r, hr, hiss⟩,
      ⟨rfl, rfl, hid.symm, hv, hv, hgen, hgen, hl, ⟨_, hdev, hid, hact⟩⟩⟩
  | session hlk =>
    obtain ⟨hf, hdev, -, hser, hv, hgen, hact⟩ := lookupSession_eq_some hlk
    obtain ⟨hmem, hs⟩ := mem_of_find? hf
    obtain ⟨hdev, hid⟩ := mem_of_find? hdev
    obtain ⟨hmem, hl⟩ := mem_filter.mp hmem
    simp only [decide_eq_true_eq] at hid hl
    obtain ⟨i, hi, r, hr, hdrawn, hiss⟩ := rows_issued authSessions rfl
      (fun request _ hb => sessions_fetch hb request) n _ (mem_of_mem_filter hmem)
    have hat : issuedAt platform requests i = some _ := bind_eq_some_iff.mpr ⟨r, hr, hiss⟩
    have hsec := secret_eq hh hat (by simp [ofSession]) (hpres (by simp))
      (hdrawn.symm.trans (sameSecretHash_iff.mp hs))
    exact ⟨i, hi, _, hat, ⟨rfl, hsec, hid.symm,
      (hv.trans hser.symm).trans (hb.devices _ (mem_of_mem_filter hdev)).symm,
      hv, hgen, hgen, hl, ⟨_, hdev, hid, hact⟩⟩⟩
  | ticket hmem hs hl hdev hid hact hv hgen hg =>
    obtain ⟨i, hi, r, hr, hdrawn, hiss⟩ := rows_issued authTickets rfl
      (fun request _ hb => tickets_fetch hb request) n _ hmem
    have hat : issuedAt platform requests i = some _ := bind_eq_some_iff.mpr ⟨r, hr, hiss⟩
    have hsec := secret_eq hh hat (by simp [ofTicket]) (hpres (by simp))
      (hdrawn.symm.trans hs)
    exact ⟨i, hi, _, hat, ⟨rfl, hsec, hid.symm,
      hv.trans (hb.devices _ (mem_of_mem_filter hdev)).symm, rfl, hgen,
      hgen, hl, ⟨_, hdev, hid, hact⟩⟩⟩

/-- The keys under which credentials of a kind are issued. -/
def issuedKey (platform : Platform) (requests : List Request) (kind : CredentialKind)
    (key : JsString → JsString) (n : ℕ) : Option JsString :=
  ((issuedAt platform requests n).filter fun c => c.kind = kind).map fun c => key c.secret

/-- The keys under which credentials of a kind are accepted. -/
def acceptedKey (platform : Platform) (requests : List Request) (kind : CredentialKind)
    (key : JsString → JsString) (n : ℕ) : Option JsString :=
  ((acceptedAt platform requests n).filter fun a => a.kind = kind).map fun a => key a.secret

section Keys

variable {kind : CredentialKind} {key : JsString → JsString} {n : ℕ} {k : JsString}

theorem mem_issuedKey : k ∈ issuedKey platform requests kind key n ↔
    ∃ c, issuedAt platform requests n = some c ∧ c.kind = kind ∧ key c.secret = k := by
  simp [issuedKey, filter_eq_some_iff, and_assoc]

theorem mem_acceptedKey : k ∈ acceptedKey platform requests kind key n ↔
    ∃ a, acceptedAt platform requests n = some a ∧ a.kind = kind ∧ key a.secret = k := by
  simp [acceptedKey, filter_eq_some_iff, and_assoc]

/-- Keys of the issued credentials are fresh when the key function tells secrets apart. -/
theorem issuedKey_fresh (hfr : FreshRandom requests)
    (hkey : ∀ i j c c', issuedAt platform requests i = some c → c.kind = kind →
      issuedAt platform requests j = some c' → c'.kind = kind →
      key c.secret = key c'.secret → c.secret = c'.secret) :
    ∀ i j k, k ∈ issuedKey platform requests kind key i →
      k ∈ issuedKey platform requests kind key j → i = j := by
  intro i j k hi hj
  obtain ⟨c, hc, hk, rfl⟩ := mem_issuedKey.mp hi
  obtain ⟨c', hc', hk', heq⟩ := mem_issuedKey.mp hj
  exact issued_once hfr hc hc' (hk.trans hk'.symm)
    (hkey i j c c' hc hk hc' hk' heq.symm)

end Keys

/-- Challenges are single-use by their id. -/
theorem challenges_singleUse (platform : Platform) (hfr : FreshRandom requests) :
    SingleUse (fun n => (storageAt platform requests n).authChallenges.map StoredChallenge.id)
      (acceptedKey platform requests .challenge id) (issuedKey platform requests .challenge id) := by
  refine rows_singleUse authChallenges StoredChallenge.id rfl
    (fun request _ _ => challenges_fetch request) (fun n request c hn hiss => ?_)
    (fun n k hk => ?_) (issuedKey_fresh hfr fun _ _ _ _ _ _ _ _ heq => heq)
  · exact mem_issuedKey.mpr ⟨_, bind_eq_some_iff.mpr ⟨request, hn, hiss⟩, rfl, rfl⟩
  obtain ⟨acceptance, hacc, hki, rfl⟩ := mem_acceptedKey.mp hk
  obtain ⟨request, hn, hby, -⟩ := acceptedAt_eq_some hacc
  cases hby with
  | challenge hmem hl hdev hid hact hgen hg =>
    refine ⟨request, hn, mem_map_of_mem hmem, fun _ hmem' => ?_⟩
    obtain ⟨c, hc, heq⟩ := mem_map.mp hmem'
    exact hg c hc heq
  | session | ticket => cases hki

/-- Tickets are single-use by their hash. -/
theorem tickets_singleUse (hfr : FreshRandom requests) (hh : HashesApart platform requests) :
    SingleUse (fun n => (storageAt platform requests n).authTickets.map StoredTicket.hash)
      (acceptedKey platform requests .ticket platform.sha256Hex)
      (issuedKey platform requests .ticket platform.sha256Hex) := by
  refine rows_singleUse authTickets StoredTicket.hash rfl
    (fun request _ hb => tickets_fetch hb request)
    (fun n request t hn hiss => ?_) (fun n k hk => ?_)
    (issuedKey_fresh hfr fun i j c c' hc hki hc' hki' heq => ?_)
  · exact mem_issuedKey.mpr ⟨_, bind_eq_some_iff.mpr ⟨request, hn, hiss.2⟩, rfl, hiss.1.symm⟩
  · obtain ⟨acceptance, hacc, hki, rfl⟩ := mem_acceptedKey.mp hk
    obtain ⟨request, hn, hby, -⟩ := acceptedAt_eq_some hacc
    cases hby with
    | ticket hmem hs hl hdev hid hact hv hgen hg =>
      rw [← hs]
      refine ⟨request, hn, mem_map_of_mem hmem, fun hnd hmem' => ?_⟩
      obtain ⟨t, ht, heq⟩ := mem_map.mp hmem'
      exact hg hnd t ht heq
    | challenge | session => cases hki
  obtain ⟨-, -, -, ⟨hchal, -⟩ | ⟨-, -, hdrawn⟩⟩ := issuedAt_eq_some hc'
  · rw [hki'] at hchal
    cases hchal
  · exact secret_eq hh hc (by simp [hki]) hdrawn heq

/-- Pairings are single-use by their id. -/
theorem pairings_singleUse (platform : Platform) (hfr : FreshRandom requests) :
    SingleUse (fun n => (storageAt platform requests n).authPairings.map StoredPairing.id)
      (fun n => (redeemedAt platform requests n).map StoredPairing.id)
      (fun n => requests[n]?.map fun request => request.context.id) := by
  refine rows_singleUse authPairings StoredPairing.id rfl
    (fun request _ _ => pairings_fetch request) (fun n request p hn hid => ?_)
    (fun n k hk => ?_) (fun i j k hi hj => ?_)
  · rw [hn, hid]
    rfl
  · obtain ⟨pairing, hred, rfl⟩ := map_eq_some_iff.mp hk
    obtain ⟨request, hn, hred⟩ := bind_eq_some_iff.mp hred
    obtain ⟨hmem, hg⟩ := redeemed_eq_some hred
    refine ⟨request, hn, mem_map_of_mem hmem, fun hnd hmem' => ?_⟩
    obtain ⟨p, hp, heq⟩ := mem_map.mp hmem'
    exact hg hnd p hp heq
  · obtain ⟨r, hr, rfl⟩ := map_eq_some_iff.mp hi
    obtain ⟨r', hr', heq⟩ := map_eq_some_iff.mp hj
    exact eq_of_fresh hfr.2 hr hr' heq.symm

/-- After an invalidation nothing issued before it is accepted. -/
theorem invalidated (hfr : FreshRandom requests) (hh : HashesApart platform requests)
    {i j k : ℕ} (hiss : issuedAt platform requests i = some credential)
    (hinv : invalidatesAt platform requests j = true)
    (hacc : acceptedAt platform requests k = some acceptance) (hij : i ≤ j) (hjk : j < k)
    (hk : acceptance.kind = credential.kind) : acceptance.secret ≠ credential.secret := by
  intro hsec
  obtain ⟨i', -, issued', hiss', hhon⟩ := honoured hh hacc
  obtain rfl := issued_once hfr hiss hiss' (hk.symm.trans hhon.kind.symm)
    (hsec.symm.trans hhon.secret.symm)
  obtain rfl := some.inj (hiss.symm.trans hiss')
  obtain ⟨-, -, hgen, -⟩ := issuedAt_eq_some hiss
  have hcur := hhon.current
  have hb := authGeneration_mono platform requests hij
  have hjump := authGeneration_lt hinv
  have ha := authGeneration_mono platform requests (Nat.succ_le_of_lt hjk)
  dsimp only [Nat.succ_eq_add_one] at hb ha
  omega

/-- Credentials are live and bound when accepted, challenges and tickets are accepted once, pairings
are redeemed once, and an invalidation ends all that was issued before it. -/
theorem credentials_live_bound_once (platform : Platform) (requests : List Request)
    (hfresh : FreshRandom requests) (hhash : HashesApart platform requests) :
    (∀ n acceptance, acceptedAt platform requests n = some acceptance →
      ∃ i < n, ∃ credential, issuedAt platform requests i = some credential ∧
        Honours (storageAt platform requests n) credential acceptance) ∧
    (∀ i j a b, acceptedAt platform requests i = some a → acceptedAt platform requests j = some b →
      a.kind ≠ .session → a.kind = b.kind → a.secret = b.secret → i = j) ∧
    (∀ i j p q, redeemedAt platform requests i = some p → redeemedAt platform requests j = some q →
      p.id = q.id → i = j) ∧
    ∀ i j k credential acceptance, issuedAt platform requests i = some credential →
      invalidatesAt platform requests j = true →
      acceptedAt platform requests k = some acceptance → i ≤ j → j < k →
      acceptance.kind = credential.kind → acceptance.secret ≠ credential.secret := by
  refine ⟨fun n acceptance h => honoured hhash h, fun i j a b ha hb hki hs hsec => ?_,
    fun i j p q hp hq hid => ?_, fun i j k credential acceptance hi hj hk hij hjk =>
      invalidated hfresh hhash hi hj hk hij hjk⟩
  · cases hk : a.kind with
    | session => exact absurd hk hki
    | challenge =>
      exact (challenges_singleUse platform hfresh).taken_once
        (mem_acceptedKey.mpr ⟨a, ha, hk, rfl⟩)
        (mem_acceptedKey.mpr ⟨b, hb, hs.symm.trans hk, by rw [hsec]⟩)
    | ticket =>
      exact (tickets_singleUse hfresh hhash).taken_once (mem_acceptedKey.mpr ⟨a, ha, hk, rfl⟩)
        (mem_acceptedKey.mpr ⟨b, hb, hs.symm.trans hk, by rw [hsec]⟩)
  · exact (pairings_singleUse platform hfresh).taken_once (k := p.id)
      (map_eq_some_iff.mpr ⟨p, hp, rfl⟩) (map_eq_some_iff.mpr ⟨q, hq, hid.symm⟩)

end Runs

namespace Sample

def ticketA : Request where
  operation := .issueTicket
  body := body ([vault, ("session", .str secretA)])
  context := context 4000 secretT pairingId1

def consumeA : Request where
  operation := .consumeTicket
  body := body ([vault, ("ticket", .str secretT)])
  context := context 5000 secretP1 pairingId2

/-- Device A claims the server, opens a session, and draws and uses a ticket. -/
def ticketed : List Request := claimed ++ [ticketA, consumeA]

end Sample

/-- The requests of a ticket, which is accepted at the last. -/
def Sample.acceptedRun : { requests : List Request //
    (acceptedAt Sample.platform requests 4).isSome = true } :=
  ⟨Sample.ticketed, by decide +kernel⟩

theorem credentials_live_bound_once_ticketed :
    ∃ acceptance, acceptedAt Sample.platform Sample.ticketed 4 = some acceptance ∧
      ∃ i < 4, ∃ credential, issuedAt Sample.platform Sample.ticketed i = some credential ∧
        Honours (storageAt Sample.platform Sample.ticketed 4) credential acceptance := by
  have hacc : (acceptedAt Sample.platform Sample.ticketed 4).isSome = true :=
    Sample.acceptedRun.property
  obtain ⟨acceptance, h⟩ := isSome_iff_exists.mp hacc
  exact ⟨acceptance, h, (credentials_live_bound_once Sample.platform Sample.ticketed
    (by decide) (by decide)).1 4 acceptance h⟩

end ServerConfig

end Kaos.Server
