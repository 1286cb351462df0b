import Mathlib.Data.List.Nodup
import Kaos.Lib.Transition
import Kaos.Lib.Window
import Kaos.Server.ServerConfigSteps

/-! The device registry: which requests may cost it a device or its last active owner. -/
namespace Kaos.Server

open Kaos.Lib List

namespace ServerConfig

/-- One request served, whatever it answers. -/
def Step (platform : Platform) (storage : ConfigStorage) (request : Request)
    (storage' : ConfigStorage) : Prop :=
  (fetch platform request storage).2 = storage'

/-- The registry as it is read back. -/
def devices (storage : ConfigStorage) : List StoredDevice := storage.readAuthValues.devices

def ActiveOwner (device : StoredDevice) : Prop := device.status = .active ∧ device.role = .owner

def HasActiveOwner (storage : ConfigStorage) : Prop := ∃ d ∈ devices storage, ActiveOwner d

/-- A rename that passes every check `renameDevice` makes although the trimmed name holds a control
character: the branch that writes a name `isDevice` rejects. -/
def RenamesToControlName (platform : Platform) (storage : ConfigStorage) (request : Request) :
    Prop :=
  request.operation = .renameDevice ∧ ∃ principal target rawName,
    storage.bodyPrincipal platform request.context.authNow request.body = some principal ∧
    guardStr validId (request.body "targetDeviceId") = some target.id ∧
    findActive (devices storage) target.id = some target ∧
    (principal.role = .owner ∨ principal.deviceId = target.id) ∧
    guardStr (fun _ => true) (request.body "deviceName") = some rawName ∧
    rawName.trim ≠ [] ∧ rawName.trim.length ≤ 64 ∧ rawName.trim.any JsString.isControl = true

/-- A request that does not take that branch. -/
def NamedStep (platform : Platform) (storage : ConfigStorage) (request : Request)
    (storage' : ConfigStorage) : Prop :=
  Step platform storage request storage' ∧ ¬ RenamesToControlName platform storage request

/-- Every stored row passes its validator, ids are unique and an unclaimed server has no device. -/
structure Registry (storage : ConfigStorage) : Prop where
  valid : ∀ d ∈ storage.authDevices, isDevice d = true
  nodup : (storage.authDevices.map StoredDevice.id).Nodup
  unclaimed : storage.readAuthValues.claimed = false → storage.authDevices = []

section Invariant

variable {platform : Platform} {context : RequestContext} {body : Record}
  {operation : Operation} {storage storage' : ConfigStorage} {response : Response}

theorem Registry.devices_eq (h : Registry storage) : devices storage = storage.authDevices :=
  filter_eq_self.mpr h.valid

theorem registry_empty : Registry {} := ⟨by simp, by simp, by simp⟩

theorem guardStr_eq_some {check : JsString → Bool} {value : Json} {s : JsString}
    (h : guardStr check value = some s) : value = .str s ∧ check s = true := by
  cases value <;> simp_all [guardStr]
  grind

theorem validVaultId_of_claimed (h : storage.readAuthValues.claimed = true) :
    validVaultId storage.readAuthValues.vaultId = true := by
  cases hv : storage.vaultId <;> simp_all [ConfigStorage.readAuthValues, Option.filter]

theorem publicKeyFromJson_valid {value : Json} {key : JsonWebKey}
    (h : publicKeyFromJson value = some key) : validPublicKey key = true := by
  simp only [publicKeyFromJson, bind, Option.bind_eq_some_iff] at h
  obtain ⟨record, -, x, hx, y, hy, hkey⟩ := h
  have hx := (guardStr_eq_some hx).2
  have hy := (guardStr_eq_some hy).2
  split at hkey
  · obtain rfl := Option.some.inj hkey
    simp [validPublicKey, hx, hy]
  · cases hkey

variable {candidate : DeviceCandidate}

/-- A candidate has a valid id, name and key. -/
theorem deviceFromBody_valid (h : deviceFromBody platform body = some candidate) :
    validId candidate.id = true ∧
      validName candidate.name = true ∧ validPublicKey candidate.publicKey = true := by
  simp only [deviceFromBody, bind, Option.bind_eq_some_iff] at h
  obtain ⟨id, hid, name, hn, key, hkey, hs⟩ := h
  split at hs
  · obtain rfl := Option.some.inj hs
    exact ⟨(guardStr_eq_some hid).2, (guardStr_eq_some hn).2, publicKeyFromJson_valid hkey⟩
  · cases hs

variable {vaultId : JsString}

/-- A new device row is valid. -/
theorem isDevice_claimOwner (context : RequestContext)
    (hdev : deviceFromBody platform body = some candidate)
    (hv : validVaultId vaultId = true) :
    isDevice (claimOwner platform context candidate vaultId) = true := by
  obtain ⟨hid, hn, hkey⟩ := deviceFromBody_valid hdev
  simp [isDevice, claimOwner, hid, hn, hkey, hv]

theorem validName_trim {rawName : JsString} (hnon : rawName.trim ≠ [])
    (hlen : rawName.trim.length ≤ 64) (hcon : rawName.trim.any JsString.isControl = false) :
    validName rawName.trim = true := by
  have hpos := length_pos_of_ne_nil hnon
  simp only [validName, JsString.trim_trim, hcon, decide_eq_true_eq]
  exact ⟨trivial, hpos, by omega, by simp⟩

/-- The updates of one row of the registry that keep its id. -/
def updateById (id : JsString) (update : StoredDevice → StoredDevice)
    (devices : List StoredDevice) : List StoredDevice :=
  devices.map fun d => if d.id = id then update d else d

section UpdateById

variable {id : JsString} {update : StoredDevice → StoredDevice} {devices : List StoredDevice}
  {d : StoredDevice}

theorem map_id_updateById (hid : ∀ d, d.id = id → (update d).id = id) :
    (updateById id update devices).map StoredDevice.id = devices.map StoredDevice.id := by
  rw [updateById, map_map]
  refine map_congr_left fun d _ => ?_
  by_cases h : d.id = id <;> simp [h, hid]

theorem mem_updateById_of_ne (hd : d ∈ devices) (h : d.id ≠ id) :
    d ∈ updateById id update devices :=
  mem_map.mpr ⟨d, hd, if_neg h⟩

theorem mem_updateById_of_eq (hd : d ∈ devices) (h : d.id = id) :
    update d ∈ updateById id update devices :=
  mem_map.mpr ⟨d, hd, if_pos h⟩

theorem updateById_valid (hv : ∀ d ∈ devices, isDevice d = true)
    (hu : ∀ d ∈ devices, d.id = id → isDevice (update d) = true) :
    ∀ d ∈ updateById id update devices, isDevice d = true := by
  intro d hd
  obtain ⟨d, hmem, rfl⟩ := mem_map.mp hd
  split
  · next h => exact hu d hmem h
  · exact hv d hmem

end UpdateById

variable {d : StoredDevice}

/-- Rows with one id are one row. -/
theorem Registry.eq_of_id_eq (h : Registry storage) {d' : StoredDevice}
    (hd : d ∈ storage.authDevices) (hd' : d' ∈ storage.authDevices) (heq : d.id = d'.id) :
    d = d' := inj_on_of_nodup_map h.nodup hd hd' heq

variable {id : JsString} {update : StoredDevice → StoredDevice}

/-- A registry whose rows are updated in place is a registry. -/
theorem Registry.updateById
    (h : Registry storage) (hcl : storage'.readAuthValues.claimed = true)
    (hd : storage'.authDevices = updateById id update storage.authDevices)
    (hid : ∀ d, d.id = id → (update d).id = id)
    (hu : ∀ d ∈ storage.authDevices, d.id = id → isDevice (update d) = true) :
    Registry storage' := by
  refine ⟨?_, ?_, fun hf => absurd hcl (by simp [hf])⟩
  · rw [hd]
    exact updateById_valid h.valid hu
  rw [hd, map_id_updateById hid]
  exact h.nodup

theorem claimed_eq (hcl : storage'.claimed = storage.claimed)
    (hv : storage'.vaultId = storage.vaultId) :
    storage'.readAuthValues.claimed = storage.readAuthValues.claimed := by
  simp [ConfigStorage.readAuthValues, hcl, hv]

/-- A registry whose device list is untouched. -/
theorem Registry.of_authDevices_eq (h : Registry storage)
    (hd : storage'.authDevices = storage.authDevices)
    (hcl : storage'.readAuthValues.claimed = storage.readAuthValues.claimed) :
    Registry storage' := by
  refine ⟨by rw [hd]; exact h.valid, by rw [hd]; exact h.nodup, fun hf => ?_⟩
  rw [hd]
  exact h.unclaimed (hcl ▸ hf)

/-- The validator reads neither role, status nor times. -/
theorem isDevice_with (h : isDevice d = true) (role : DeviceRole)
    (status : DeviceStatus) (revokedAt lastSeenAt : Option ℕ) :
    isDevice { d with role, status, revokedAt, lastSeenAt } = true := by
  exact h

theorem isDevice_recoveredOwner (context : RequestContext)
    (hdev : deviceFromBody platform body = some candidate)
    (hv : validVaultId vaultId = true) :
    isDevice (recoveredOwner platform context candidate vaultId) = true :=
  isDevice_with (isDevice_claimOwner context hdev hv) ..

theorem isDevice_pairedDevice (context : RequestContext) (role : DeviceRole)
    (hdev : deviceFromBody platform body = some candidate)
    (hv : validVaultId vaultId = true) :
    isDevice (pairedDevice platform context candidate vaultId role) = true :=
  isDevice_with (isDevice_claimOwner context hdev hv) ..

/-- A recovery keeps the new owner whatever it drops. -/
theorem recoveredDevices_eq (context : RequestContext) (devices : List StoredDevice)
    (owner : StoredDevice) :
    ∃ kept, recoveredDevices context devices owner = kept ++ [owner] ∧
      (kept.map StoredDevice.id).Sublist (devices.map StoredDevice.id) ∧
      ∀ d ∈ kept, d.id ≠ owner.id ∧ ∃ d' ∈ devices, isDevice d' = true → isDevice d = true := by
  have hroom : MAX_DEVICES = 199 + 1 := by rw [MAX_DEVICES]
  rw [recoveredDevices, hroom, rtake_concat_succ]
  refine ⟨_, rfl, ?_, fun d hd => ?_⟩
  · refine ((rtake_sublist _ _).map _).trans ?_
    rw [map_map, map_congr_left (g := StoredDevice.id)]
    · exact filter_sublist.map _
    intro d _
    by_cases hd : d.status = .revoked <;> simp [hd]
  obtain ⟨d', hd', rfl⟩ := mem_map.mp ((rtake_sublist _ _).mem hd)
  obtain ⟨hmem, hne⟩ := mem_filter.mp hd'
  refine ⟨?_, d', hmem, fun hv => ?_⟩
  · split <;> simpa using hne
  split
  · exact hv
  · exact isDevice_with hv ..

/-- A device comes to devices that have been registered. -/
theorem registry_append {kept : List StoredDevice} {device : StoredDevice}
    (hv : ∀ d ∈ kept, isDevice d = true) (hnd : (kept.map StoredDevice.id).Nodup)
    (hdev : isDevice device = true) (hnew : ∀ d ∈ kept, d.id ≠ device.id)
    (hcl : storage'.readAuthValues.claimed = true)
    (hdevs : storage'.authDevices = kept ++ [device]) : Registry storage' := by
  refine ⟨fun d hd => ?_, ?_, fun hf => absurd hcl (by simp [hf])⟩
  · rw [hdevs] at hd
    rcases mem_append.mp hd with hd | hd
    · exact hv d hd
    rw [mem_singleton.mp hd]
    exact hdev
  rw [hdevs, map_append, map_cons, map_nil, nodup_append_comm]
  refine nodup_cons.mpr ⟨fun hmem => ?_, hnd⟩
  obtain ⟨d, hd, hid⟩ := mem_map.mp hmem
  exact hnew d hd hid

theorem isDevice_rename (h : isDevice d = true) {name : JsString}
    (hn : validName name = true) : isDevice { d with name } = true := by
  simp_all [isDevice]

/-- No request breaks the registry, but for a rename to a name with control characters. -/
theorem registry_change (h : Registry storage)
    (hchange : Change platform body context storage operation response storage')
    (hnm : ¬ RenamesToControlName platform storage ⟨operation, body, context⟩) :
    Registry storage' := by
  have hdevs : storage.readAuthValues.devices = storage.authDevices := h.devices_eq
  cases hchange with
  | claimByDevice hvault hh hcl hdev =>
    have hv := isDevice_claimOwner context hdev (guardStr_eq_some hvault).2
    constructor
    · simpa [claimedStorage] using hv
    · simp [claimedStorage]
    · simp [claimedStorage, ConfigStorage.readAuthValues, (guardStr_eq_some hvault).2]
  | claimByServer hvault hh hcl =>
    exact ⟨by simp [claimedStorage], by simp [claimedStorage], fun _ => rfl⟩
  | recover hver hh hvault hcl hdev =>
    have ho := isDevice_recoveredOwner context hdev (validVaultId_of_claimed hcl)
    obtain ⟨kept, heq, hids, hk⟩ := recoveredDevices_eq context storage.authDevices
      (recoveredOwner platform context _ storage.readAuthValues.vaultId)
    rw [← hdevs] at heq
    refine registry_append (fun d hd => ?_) (h.nodup.sublist hids) ho
      (fun d hd => (hk d hd).1) ((claimed_eq rfl rfl).trans hcl) heq
    obtain ⟨-, d', hd', hv⟩ := hk d hd
    exact hv (h.valid d' hd')
  | pairActive devices hvault hcl hdev hm he hact hnew =>
    rw [hdevs] at hnew
    rcases hnew with rfl | rfl
    · exact h.of_authDevices_eq rfl (claimed_eq rfl rfl)
    exact h.updateById ((claimed_eq rfl rfl).trans hcl) rfl (fun _ hd => hd)
      fun d hd _ => isDevice_rename (h.valid d hd) (deviceFromBody_valid hdev).2.1
  | pairNew hvault hcl hdev hm he hrole =>
    have hnew := fun role => isDevice_pairedDevice context role hdev
      (validVaultId_of_claimed hcl)
    rw [hdevs] at he ⊢
    split
    · exact h.updateById ((claimed_eq rfl rfl).trans hcl) rfl (fun _ _ => rfl)
        fun _ _ _ => hnew _
    · next hn =>
      refine registry_append h.valid h.nodup (hnew _) (fun d hd hid => ?_)
        ((claimed_eq rfl rfl).trans hcl) rfl
      rw [Option.not_isSome_iff_eq_none, find?_eq_none] at hn
      exact hn d hd (decide_eq_true hid)
  | session hid hsig hchal hcl hgen hdev hverify hsess =>
    rw [hdevs]
    exact h.updateById ((claimed_eq rfl rfl).trans hcl) rfl (fun _ hd => hd)
      fun d hd _ => isDevice_with (h.valid d hd) ..
  | changeRole hp hid hrole htgt hch hown =>
    have hcl := claimed_of_bodyPrincipal (ownerPrincipal_eq_some hp).1
    rw [hdevs]
    exact h.updateById ((claimed_eq rfl rfl).trans hcl) rfl (fun _ hd => hd)
      fun d hd _ => isDevice_with (h.valid d hd) ..
  | revoke hp hid htgt hown =>
    have hcl := claimed_of_bodyPrincipal (ownerPrincipal_eq_some hp).1
    rw [hdevs]
    exact h.updateById ((claimed_eq rfl rfl).trans hcl) rfl (fun _ hd => hd)
      fun d hd _ => isDevice_with (h.valid d hd) ..
  | rename hp hid hraw hnon hlen hallowed htgt hch =>
    have hcl := claimed_of_bodyPrincipal hp
    rw [hdevs]
    refine h.updateById ((claimed_eq rfl rfl).trans hcl) rfl (fun _ hd => hd)
      fun d hd _ => isDevice_rename (h.valid d hd) ?_
    refine validName_trim hnon hlen ?_
    by_contra hcon
    exact hnm ⟨rfl, _, _, _, hp, hid, htgt, hallowed, hraw, hnon, hlen, by simpa using hcon⟩
  | _ => exact h.of_authDevices_eq rfl (claimed_eq rfl rfl)

/-- A revocation, a recovery, or a replacement by a row of the same id. -/
def Removes (request : Request) (device : StoredDevice) : Prop :=
  request.operation = .recover ∨
    (request.operation = .revokeDevice ∧
      guardStr validId (request.body "targetDeviceId") = some device.id)

/-- The id still has an active row. -/
def KeptActive (storage : ConfigStorage) (id : JsString) : Prop :=
  ∃ d ∈ devices storage, d.id = id ∧ d.status = .active

theorem keptActive_of_mem (h : Registry storage')
    (hd : d ∈ storage'.authDevices) (hact : d.status = .active) : KeptActive storage' d.id :=
  ⟨d, by rwa [h.devices_eq], rfl, hact⟩

/-- An active row survives updates in place that keep its status. -/
theorem keptActive_updateById (h' : Registry storage')
    (hdevs : storage'.authDevices = updateById id update storage.authDevices)
    (hu : d.id = id → (update d).id = d.id ∧ (update d).status = .active)
    (hd : d ∈ storage.authDevices) (hact : d.status = .active) : KeptActive storage' d.id := by
  by_cases hid : d.id = id
  · obtain ⟨hs, hstatus⟩ := hu hid
    rw [← hs]
    refine keptActive_of_mem h' ?_ hstatus
    rw [hdevs]
    exact mem_updateById_of_eq hd hid
  · refine keptActive_of_mem h' ?_ hact
    rw [hdevs]
    exact mem_updateById_of_ne hd hid

/-- A lookup by id finds the one row of that id. -/
theorem Registry.find?_id (h : Registry storage) (hd : d ∈ storage.authDevices) :
    (storage.authDevices.find? fun device => device.id = d.id) = some d := by
  cases hf : storage.authDevices.find? fun device => device.id = d.id with
  | none => exact absurd (decide_eq_true rfl) (find?_eq_none.mp hf d hd)
  | some d' =>
    obtain ⟨hmem, hid⟩ := mem_of_find? hf
    rw [h.eq_of_id_eq hmem hd (by simpa using hid)]

theorem Registry.ne_of_active (h : Registry storage)
    (he : ∀ device ∈ storage.authDevices.find? fun device => device.id = id,
      device.status ≠ .active)
    (hd : d ∈ storage.authDevices) (hact : d.status = .active) : d.id ≠ id := by
  rintro rfl
  exact he d (h.find?_id hd) hact

/-- An active row leaves the registry only by a revocation or a recovery. -/
theorem active_kept (h : Registry storage) (h' : Registry storage')
    (hchange : Change platform body context storage operation response storage')
    (hd : d ∈ storage.authDevices) (hact : d.status = .active) :
    KeptActive storage' d.id ∨ Removes ⟨operation, body, context⟩ d := by
  have hdevs : storage.readAuthValues.devices = storage.authDevices := h.devices_eq
  cases hchange with
  | claimByDevice hv hh hcl hdev | claimByServer hv hh hcl =>
    rw [h.unclaimed hcl] at hd
    cases hd
  | recover => exact .inr (.inl rfl)
  | pairActive devices hv hcl hdev hm he hf hnew =>
    rw [hdevs] at hnew
    rcases hnew with rfl | rfl
    · exact .inl (keptActive_of_mem h' hd hact)
    · exact .inl (keptActive_updateById h' rfl (fun _ => ⟨rfl, hact⟩) hd hact)
  | pairNew hv hcl hdev hm he hrole =>
    rw [hdevs] at he h' ⊢
    have hne := h.ne_of_active he hd hact
    refine .inl (keptActive_of_mem h' ?_ hact)
    split
    · exact mem_updateById_of_ne hd hne
    · exact mem_append_left _ hd
  | session hid hsig hchal hcl hgen hdev hver hsess =>
    rw [hdevs] at h' ⊢
    exact .inl (keptActive_updateById h' rfl (fun _ => ⟨rfl, hact⟩) hd hact)
  | changeRole hp hid hrole htgt hch hown =>
    rw [hdevs] at h' ⊢
    exact .inl (keptActive_updateById h' rfl (fun _ => ⟨rfl, hact⟩) hd hact)
  | @revoke _ target hp hid htgt hown =>
    rw [hdevs] at h' ⊢
    by_cases hs : d.id = target.id
    · exact .inr (.inr ⟨rfl, hs ▸ hid⟩)
    · exact .inl (keptActive_of_mem h' (mem_updateById_of_ne hd hs) hact)
  | rename hp hid hraw hnon hlen hallowed htgt hch =>
    rw [hdevs] at h' ⊢
    exact .inl (keptActive_updateById h' rfl (fun _ => ⟨rfl, hact⟩) hd hact)
  | _ => exact .inl (keptActive_of_mem h' hd hact)

/-- Beside any device there is another owner when two are active. -/
theorem Registry.exists_other_owner (h : Registry storage)
    (hown : 1 < (activeOwners storage.authDevices).length) (id : JsString) :
    ∃ d ∈ storage.authDevices, ActiveOwner d ∧ d.id ≠ id := by
  have hnd : ((activeOwners storage.authDevices).map StoredDevice.id).Nodup :=
    h.nodup.sublist (filter_sublist.map _)
  have hmem : ∀ d ∈ activeOwners storage.authDevices, d ∈ storage.authDevices ∧ ActiveOwner d :=
    fun d hd => by simpa [activeOwners, ActiveOwner] using hd
  match hlist : activeOwners storage.authDevices with
  | [] | [_] => simp [hlist] at hown
  | a :: b :: rest =>
    rw [hlist] at hnd hmem
    by_cases ha : a.id = id
    · obtain ⟨hb, ho⟩ := hmem b (by simp)
      refine ⟨b, hb, ho, fun hb => ?_⟩
      simp [ha, hb] at hnd
    obtain ⟨hmema, ho⟩ := hmem a (by simp)
    exact ⟨a, hmema, ho, ha⟩

theorem hasActiveOwner_of_mem (h : Registry storage')
    (hd : d ∈ storage'.authDevices) (ho : ActiveOwner d) : HasActiveOwner storage' :=
  ⟨d, by rwa [h.devices_eq], ho⟩

theorem hasActiveOwner_updateById (h' : Registry storage')
    (hdevs : storage'.authDevices = updateById id update storage.authDevices)
    (hu : d.id = id → ActiveOwner (update d)) (hd : d ∈ storage.authDevices)
    (ho : ActiveOwner d) : HasActiveOwner storage' := by
  by_cases hid : d.id = id
  · exact hasActiveOwner_of_mem h' (hdevs ▸ mem_updateById_of_eq hd hid) (hu hid)
  · exact hasActiveOwner_of_mem h' (hdevs ▸ mem_updateById_of_ne hd hid) ho

/-- No request that keeps the registry valid takes its last active owner. -/
theorem owner_kept (h : Registry storage) (h' : Registry storage')
    (hchange : Change platform body context storage operation response storage')
    (ho : HasActiveOwner storage) : HasActiveOwner storage' := by
  have hdevs : storage.readAuthValues.devices = storage.authDevices := h.devices_eq
  obtain ⟨d, hd, ho⟩ := ho
  rw [h.devices_eq] at hd
  cases hchange with
  | claimByDevice hv hh hcl hdev | claimByServer hv hh hcl =>
    rw [h.unclaimed hcl] at hd
    cases hd
  | @recover _ candidate hver hh hv hcl hdev =>
    have hnew : ActiveOwner (recoveredOwner platform context candidate
      storage.readAuthValues.vaultId) := ⟨rfl, rfl⟩
    obtain ⟨kept, heq, -⟩ := recoveredDevices_eq context storage.readAuthValues.devices
      (recoveredOwner platform context candidate storage.readAuthValues.vaultId)
    refine hasActiveOwner_of_mem h' ?_ hnew
    rw [heq]
    exact mem_append_right _ mem_cons_self
  | pairActive devices hv hcl hdev hm he hf hnew =>
    rw [hdevs] at hnew
    rcases hnew with rfl | rfl
    · exact hasActiveOwner_of_mem h' hd ho
    · exact hasActiveOwner_updateById h' rfl (fun _ => ho) hd ho
  | pairNew hv hcl hdev hm he hrole =>
    rw [hdevs] at he h' ⊢
    have hne := h.ne_of_active he hd ho.1
    refine hasActiveOwner_of_mem h' ?_ ho
    split
    · exact mem_updateById_of_ne hd hne
    · exact mem_append_left _ hd
  | session hid hsig hchal hcl hgen hdev hverify hsess =>
    rw [hdevs] at h' ⊢
    exact hasActiveOwner_updateById h' rfl (fun _ => ho) hd ho
  | @changeRole _ target role hp hid hrole htgt hch hown =>
    rw [hdevs] at h' hown ⊢
    cases role with
    | owner => exact hasActiveOwner_updateById h' rfl (fun _ => by exact ⟨ho.1, rfl⟩) hd ho
    | member =>
      have htar : target.role = .owner := by
        cases hr : target.role with
        | owner => rfl
        | member => exact absurd hr hch
      obtain ⟨d', hd', ho', hne⟩ := h.exists_other_owner (hown htar) target.id
      exact hasActiveOwner_of_mem h' (mem_updateById_of_ne hd' hne) ho'
  | @revoke _ target hp hid htgt hown =>
    have htgt := (findActive_eq_some htgt).1
    rw [hdevs] at h' htgt hown ⊢
    by_cases htar : target.role = .owner
    · obtain ⟨d', hd', ho', hne⟩ := h.exists_other_owner (hown htar) target.id
      exact hasActiveOwner_of_mem h' (mem_updateById_of_ne hd' hne) ho'
    have hne : d.id ≠ target.id := fun hid =>
      htar (h.eq_of_id_eq hd htgt hid ▸ ho.2)
    exact hasActiveOwner_of_mem h' (mem_updateById_of_ne hd hne) ho
  | rename hp hid hraw hnon hlen hallowed htgt hch =>
    rw [hdevs] at h' ⊢
    exact hasActiveOwner_updateById h' rfl (fun _ => ho) hd ho
  | _ => exact hasActiveOwner_of_mem h' hd ho

def run (platform : Platform) (requests : List Request) (storage : ConfigStorage) : ConfigStorage :=
  requests.foldl (fun storage request => (fetch platform request storage).2) storage

variable {request : Request}

theorem namedStep_change (h : NamedStep platform storage request storage') :
    (∃ response, Change platform request.body request.context storage request.operation response
      storage') ∧ ¬ RenamesToControlName platform storage request := by
  obtain ⟨rfl, hn⟩ := h
  exact ⟨⟨_, fetch_change platform request storage⟩, hn⟩

theorem registry_step (hs : NamedStep platform storage request storage')
    (h : Registry storage) : Registry storage' := by
  obtain ⟨⟨_, hch⟩, hn⟩ := namedStep_change hs
  exact registry_change h hch hn

theorem registry_reachable {past : List Request}
    (hpast : Trace (NamedStep platform) {} past storage) : Registry storage :=
  hpast.invariant registry_step registry_empty

/-- While no rename writes a control character, the registry keeps an active owner once it has one,
and a device stops being active only by a recovery or its revocation. -/
theorem registry_keeps_owner {past : List Request}
    (hpast : Trace (NamedStep platform) {} past storage) :
    (∀ future storage', Trace (NamedStep platform) storage future storage' →
      HasActiveOwner storage → HasActiveOwner storage') ∧
    ∀ request storage', NamedStep platform storage request storage' →
      ∀ d ∈ devices storage, d.status = .active → KeptActive storage' d.id ∨ Removes request d := by
  have hreg := registry_reachable hpast
  refine ⟨fun future storage' hfut ho => ?_, fun request storage' hs d hd hact => ?_⟩
  · refine (hfut.invariant (P := fun s => Registry s ∧ HasActiveOwner s) ?_
      ⟨hreg, ho⟩).2
    intro s request t hs hinv
    have ht := registry_step hs hinv.1
    obtain ⟨⟨_, hch⟩, -⟩ := namedStep_change hs
    exact ⟨ht, owner_kept hinv.1 ht hch hinv.2⟩
  · obtain ⟨⟨_, hch⟩, -⟩ := namedStep_change hs
    rw [hreg.devices_eq] at hd
    exact active_kept hreg (registry_step hs hreg) hch hd hact

end Invariant

namespace Sample

/-- Hexadecimal digits, most significant first. -/
def hex (length n : ℕ) : JsString := (List.range length).map fun i =>
  let digit := n / 16 ^ (length - 1 - i) % 16
  (if digit < 10 then 48 + digit else 87 + digit).toUInt16

/-- Digits in the base64url alphabet, most significant first. -/
def base64Url (length n : ℕ) : JsString := (List.range length).map fun i =>
  let digit := n / 64 ^ (length - 1 - i) % 64
  (if digit < 26 then 65 + digit else if digit < 52 then 71 + digit
    else if digit < 62 then digit - 4 else if digit = 62 then 45 else 95).toUInt16

/-- A body with these fields. -/
def body (fields : List (String × Json)) : Record := fun name =>
  ((fields.find? fun field => field.1 = name).map Prod.snd).getD .undefined

def keyA : JsonWebKey where
  kty := js "EC"
  crv := js "P-256"
  x := base64Url 43 0x8c03fcfb6f01ec1ca8852db483921f8c50b0176211ff1d170ae70199bb4497b0
  y := base64Url 43 0x94b52b910627f1798af2b4c33aafdd68ab47b6015c23cff41139ae2077cf1894

def keyB : JsonWebKey where
  kty := js "EC"
  crv := js "P-256"
  x := base64Url 43 0xa287277993b805cdb8f0a1890a00bf77f7193ce700db98dfc4976385909e8588
  y := base64Url 43 0x251905814262fcf31c7f53bda39b7e20024dcc3d28ff7f9c3928d1caf12c95a10

def secretA : JsString :=
  base64Url 43 0x30a0999d3f5688908049c19176e9becff0814b4e1155acf85851902be605fba60
def secretB : JsString :=
  base64Url 43 0x1c5db789f67f5a6488d3cc26149cd97c4072632773679d5689d870a792d7f7788
def secretA2 : JsString :=
  base64Url 43 0x32c2f5e5251332dc85488c8ad10ddd7940b63dccada6f78a4a34e139531b4daf4
def secretP1 : JsString :=
  base64Url 43 0x21ef88898c614316d919516ffab8d56d639625c8a2509ce03ca7cd45b35848b6c
def secretP2 : JsString :=
  base64Url 43 0x234bf39b7f37f5feb762e650b136c61e09057a7645f86c36d8355a971562b3920
def secretT : JsString :=
  base64Url 43 0x1df80ea781f01d463d11ab3444ef33a904b11ec114a4befc3d68bed8bf85be78
def recovery0 : JsString :=
  base64Url 43 0x6c6c3deb2d343f8899e08e23b29bc788bc5b246c86a4751b42a787fcc1285360
def recovery1 : JsString :=
  base64Url 43 0x3abfffcef8d9e9d11bd56563be256e5583254574c467ed467e0853235119f4414
def recovery2 : JsString :=
  base64Url 43 0x3de64e1bc86ef159de84c8d7c3d5b1fa219742c1d1b5180b72260c0c92919de34
def nonceA : JsString :=
  base64Url 43 0x123b05182a9b4f571cb23494edf81e8774a9594b8a35ff2c4a6c1488750782590
def nonceB : JsString :=
  base64Url 43 0x7494201c642d38eb3f1c8fb4fe408722b0d1f00e4bc8ce8ae44f02e93a234180
def nonceA2 : JsString :=
  base64Url 43 0xca569023df9146d2290dbb202cf6f333762a0f5c05fee1445cb6bfbd41db96c
def challengeIdA : JsString := base64Url 24 0xf3126e7a4084654331cf83cd07df3d380afd
def challengeIdB : JsString := base64Url 24 0xa8eaa600e2999228f866ec5691086774c639
def challengeIdA2 : JsString := base64Url 24 0xe155c0e419e913d18a86bc7ecb191e68b00d
def sessionIdA : JsString := base64Url 24 0xec5f2ccdb2b44cbea0322cc1199e1c60a489
def sessionIdB : JsString := base64Url 24 0x151bb72aae930713f373e90456bece1405a9
def sessionIdA2 : JsString := base64Url 24 0xa66cdf70a124636ecbb13ebe3f3a59fe3647
def pairingId1 : JsString := base64Url 24 0xaed5fbff11581101ffa9c7be0c7709e20751
def pairingId2 : JsString := base64Url 24 0x7bb14dffe4631dc234d9a070dc68d2eab638
def signatureA : JsString := base64Url 86
  0xc60f130135808ce9a1dd2ebcd66f5ece26f03b1c8293eb1f1a09da9ef31677972ba1b9a60ed22d291882fa50ddcbcef2f3a4f8acec059b3d5478f0fb245d4a680
def signatureB : JsString := base64Url 86
  0xd94774ec70de4aa7b7a06698c5597619180842436eb9d7f7a945d0ca48e0e0a55098c2c1dce3617ada93f7d08c09e3a405af036b5f22a792f7761b02677fca570
def signatureA2 : JsString := base64Url 86
  0xe4603c17c85bc93a4af6f062f39b300f2173c4c88834fa161b60ee339e2a8908e9dafbd0d81ed02ae7c1c8c7ab9635330722397169dfe450825777504d56e91b0

/-- SHA-256 of the inputs that occur. -/
def hashes : List (JsString × JsString) := [
  (js "EC.P-256." ++ keyA.x ++ js "." ++ keyA.y,
    hex 64 0x6a575d84f8e4c7ca52c03fbe52ed44cb63aa7fea62e784f0bb62cf65705ff99a),
  (js "EC.P-256." ++ keyB.x ++ js "." ++ keyB.y,
    hex 64 0xc5e1d6f54c5676a52ae6faa0151ec1e1ab5becd05ab463bbc52ea4651eac32f3),
  (secretA, hex 64 0x6f3db4ddd541de7a1a519946f8a3449e006dc7a27f4dc57179f894524444ca0f),
  (secretB, hex 64 0x54625f5bc5bd1dcb1bd6ad386fc0b958b05f16d31d08a12fab19a460c91beb46),
  (secretA2, hex 64 0xf811ee46f9751cfe5fe47a4394e7502fc7b1c8cdb4fb10acf0916d56a52794f1),
  (secretP1, hex 64 0xe0ddbf0cbfd66f8059d9d6f4ac72648ee5b7ac642b85faa61f761e23a302322b),
  (secretP2, hex 64 0x8e2766091d3e25fd0064c838ecc04d7246564a2108efd981744995eed3f0a195),
  (secretT, hex 64 0x58c12d42d20c53adc740f66c1204bf68b6faaf8c6c0518cd10ecf39a231ea615),
  (recovery0, hex 64 0xb85b1ae3b448dfa76807e0137c58aac20c29302ae8019a29463ffac74f3ea710),
  (recovery1, hex 64 0x62b597a4cfb07cdc8f88c4d1e7a230d0cab9a0af2c759f211708021a09e5b4c8),
  (recovery2, hex 64 0xb43ae0e50a83082262afa4195415b0d1d0384398bfc53c8c1cd8e12ad318d67c)]

def challengeOf (id nonce : JsString) (deviceId : String) (authGeneration : ℕ) : StoredChallenge :=
  ⟨id, js deviceId, js "vault-0001", nonce, authGeneration, 0⟩

/-- The signatures that verify. -/
def signatures : List (JsonWebKey × JsString × JsString) := [
  (keyA, signatureA, challengeMessage (challengeOf challengeIdA nonceA "device-A" 1)),
  (keyB, signatureB, challengeMessage (challengeOf challengeIdB nonceB "device-B" 2)),
  (keyA, signatureA2, challengeMessage (challengeOf challengeIdA2 nonceA2 "device-A" 2))]

def sha256Hex (s : JsString) : JsString :=
  ((hashes.find? fun entry => entry.1 = s).map Prod.snd).getD (hex 64 0)

theorem validHash_sha256Hex (s : JsString) : validHash (sha256Hex s) = true := by
  have htable : ∀ entry ∈ hashes, validHash entry.2 = true := by decide
  unfold sha256Hex
  cases hf : hashes.find? fun entry => entry.1 = s with
  | none => decide
  | some entry => exact htable entry (mem_of_find? hf).1

/-- The platform on the inputs of these runs. -/
def platform : Platform where
  sha256Hex := sha256Hex
  importKey key := key = keyA ∨ key = keyB
  verify key signature message := signatures.any fun entry =>
    entry.1 = key ∧ base64UrlToBytes entry.2.1 = some signature ∧ entry.2.2 = message
  parseUrl _ := none
  validHash_sha256Hex := validHash_sha256Hex

def context (now : ℕ) (secret id : JsString) : RequestContext where
  authNow := now
  now
  secret
  id
  codeBytes _ := 0

def keyJson (key : JsonWebKey) : Json :=
  .obj (body [("kty", .str key.kty), ("crv", .str key.crv), ("x", .str key.x), ("y", .str key.y)])

def deviceFields (id name : String) (key : JsonWebKey) : List (String × Json) :=
  [("deviceId", .str (js id)), ("deviceName", .str (js name)), ("publicKey", keyJson key)]

def vault : String × Json := ("vaultId", .str (js "vault-0001"))

def claimA : Request where
  operation := .claim
  body := body (vault :: ("recoverySecretHash", .str (sha256Hex recovery0)) ::
    deviceFields "device-A" "Laptop" keyA)
  context := context 1000 [] []

def challengeA : Request where
  operation := .challenge
  body := body ([vault, ("deviceId", .str (js "device-A"))])
  context := context 2000 nonceA challengeIdA

def sessionA : Request where
  operation := .session
  body := body ([("challengeId", .str challengeIdA), ("signature", .str signatureA)])
  context := context 3000 secretA sessionIdA

def renameA (name : JsString) : Request where
  operation := .renameDevice
  body := body ([vault, ("session", .str secretA),
    ("targetDeviceId", .str (js "device-A")),
    ("deviceName", .str name)])
  context := context 4000 [] []

/-- A name with U+0001 in it. -/
def controlName : JsString := js "Lap" ++ [1] ++ js "top"

/-- Device A claims the server and opens a session. -/
def claimed : List Request := [claimA, challengeA, sessionA]

end Sample

instance (device : StoredDevice) : Decidable (ActiveOwner device) :=
  inferInstanceAs (Decidable (_ ∧ _))

instance (storage : ConfigStorage) : Decidable (HasActiveOwner storage) :=
  inferInstanceAs (Decidable (∃ d ∈ _, _))

theorem registry_keeps_owner_claimed : HasActiveOwner (run Sample.platform Sample.claimed {}) := by
  have hnames : ∀ request ∈ Sample.claimed, request.operation ≠ .renameDevice := by decide
  have hs : ∀ request ∈ Sample.claimed, ∀ storage, NamedStep Sample.platform storage request
      (fetch Sample.platform request storage).2 :=
    fun request hmem storage => ⟨rfl, fun h => hnames request hmem h.1⟩
  exact (registry_keeps_owner (.single (hs Sample.claimA (by simp [Sample.claimed]) {}))).1
    [Sample.challengeA, Sample.sessionA] _
    (.stepL (hs _ (by simp [Sample.claimed]) _) (.single (hs _ (by simp [Sample.claimed]) _)))
    (by decide)

/-- The requests of a claim, after which a rename takes the owner away. -/
def Sample.ownerRun : { requests : List Request //
    HasActiveOwner (run Sample.platform requests {}) ∧
      ¬ HasActiveOwner
        (run Sample.platform (requests ++ [Sample.renameA Sample.controlName]) {}) } :=
  ⟨Sample.claimed, by decide +kernel⟩

/-- A control character in its new name costs the server its only owner. -/
theorem registry_loses_renamed_owner :
    HasActiveOwner (run Sample.platform Sample.claimed {}) ∧
      Step Sample.platform (run Sample.platform Sample.claimed {})
        (Sample.renameA Sample.controlName)
        (run Sample.platform (Sample.claimed ++ [Sample.renameA Sample.controlName]) {}) ∧
      ¬ HasActiveOwner
        (run Sample.platform (Sample.claimed ++ [Sample.renameA Sample.controlName]) {}) := by
  have ho : HasActiveOwner (run Sample.platform Sample.claimed {}) ∧
      ¬ HasActiveOwner
        (run Sample.platform (Sample.claimed ++ [Sample.renameA Sample.controlName]) {}) :=
    Sample.ownerRun.property
  exact ⟨ho.1, rfl, ho.2⟩

end ServerConfig

end Kaos.Server
