import Kaos.Lib.Window
import Kaos.Server.DeviceRegistry

/-! The audit log: what is appended to it and what a read gives back. -/
namespace Kaos.Server

open Kaos.Lib List

namespace ServerConfig

/-- The event a request appends: who did what to which device. -/
def appendedEvent (platform : Platform) (request : Request) (storage : ConfigStorage) :
    Option AuditEvent :=
  let actor := (storage.bodyPrincipal platform request.context.authNow request.body).map
    DevicePrincipal.deviceId
  let target := findActive storage.readAuthValues.devices
  let event action actorDeviceId targetDeviceId fingerprint :=
    some (AuditEvent.mk request.context.now action actorDeviceId targetDeviceId fingerprint)
  match (fetch platform request storage).1 with
  | .claimedByDevice id fingerprint _ _ => event .claimed (some id) (some id) (some fingerprint)
  | .claimedByServer _ _ _ => event .claimed none none none
  | .recovered id _ => event .recovery none (some id)
      ((deviceFromBody platform request.body).map fun candidate =>
        fingerprintForKey platform candidate.publicKey)
  | .pairing _ _ => event .pairing_created actor none none
  | .paired id _ fingerprint _ _ => event .device_paired
      ((namedPairing platform request.body request.context storage).map StoredPairing.createdBy)
      (some id) (some fingerprint)
  | .roleChanged id role _ =>
    if (target id).any fun device => device.role = role then none
    else event .device_role_changed actor (some id) ((target id).map StoredDevice.fingerprint)
  | .revoked id _ =>
    event .device_revoked actor (some id) ((target id).map StoredDevice.fingerprint)
  | .renamed id name =>
    if (target id).any fun device => device.name = name then none
    else event .device_renamed actor (some id) ((target id).map StoredDevice.fingerprint)
  | _ => none

/-- A claim starts a fresh log. -/
def appendTo (log : List AuditEvent) (event : AuditEvent) : List AuditEvent :=
  if event.action = .claimed then [event] else log ++ [event]

/-- All events appended so far. -/
def eventLog (platform : Platform) :
    List Request → ConfigStorage → List AuditEvent → List AuditEvent
  | [], _, log => log
  | request :: requests, storage, log =>
    eventLog platform requests (fetch platform request storage).2
      (((appendedEvent platform request storage).map (appendTo log)).getD log)

section Window

variable {platform : Platform} {request : Request} {storage : ConfigStorage}
  {log : List AuditEvent}

theorem addAudit_nil (event : AuditEvent) : addAudit [] event = [event] :=
  rtake_of_length_le (by simp [MAX_AUDIT_ENTRIES])

/-- The validator knows every action but one. -/
theorem isAudit_iff (event : AuditEvent) :
    isAudit event = true ↔ event.action ≠ .device_renamed := by
  unfold isAudit
  cases event.action <;> decide

/-- A request leaves the log alone or appends its one event to what it read back. -/
theorem authAudit_fetch (platform : Platform) (request : Request) (storage : ConfigStorage) :
    (appendedEvent platform request storage = none →
      (fetch platform request storage).2.authAudit = storage.authAudit) ∧
    ∀ event, appendedEvent platform request storage = some event →
      (fetch platform request storage).2.authAudit =
        addAudit (if event.action = .claimed then [] else storage.readAuthValues.audit) event := by
  obtain ⟨response, storage', hfetch, hchange⟩ := fetch_eq platform request storage
  rw [appendedEvent, hfetch]
  obtain ⟨operation, body, context⟩ := request
  cases hchange with
  | claimByDevice | claimByServer => simp [claimedStorage, addAudit_nil]
  | recover hver hh hv hcl hdev => simp [hdev]
  | createPairing hp => simp [(ownerPrincipal_eq_some hp).1]
  | pairNew hv hcl hdev hm he hrole => simp [hm]
  | keepRole hp hid hrole htgt hk => simp [htgt, hk]
  | changeRole hp hid hrole htgt hch hown =>
    simp [htgt, hch, (ownerPrincipal_eq_some hp).1, advanceGeneration]
  | revoke hp hid htgt hown =>
    simp [htgt, (ownerPrincipal_eq_some hp).1, advanceGeneration]
  | keepName hp hid htgt => simp [htgt]
  | rename hp hid hraw hnon hlen hallowed htgt hch =>
    simp [htgt, hch, hp]
  | _ => simp

/-- What is read back ends with all events since the last rename, and with nothing else when there
was none. -/
def Windowed (storage : ConfigStorage) (log : List AuditEvent) : Prop :=
  ∃ before older recent, log = before ++ recent ∧ (∀ e ∈ recent, isAudit e = true) ∧
    storage.readAuthValues.audit = (older ++ recent).rtake MAX_AUDIT_ENTRIES ∧
    ((before = [] ∧ older = []) ∨ ∃ earlier e, before = earlier ++ [e] ∧ isAudit e = false)

variable {storage' : ConfigStorage} {event : AuditEvent}

theorem windowed_append (h : Windowed storage log) (hev : isAudit event = true)
    (haudit : storage'.authAudit = addAudit storage.readAuthValues.audit event) :
    Windowed storage' (log ++ [event]) := by
  obtain ⟨before, older, recent, hlog, hrec, hr, hb⟩ := h
  refine ⟨before, older, recent ++ [event], by rw [hlog, append_assoc], ?_, ?_, hb⟩
  · intro e he
    rcases mem_append.mp he with he | he
    · exact hrec e he
    · rwa [mem_singleton.mp he]
  have hall : ∀ e ∈ addAudit storage.readAuthValues.audit event, isAudit e = true := by
    intro e he
    rcases mem_append.mp (mem_of_mem_rtake he) with he | he
    · exact of_mem_filter he
    · rwa [mem_singleton.mp he]
  have hfil : storage'.readAuthValues.audit = addAudit storage.readAuthValues.audit event := by
    rw [← haudit] at hall
    rw [← haudit]
    exact filter_eq_self.mpr hall
  rw [hfil, addAudit, hr, rtake_rtake_append, append_assoc]

/-- An event the validator does not know is gone at the next read. -/
theorem windowed_drop (hev : isAudit event = false)
    (haudit : storage'.authAudit = addAudit storage.readAuthValues.audit event) :
    Windowed storage' (log ++ [event]) := by
  refine ⟨log ++ [event], storage'.readAuthValues.audit, [], by simp, by simp, ?_,
    .inr ⟨log, event, rfl, hev⟩⟩
  rw [append_nil, rtake_of_length_le]
  calc (storage'.authAudit.filter isAudit).length
      ≤ storage'.authAudit.length := length_filter_le _ _
    _ ≤ MAX_AUDIT_ENTRIES := by rw [haudit]; exact length_rtake_le

theorem windowed_step (h : Windowed storage log) : Windowed (fetch platform request storage).2
    (((appendedEvent platform request storage).map (appendTo log)).getD log) := by
  obtain ⟨hq, happ⟩ := authAudit_fetch platform request storage
  cases hev : appendedEvent platform request storage with
  | none =>
    obtain ⟨before, older, recent, hlog, hrec, hr, hb⟩ := h
    refine ⟨before, older, recent, hlog, hrec, ?_, hb⟩
    rw [← hr]
    exact congrArg (List.filter isAudit) (hq hev)
  | some event =>
    have haudit := happ event hev
    rw [Option.map_some, Option.getD_some, appendTo]
    by_cases hcl : event.action = .claimed
    · rw [if_pos hcl] at haudit ⊢
      rw [addAudit_nil] at haudit
      have hk : isAudit event = true := by simp [isAudit_iff, hcl]
      refine ⟨[], [], [event], rfl, by simpa using hk, ?_, .inl ⟨rfl, rfl⟩⟩
      rw [nil_append, rtake_of_length_le (by simp [MAX_AUDIT_ENTRIES])]
      simp [ConfigStorage.readAuthValues, haudit, hk]
    rw [if_neg hcl] at haudit ⊢
    cases hk : isAudit event with
    | true => exact windowed_append h hk haudit
    | false => exact windowed_drop hk haudit

theorem windowed_run (platform : Platform) (requests : List Request) (h : Windowed storage log) :
    Windowed (run platform requests storage) (eventLog platform requests storage log) := by
  induction requests generalizing storage log with
  | nil => exact h
  | cons request requests ih => exact ih (windowed_step h)

/-- A window without dropped events is read back whole. -/
theorem Windowed.readback (h : Windowed storage log)
    (hk : ∀ e ∈ log.rtake MAX_AUDIT_ENTRIES, isAudit e = true) :
    storage.readAuthValues.audit = log.rtake MAX_AUDIT_ENTRIES := by
  obtain ⟨before, older, recent, rfl, hrec, hr, ⟨rfl, rfl⟩ | ⟨earlier, e, rfl, he⟩⟩ := h
  · exact hr
  rw [hr]
  have hlen : MAX_AUDIT_ENTRIES ≤ recent.length := by
    by_contra hshort
    have hmem : e ∈ ((earlier ++ [e]) ++ recent).rtake MAX_AUDIT_ENTRIES := by
      rw [append_assoc, singleton_append]
      exact mem_rtake_of_length_lt (not_le.mp hshort)
    exact absurd (hk e hmem) (by simp [he])
  rw [rtake_append_of_le hlen, rtake_append_of_le hlen]

end Window

/-- The log read back is the last 200 events exactly while no rename is among them. -/
theorem audit_readback_iff (platform : Platform) (requests : List Request) :
    (run platform requests {}).readAuthValues.audit =
        (eventLog platform requests {} []).rtake MAX_AUDIT_ENTRIES ↔
      ∀ e ∈ (eventLog platform requests {} []).rtake MAX_AUDIT_ENTRIES,
        e.action ≠ .device_renamed := by
  have hem : Windowed {} [] := ⟨[], [], [], rfl, by simp,
    (rtake_of_length_le (Nat.zero_le _)).symm, .inl ⟨rfl, rfl⟩⟩
  have hrun := windowed_run platform requests hem
  constructor
  · intro h e he
    rw [← h] at he
    exact (isAudit_iff e).mp (List.of_mem_filter he)
  · exact fun h => hrun.readback fun e he => (isAudit_iff e).mpr (h e he)

/-- The requests of a plain rename, which the log lacks. -/
def Sample.renamedRun : { requests : List Request //
    (run Sample.platform requests {}).readAuthValues.audit ≠
      (eventLog Sample.platform requests {} []).rtake MAX_AUDIT_ENTRIES } :=
  ⟨Sample.claimed ++ [Sample.renameA (js "Laptop 2")], by decide +kernel⟩

/-- A plain rename is missing from the log at once. -/
theorem audit_loses_rename :
    let requests := Sample.claimed ++ [Sample.renameA (js "Laptop 2")]
    (run Sample.platform requests {}).readAuthValues.audit ≠
      (eventLog Sample.platform requests {} []).rtake MAX_AUDIT_ENTRIES :=
  Sample.renamedRun.property

end ServerConfig

end Kaos.Server
