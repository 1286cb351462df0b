import Kaos.Lib.JsString
import Kaos.Lib.Run
import Mathlib.Logic.Function.Basic

/-! The identity of a device in the database that the clients of a vault share. -/
namespace Kaos.Sync

open Kaos.Lib List Option

structure DeviceIdentity (κ : Type*) where
  deviceId : JsString
  keyPair : κ
  deriving DecidableEq

/-- What `getOrCreateIdentity` awaits, or how it has ended. -/
inductive IdentityPhase (κ : Type*)
  | reading
  | generating
  | writing (identity : DeviceIdentity κ)
  | persisting (identity : DeviceIdentity κ)
  | returned (identity : DeviceIdentity κ)
  | failed
  deriving DecidableEq

/-- The stored identity, and of every client the device id of its settings and its promise. -/
structure IdentityWorld (κ : Type*) where
  stored : Option (DeviceIdentity κ)
  deviceId : ℕ → JsString
  identityPromise : ℕ → Option (IdentityPhase κ) := fun _ => none

/-- The awaited operation of a client fails, or it succeeds; a key pair and a random device id are
at hand for a client that makes an identity. -/
inductive IdentityEvent (κ : Type*)
  | getIdentity (client : ℕ)
  | resume (client : ℕ) (made : Option (κ × JsString))
  | restart (client : ℕ) (deviceId : JsString)
  deriving DecidableEq

variable {κ : Type*}

namespace IdentityPhase

/-- The device id goes to the settings where these have another one. -/
def handOver (deviceId : JsString) (identity : DeviceIdentity κ) : IdentityPhase κ :=
  if deviceId ≠ identity.deviceId then .persisting identity else .returned identity

def fail : IdentityPhase κ → IdentityPhase κ
  | .returned identity => .returned identity
  | _ => .failed

def resume (stored : Option (DeviceIdentity κ)) (deviceId : JsString) :
    Option (κ × JsString) → IdentityPhase κ → Option (DeviceIdentity κ) × IdentityPhase κ
  | none, phase => (stored, phase.fail)
  | some _, .reading => (stored, (stored.map (handOver deviceId)).getD .generating)
  | some made, .generating =>
    (stored, .writing ⟨if deviceId = [] then made.2 else deviceId, made.1⟩)
  | some _, .writing identity => (some identity, handOver deviceId identity)
  | some _, .persisting identity => (stored, .returned identity)
  | some _, phase => (stored, phase)

/-- How many more answers it awaits at most. -/
def left : IdentityPhase κ → ℕ
  | .reading => 4
  | .generating => 3
  | .writing _ => 2
  | .persisting _ => 1
  | _ => 0

theorem left_le (phase : IdentityPhase κ) : phase.left ≤ 4 := by
  cases phase <;> simp [left]

/-- The identity that is returned or about to be. -/
def known : IdentityPhase κ → Option (DeviceIdentity κ)
  | .persisting identity | .returned identity => some identity
  | _ => none

theorem known_handOver (deviceId : JsString) (identity : DeviceIdentity κ) :
    (handOver deviceId identity).known = some identity := by
  unfold handOver
  split <;> rfl

end IdentityPhase

namespace IdentityWorld

def setPromise (w : IdentityWorld κ) (client : ℕ) (phase : Option (IdentityPhase κ)) :
    IdentityWorld κ :=
  { w with identityPromise := Function.update w.identityPromise client phase }

def next (w : IdentityWorld κ) : IdentityEvent κ → IdentityWorld κ
  | .getIdentity client => w.setPromise client ((w.identityPromise client).getD .reading)
  | .resume client made =>
    match w.identityPromise client with
    | some phase =>
      let after := phase.resume w.stored (w.deviceId client) made
      { w.setPromise client after.2 with stored := after.1 }
    | none => w
  | .restart client deviceId =>
    { w.setPromise client none with deviceId := Function.update w.deviceId client deviceId }

/-- The calls of the client return the identity. -/
def Returns (w : IdentityWorld κ) (client : ℕ) (identity : DeviceIdentity κ) : Prop :=
  w.identityPromise client = some (.returned identity)

end IdentityWorld

def identityAt (stored : Option (DeviceIdentity κ)) (deviceId : ℕ → JsString)
    (events : List (IdentityEvent κ)) (n : ℕ) : IdentityWorld κ :=
  stateAt IdentityWorld.next { stored, deviceId } events n

/-- An answer to the attempt of the client. -/
def IdentityEvent.answers (client : ℕ) : IdentityEvent κ → Bool
  | .resume other _ => other = client
  | _ => false

/-- The client's attempt gets no error and is not cut off, and at least four answers come. -/
structure Works (client : ℕ) (later : List (IdentityEvent κ)) : Prop where
  noError : .resume client none ∉ later
  noRestart : ∀ deviceId, .restart client deviceId ∉ later
  enough : 4 ≤ later.countP (·.answers client)

/-- What a call has returned every later call returns, and a call returns once the database
works. -/
structure KeepsIdentity (stored : Option (DeviceIdentity κ)) (deviceId : ℕ → JsString)
    (events : List (IdentityEvent κ)) (n : ℕ) : Prop where
  stable : ∀ m ≤ n, ∀ client other identity identity',
    (identityAt stored deviceId events m).Returns client identity →
    (identityAt stored deviceId events n).Returns other identity' → identity' = identity
  recovers : ∀ client, events[n]? = some (.getIdentity client) → ∀ later, Works client later →
    ∃ identity, (later.foldl IdentityWorld.next
      (identityAt stored deviceId events (n + 1))).Returns client identity

namespace IdentityWorld

variable {w : IdentityWorld κ} {client other : ℕ} {identity : DeviceIdentity κ}
  {phase phase' : IdentityPhase κ}

theorem promise_setPromise {phase : Option (IdentityPhase κ)} :
    (w.setPromise client phase).identityPromise other =
      if other = client then phase else w.identityPromise other :=
  Function.update_apply ..

/-- An answer brings an attempt that has not failed closer to its end. -/
theorem left_resume (hfailed : phase ≠ .failed) (stored : Option (DeviceIdentity κ))
    (deviceId : JsString) (made : κ × JsString) :
    (phase.resume stored deviceId (some made)).2 ≠ .failed ∧
      (phase.resume stored deviceId (some made)).2.left ≤ phase.left - 1 := by
  have hhan : ∀ identity : DeviceIdentity κ, IdentityPhase.handOver deviceId identity ≠ .failed ∧
      (IdentityPhase.handOver deviceId identity).left ≤ 1 := by
    intro identity
    unfold IdentityPhase.handOver
    split
    · exact ⟨nofun, Nat.le_refl _⟩
    · exact ⟨nofun, Nat.zero_le _⟩
  cases phase with
  | reading =>
    cases stored with
    | none => exact ⟨nofun, Nat.le_refl _⟩
    | some identity =>
      obtain ⟨hne, hl⟩ := hhan identity
      exact ⟨hne, hl.trans (Nat.le_add_left 1 2)⟩
  | generating => exact ⟨nofun, Nat.le_refl _⟩
  | writing identity => exact hhan identity
  | persisting identity => exact ⟨nofun, Nat.le_refl _⟩
  | returned identity => exact ⟨nofun, Nat.le_refl _⟩
  | failed => exact absurd rfl hfailed

theorem returns_of_left {later : List (IdentityEvent κ)} (hnoE : .resume client none ∉ later)
    (hnoR : ∀ deviceId, .restart client deviceId ∉ later)
    (hprom : w.identityPromise client = some phase) (hfailed : phase ≠ .failed)
    (hl : phase.left ≤ later.countP (·.answers client)) :
    ∃ identity, (later.foldl next w).Returns client identity := by
  induction later generalizing w phase with
  | nil =>
    cases phase with
    | returned identity => exact ⟨identity, hprom⟩
    | failed => exact absurd rfl hfailed
    | _ => cases hl
  | cons event later ih =>
    have hr : ∀ {phase}, (w.next event).identityPromise client = some phase → _ :=
      ih (fun h => hnoE (mem_cons_of_mem _ h))
        fun deviceId h => hnoR deviceId (mem_cons_of_mem _ h)
    by_cases ha : event.answers client
    · rw [countP_cons_of_pos ha] at hl
      cases event with
      | getIdentity | restart => cases ha
      | resume other made =>
        obtain rfl : other = client := by simpa [IdentityEvent.answers] using ha
        cases made with
        | none => exact absurd mem_cons_self hnoE
        | some made =>
          obtain ⟨hne, hless⟩ := left_resume hfailed w.stored (w.deviceId other) made
          refine hr ?_ hne (hless.trans (Nat.sub_le_of_le_add hl))
          simp only [next, hprom]
          exact promise_setPromise.trans (if_pos rfl)
    · rw [countP_cons_of_neg ha] at hl
      refine hr ?_ hfailed hl
      cases event with
      | getIdentity other =>
        rw [next, promise_setPromise]
        split
        · next heq => rw [← heq, hprom, getD_some]
        · exact hprom
      | restart other deviceId =>
        have hne : client ≠ other := by
          rintro rfl
          exact hnoR deviceId mem_cons_self
        exact (promise_setPromise.trans (if_neg hne)).trans hprom
      | resume other made =>
        have hne : client ≠ other := by
          rintro rfl
          simp [IdentityEvent.answers] at ha
        rw [next]
        split
        · exact (promise_setPromise.trans (if_neg hne)).trans hprom
        · exact hprom

/-- Whatever identity is known to a client is the stored one. -/
def Sound (w : IdentityWorld κ) : Prop :=
  ∀ client phase identity, w.identityPromise client = some phase → phase.known = some identity →
    w.stored = some identity

/-- No identity is written over another one. -/
def NoOverwrite (w : IdentityWorld κ) (event : IdentityEvent κ) : Prop :=
  ∀ client made identity, event = .resume client (some made) →
    w.identityPromise client = some (.writing identity) → w.stored = none

theorem known_resume {stored : Option (DeviceIdentity κ)} {deviceId : JsString}
    {made : Option (κ × JsString)} (hk : phase.known = some identity → stored = some identity)
    (ha : (phase.resume stored deviceId made).2.known = some identity) :
    (phase.resume stored deviceId made).1 = some identity := by
  cases made with
  | none =>
    cases phase with
    | returned => exact hk ha
    | _ => cases ha
  | some made =>
    cases phase with
    | reading =>
      cases stored with
      | none => cases ha
      | some identity' => exact (IdentityPhase.known_handOver deviceId identity').symm.trans ha
    | generating | failed => cases ha
    | writing identity' => exact (IdentityPhase.known_handOver deviceId identity').symm.trans ha
    | persisting | returned => exact hk ha

theorem sound_setPromise (h : w.Sound) {phase : Option (IdentityPhase κ)}
    (hk : ∀ identity, phase.bind (·.known) = some identity → w.stored = some identity) :
    (w.setPromise client phase).Sound := by
  intro other phase' identity hprom hph
  rw [promise_setPromise] at hprom
  split at hprom
  · exact hk identity (by rw [hprom]; exact hph)
  · exact h other phase' identity hprom hph

variable {event : IdentityEvent κ}

/-- A step that writes over no identity keeps the stored one. -/
theorem stored_next (hw : w.NoOverwrite event)
    (h : w.stored = some identity) : (w.next event).stored = some identity := by
  cases event with
  | getIdentity | restart => exact h
  | resume client made =>
    rw [next]
    split
    · next phase hph =>
      cases made with
      | none => exact h
      | some made =>
        cases phase with
        | writing identity' => cases h.symm.trans (hw client made identity' rfl hph)
        | _ => exact h
    · exact h

theorem sound_next (h : w.Sound) (hw : w.NoOverwrite event) : (w.next event).Sound := by
  have hst : ∀ identity, w.stored = some identity → (w.next event).stored = some identity :=
    fun _ => stored_next hw
  cases event with
  | getIdentity client =>
    refine sound_setPromise h fun identity hk => ?_
    cases hprom : w.identityPromise client with
    | none =>
      rw [hprom] at hk
      cases hk
    | some phase =>
      rw [hprom] at hk
      exact h client phase identity hprom hk
  | restart client deviceId => exact sound_setPromise h nofun
  | resume client made =>
    rw [next] at hst ⊢
    split at hst
    · next phase hph =>
      intro other phase' identity hprom hk
      have hprom' := promise_setPromise.symm.trans hprom
      split at hprom'
      · cases hprom'
        exact known_resume (h client phase identity hph) hk
      · exact hst identity (h other phase' identity hprom' hk)
    · exact h

end IdentityWorld

open IdentityWorld

variable {stored : Option (DeviceIdentity κ)} {deviceId : ℕ → JsString}
  {events : List (IdentityEvent κ)}

/-- While no client writes an identity over another one and no failed client is called again, the
identity of the device is stable and its failures pass. -/
theorem identity_kept
    (hwrite : ∀ n event, events[n]? = some event →
      (identityAt stored deviceId events n).NoOverwrite event)
    (hcall : ∀ n client, events[n]? = some (.getIdentity client) →
      (identityAt stored deviceId events n).identityPromise client ≠ some .failed) (n : ℕ) :
    KeepsIdentity stored deviceId events n := by
  have hs : ∀ n, (identityAt stored deviceId events n).Sound := fun n =>
    stateAt_from (Nat.zero_le n) nofun fun k event _ hev h =>
      sound_next h (hwrite k event hev)
  have hst : ∀ m ≤ n, ∀ identity, (identityAt stored deviceId events m).stored = some identity →
      (identityAt stored deviceId events n).stored = some identity := fun m hmn identity hm =>
    stateAt_from (P := (IdentityWorld.stored · = some identity)) hmn hm fun k event _ hev h =>
      stored_next (hwrite k event hev) h
  refine ⟨?_, ?_⟩
  · intro m hmn client other identity identity' hret hret'
    have hone := hst m hmn identity (hs m client _ identity hret rfl)
    have htwo := hs n other _ identity' hret' rfl
    exact some.inj (htwo.symm.trans hone)
  · intro client hev later hworks
    have hne := hcall n client hev
    rw [identityAt, stateAt_succ hev]
    refine returns_of_left hworks.noError hworks.noRestart
      (promise_setPromise.trans (if_pos rfl)) ?_ ((IdentityPhase.left_le _).trans hworks.enough)
    change ((identityAt stored deviceId events n).identityPromise client).getD _ ≠ _
    cases h : (identityAt stored deviceId events n).identityPromise client with
    | none => nofun
    | some phase => exact fun hfailed => hne (h.trans (congrArg some hfailed))

/-- One client makes the identity. Another one fails once, is restarted with a device id of its own,
and finds it; the first one calls again. -/
def calledTwice : List (IdentityEvent ℕ) :=
  [.getIdentity 0, .resume 0 (some (1, js "a")), .resume 0 (some (2, js "b")),
    .resume 0 (some (3, js "c")), .getIdentity 1, .resume 1 none, .resume 0 (some (4, js "d")),
    .restart 1 (js "x"), .getIdentity 1, .resume 1 (some (5, js "e")),
    .resume 1 (some (6, js "f")), .getIdentity 0]

theorem identity_kept_called_twice :
    KeepsIdentity none (fun _ => []) calledTwice 11 ∧
      ∀ client < 2, (identityAt none (fun _ => []) calledTwice 11).Returns client ⟨js "b", 2⟩ := by
  refine ⟨identity_kept ?_ ?_ 11, by unfold IdentityWorld.Returns; decide⟩
  · intro n event hev client made identity heq hwrit
    subst heq
    match n with
    | 0 | 4 | 5 | 7 | 8 | 11 => cases hev
    | 1 | 2 | 6 | 9 | 10 =>
      cases hev
      cases hwrit
    | 3 => rfl
    | n + 12 => cases hev
  · intro n client hev
    match n with
    | 0 | 4 | 8 | 11 =>
      cases hev
      decide
    | 1 | 2 | 3 | 5 | 6 | 7 | 9 | 10 => cases hev
    | n + 12 => cases hev

/-- Two clients that both find no identity: each returns its own. -/
def raced : List (IdentityEvent ℕ) :=
  [.getIdentity 0, .getIdentity 1, .resume 0 (some (0, [])), .resume 1 (some (0, [])),
    .resume 0 (some (1, js "a")), .resume 1 (some (2, js "b")), .resume 0 (some (0, [])),
    .resume 0 (some (0, [])), .resume 1 (some (0, [])), .resume 1 (some (0, []))]

theorem raced_identity_changes : ¬ KeepsIdentity none (fun _ => []) raced 10 :=
  fun h => absurd (h.stable 8 (by decide) 0 1 ⟨js "a", 1⟩ ⟨js "b", 2⟩ rfl rfl) (by decide)

end Kaos.Sync
