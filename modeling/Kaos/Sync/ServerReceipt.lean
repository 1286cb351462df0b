import Mathlib.Tactic.IntervalCases
import Kaos.Sync.ReceiptNetwork

/-! A claimed receipt is one, as far as state vectors can tell. -/
namespace Kaos.Sync

open Kaos.Lib Kaos.Server Kaos.Yjs ReceiptNetwork List Option

variable {V S : Type*} {cfg : PersistenceCoordinatorOptions} {e : Encoding} {bytes : VectorBytes V}
  {encode : V → S} {readCandidate : S → Option V} {w : ReceiptNetwork V S}
  {event : NetworkEvent S} {made : List Update} {used : Finset ItemId} {u x : Update}
  {P Q : Update → Prop}

/-- Its ids are in use, and with an item of a tracked update it has what that update deletes. -/
structure Known (made : List Update) (used : Finset ItemId) (x : Update) : Prop where
  used : x.items ⊆ used
  deletes : ∀ u ∈ made, ¬ Disjoint u.items x.items → u.deletes ⊆ x.deletes

theorem mergeClosed_known : MergeClosed (Known made used) where
  bot := by
    refine ⟨Finset.empty_subset _, ?_⟩
    intro u _ hm
    exact absurd (Finset.disjoint_empty_right u.items) hm
  sup := by
    intro x y hx hy
    refine ⟨Finset.union_subset hx.used hy.used, ?_⟩
    intro u hu hm
    by_cases hdis : Disjoint u.items x.items
    · have hm' : ¬ Disjoint u.items y.items := by
        intro hdis'
        exact hm (Finset.disjoint_union_right.mpr ⟨hdis, hdis'⟩)
      exact (hy.deletes u hu hm').trans Finset.subset_union_right
    · exact (hx.deletes u hu hdis).trans Finset.subset_union_left
  diff := by
    intro x sv hx
    have hle := encodeStateAsUpdate_le x sv
    refine ⟨hle.1.trans hx.used, ?_⟩
    intro u hu hm
    have hdel : (encodeStateAsUpdate x sv).deletes = x.deletes := by cases sv <;> rfl
    rw [hdel]
    apply hx.deletes u hu
    intro hdis
    exact hm (hdis.mono_right hle.1)

theorem Known.mono {used' : Finset ItemId} (h : Known made used x) (hused : used ⊆ used') :
    Known made used' x :=
  ⟨h.used.trans hused, h.deletes⟩

/-- A tracked update of new items is met by nothing yet. -/
theorem Known.grow (h : Known made used x) (hfr : Disjoint u.items used) :
    Known (made ++ [u]) (used ∪ u.items) x := by
  refine ⟨h.used.trans Finset.subset_union_left, ?_⟩
  intro v hv hm
  rcases mem_append.mp hv with hv | hv
  · exact h.deletes v hv hm
  rw [mem_singleton.mp hv] at hm
  exact absurd (hfr.mono_right h.used) hm

theorem known_fresh (hmade : ∀ v ∈ made, v.items ⊆ used) (hfr : Disjoint u.items used) :
    Known (made ++ [u]) (used ∪ u.items) u ∧ Known made (used ∪ u.items) u := by
  have hearly : ∀ v ∈ made, ¬ Disjoint v.items u.items → v.deletes ⊆ u.deletes := by
    intro v hv hm
    exact absurd (hfr.symm.mono_left (hmade v hv)) hm
  refine ⟨⟨Finset.subset_union_right, ?_⟩, Finset.subset_union_right, hearly⟩
  intro v hv hm
  rcases mem_append.mp hv with hv | hv
  · exact hearly v hv hm
  · rw [mem_singleton.mp hv]

namespace ReceiptNetwork

/-- A property of whatever the replicas hold and what is on its way between them. -/
structure Holds (P : Update → Prop) (w : ReceiptNetwork V S) : Prop where
  doc : P w.doc
  persistence : P w.persistence
  clients : ∀ j, P (w.clients j)
  messages : ∀ m ∈ w.messages, P m
  server : w.server.Holds P
  echoes : ∀ echo ∈ w.echoes, P echo.persisted

theorem Holds.imp (h : w.Holds P) (himp : ∀ x, P x → Q x) : w.Holds Q where
  doc := himp _ h.doc
  persistence := himp _ h.persistence
  clients j := himp _ (h.clients j)
  messages m hm := himp m (h.messages m hm)
  server := h.server.imp himp
  echoes echo hecho := himp _ (h.echoes echo hecho)

/-- Ids that are given change nothing that is held. -/
theorem Holds.use (h : w.Holds P) (items : Finset ItemId) :
    Holds P { w with used := w.used ∪ items } :=
  ⟨h.doc, h.persistence, h.clients, h.messages, h.server, h.echoes⟩

theorem Holds.send (h : w.Holds P) (hu : P u) : (w.send u).Holds P := by
  refine ⟨h.doc, h.persistence, h.clients, ?_, h.server, h.echoes⟩
  intro m hm
  rcases mem_append.mp hm with hm | hm
  · exact h.messages m hm
  rw [mem_singleton.mp hm]
  exact hu

theorem Holds.docUpdate (hP : MergeClosed P) (h : w.Holds P) (hu : P u) {origin : Option ℕ}
    {now : ℕ} : (w.docUpdate bytes encode u origin now).Holds P :=
  ⟨hP.sup h.doc hu, h.persistence, h.clients, h.messages, h.server, h.echoes⟩

theorem Holds.clientApply (hP : MergeClosed P) (h : w.Holds P) (j : ℕ) (hu : P u) :
    Holds P { w with clients := Function.update w.clients j (applyUpdate (w.clients j) u) } := by
  refine ⟨h.doc, h.persistence, ?_, h.messages, h.server, h.echoes⟩
  intro i
  change P (Function.update w.clients j (applyUpdate (w.clients j) u) i)
  rcases eq_or_ne i j with rfl | hne
  · rw [Function.update_self]
    exact hP.sup (h.clients i) hu
  rw [Function.update_of_ne hne]
  exact h.clients i

theorem Holds.serverEvent (hP : MergeClosed P) (h : w.Holds P) {event : RoomEvent}
    (hev : ∀ u, event = .update u → P u) : (w.serverEvent cfg e event).Holds P := by
  refine ⟨h.doc, h.persistence, h.clients, h.messages, ?_, h.echoes⟩
  change (w.server.advance cfg e event).Holds P
  unfold Room.advance
  cases hn : w.server.next cfg e event with
  | none => exact h.server
  | some r' => exact Room.holds_step hP hn h.server hev

theorem holds_reloadRoom (hP : MergeClosed P) {r : Room} (h : r.Holds P) : (reloadRoom r).Holds P :=
  ⟨h.stored hP, h.store, fun _ hu => absurd hu not_mem_nil, trivial⟩

end ReceiptNetwork

open ReceiptNetwork

/-- What reaches the document of the room is a message, and no event of its own. -/
theorem networkNext_serverEvent (cfg : PersistenceCoordinatorOptions) (e : Encoding)
    (bytes : VectorBytes V) (encode : V → S) (readCandidate : S → Option V)
    (w : ReceiptNetwork V S) (event : RoomEvent) :
    networkNext cfg e bytes encode readCandidate w (.serverEvent event) = w ∨
      networkNext cfg e bytes encode readCandidate w (.serverEvent event) =
          w.serverEvent cfg e event ∧ ∀ u, event ≠ .update u := by
  cases event with
  | update u => exact .inl rfl
  | enqueueSave | runNext | commit | resolve | reject err | resume =>
    refine .inr ⟨rfl, fun u hu => ?_⟩
    cases hu

/-- Only a transaction brings something new into the network. -/
theorem holds_next (hP : MergeClosed P) (h : w.Holds P)
    (hl : ∀ update origin now, event ≠ .localUpdate update origin now)
    (hclient : ∀ j update, event ≠ .clientUpdate j update) :
    (networkNext cfg e bytes encode readCandidate w event).Holds P := by
  have hmes : ∀ {k : ℕ} {update : Update}, w.messages[k]? = some update → P update := by
    intro k update hk
    exact h.messages update (mem_of_getElem? hk)
  cases event with
  | localUpdate update origin now => exact absurd rfl (hl update origin now)
  | clientUpdate j update => exact absurd rfl (hclient j update)
  | receive k now =>
    rw [networkNext]
    split
    · next hk => exact h.docUpdate hP (hmes hk)
    · exact h
  | sync sv => exact h.send (hP.diff sv h.doc)
  | persistUpdate k =>
    rw [networkNext]
    split
    · next hk => exact ⟨h.doc, hP.sup h.persistence (hmes hk), h.clients, h.messages, h.server,
        h.echoes⟩
    · exact h
  | persistState =>
    exact ⟨h.doc, hP.sup h.persistence h.doc, h.clients, h.messages, h.server, h.echoes⟩
  | loadPersistence now => exact h.docUpdate hP h.persistence
  | initializeServerAckTracking loaded =>
    rw [networkNext, initializeServerAckTracking]
    split
    · exact h
    dsimp only
    split <;> exact ⟨h.doc, h.persistence, h.clients, h.messages, h.server, h.echoes⟩
  | startupLoaded stored now =>
    rw [networkNext, startupLoaded]
    split
    · exact ⟨h.doc, h.persistence, h.clients, h.messages, h.server, h.echoes⟩
    · exact h
  | persistSettled succeeded | clear clearStore =>
    exact ⟨h.doc, h.persistence, h.clients, h.messages, h.server, h.echoes⟩
  | restart => exact ⟨hP.bot, h.persistence, h.clients, h.messages, h.server, h.echoes⟩
  | receiveEcho k now =>
    rw [networkNext]
    split
    · exact ⟨h.doc, h.persistence, h.clients, h.messages, h.server, h.echoes⟩
    · exact h
  | serverReceive k =>
    rw [networkNext]
    split
    · next update hk =>
      apply h.serverEvent hP
      intro u hu
      rw [← RoomEvent.update.inj hu]
      exact hmes hk
    · exact h
  | serverSync sv => exact h.send (hP.diff sv h.server.document)
  | serverEvent event =>
    rcases networkNext_serverEvent cfg e bytes encode readCandidate w event with
      hn | ⟨hn, hup⟩
    · rwa [hn]
    rw [hn]
    exact h.serverEvent hP fun u hu => absurd hu (hup u)
  | serverRestart =>
    exact ⟨h.doc, h.persistence, h.clients, h.messages, holds_reloadRoom hP h.server, h.echoes⟩
  | echo =>
    rw [networkNext, echo]
    split
    · refine ⟨h.doc, h.persistence, h.clients, h.messages, h.server, ?_⟩
      intro echo hecho
      rcases mem_append.mp hecho with hecho | hecho
      · exact h.echoes echo hecho
      rw [mem_singleton.mp hecho]
      exact h.server.stored hP
    · exact h
  | clientReceive j k =>
    rw [networkNext]
    split
    · next hk => exact h.clientApply hP j (hmes hk)
    · exact h
  | clientSync j sv => exact h.send (hP.diff sv (h.clients j))

section Tracker

open ServerAckTracker

variable {t : ServerAckTracker V S} {ge : V → V → Bool} {origin : Option ℕ} {sv currentSv : V}
  {now : ℕ} {stored : Option (PersistedCandidateState S)} {found : V × PersistedCandidateState S}

@[simp] theorem lastUnconfirmedCandidateSv_persistAsync :
    (t.persistAsync encode).lastUnconfirmedCandidateSv = t.lastUnconfirmedCandidateSv := by
  unfold persistAsync
  split <;> rfl

@[simp] theorem serverAppliedLocalState_persistAsync :
    (t.persistAsync encode).serverAppliedLocalState = t.serverAppliedLocalState := by
  unfold persistAsync
  split <;> rfl

@[simp] theorem attached_persistAsync : (t.persistAsync encode).attached = t.attached := by
  unfold persistAsync
  split <;> rfl

theorem onUpdate_untracked (h : t.tracks origin = false) : t.onUpdate encode origin sv now = t := by
  rw [onUpdate, h, if_neg Bool.false_ne_true]

theorem onUpdate_tracked (encode : V → S) (sv : V) (now : ℕ) (h : t.tracks origin = true) :
    (t.onUpdate encode origin sv now).lastUnconfirmedCandidateSv = some sv ∧
      (t.onUpdate encode origin sv now).serverAppliedLocalState = some false ∧
      (t.onUpdate encode origin sv now).attached = t.attached := by
  rw [onUpdate, if_pos h]
  simp

theorem recordServerSvEcho_spec (t : ServerAckTracker V S) (ge : V → V → Bool)
    (encode : V → S) (sv : V) (now : ℕ) :
    (t.recordServerSvEcho ge encode sv now).lastUnconfirmedCandidateSv =
        t.lastUnconfirmedCandidateSv ∧
      (t.recordServerSvEcho ge encode sv now).attached = t.attached ∧
      (t.recordServerSvEcho ge encode sv now).serverAppliedLocalState =
        (t.lastUnconfirmedCandidateSv.map (ge sv)).or t.serverAppliedLocalState := by
  unfold recordServerSvEcho
  cases t.lastUnconfirmedCandidateSv <;> simp

/-- A validated candidate is as good as the vector of the document, and no validation claims a
receipt. -/
theorem validate_spec (hatt : t.attached ≠ none)
    (hcand : t.lastUnconfirmedCandidateSv ≠ none) :
    (t.validateCandidateAgainstDoc ge encode currentSv now).attached = t.attached ∧
      (∀ c, (t.validateCandidateAgainstDoc ge encode currentSv
          now).lastUnconfirmedCandidateSv = some c → c = currentSv ∨ svEqual ge currentSv c = true) ∧
      ((t.validateCandidateAgainstDoc ge encode currentSv
          now).serverAppliedLocalState = some true → t.serverAppliedLocalState = some true ∧
        (t.validateCandidateAgainstDoc ge encode
          currentSv now).lastUnconfirmedCandidateSv ≠ none) := by
  obtain ⟨pair, hpair⟩ := ne_none_iff_exists'.mp hatt
  obtain ⟨candidate, hc⟩ := ne_none_iff_exists'.mp hcand
  unfold validateCandidateAgainstDoc
  rw [hpair, hc]
  dsimp only
  split
  · next hequal =>
    refine ⟨hpair, ?_, fun hap => ⟨hap, hcand⟩⟩
    intro c hs
    rw [hc] at hs
    exact .inr (some.inj hs ▸ hequal)
  split
  · simp only [attached_persistAsync, lastUnconfirmedCandidateSv_persistAsync,
      serverAppliedLocalState_persistAsync]
    refine ⟨trivial, fun c hs => .inl (some.inj hs).symm, ?_⟩
    exact nofun
  · simp

theorem clearLocalReceiptState_spec (t : ServerAckTracker V S) (clearStore : Bool) :
    (t.clearLocalReceiptState clearStore).lastUnconfirmedCandidateSv = none ∧
      (t.clearLocalReceiptState clearStore).serverAppliedLocalState = none ∧
      (t.clearLocalReceiptState clearStore).attached = t.attached := by
  unfold clearLocalReceiptState
  dsimp only
  split <;> exact ⟨rfl, rfl, rfl⟩

theorem persistSettled_spec (t : ServerAckTracker V S) (succeeded : Bool) :
    (t.persistSettled succeeded).lastUnconfirmedCandidateSv = t.lastUnconfirmedCandidateSv ∧
      (t.persistSettled succeeded).serverAppliedLocalState = t.serverAppliedLocalState ∧
      (t.persistSettled succeeded).attached = t.attached := by
  unfold persistSettled
  split <;> exact ⟨rfl, rfl, rfl⟩

theorem startupLoaded_none (h : storedCandidate readCandidate stored = none) :
    t.startupLoaded ge encode readCandidate stored currentSv now = t := by
  rw [ServerAckTracker.startupLoaded, h]

theorem startupLoaded_some (ge : V → V → Bool) (encode : V → S) (currentSv : V) (now : ℕ)
    (hatt : t.attached ≠ none) (h : storedCandidate readCandidate stored = some found) :
    (t.startupLoaded ge encode readCandidate stored currentSv now).attached =
        t.attached ∧
      (∀ c, (t.startupLoaded ge encode readCandidate stored currentSv
          now).lastUnconfirmedCandidateSv = some c → c = currentSv ∨ svEqual ge currentSv c = true) ∧
      ((t.startupLoaded ge encode readCandidate stored currentSv
          now).serverAppliedLocalState = some true → t.serverAppliedLocalState = some true ∧
        (t.startupLoaded ge encode readCandidate stored currentSv
          now).lastUnconfirmedCandidateSv ≠ none) := by
  obtain ⟨sv, state⟩ := found
  rw [ServerAckTracker.startupLoaded, h]
  have hres : (t.restore sv state).attached = t.attached ∧
      (t.restore sv state).lastUnconfirmedCandidateSv ≠ none ∧
      ((t.restore sv state).serverAppliedLocalState = some true →
        t.serverAppliedLocalState = some true) := by
    unfold restore
    cases t.lastUnconfirmedCandidateSv <;> simp
  obtain ⟨hk, hs, himp⟩ := hres
  rw [← hk] at hatt ⊢
  obtain ⟨hatt', hcand, hap⟩ := validate_spec hatt hs
  exact ⟨hatt', hcand, fun htrue => (hap htrue).imp_left himp⟩

end Tracker

/-- The candidate is the vector of the captured document, and an echo's vector is one of what the
server had persisted. -/
structure Tracking (bytes : VectorBytes V) (w : ReceiptNetwork V S) : Prop where
  attached : w.tracker.attached = none ∨
    w.tracker.attached = some (providerOrigin, persistenceOrigin)
  starting : w.starting = true → w.tracker.attached ≠ none
  candidate : ∀ c, w.tracker.lastUnconfirmedCandidateSv = some c →
    bytes.decode c = some (encodeStateVector w.captured)
  applied : w.tracker.serverAppliedLocalState = some true →
    w.tracker.lastUnconfirmedCandidateSv ≠ none
  server : w.server.Sound
  echoes : ∀ echo ∈ w.echoes, ∃ sv, bytes.decode echo.sv = some sv ∧
    sv ≤ encodeStateVector echo.persisted

theorem Tracking.untracked (h : Tracking bytes w) : w.tracker.tracks providerOrigin = false ∧
    w.tracker.tracks persistenceOrigin = false := by
  rcases h.attached with hatt | hatt
  · simp [ServerAckTracker.tracks, hatt]
  simp [ServerAckTracker.tracks, hatt, isAckTrackedLocalOrigin, providerOrigin, persistenceOrigin]

variable {origin : Option ℕ} {now : ℕ}

theorem docUpdate_untracked (h : w.tracker.tracks origin = false) :
    w.docUpdate bytes encode u origin now = { w with doc := applyUpdate w.doc u } := by
  rw [docUpdate, h, onUpdate_untracked h]
  rfl

/-- A vector that dominates and is dominated is the vector. -/
theorem decode_of_svEqual {sv : StateVector} {c : V}
    (h : ServerAckTracker.svEqual (isStateVectorGe bytes.decode) (bytes.encode sv) c = true) :
    bytes.decode c = some sv := by
  unfold ServerAckTracker.svEqual isStateVectorGe at h
  rw [bytes.decode_encode] at h
  cases hc : bytes.decode c with
  | none => simp [hc] at h
  | some sv' =>
    simp only [hc, Bool.and_eq_true, decide_eq_true_eq] at h
    rw [le_antisymm h.2 h.1]

theorem Tracking.docUpdate (encode : V → S) (h : Tracking bytes w) (u : Update) (origin : Option ℕ)
    (now : ℕ) : Tracking bytes (w.docUpdate bytes encode u origin now) := by
  cases htracks : w.tracker.tracks origin with
  | false =>
    rw [docUpdate_untracked htracks]
    exact ⟨h.attached, h.starting, h.candidate, h.applied, h.server, h.echoes⟩
  | true =>
    obtain ⟨hcand, hap, hatt⟩ := onUpdate_tracked encode
      (bytes.encode (encodeStateVector (applyUpdate w.doc u))) now htracks
    refine ⟨?_, ?_, ?_, ?_, h.server, h.echoes⟩
    · rw [ReceiptNetwork.docUpdate, hatt]
      exact h.attached
    · rw [ReceiptNetwork.docUpdate, hatt]
      exact h.starting
    · intro c hc
      rw [ReceiptNetwork.docUpdate, hcand, Option.some.injEq] at hc
      rw [ReceiptNetwork.docUpdate, ← hc, bytes.decode_encode, if_pos htracks]
    intro htrue
    rw [ReceiptNetwork.docUpdate, hap] at htrue
    cases htrue

section

variable (h : Tracking bytes w)
include h

theorem Tracking.startupLoaded (stored : Option (PersistedCandidateState S)) (now : ℕ) :
    Tracking bytes (w.startupLoaded bytes encode readCandidate stored now) := by
  unfold ReceiptNetwork.startupLoaded
  split
  · next hstar =>
    cases hfd : ServerAckTracker.storedCandidate readCandidate stored with
    | none =>
      rw [startupLoaded_none hfd]
      exact ⟨h.attached, fun hf => absurd hf Bool.false_ne_true, h.candidate, h.applied,
        h.server, h.echoes⟩
    | some found =>
      obtain ⟨hatt, hcand, hap⟩ := startupLoaded_some
        (isStateVectorGe bytes.decode) encode (bytes.encode (encodeStateVector w.doc)) now
        (h.starting hstar) hfd
      refine ⟨?_, fun hf => absurd hf Bool.false_ne_true, ?_, ?_, h.server, h.echoes⟩
      · dsimp only
        rw [hatt]
        exact h.attached
      · intro c hc
        rcases hcand c hc with rfl | hequal
        · exact bytes.decode_encode _
        · exact decode_of_svEqual hequal
      intro htrue
      exact (hap htrue).2
  · exact h

theorem Tracking.initializeServerAckTracking (loaded : Bool) :
    Tracking bytes (w.initializeServerAckTracking loaded) := by
  unfold ReceiptNetwork.initializeServerAckTracking
  split
  · exact h
  dsimp only
  split
  all_goals exact ⟨.inr rfl, fun _ => some_ne_none _, h.candidate, h.applied, h.server, h.echoes⟩

theorem Tracking.receiveEcho (echo : SvEcho V) (now : ℕ) :
    Tracking bytes (w.receiveEcho bytes encode echo now) := by
  obtain ⟨hcand, hatt, hap⟩ := recordServerSvEcho_spec w.tracker
    (isStateVectorGe bytes.decode) encode echo.sv now
  refine ⟨?_, ?_, ?_, ?_, h.server, h.echoes⟩
  · rw [ReceiptNetwork.receiveEcho, hatt]
    exact h.attached
  · rw [ReceiptNetwork.receiveEcho, hatt]
    exact h.starting
  · rw [ReceiptNetwork.receiveEcho, hcand]
    exact h.candidate
  rw [ReceiptNetwork.receiveEcho, hcand, hap]
  cases hc : w.tracker.lastUnconfirmedCandidateSv with
  | none =>
    intro htrue
    exact absurd hc (h.applied htrue)
  | some c => exact fun _ => some_ne_none c

theorem Tracking.echo : Tracking bytes (w.echo bytes) := by
  unfold ReceiptNetwork.echo
  split
  · next sv hsv =>
    refine ⟨h.attached, h.starting, h.candidate, h.applied, h.server, ?_⟩
    intro echo hecho
    rcases mem_append.mp hecho with hecho | hecho
    · exact h.echoes echo hecho
    rw [mem_singleton.mp hecho]
    exact ⟨sv, bytes.decode_encode sv, h.server.persisted_le sv hsv⟩
  · exact h

theorem Tracking.serverEvent (event : RoomEvent) : Tracking bytes (w.serverEvent cfg e event) := by
  refine ⟨h.attached, h.starting, h.candidate, h.applied, ?_, h.echoes⟩
  change (w.server.advance cfg e event).Sound
  unfold Room.advance
  cases hn : w.server.next cfg e event with
  | none => exact h.server
  | some r' => exact Room.sound_step hn h.server

end

theorem loaded_reloadRoom (r : Room) : (reloadRoom r).Loaded := ⟨rfl, rfl, rfl, rfl⟩

theorem tracking_next (h : Tracking bytes w) :
    Tracking bytes (networkNext cfg e bytes encode readCandidate w event) := by
  cases event with
  | localUpdate update origin now =>
    rw [networkNext, localUpdate]
    split
    · have hused : Tracking bytes { w with used := w.used ∪ update.items } :=
        ⟨h.attached, h.starting, h.candidate, h.applied, h.server, h.echoes⟩
      have hdoc := hused.docUpdate encode update origin now
      exact ⟨hdoc.attached, hdoc.starting, hdoc.candidate, hdoc.applied, hdoc.server, hdoc.echoes⟩
    · exact h
  | receive k now =>
    rw [networkNext]
    split
    · exact h.docUpdate _ _ _ _
    · exact h
  | loadPersistence now => exact h.docUpdate _ _ _ _
  | initializeServerAckTracking loaded => exact h.initializeServerAckTracking loaded
  | startupLoaded stored now => exact h.startupLoaded stored now
  | receiveEcho k now =>
    rw [networkNext]
    split
    · exact h.receiveEcho _ _
    · exact h
  | persistUpdate k | clientReceive j k =>
    rw [networkNext]
    split
    · exact ⟨h.attached, h.starting, h.candidate, h.applied, h.server, h.echoes⟩
    · exact h
  | persistSettled succeeded =>
    obtain ⟨hcand, hap, hatt⟩ := persistSettled_spec w.tracker succeeded
    refine ⟨?_, ?_, ?_, ?_, h.server, h.echoes⟩
    · rw [networkNext, hatt]
      exact h.attached
    · rw [networkNext, hatt]
      exact h.starting
    · rw [networkNext, hcand]
      exact h.candidate
    rw [networkNext, hcand, hap]
    exact h.applied
  | clear clearStore =>
    obtain ⟨hcand, hap, hatt⟩ := clearLocalReceiptState_spec w.tracker clearStore
    refine ⟨?_, ?_, ?_, ?_, h.server, h.echoes⟩
    · rw [networkNext, hatt]
      exact h.attached
    · rw [networkNext, hatt]
      exact h.starting
    · intro c hc
      cases hcand.symm.trans hc
    intro htrue
    cases hap.symm.trans htrue
  | restart =>
    refine ⟨.inl rfl, ?_, ?_, ?_, h.server, h.echoes⟩ <;> nofun
  | serverReceive k =>
    rw [networkNext]
    split
    · exact h.serverEvent _
    · exact h
  | serverEvent event =>
    rcases networkNext_serverEvent cfg e bytes encode readCandidate w event with
      hn | ⟨hn, -⟩
    · rwa [hn]
    rw [hn]
    exact h.serverEvent event
  | serverRestart =>
    exact ⟨h.attached, h.starting, h.candidate, h.applied, (loaded_reloadRoom _).sound, h.echoes⟩
  | echo => exact h.echo
  | clientUpdate j update =>
    rw [networkNext, clientUpdate]
    split
    · exact ⟨h.attached, h.starting, h.candidate, h.applied, h.server, h.echoes⟩
    · exact h
  | sync sv | persistState | serverSync sv | clientSync j sv =>
    exact ⟨h.attached, h.starting, h.candidate, h.applied, h.server, h.echoes⟩

/-- Only a transaction makes an update, and gives ids. -/
theorem made_next (h : Tracking bytes w)
    (hl : ∀ update origin now, event ≠ .localUpdate update origin now)
    (hclient : ∀ j update, event ≠ .clientUpdate j update) :
    (networkNext cfg e bytes encode readCandidate w event).made = w.made ∧
      (networkNext cfg e bytes encode readCandidate w event).used = w.used := by
  cases event with
  | localUpdate update origin now => exact absurd rfl (hl update origin now)
  | clientUpdate j update => exact absurd rfl (hclient j update)
  | receive k now =>
    rw [networkNext]
    split
    · rw [docUpdate_untracked h.untracked.1]
      exact ⟨rfl, rfl⟩
    · exact ⟨rfl, rfl⟩
  | loadPersistence now =>
    rw [networkNext, docUpdate_untracked h.untracked.2]
    exact ⟨rfl, rfl⟩
  | initializeServerAckTracking loaded =>
    rw [networkNext, initializeServerAckTracking]
    split
    · exact ⟨rfl, rfl⟩
    dsimp only
    split <;> exact ⟨rfl, rfl⟩
  | startupLoaded stored now =>
    rw [networkNext, startupLoaded]
    split <;> exact ⟨rfl, rfl⟩
  | persistUpdate k | receiveEcho k now | serverReceive k | clientReceive j k =>
    rw [networkNext]
    split <;> exact ⟨rfl, rfl⟩
  | echo =>
    rw [networkNext, echo]
    split <;> exact ⟨rfl, rfl⟩
  | serverEvent event =>
    rcases networkNext_serverEvent cfg e bytes encode readCandidate w event with
      hn | ⟨hn, -⟩ <;>
    · rw [hn]
      exact ⟨rfl, rfl⟩
  | sync sv | persistState | persistSettled succeeded | clear clearStore | restart | serverSync sv
  | serverRestart | clientSync j sv => exact ⟨rfl, rfl⟩

/-- Every tracked update is in use, and travels whole. -/
structure Whole (w : ReceiptNetwork V S) : Prop where
  made : ∀ v ∈ w.made, v.items ⊆ w.used
  holds : w.Holds (Known w.made w.used)

theorem whole_localUpdate (h : Whole w) : Whole (w.localUpdate bytes encode u origin now) := by
  unfold localUpdate
  split
  · next hg =>
    have hfr := known_fresh h.made hg.1
    have hmade : ∀ v ∈ w.made, v.items ⊆ w.used ∪ u.items := by
      intro v hv
      exact (h.made v hv).trans Finset.subset_union_left
    cases htracks : w.tracker.tracks origin with
    | true =>
      have hmade' : (docUpdate bytes encode
          { w with used := w.used ∪ u.items } u origin now).made = w.made ++ [u] := if_pos htracks
      constructor
      · intro v hv
        rcases mem_append.mp (hmade' ▸ hv) with hv | hv
        · exact hmade v hv
        rw [mem_singleton.mp hv]
        exact Finset.subset_union_right
      have hgrown := (h.holds.imp fun x hx => hx.grow hg.1).use u.items
      have hsent : Holds (Known (w.made ++ [u]) (w.used ∪ u.items))
          ((docUpdate bytes encode { w with used := w.used ∪ u.items } u origin now).send u) :=
        (hgrown.docUpdate mergeClosed_known hfr.1).send hfr.1
      rwa [← hmade'] at hsent
    | false =>
      have hgrown := (h.holds.imp fun x hx =>
        hx.mono (Finset.subset_union_left : w.used ⊆ w.used ∪ u.items)).use u.items
      rw [docUpdate_untracked (w := { w with used := w.used ∪ u.items }) htracks]
      refine ⟨hmade, ?_⟩
      exact Holds.send ⟨mergeClosed_known.sup hgrown.doc hfr.2, hgrown.persistence,
        hgrown.clients, hgrown.messages, hgrown.server, hgrown.echoes⟩ hfr.2
  · exact h

theorem whole_clientUpdate (h : Whole w) (j : ℕ) : Whole (w.clientUpdate j u) := by
  unfold clientUpdate
  split
  · next hg =>
    have hfr := (known_fresh h.made hg).2
    have hgrown := (h.holds.imp fun x hx =>
      hx.mono (Finset.subset_union_left : w.used ⊆ w.used ∪ u.items)).use u.items
    refine ⟨fun v hv => (h.made v hv).trans Finset.subset_union_left, ?_⟩
    exact (hgrown.clientApply mergeClosed_known j hfr).send hfr
  · exact h

theorem whole_next (ht : Tracking bytes w) (h : Whole w) :
    Whole (networkNext cfg e bytes encode readCandidate w event) := by
  by_cases hl : ∃ update origin now, event = .localUpdate update origin now
  · obtain ⟨update, origin, now, rfl⟩ := hl
    exact whole_localUpdate h
  by_cases hclient : ∃ j update, event = .clientUpdate j update
  · obtain ⟨j, update, rfl⟩ := hclient
    exact whole_clientUpdate h j
  have hl' : ∀ update origin now, event ≠ .localUpdate update origin now := by
    rintro update origin now rfl
    exact hl ⟨update, origin, now, rfl⟩
  have hclient' : ∀ j update, event ≠ .clientUpdate j update := by
    rintro j update rfl
    exact hclient ⟨j, update, rfl⟩
  have hholds : (networkNext cfg e bytes encode readCandidate w event).Holds
      (Known w.made w.used) := holds_next mergeClosed_known h.holds hl' hclient'
  have hs : (networkNext cfg e bytes encode readCandidate w event).made = w.made ∧
      (networkNext cfg e bytes encode readCandidate w event).used = w.used :=
    made_next ht hl' hclient'
  refine ⟨?_, ?_⟩ <;> rw [hs.1, hs.2]
  · exact h.made
  · exact hholds

/-- Nothing but an echo claims a receipt anew. -/
theorem applied_next (h : Tracking bytes w) (hecho : ∀ k now, event ≠ .receiveEcho k now)
    (hap : (networkNext cfg e bytes encode readCandidate w
      event).tracker.serverAppliedLocalState = some true) :
    w.tracker.serverAppliedLocalState = some true ∧
      (networkNext cfg e bytes encode readCandidate w event).made = w.made ∧
      (networkNext cfg e bytes encode readCandidate w event).confirming = w.confirming := by
  cases event with
  | receiveEcho k now => exact absurd rfl (hecho k now)
  | localUpdate u origin now =>
    rw [networkNext, localUpdate] at hap ⊢
    split at hap
    · next hg =>
      rw [if_pos hg]
      cases htracks : w.tracker.tracks origin with
      | true =>
        have hfa := (onUpdate_tracked encode
          (bytes.encode (encodeStateVector (applyUpdate w.doc u))) now htracks).2.1
        cases hfa.symm.trans hap
      | false =>
        rw [docUpdate_untracked (w := { w with used := w.used ∪ u.items }) htracks] at hap ⊢
        exact ⟨hap, rfl, rfl⟩
    · next hg =>
      rw [if_neg hg]
      exact ⟨hap, rfl, rfl⟩
  | clientUpdate j u =>
    rw [networkNext, clientUpdate] at hap ⊢
    split at hap
    · next hg =>
      rw [if_pos hg]
      exact ⟨hap, rfl, rfl⟩
    · next hg =>
      rw [if_neg hg]
      exact ⟨hap, rfl, rfl⟩
  | receive k now =>
    rw [networkNext] at hap ⊢
    cases hk : w.messages[k]? with rw [hk] at hap
    | none => exact ⟨hap, rfl, rfl⟩
    | some update =>
      dsimp only at hap ⊢
      rw [docUpdate_untracked h.untracked.1] at hap ⊢
      exact ⟨hap, rfl, rfl⟩
  | loadPersistence now =>
    rw [networkNext, docUpdate_untracked h.untracked.2] at hap ⊢
    exact ⟨hap, rfl, rfl⟩
  | startupLoaded stored now =>
    rw [networkNext, startupLoaded] at hap ⊢
    split at hap
    · next hstar =>
      rw [if_pos hstar]
      refine ⟨?_, rfl, rfl⟩
      cases hf : ServerAckTracker.storedCandidate readCandidate stored with
      | none => rwa [startupLoaded_none hf] at hap
      | some found =>
        exact ((startupLoaded_some (isStateVectorGe bytes.decode) encode
          (bytes.encode (encodeStateVector w.doc)) now (h.starting hstar) hf).2.2
          hap).1
    · next hstar =>
      rw [if_neg hstar]
      exact ⟨hap, rfl, rfl⟩
  | initializeServerAckTracking loaded =>
    rw [networkNext, initializeServerAckTracking] at hap ⊢
    split at hap
    · next hatt =>
      rw [if_pos hatt]
      exact ⟨hap, rfl, rfl⟩
    · next hatt =>
      rw [if_neg hatt]
      split at hap
      · next hl =>
        rw [if_pos hl]
        exact ⟨hap, rfl, rfl⟩
      · next hl =>
        rw [if_neg hl]
        exact ⟨hap, rfl, rfl⟩
  | persistSettled succeeded =>
    rw [networkNext, (persistSettled_spec w.tracker succeeded).2.1] at hap
    exact ⟨hap, rfl, rfl⟩
  | clear clearStore =>
    rw [networkNext, (clearLocalReceiptState_spec w.tracker clearStore).2.1] at hap
    cases hap
  | restart => cases hap
  | persistUpdate k | serverReceive k | clientReceive j k =>
    rw [networkNext] at hap ⊢
    cases hk : w.messages[k]? with rw [hk] at hap
    | none | some update => exact ⟨hap, rfl, rfl⟩
  | echo =>
    rw [networkNext, echo] at hap ⊢
    cases hsv : w.server.coordinator.lastPersistedStateVector with rw [hsv] at hap
    | none | some sv => exact ⟨hap, rfl, rfl⟩
  | serverEvent event =>
    rcases networkNext_serverEvent cfg e bytes encode readCandidate w event with
      hn | ⟨hn, -⟩ <;>
    · rw [hn] at hap ⊢
      exact ⟨hap, rfl, rfl⟩
  | sync sv | persistState | serverSync sv | serverRestart | clientSync j sv =>
    exact ⟨hap, rfl, rfl⟩

/-- Past a clock of the vector the item of that clock is there. -/
theorem mem_of_lt_encodeStateVector {doc : Doc} {item : ItemId}
    (h : item.clock < encodeStateVector doc item.client) : item ∈ doc.items :=
  (lt_nextClock.mp h).2 item.clock le_rfl

/-- An echo that confirms what the vector cannot hide confirms all of it. -/
theorem truthful_receiveEcho (ht : Tracking bytes w) (hw : Whole w) {echo : SvEcho V}
    (hecho : echo ∈ w.echoes) (now : ℕ)
    (hhid : w.confirms bytes echo.sv = true →
      ∀ u ∈ w.made, shows w.captured u = false → u ≤ echo.persisted) :
    Truthful (w.receiveEcho bytes encode echo now) := by
  intro hap
  obtain ⟨-, -, ha⟩ := recordServerSvEcho_spec w.tracker (isStateVectorGe bytes.decode)
    encode echo.sv now
  rw [receiveEcho, ha] at hap
  cases hcand : w.tracker.lastUnconfirmedCandidateSv with
  | none =>
    rw [hcand] at hap
    exact absurd hcand (ht.applied hap)
  | some candidate =>
    rw [hcand, map_some, some_or, Option.some.injEq] at hap
    have hcon : w.confirms bytes echo.sv = true := by
      rw [confirms, hcand]
      exact hap
    refine ⟨echo.persisted, if_pos hcon, ?_⟩
    intro u hu
    cases hshows : shows w.captured u with
    | false => exact hhid hcon u hu hshows
    | true =>
      rw [shows, decide_eq_true_eq] at hshows
      obtain ⟨sv, hd, hper⟩ := ht.echoes echo hecho
      have hle : encodeStateVector w.captured ≤ sv := by
        unfold isStateVectorGe at hap
        rw [hd, ht.candidate candidate hcand] at hap
        exact of_decide_eq_true hap
      have hitems : u.items ⊆ echo.persisted.items := by
        intro item hi
        apply mem_of_lt_encodeStateVector
        exact (hshows.2 item hi).trans_le ((hle.trans hper) item.client)
      refine ⟨hitems, (hw.holds.echoes echo hecho).deletes u hu ?_⟩
      -- the update came whole, so where its items are its deletions are too
      intro hdis
      obtain ⟨item, hi⟩ := hshows.1
      exact Finset.disjoint_left.mp hdis hi (hitems hi)

theorem le_mergeUpdates {us : List Update} (h : u ∈ us) : u ≤ mergeUpdates us := by
  induction us with
  | nil => cases h
  | cons v us ih =>
    rcases mem_cons.mp h with rfl | h
    · exact le_sup_left
    · exact (ih h).trans le_sup_right

section Run

variable {r : Room} {events : List (NetworkEvent S)}

theorem tracking_at (hr : r.Loaded) (n : ℕ) :
    Tracking bytes (networkAt cfg e bytes encode readCandidate r events n) := by
  apply stateAt_invariant
  · refine ⟨.inl rfl, ?_, ?_, ?_, hr.sound, ?_⟩ <;> nofun
  intro w event h
  exact tracking_next h

theorem whole_at (hr : r.Loaded) (n : ℕ) :
    Whole (networkAt cfg e bytes encode readCandidate r events n) := by
  induction n with
  | zero =>
    have hs : ∀ u ∈ r.store.updates, Known [] r.stored.items u := by
      intro u hu
      refine ⟨(le_mergeUpdates hu).1, ?_⟩
      exact nofun
    refine ⟨?_, mergeClosed_known.bot, mergeClosed_known.bot, fun _ => mergeClosed_known.bot, ?_,
      hr.holds mergeClosed_known hs, ?_⟩
    · nofun
    · nofun
    · nofun
  | succ n ih =>
    rcases stateAt_step (networkNext cfg e bytes encode readCandidate) (joinRoom r)
      events n with ⟨-, hsa⟩ | ⟨event, -, hn⟩
    · rw [networkAt, hsa]
      exact ih
    rw [networkAt, hn]
    exact whole_next (tracking_at hr n) ih

theorem truthful_at (hr : r.Loaded) (hhid : ∀ n k now, events[n]? = some (.receiveEcho k now) →
      ConfirmsHidden bytes (networkAt cfg e bytes encode readCandidate r events n) k)
    (n : ℕ) : Truthful (networkAt cfg e bytes encode readCandidate r events n) := by
  induction n with
  | zero =>
    exact nofun
  | succ n ih =>
    have ht : Tracking bytes (networkAt cfg e bytes encode readCandidate r events n) :=
      tracking_at hr n
    rcases stateAt_step (networkNext cfg e bytes encode readCandidate) (joinRoom r)
      events n with ⟨-, hs⟩ | ⟨event, hev, hn⟩
    · rw [networkAt, hs]
      exact ih
    rw [networkAt, hn]
    by_cases hecho : ∃ k now, event = .receiveEcho k now
    · obtain ⟨k, now, rfl⟩ := hecho
      have hconfirms := hhid n k now hev
      change Truthful (networkNext cfg e bytes encode readCandidate
        (networkAt cfg e bytes encode readCandidate r events n) (.receiveEcho k now))
      rw [networkNext]
      split
      · next echo hk =>
        exact truthful_receiveEcho ht (whole_at hr n) (mem_of_getElem? hk) now (hconfirms echo hk)
      · exact ih
    intro hap
    obtain ⟨hb, hmade, hcon⟩ := applied_next ht
      (fun k now heq => hecho ⟨k, now, heq⟩) hap
    obtain ⟨persisted, hper, hall⟩ := ih hb
    refine ⟨persisted, hcon.trans hper, ?_⟩
    intro u hu
    exact hall u (hmade ▸ hu)

end Run

/-- Receipts are truthful in exactly the runs in which every echo that confirms comes from a
persisted state with the tracked updates that the candidate's vector does not show: those that only
delete, and those that the document had lost or not yet loaded when the candidate was taken. -/
theorem receipt_truthful_iff (cfg : PersistenceCoordinatorOptions) (e : Encoding)
    (bytes : VectorBytes V) (encodeBytesBase64 : V → S) (readCandidate : S → Option V) {r : Room}
    (hr : r.Loaded) (events : List (NetworkEvent S)) :
    (∀ n, Truthful (networkAt cfg e bytes encodeBytesBase64 readCandidate r events n)) ↔
      ∀ n k now, events[n]? = some (.receiveEcho k now) →
        ConfirmsHidden bytes (networkAt cfg e bytes encodeBytesBase64 readCandidate r events n) k := by
  constructor
  · intro htrut n k now hev echo hk hcon u hu _
    have ha := htrut (n + 1)
    have hn : networkAt cfg e bytes encodeBytesBase64 readCandidate r events (n + 1) =
        (networkAt cfg e bytes encodeBytesBase64 readCandidate r events n).receiveEcho bytes
          encodeBytesBase64 echo now := by
      rw [networkAt, stateAt_succ hev]
      change networkNext cfg e bytes encodeBytesBase64 readCandidate
        (networkAt cfg e bytes encodeBytesBase64 readCandidate r events n) (.receiveEcho k now) = _
      rw [networkNext, mem_def.mp hk]
    rw [hn] at ha
    obtain ⟨-, -, hap⟩ := recordServerSvEcho_spec
      (networkAt cfg e bytes encodeBytesBase64 readCandidate r events n).tracker
      (isStateVectorGe bytes.decode) encodeBytesBase64 echo.sv now
    obtain ⟨candidate, hcan, hge⟩ := (any_eq_true _ _).mp hcon
    rw [hcan, map_some, some_or, hge] at hap
    obtain ⟨persisted, hper, hall⟩ := ha hap
    rw [receiveEcho, if_pos hcon, Option.some.injEq] at hper
    rw [hper]
    exact hall u hu
  · intro hhid n
    exact truthful_at hr hhid n

/-- Vectors that stand for their own bytes. -/
def plainBytes : VectorBytes StateVector := ⟨id, some, fun _ => rfl⟩

/-- An insertion and a deletion reach the server and are saved before the echo. -/
def savedDeletion : List (NetworkEvent Unit) :=
  [.initializeServerAckTracking true, .startupLoaded none 0, .localUpdate ⟨{⟨7, 0⟩}, ∅⟩ none 1,
    .localUpdate ⟨∅, {⟨7, 0⟩}⟩ none 2, .serverReceive 0, .serverReceive 1, .serverEvent .enqueueSave,
    .serverEvent .runNext, .serverEvent .commit, .serverEvent .resolve, .serverEvent .resume, .echo,
    .receiveEcho 0 3]

theorem receipt_truthful_savedDeletion : ¬ ∃ n, ¬ Truthful (networkAt {} Room.plainEncoding
    plainBytes (fun _ => ()) (fun _ => none) Room.oneItemRoom savedDeletion n) := by
  rw [not_exists_not]
  apply (receipt_truthful_iff {} Room.plainEncoding plainBytes (fun _ => ()) (fun _ => none)
    (r := Room.oneItemRoom) ⟨by decide, rfl, rfl, rfl⟩ savedDeletion).mpr
  intro n k now hev
  have hl : n = 12 ∧ k = 0 := by
    obtain ⟨hn, -⟩ := List.getElem?_eq_some_iff.mp hev
    have hn13 : n < 13 := hn
    interval_cases n <;> simp_all [savedDeletion]
  obtain ⟨rfl, rfl⟩ := hl
  decide

/-- The device deletes what it has inserted, and then gets the echo of the save before. -/
def lateEcho : List (NetworkEvent Unit) :=
  [.initializeServerAckTracking true, .startupLoaded none 0, .localUpdate ⟨{⟨7, 0⟩}, ∅⟩ none 1,
    .serverReceive 0, .serverEvent .enqueueSave, .serverEvent .runNext, .serverEvent .commit,
    .serverEvent .resolve, .serverEvent .resume, .echo, .localUpdate ⟨∅, {⟨7, 0⟩}⟩ none 2,
    .receiveEcho 0 3]

/-- The vectors agree, the deletion is not there. -/
theorem late_echo_confirms_deletion : ¬ ∀ n, Truthful (networkAt {} Room.plainEncoding plainBytes
    (fun _ => ()) (fun _ => none) Room.oneItemRoom lateEcho n) := by
  intro h
  obtain ⟨persisted, hcon, hall⟩ := h 12 (by decide)
  have hper : (networkAt {} Room.plainEncoding plainBytes (fun _ => ()) (fun _ => none)
      Room.oneItemRoom lateEcho 12).confirming = some ⟨{⟨1, 0⟩, ⟨7, 0⟩}, ∅⟩ := by
    decide
  rw [hper, Option.some.injEq] at hcon
  have hdel := hall ⟨∅, {⟨7, 0⟩}⟩ (by decide)
  rw [← hcon] at hdel
  revert hdel
  decide

end Kaos.Sync
