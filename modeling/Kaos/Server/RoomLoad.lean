import Kaos.Lib.Run

/-! `ensureDocumentLoaded`: callers share a load through a gate that each of them copies in and
back. -/
namespace Kaos.Server

open Kaos.Lib List

/-- The awaits of a load attempt in turn; `legacy` says whether legacy bytes were found. -/
inductive LoadStage
  | hasCheckpoint
  | readLegacy
  | loadCheckpoint (legacy : Bool)
  | loadJournal (legacy : Bool)
  | rewriteCheckpoint
  | deleteLegacy
  | traceDeleteFailed
  | attachObservers
  | syncRoomMeta
  | recordTrace
  deriving DecidableEq

/-- An awaited operation throws or gives what the code asks next: whether there is a checkpoint,
whether there are legacy bytes, whether only the legacy document has files. -/
inductive AwaitResult
  | throws
  | gives (answer : Bool)
  deriving DecidableEq

inductive LoadAttempt
  | running (stage : LoadStage)
  | fulfilled
  | rejected
  deriving DecidableEq

def LoadStage.onAnswer : LoadStage → Bool → LoadAttempt
  | .hasCheckpoint, hasChunked => .running (if hasChunked then .loadCheckpoint false else .readLegacy)
  | .readLegacy, legacy => .running (.loadCheckpoint legacy)
  | .loadCheckpoint legacy, _ => .running (.loadJournal legacy)
  | .loadJournal legacy, migrates =>
    .running (if legacy && migrates then .rewriteCheckpoint else .attachObservers)
  | .rewriteCheckpoint, _ => .running .deleteLegacy
  | .deleteLegacy, _ => .running .attachObservers
  | .traceDeleteFailed, _ => .running .attachObservers
  | .attachObservers, _ => .running .syncRoomMeta
  | .syncRoomMeta, _ => .running .recordTrace
  | .recordTrace, _ => .fulfilled

/-- Two failures are caught, any other rejects the attempt. -/
def LoadStage.onResult (stage : LoadStage) : AwaitResult → LoadAttempt
  | .gives answer => stage.onAnswer answer
  | .throws =>
    match stage with
    | .deleteLegacy => .running .traceDeleteFailed
    | .syncRoomMeta => .running .recordTrace
    | _ => .rejected

/-- Where a call stands: on the way of a loaded document, in `runSingleFlight` with a promise, or
back from it with what its gate holds. -/
inductive LoadCaller
  | attaching
  | inFlight (promise : ℕ) (owner : Bool) (gate : Option ℕ)
  | returning (owner : Bool) (gate : Option ℕ) (failed : Bool)
  | settled (failed : Bool)
  deriving DecidableEq

/-- A load promise is the number of its attempt. -/
structure RoomLoader where
  documentLoaded : Bool := false
  loadPromise : Option ℕ := none
  attempts : List LoadAttempt := []
  callers : List LoadCaller := []
  deriving DecidableEq

inductive LoadEvent
  | call
  | advance (promise : ℕ) (result : AwaitResult)
  | resume (i : ℕ)
  | settle (i : ℕ)
  | attached (i : ℕ) (failed : Bool)
  deriving DecidableEq

/-- `runSingleFlight` on the caller's own gate, up to its await. A new attempt finds the document
still not loaded and gets to its first await in the same turn. -/
def runSingleFlight (gate : Option ℕ) (attempts : List LoadAttempt) :
    List LoadAttempt × LoadCaller :=
  match gate with
  | some promise => (attempts, .inFlight promise false gate)
  | none =>
    (attempts ++ [.running .hasCheckpoint], .inFlight attempts.length true (some attempts.length))

def LoadCaller.gate : LoadCaller → Option ℕ
  | .inFlight _ _ gate | .returning _ gate _ => gate
  | .attaching | .settled _ => none

def ensureDocumentLoaded (room : RoomLoader) : RoomLoader :=
  if room.documentLoaded then { room with callers := room.callers ++ [.attaching] }
  else
    let (attempts, caller) := runSingleFlight room.loadPromise room.attempts
    { room with
      attempts
      loadPromise := caller.gate
      callers := room.callers ++ [caller] }

/-- One turn of the event loop. -/
def loaderNext (room : RoomLoader) : LoadEvent → RoomLoader
  | .call => ensureDocumentLoaded room
  | .advance promise result =>
    match room.attempts[promise]? with
    | some (.running stage) =>
      let attempt := stage.onResult result
      { room with
        attempts := room.attempts.set promise attempt
        documentLoaded := room.documentLoaded || attempt = .running .attachObservers }
    | _ => room
  | .resume i =>
    match room.callers[i]? with
    | some (.inFlight promise owner gate) =>
      let gate := if owner then none else gate
      match room.attempts[promise]? with
      | some .fulfilled =>
        { room with callers := room.callers.set i (.returning owner gate false) }
      | some .rejected => { room with callers := room.callers.set i (.returning owner gate true) }
      | _ => room
    | _ => room
  | .settle i =>
    match room.callers[i]? with
    | some (.returning _ gate failed) =>
      { room with loadPromise := gate, callers := room.callers.set i (.settled failed) }
    | _ => room
  | .attached i failed =>
    match room.callers[i]? with
    | some .attaching => { room with callers := room.callers.set i (.settled failed) }
    | _ => room

/-- The room after some events. -/
def loaderAt (events : List LoadEvent) (n : ℕ) : RoomLoader := stateAt loaderNext {} events n

def LoadCaller.isSettled : LoadCaller → Bool
  | .settled _ => true
  | _ => false

/-- Every caller has settled. -/
def RoomLoader.Quiet (room : RoomLoader) : Prop := ∀ caller ∈ room.callers, caller.isSettled = true

/-- The last caller to settle, while nothing is loaded, is one that started its attempt. -/
def OwnersSettleLast (events : List LoadEvent) : Prop :=
  ∀ n i owner gate failed, events[n]? = some (.settle i) →
    (loaderAt events n).callers[i]? = some (.returning owner gate failed) →
    (loaderAt events n).documentLoaded = false →
    (∀ j caller, j ≠ i → (loaderAt events n).callers[j]? = some caller → caller.isSettled = true) →
    owner = true

/-- There is one attempt at a time, and a call that finds everyone settled makes a new one, which
loads the document if nothing throws. -/
structure LoadsAfresh (room : RoomLoader) : Prop where
  one : ∀ (p q : ℕ) stage stage', room.attempts[p]? = some (LoadAttempt.running stage) →
    room.attempts[q]? = some (LoadAttempt.running stage') → p = q
  afresh : room.Quiet → room.documentLoaded = false →
    (ensureDocumentLoaded room).attempts = room.attempts ++ [.running .hasCheckpoint] ∧
      ∀ results : List AwaitResult, 6 ≤ results.length → .throws ∉ results →
        ((results.map (.advance room.attempts.length)).foldl loaderNext
          (ensureDocumentLoaded room)).documentLoaded = true

variable {room : RoomLoader} {promise : ℕ} {stage : LoadStage} {event : LoadEvent}

/-- How many answers an attempt needs at most until the document is loaded. -/
def LoadStage.rank : LoadStage → ℕ
  | .hasCheckpoint => 6
  | .readLegacy => 5
  | .loadCheckpoint _ => 4
  | .loadJournal _ => 3
  | .rewriteCheckpoint => 2
  | .deleteLegacy | .traceDeleteFailed => 1
  | .attachObservers | .syncRoomMeta | .recordTrace => 0

theorem rank_onAnswer (hrank : 0 < stage.rank) (answer : Bool) :
    ∃ stage', stage.onAnswer answer = .running stage' ∧
      (stage' = .attachObservers ∨ 0 < stage'.rank ∧ stage'.rank < stage.rank) := by
  cases stage with
  | hasCheckpoint => cases answer <;> exact ⟨_, rfl, .inr (by decide)⟩
  | readLegacy | loadCheckpoint legacy =>
    exact ⟨_, rfl, .inr ⟨by simp [LoadStage.rank], by simp [LoadStage.rank]⟩⟩
  | loadJournal legacy =>
    cases h : legacy && answer with
    | true => exact ⟨_, congrArg LoadAttempt.running (if_pos h), .inr (by simp [LoadStage.rank])⟩
    | false =>
      refine ⟨_, congrArg LoadAttempt.running (if_neg ?_), .inl rfl⟩
      simp [h]
  | rewriteCheckpoint => exact ⟨_, rfl, .inr ⟨by decide, by decide⟩⟩
  | deleteLegacy | traceDeleteFailed => exact ⟨_, rfl, .inl rfl⟩
  | attachObservers | syncRoomMeta | recordTrace => cases hrank

/-- Nothing unloads a document. -/
theorem documentLoaded_loaderNext (h : room.documentLoaded = true) (event : LoadEvent) :
    (loaderNext room event).documentLoaded = true := by
  cases event with
  | call => rw [loaderNext, ensureDocumentLoaded, if_pos h, h]
  | advance promise result =>
    rw [loaderNext]
    split
    · simp [h]
    · exact h
  | resume i =>
    rw [loaderNext]
    split
    · dsimp only
      split <;> exact h
    · exact h
  | settle i | attached i failed =>
    rw [loaderNext]
    split <;> exact h

theorem documentLoaded_foldl (h : room.documentLoaded = true) (events : List LoadEvent) :
    (events.foldl loaderNext room).documentLoaded = true := by
  induction events generalizing room with
  | nil => exact h
  | cons event events ih => exact ih (documentLoaded_loaderNext h event)

/-- An attempt that nothing stops loads the document. -/
theorem loaded_of_answers {results : List AwaitResult}
    (hrun : room.attempts[promise]? = some (.running stage)) (hrank : 0 < stage.rank)
    (hlen : stage.rank ≤ results.length) (ha : .throws ∉ results) :
    ((results.map (.advance promise)).foldl loaderNext room).documentLoaded = true := by
  induction results generalizing room stage with
  | nil =>
    rw [length_nil] at hlen
    omega
  | cons result results ih =>
    rw [map_cons, foldl_cons]
    rw [length_cons] at hlen
    cases result with
    | throws => exact absurd mem_cons_self ha
    | gives answer =>
      obtain ⟨stage', hn, hs⟩ := rank_onAnswer hrank answer
      have hi : promise < room.attempts.length := (List.getElem?_eq_some_iff.mp hrun).1
      have hroom : loaderNext room (.advance promise (.gives answer)) =
          { room with
            attempts := room.attempts.set promise (.running stage')
            documentLoaded := room.documentLoaded ||
              LoadAttempt.running stage' = .running .attachObservers } := by
        rw [loaderNext, hrun]
        dsimp only [LoadStage.onResult]
        rw [hn]
      rw [hroom]
      rcases hs with rfl | ⟨hpos, hlt⟩
      · apply documentLoaded_foldl
        simp
      apply ih (getElem?_set_self hi) hpos (by omega)
      intro hmem
      exact ha (mem_cons_of_mem _ hmem)

/-- A caller that started an attempt and has not written its gate back. -/
def LoadCaller.Owns : LoadCaller → Prop
  | .inFlight _ owner _ | .returning owner _ _ => owner = true
  | .attaching | .settled _ => False

/-- Only who started an attempt empties its gate. -/
def LoadCaller.Gated : LoadCaller → Prop
  | .inFlight promise _ gate => gate = some promise
  | .returning owner gate _ => gate = none ↔ owner = true
  | .attaching | .settled _ => True

/-- What holds in every turn. -/
structure Flying (room : RoomLoader) : Prop where
  owned : ∀ (p : ℕ) stage, room.attempts[p]? = some (.running stage) →
    ∃ i : ℕ, room.callers[i]? = some (.inFlight p true (some p))
  alone : ∀ (i j : ℕ) caller other, room.callers[i]? = some caller →
    room.callers[j]? = some other → caller.Owns → other.Owns → i = j
  promised : ∀ (i : ℕ) caller, room.callers[i]? = some caller → caller.Owns →
    room.loadPromise ≠ none
  gated : ∀ (i : ℕ) caller, room.callers[i]? = some caller → caller.Gated
  loaded : ∀ i : ℕ, room.callers[i]? = some .attaching → room.documentLoaded = true

section

variable (h : Flying room)
include h

/-- A caller goes on, and perhaps writes its gate back. -/
theorem Flying.set {i : ℕ} {caller caller' : LoadCaller} (gate : Option ℕ)
    (hi : room.callers[i]? = some caller) (howns : caller'.Owns → caller.Owns)
    (hgated : caller'.Gated) (hatt : caller' ≠ .attaching)
    (hd : ∀ p stage, caller = .inFlight p true (some p) → room.attempts[p]? ≠ some (.running stage))
    (hgate : gate = room.loadPromise ∨ ¬ caller'.Owns ∧ (gate = none → caller.Owns)) :
    Flying { room with loadPromise := gate, callers := room.callers.set i caller' } := by
  have hcases : ∀ j other, (room.callers.set i caller')[j]? = some other →
      j = i ∧ other = caller' ∨ j ≠ i ∧ room.callers[j]? = some other := by
    intro j other hj
    rw [getElem?_set] at hj
    split at hj
    · next heq =>
      split at hj
      · cases hj
        exact .inl ⟨heq.symm, rfl⟩
      · cases hj
    · next hne => exact .inr ⟨fun heq => hne heq.symm, hj⟩
  constructor
  · intro p stage hp
    obtain ⟨j, hj⟩ := h.owned p stage hp
    by_cases hji : j = i
    · subst hji
      rw [hi, Option.some.injEq] at hj
      exact absurd hp (hd p stage hj)
    · exact ⟨j, by rw [← hj]; exact getElem?_set_ne fun heq => hji heq.symm⟩
  · intro j k other other' hj hk ho ho'
    rcases hcases j other hj with ⟨hji, heq⟩ | ⟨-, hj'⟩
    · rw [heq] at ho
      rcases hcases k other' hk with ⟨hki, -⟩ | ⟨-, hk'⟩
      · exact hji.trans hki.symm
      · exact hji.trans (h.alone i k caller other' hi hk' (howns ho) ho')
    rcases hcases k other' hk with ⟨hki, heq⟩ | ⟨-, hk'⟩
    · rw [heq] at ho'
      exact (h.alone j i other caller hj' hi ho (howns ho')).trans hki.symm
    · exact h.alone j k other other' hj' hk' ho ho'
  · intro j other hj ho
    rcases hgate with rfl | ⟨hnot, hn⟩
    · rcases hcases j other hj with ⟨rfl, rfl⟩ | ⟨-, hj⟩
      · exact h.promised _ _ hi (howns ho)
      · exact h.promised j other hj ho
    rcases hcases j other hj with ⟨rfl, rfl⟩ | ⟨hji, hj⟩
    · exact absurd ho hnot
    intro hgate
    exact hji (h.alone j i other caller hj hi ho (hn hgate))
  · intro j other hj
    rcases hcases j other hj with ⟨rfl, rfl⟩ | ⟨-, hj⟩
    · exact hgated
    · exact h.gated j other hj
  intro j hj
  rcases hcases j _ hj with ⟨-, heq⟩ | ⟨-, hj⟩
  · exact absurd heq.symm hatt
  · exact h.loaded j hj

/-- A caller arrives. -/
theorem Flying.append {caller : LoadCaller} {attempts : List LoadAttempt}
    {loadPromise : Option ℕ}
    (howned : ∀ p stage, attempts[p]? = some (.running stage) →
      room.attempts[p]? = some (.running stage) ∨ caller = .inFlight p true (some p))
    (ha : caller.Owns → room.loadPromise = none ∧ loadPromise ≠ none)
    (hprom : loadPromise = room.loadPromise ∨ loadPromise ≠ none) (hgated : caller.Gated)
    (hl : caller = .attaching → room.documentLoaded = true) :
    Flying { room with attempts, loadPromise, callers := room.callers ++ [caller] } := by
  constructor
  · intro p stage hp
    rcases howned p stage hp with hp | rfl
    · obtain ⟨i, hi⟩ := h.owned p stage hp
      exact ⟨i, List.getElem?_append_left (List.getElem?_eq_some_iff.mp hi).1 ▸ hi⟩
    · exact ⟨room.callers.length, by simp⟩
  · intro i j other other' hi hj ho ho'
    rcases getElem?_append_one hi with hi' | ⟨hla, heq⟩
    · rcases getElem?_append_one hj with hj' | ⟨-, heq⟩
      · exact h.alone i j other other' hi' hj' ho ho'
      · exact absurd (ha (heq ▸ ho')).1 (h.promised i other hi' ho)
    rcases getElem?_append_one hj with hj' | ⟨hla', -⟩
    · exact absurd (ha (heq ▸ ho)).1 (h.promised j other' hj' ho')
    · exact hla.trans hla'.symm
  · intro i other hi ho
    rcases hprom with rfl | hs
    · rcases getElem?_append_one hi with hi | ⟨-, rfl⟩
      · exact h.promised i other hi ho
      · exact (ha ho).2
    · exact hs
  · intro i other hi
    rcases getElem?_append_one hi with hi | ⟨-, rfl⟩
    · exact h.gated i other hi
    · exact hgated
  intro i hi
  rcases getElem?_append_one hi with hi | ⟨-, heq⟩
  · exact h.loaded i hi
  · exact hl heq.symm

theorem Flying.call : Flying (ensureDocumentLoaded room) := by
  unfold ensureDocumentLoaded
  split
  · next hl =>
    exact h.append (fun _ _ hp => .inl hp) nofun (.inl rfl) trivial fun _ => hl
  cases hprom : room.loadPromise with
  | some promise =>
    exact h.append (fun _ _ hp => .inl hp) nofun
      (.inr (Option.some_ne_none _)) rfl nofun
  | none =>
    refine h.append ?_ (fun _ => ⟨hprom, Option.some_ne_none _⟩)
      (.inr (Option.some_ne_none _)) rfl nofun
    intro p stage hp
    rcases getElem?_append_one hp with hp | ⟨rfl, -⟩
    · exact .inl hp
    · exact .inr rfl

theorem Flying.advance {attempt : LoadAttempt} {documentLoaded : Bool}
    (hrun : room.attempts[promise]? = some (.running stage))
    (hl : room.documentLoaded = true → documentLoaded = true) :
    Flying { room with attempts := room.attempts.set promise attempt, documentLoaded } where
  owned := by
    intro p stage' hp
    by_cases heq : p = promise
    · exact h.owned p stage (heq ▸ hrun)
    apply h.owned p stage'
    rw [← hp]
    exact (getElem?_set_ne fun h => heq h.symm).symm
  alone := h.alone
  promised := h.promised
  gated := h.gated
  loaded := fun i hi => hl (h.loaded i hi)

theorem Flying.resume {i : ℕ} {owner : Bool} {gate : Option ℕ} (failed : Bool)
    (hi : room.callers[i]? = some (.inFlight promise owner gate))
    (hset : ∀ stage, room.attempts[promise]? ≠ some (.running stage)) :
    Flying { room with
      callers := room.callers.set i (.returning owner (if owner then none else gate) failed) } := by
  have hgate : gate = some promise := h.gated i _ hi
  subst hgate
  refine h.set room.loadPromise hi id ?_ nofun ?_ (.inl rfl)
  · cases owner with
    | true => exact ⟨fun _ => rfl, fun _ => rfl⟩
    | false =>
      constructor
      · intro hn
        cases hn
      intro hf
      cases hf
  · intro p stage heq
    cases heq
    exact hset stage

theorem flying_loaderNext (event : LoadEvent) : Flying (loaderNext room event) := by
  cases event with rw [loaderNext]
  | call => exact h.call
  | advance promise result =>
    split
    · next hrun =>
      apply h.advance hrun
      intro hl
      rw [hl, Bool.true_or]
    · exact h
  | resume i =>
    split
    · next promise owner gate hi =>
      dsimp only
      split
      · next hatt => exact h.resume false hi fun stage => by simp [hatt]
      · next hatt => exact h.resume true hi fun stage => by simp [hatt]
      · exact h
    · exact h
  | settle i =>
    split
    · next owner gate failed hi =>
      have hgate := h.gated i _ hi
      refine h.set gate hi nofun trivial nofun
        nofun (.inr ⟨?_, hgate.mp⟩)
      exact nofun
    · exact h
  | attached i failed =>
    split
    · next hi =>
      exact h.set room.loadPromise hi nofun trivial nofun nofun (.inl rfl)
    · exact h

end

variable {events : List LoadEvent} {n : ℕ}

theorem flying_loaderAt (events : List LoadEvent) (n : ℕ) : Flying (loaderAt events n) := by
  apply stateAt_invariant
  · refine ⟨?_, ?_, ?_, ?_, ?_⟩ <;> nofun
  intro room event h
  exact flying_loaderNext h event

/-- An attempt that runs has its owner in flight, and there is one owner. -/
theorem Flying.one (h : Flying room) {p q : ℕ} {stage' : LoadStage}
    (hp : room.attempts[p]? = some (.running stage))
    (hq : room.attempts[q]? = some (.running stage')) : p = q := by
  obtain ⟨i, hi⟩ := h.owned p stage hp
  obtain ⟨j, hj⟩ := h.owned q stage' hq
  have hij := h.alone i j _ _ hi hj rfl rfl
  subst hij
  rw [hi] at hj
  cases hj
  rfl

/-- A call makes a new attempt exactly when no promise was left behind. -/
theorem attempts_ensureDocumentLoaded (hl : room.documentLoaded = false) :
    (ensureDocumentLoaded room).attempts = room.attempts ++ [.running .hasCheckpoint] ↔
      room.loadPromise = none := by
  rw [ensureDocumentLoaded, hl]
  cases room.loadPromise with
  | none | some promise => simp [runSingleFlight]

theorem loadsAfresh_iff (h : Flying room) :
    LoadsAfresh room ↔ (room.Quiet → room.documentLoaded = false → room.loadPromise = none) := by
  constructor
  · intro hafr hq hl
    exact (attempts_ensureDocumentLoaded hl).mp (hafr.afresh hq hl).1
  intro hn
  refine ⟨fun p q stage stage' => h.one, ?_⟩
  intro hq hl
  have hatts := (attempts_ensureDocumentLoaded hl).mpr (hn hq hl)
  refine ⟨hatts, ?_⟩
  intro results hlen ha
  refine loaded_of_answers ?_ (by decide : 0 < LoadStage.rank .hasCheckpoint) hlen ha
  rw [hatts]
  simp

theorem isSettled_of_getElem? {callers : List LoadCaller} {caller : LoadCaller} {i : ℕ}
    (h : ∀ other ∈ callers, other.isSettled = true) (hi : callers[i]? = some caller) :
    caller.isSettled = true := h caller (mem_of_getElem? hi)

/-- Where everyone has settled now and nothing is loaded, either everyone had settled before, or
the last caller has just written its gate back. -/
theorem quiet_loaderNext (h : Flying room) (hq : (loaderNext room event).Quiet)
    (hl : (loaderNext room event).documentLoaded = false) :
    room.documentLoaded = false ∧
      (room.Quiet ∧ (loaderNext room event).loadPromise = room.loadPromise ∨
        ∃ i owner gate failed, event = .settle i ∧
          room.callers[i]? = some (.returning owner gate failed) ∧
          (∀ j caller, j ≠ i → room.callers[j]? = some caller → caller.isSettled = true) ∧
          (loaderNext room event).loadPromise = gate) := by
  have hb : room.documentLoaded = false := by
    by_contra hne
    rw [Bool.not_eq_false] at hne
    rw [documentLoaded_loaderNext hne event] at hl
    cases hl
  refine ⟨hb, ?_⟩
  cases event with
  | call =>
    exfalso
    rw [loaderNext, ensureDocumentLoaded, hb] at hq
    have hnew := hq (runSingleFlight room.loadPromise room.attempts).2 (by simp)
    cases hprom : room.loadPromise with rw [hprom] at hnew
    | none | some promise => cases hnew
  | advance promise result =>
    left
    rw [loaderNext] at hq ⊢
    split at hq <;> exact ⟨hq, rfl⟩
  | resume i =>
    left
    rw [loaderNext] at hq ⊢
    split at hq
    · next promise owner gate hi =>
      have hbk : ∀ caller : LoadCaller, caller.isSettled = false →
          ¬ ∀ other ∈ room.callers.set i caller, other.isSettled = true := by
        intro caller hcal hall
        have hlt := (List.getElem?_eq_some_iff.mp hi).1
        rw [isSettled_of_getElem? hall (getElem?_set_self hlt)] at hcal
        cases hcal
      dsimp only at hq ⊢
      split at hq
      · exact absurd hq (hbk _ rfl)
      · exact absurd hq (hbk _ rfl)
      · exact ⟨hq, rfl⟩
    · exact ⟨hq, rfl⟩
  | settle i =>
    cases hi : room.callers[i]? with
    | none =>
      left
      rw [loaderNext, hi] at hq ⊢
      exact ⟨hq, rfl⟩
    | some caller =>
      cases caller with
      | returning owner gate failed =>
        right
        refine ⟨i, owner, gate, failed, rfl, hi, ?_, ?_⟩
        · intro j caller hji hj
          rw [loaderNext, hi] at hq
          refine isSettled_of_getElem? hq (i := j) ?_
          rw [← hj]
          exact getElem?_set_ne fun heq => hji heq.symm
        · rw [loaderNext, hi]
      | _ =>
        left
        rw [loaderNext, hi] at hq ⊢
        exact ⟨hq, rfl⟩
  | attached i failed =>
    left
    rw [loaderNext] at hq ⊢
    split at hq
    · next hi =>
      rw [h.loaded i hi] at hb
      cases hb
    · exact ⟨hq, rfl⟩

/-- A load that fails is tried again exactly when the last caller to settle is always one that
started its attempt. -/
theorem loads_afresh_iff (events : List LoadEvent) :
    (∀ n, LoadsAfresh (loaderAt events n)) ↔ OwnersSettleLast events := by
  constructor
  · intro h n i owner gate failed hev hi hl ho
    have hn : loaderAt events (n + 1) = loaderNext (loaderAt events n) (.settle i) :=
      stateAt_succ hev
    have hafr := (loadsAfresh_iff (flying_loaderAt events (n + 1))).mp (h (n + 1))
    rw [hn, loaderNext, hi] at hafr
    apply ((flying_loaderAt events n).gated i _ hi).mp
    apply hafr _ hl
    intro caller hcal
    obtain ⟨j, hj⟩ := List.mem_iff_getElem?.mp hcal
    by_cases hji : j = i
    · subst hji
      rw [List.getElem?_set_self (List.getElem?_eq_some_iff.mp hi).1] at hj
      cases hj
      rfl
    rw [List.getElem?_set_ne fun heq => hji heq.symm] at hj
    exact ho j caller hji hj
  intro h n
  rw [loadsAfresh_iff (flying_loaderAt events n)]
  induction n with
  | zero =>
    intro _ _
    rfl
  | succ n ih =>
    rcases stateAt_step loaderNext {} events n with ⟨-, hs⟩ | ⟨event, hev, hn⟩
    · change _ = loaderAt events n at hs
      rw [loaderAt, hs]
      exact ih
    change _ = loaderNext (loaderAt events n) event at hn
    rw [loaderAt, hn]
    intro hq hl
    obtain ⟨hb, hcases⟩ := quiet_loaderNext (flying_loaderAt events n) hq hl
    rcases hcases with ⟨hq', hs⟩ | ⟨i, owner, gate, failed, rfl, hi, ho, hgate⟩
    · rw [hs]
      exact ih hq' hb
    rw [hgate]
    apply ((flying_loaderAt events n).gated i _ hi).mpr
    exact h n i owner gate failed hev hi hb ho

/-- Two calls share an attempt that storage fails; the one that waited settles last. -/
def waiterSettlesLast : List LoadEvent :=
  [.call, .call, .advance 0 .throws, .resume 0, .resume 1, .settle 0, .settle 1]

/-- The rejected promise stays. -/
theorem failed_load_sticks : ¬ ∀ events n, LoadsAfresh (loaderAt events n) := by
  intro h
  have hq : (loaderAt waiterSettlesLast 7).Quiet := by
    rw [RoomLoader.Quiet]
    decide
  have hatt := ((h waiterSettlesLast 7).afresh hq (by decide)).1
  revert hatt
  decide

end Kaos.Server
