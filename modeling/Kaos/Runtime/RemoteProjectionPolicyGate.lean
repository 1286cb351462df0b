import Kaos.Lib.JsString
import Kaos.Lib.Run
import Kaos.Lib.Tally

/-! The gate for CRDT-to-disk projection: a provider generation opens it, a close shuts it, and
what an older epoch still has on the disk holds it shut. -/
namespace Kaos.Runtime

open Kaos.Lib List

/-- `SYSTEM/SETTING/kaos-exclude.md` -/
def kaosExcludeFilePath : JsString := js "SYSTEM/SETTING/kaos-exclude.md"

def slash : UInt16 := 47

/-- A run of slashes leaves one. -/
def collapseSlashes : JsString → JsString
  | c :: d :: rest =>
    if c = slash ∧ d = slash then collapseSlashes (d :: rest) else c :: collapseSlashes (d :: rest)
  | rest => rest

def stripDotSlash : JsString → JsString
  | 46 :: 47 :: rest => rest
  | path => path

def normalizePrefix (path : JsString) : JsString :=
  (stripDotSlash (collapseSlashes (path.map fun c => if c = 92 then slash else c))).dropWhile
    (· = slash)

def isKaosExcludeFilePath (path : JsString) : Bool := normalizePrefix path = kaosExcludeFilePath

structure RemoteProjectionPolicyLease (G : Type*) where
  generation : G
  closeEpoch : ℕ
  paths : List JsString

/-- A callback goes by the number of the `open` that passed it. -/
structure PendingOpenRetry (G : Type*) where
  generation : G
  closeEpoch : ℕ
  callback : ℕ

structure RemoteProjectionPolicyGate (G : Type*) where
  generation : G
  ready : Option G := none
  closeEpoch : ℕ := 0
  activeCriticalSections : OrderedMap ℕ ℕ := .empty
  pendingOpenRetry : Option (PendingOpenRetry G) := none

open RemoteProjectionPolicyGate

namespace RemoteProjectionPolicyGate

variable {G : Type*} [BEq G] [LT G] [DecidableLT G]

def close (gate : RemoteProjectionPolicyGate G) (generation : G) : RemoteProjectionPolicyGate G :=
  if generation < gate.generation then gate
  else { gate with
    generation := generation, ready := none, closeEpoch := gate.closeEpoch + 1,
    pendingOpenRetry := none }

def hasStaleCriticalSections (gate : RemoteProjectionPolicyGate G) : Bool :=
  gate.activeCriticalSections.entries.any fun entry => entry.2 > 0 ∧ entry.1 ≠ gate.closeEpoch

/-- `open`, and whether it opened. -/
def openGate (gate : RemoteProjectionPolicyGate G) (generation : G)
    (onCriticalSectionsDrained : Option ℕ) : RemoteProjectionPolicyGate G × Bool :=
  if generation != gate.generation then (gate, false)
  else if gate.hasStaleCriticalSections then
    ({ gate with
      ready := none
      pendingOpenRetry := onCriticalSectionsDrained.map fun callback =>
        { generation, closeEpoch := gate.closeEpoch, callback } }, false)
  else ({ gate with pendingOpenRetry := none, ready := some generation }, true)

def isRemoteProjectionAllowed (gate : RemoteProjectionPolicyGate G) (path : JsString) : Bool :=
  isKaosExcludeFilePath path || gate.ready == some gate.generation

def captureLease (gate : RemoteProjectionPolicyGate G) (paths : List JsString) :
    Option (RemoteProjectionPolicyLease G) :=
  if paths.length = 0 ∨ ¬ paths.all gate.isRemoteProjectionAllowed then none
  else some { generation := gate.generation, closeEpoch := gate.closeEpoch, paths }

def isLeaseCurrent (gate : RemoteProjectionPolicyGate G) (lease : RemoteProjectionPolicyLease G) :
    Bool :=
  lease.generation == gate.generation && lease.closeEpoch = gate.closeEpoch &&
    lease.paths.length > 0 && lease.paths.all gate.isRemoteProjectionAllowed

/-- The gate with the section entered, and the epoch the release closes over. -/
def enterCriticalSection (gate : RemoteProjectionPolicyGate G)
    (lease : RemoteProjectionPolicyLease G) : Option (RemoteProjectionPolicyGate G × ℕ) :=
  if gate.isLeaseCurrent lease then
    some ({ gate with
      activeCriticalSections := gate.activeCriticalSections.increment lease.closeEpoch },
      lease.closeEpoch)
  else none

/-- The callback to call is returned: nothing of the gate comes after the call. -/
def requestPendingOpenRetryIfDrained (gate : RemoteProjectionPolicyGate G) :
    RemoteProjectionPolicyGate G × Option ℕ :=
  match gate.pendingOpenRetry with
  | none => (gate, none)
  | some pending =>
    if pending.generation != gate.generation ∨ pending.closeEpoch ≠ gate.closeEpoch ∨
        gate.hasStaleCriticalSections then (gate, none)
    else ({ gate with pendingOpenRetry := none }, some pending.callback)

/-- The body of a release that runs for the first time. -/
def release (gate : RemoteProjectionPolicyGate G) (epoch : ℕ) :
    RemoteProjectionPolicyGate G × Option ℕ :=
  requestPendingOpenRetryIfDrained { gate with
    activeCriticalSections := gate.activeCriticalSections.decrement epoch }

end RemoteProjectionPolicyGate

/-- What a release closes over: the epoch of its section and whether it has run. -/
structure CriticalSection where
  epoch : ℕ
  released : Bool := false

/-- The gate and its callers: the sections entered so far, how many `open` calls there were and
which callbacks were called. -/
structure GateWorld (G : Type*) where
  gate : RemoteProjectionPolicyGate G
  sections : List CriticalSection := []
  opens : ℕ := 0
  fired : List ℕ := []

/-- A callback's own calls of the gate are the calls that follow. -/
inductive GateEvent (G : Type*)
  | close (generation : G)
  | openGate (generation : G) (retry : Bool)
  | enterCriticalSection (lease : RemoteProjectionPolicyLease G)
  | release (section_ : ℕ)

section Steps

variable {G : Type*} [BEq G] [LT G] [DecidableLT G]

def gateNext (w : GateWorld G) : GateEvent G → GateWorld G
  | .close generation => { w with gate := w.gate.close generation }
  | .openGate generation retry =>
    { w with
      gate := (w.gate.openGate generation (if retry then some w.opens else none)).1
      opens := w.opens + 1 }
  | .enterCriticalSection lease =>
    match w.gate.enterCriticalSection lease with
    | none => w
    | some (gate, epoch) => { w with gate, sections := w.sections ++ [{ epoch }] }
  | .release k =>
    match w.sections[k]? with
    | none => w
    | some s =>
      if s.released then w
      else
        { w with
          gate := (w.gate.release s.epoch).1
          sections := w.sections.set k { s with released := true }
          fired := w.fired ++ (w.gate.release s.epoch).2.toList }

/-- The world after some calls, from a new gate. -/
def gateAt (generation : G) (events : List (GateEvent G)) (n : ℕ) : GateWorld G :=
  stateAt gateNext { gate := { generation } } events n

/-- A close of an older generation does nothing. -/
def TakesEffect (w : GateWorld G) (generation : G) : Prop := ¬ generation < w.gate.generation

/-- A close that takes effect, and an open of the current generation. -/
def Supersedes (w : GateWorld G) : GateEvent G → Prop
  | .close generation => TakesEffect w generation
  | .openGate generation _ => (generation == w.gate.generation) = true
  | _ => False

/-- An open of the current generation that older sections refuse keeps its callback. -/
def Accepts (w : GateWorld G) (event : GateEvent G) (callback : ℕ) : Prop :=
  ∃ generation, event = .openGate generation true ∧ callback = w.opens ∧
    (generation == w.gate.generation) = true ∧ w.gate.hasStaleCriticalSections = true

/-- A section of an earlier epoch that is not released yet. -/
def Stale (w : GateWorld G) : Prop :=
  ∃ s ∈ w.sections, s.released = false ∧ s.epoch ≠ w.gate.closeEpoch

/-- The gate is a fence between provider generations. -/
structure Fences (generation : G) (events : List (GateEvent G)) : Prop where
  drained : ∀ n path, isKaosExcludeFilePath path = false →
    (gateAt generation events n).gate.isRemoteProjectionAllowed path = true →
    ¬ Stale (gateAt generation events n)
  fenced : ∀ n m k paths lease g,
    (gateAt generation events n).gate.captureLease paths = some lease → n ≤ m → m < k →
    events[m]? = some (.close g) → TakesEffect (gateAt generation events m) g →
    (gateAt generation events k).gate.isLeaseCurrent lease = false ∧
      (gateAt generation events k).gate.enterCriticalSection lease = none
  counted : ∀ n epoch, (gateAt generation events n).gate.activeCriticalSections.tally epoch =
    (gateAt generation events n).sections.countP fun s => s.released = false ∧ s.epoch = epoch
  once : ∀ n, (gateAt generation events n).fired.Nodup
  retried : ∀ n m event callback, events[n]? = some event →
    Accepts (gateAt generation events n) event callback → n < m →
    (∀ k event', n < k → k < m → events[k]? = some event' →
      ¬ Supersedes (gateAt generation events k) event') →
    (callback ∈ (gateAt generation events m).fired ↔ ¬ Stale (gateAt generation events m))

end Steps

section Fencing

variable {G : Type*} {gate : RemoteProjectionPolicyGate G} {w : GateWorld G} {k : ℕ}
  {s : CriticalSection}

/-- The counts are of the sections that are not released. -/
def Counted (w : GateWorld G) : Prop := ∀ epoch, w.gate.activeCriticalSections.tally epoch =
  w.sections.countP fun s => s.released = false ∧ s.epoch = epoch

theorem hasStaleCriticalSections_iff (h : Counted w) :
    w.gate.hasStaleCriticalSections = true ↔ Stale w := by
  simp only [hasStaleCriticalSections, any_eq_true, decide_eq_true_eq]
  constructor
  · rintro ⟨⟨epoch, count⟩, hmem, hpos, hne⟩
    have hc : 0 < w.gate.activeCriticalSections.tally epoch := by
      rw [OrderedMap.tally_eq hmem]
      exact hpos
    rw [h epoch, countP_pos_iff] at hc
    obtain ⟨s, hs, hact⟩ := hc
    obtain ⟨hrel, rfl⟩ := of_decide_eq_true hact
    exact ⟨s, hs, hrel, hne⟩
  rintro ⟨s, hs, hrel, hne⟩
  have hc : 0 < w.gate.activeCriticalSections.tally s.epoch := by
    rw [h s.epoch, countP_pos_iff]
    exact ⟨s, hs, by simp [hrel]⟩
  exact ⟨_, OrderedMap.mem_of_tally_pos hc, hc, hne⟩

/-- The world a first release of a section leaves, before the pending open is looked at. -/
def GateWorld.drop (w : GateWorld G) (k : ℕ) (s : CriticalSection) : GateWorld G :=
  { w with
    gate := { w.gate with
      activeCriticalSections := w.gate.activeCriticalSections.decrement s.epoch }
    sections := w.sections.set k { s with released := true } }

theorem counted_drop (h : Counted w) (hk : w.sections[k]? = some s) (hs : s.released = false) :
    Counted (w.drop k s) := by
  intro epoch
  obtain ⟨hlt, hget⟩ := List.getElem?_eq_some_iff.mp hk
  simp only [GateWorld.drop, OrderedMap.tally_decrement, List.countP_set hlt, hget, h epoch]
  by_cases he : epoch = s.epoch
  · simp [he, hs]
  · simp [he, Ne.symm he]

/-- A release makes nothing stale. -/
theorem stale_of_stale_drop (h : Stale (w.drop k s)) : Stale w := by
  obtain ⟨s', hmem, hrel, hne⟩ := h
  rcases mem_or_eq_of_mem_set hmem with hmem | rfl
  · exact ⟨s', hmem, hrel, hne⟩
  · cases hrel

theorem stale_enter (w : GateWorld G) (sections : OrderedMap ℕ ℕ) :
    Stale { w with
      gate := { w.gate with activeCriticalSections := sections }
      sections := w.sections ++ [{ epoch := w.gate.closeEpoch }] } ↔ Stale w := by
  constructor <;> rintro ⟨s, hmem, hrel, hne⟩
  · rcases mem_append.mp hmem with hmem | hmem
    · exact ⟨s, hmem, hrel, hne⟩
    rw [mem_singleton.mp hmem] at hne
    exact absurd rfl hne
  · exact ⟨s, mem_append_left _ hmem, hrel, hne⟩

variable [BEq G]

theorem requestPendingOpenRetryIfDrained_of_stale (h : gate.hasStaleCriticalSections = true) :
    gate.requestPendingOpenRetryIfDrained = (gate, none) := by
  unfold requestPendingOpenRetryIfDrained
  split
  · rfl
  · rw [if_pos (.inr (.inr h))]

theorem requestPendingOpenRetryIfDrained_of_drained {pending : PendingOpenRetry G}
    (h : gate.hasStaleCriticalSections = false) (hp : gate.pendingOpenRetry = some pending)
    (hgen : (pending.generation == gate.generation) = true)
    (hepoch : pending.closeEpoch = gate.closeEpoch) :
    gate.requestPendingOpenRetryIfDrained =
      ({ gate with pendingOpenRetry := none }, some pending.callback) := by
  simp [requestPendingOpenRetryIfDrained, hp, h, bne, hgen, hepoch]

/-- What holds in every state of a run. -/
structure Sound (w : GateWorld G) : Prop where
  counted : Counted w
  ready : w.gate.ready.isSome → ¬ Stale w
  pending : ∀ pending, w.gate.pendingOpenRetry = some pending →
    (pending.generation == w.gate.generation) = true ∧
      pending.closeEpoch = w.gate.closeEpoch ∧ Stale w ∧
      pending.callback < w.opens ∧ pending.callback ∉ w.fired
  fired : ∀ callback ∈ w.fired, callback < w.opens
  once : w.fired.Nodup

theorem ready_isSome_of_allowed {path : JsString} (hord : isKaosExcludeFilePath path = false)
    (h : w.gate.isRemoteProjectionAllowed path = true) : w.gate.ready.isSome := by
  rw [isRemoteProjectionAllowed, hord, Bool.false_or] at h
  cases hr : w.gate.ready with
  | none =>
    rw [hr] at h
    cases h
  | some g => rfl

theorem sound_initial (generation : G) : Sound ({ gate := { generation } } : GateWorld G) := by
  refine ⟨?_, ?_, ?_, ?_, nodup_nil⟩
  · intro epoch
    rfl
  · nofun
  · nofun
  · nofun

variable [LT G] [DecidableLT G]

/-- A release either leaves the pending open alone or, with nothing stale left, calls it. -/
theorem release_cases (h : Sound w) (hk : w.sections[k]? = some s) (hs : s.released = false) :
    (gateNext w (.release k) = w.drop k s ∧
      (∀ pending, w.gate.pendingOpenRetry = some pending → Stale (w.drop k s))) ∨
    ∃ pending, w.gate.pendingOpenRetry = some pending ∧ ¬ Stale (w.drop k s) ∧
      gateNext w (.release k) =
        { w.drop k s with
          gate := { (w.drop k s).gate with pendingOpenRetry := none }
          fired := w.fired ++ [pending.callback] } := by
  have hn : gateNext w (.release k) =
      { w.drop k s with
        gate := ((w.drop k s).gate.requestPendingOpenRetryIfDrained).1
        fired := w.fired ++ ((w.drop k s).gate.requestPendingOpenRetryIfDrained).2.toList } := by
    simp only [gateNext, hk, hs, Bool.false_eq_true, if_false]
    rfl
  rw [hn]
  have hstale := hasStaleCriticalSections_iff (counted_drop h.counted hk hs)
  cases hst : (w.drop k s).gate.hasStaleCriticalSections with
  | true =>
    left
    rw [requestPendingOpenRetryIfDrained_of_stale hst]
    refine ⟨?_, fun _ _ => hstale.mp hst⟩
    simp [GateWorld.drop]
  | false =>
    cases hp : w.gate.pendingOpenRetry with
    | none =>
      left
      have hp' : (w.drop k s).gate.pendingOpenRetry = none := hp
      refine ⟨?_, nofun⟩
      simp only [requestPendingOpenRetryIfDrained, hp']
      simp [GateWorld.drop]
    | some pending =>
      right
      obtain ⟨hgen, hepoch, -, -, -⟩ := h.pending pending hp
      rw [requestPendingOpenRetryIfDrained_of_drained hst hp hgen hepoch]
      refine ⟨pending, rfl, ?_, rfl⟩
      intro hdrained
      rw [hstale.mpr hdrained] at hst
      cases hst

theorem sound_close (h : Sound w) (generation : G) : Sound (gateNext w (.close generation)) := by
  rw [gateNext, close]
  by_cases hlt : generation < w.gate.generation
  · rw [if_pos hlt]
    exact h
  rw [if_neg hlt]
  refine ⟨h.counted, ?_, ?_, h.fired, h.once⟩ <;> nofun

theorem sound_openGate (h : Sound w) (generation : G) (retry : Bool) :
    Sound (gateNext w (.openGate generation retry)) := by
  have hfired : ∀ callback ∈ w.fired, callback < w.opens + 1 := by
    intro callback hmem
    have := h.fired callback hmem
    omega
  unfold gateNext openGate
  by_cases hg : (generation == w.gate.generation) = true
  · simp only [bne, hg, Bool.not_true, Bool.false_eq_true, if_false]
    by_cases hst : w.gate.hasStaleCriticalSections = true
    · rw [if_pos hst]
      refine ⟨h.counted, ?_, ?_, hfired, h.once⟩
      · nofun
      intro pending hp
      cases retry with
      | false => cases hp
      | true =>
        cases hp
        refine ⟨hg, rfl, (hasStaleCriticalSections_iff h.counted).mp hst, Nat.lt_succ_self _, ?_⟩
        intro hmem
        exact lt_irrefl _ (h.fired _ hmem)
    rw [if_neg hst]
    refine ⟨h.counted, ?_, ?_, hfired, h.once⟩
    · intro _ hs
      exact hst ((hasStaleCriticalSections_iff h.counted).mpr hs)
    · nofun
  simp only [bne, hg, Bool.not_false, if_true]
  refine ⟨h.counted, h.ready, ?_, hfired, h.once⟩
  intro pending hp
  obtain ⟨hgen, hepoch, hs, hlt, hnot⟩ := h.pending pending hp
  exact ⟨hgen, hepoch, hs, Nat.lt_succ_of_lt hlt, hnot⟩

/-- A section that is entered is of the current epoch. -/
theorem enterCriticalSection_cases (w : GateWorld G) (lease : RemoteProjectionPolicyLease G) :
    gateNext w (.enterCriticalSection lease) = w ∨
      gateNext w (.enterCriticalSection lease) =
        { w with
          gate := { w.gate with
            activeCriticalSections :=
              w.gate.activeCriticalSections.increment w.gate.closeEpoch }
          sections := w.sections ++ [{ epoch := w.gate.closeEpoch }] } := by
  unfold gateNext enterCriticalSection
  by_cases hcur : w.gate.isLeaseCurrent lease = true
  · right
    have hepoch : lease.closeEpoch = w.gate.closeEpoch := by
      simp only [isLeaseCurrent, Bool.and_eq_true, decide_eq_true_eq] at hcur
      exact hcur.1.1.2
    simp only [hcur, if_true, hepoch]
  · left
    simp only [hcur, Bool.false_eq_true, if_false]

theorem sound_enterCriticalSection (h : Sound w) (lease : RemoteProjectionPolicyLease G) :
    Sound (gateNext w (.enterCriticalSection lease)) := by
  rcases enterCriticalSection_cases w lease with hn | hn <;> rw [hn]
  · exact h
  refine ⟨?_, ?_, ?_, h.fired, h.once⟩
  · intro epoch
    simp only [OrderedMap.tally_increment, countP_append, h.counted epoch]
    by_cases he : epoch = w.gate.closeEpoch
    · simp [he]
    · simp [he, Ne.symm he]
  · intro hr
    rw [stale_enter]
    exact h.ready hr
  intro pending hp
  rw [stale_enter]
  exact h.pending pending hp

theorem sound_release (h : Sound w) (k : ℕ) : Sound (gateNext w (.release k)) := by
  cases hk : w.sections[k]? with
  | none =>
    simp only [gateNext, hk]
    exact h
  | some s =>
    cases hs : s.released with
    | true =>
      simp only [gateNext, hk, hs, if_true]
      exact h
    | false =>
      have hcoun := counted_drop h.counted hk hs
      have hr : w.gate.ready.isSome → ¬ Stale (w.drop k s) := by
        intro hso hst
        exact h.ready hso (stale_of_stale_drop hst)
      rcases release_cases h hk hs with ⟨hn, hst⟩ | ⟨pending, hp, hdrained, hn⟩
      · rw [hn]
        refine ⟨hcoun, hr, ?_, h.fired, h.once⟩
        intro pending hp
        obtain ⟨hgen, hepoch, -, hlt, hnot⟩ := h.pending pending hp
        exact ⟨hgen, hepoch, hst pending hp, hlt, hnot⟩
      rw [hn]
      obtain ⟨-, -, -, hlt, hnot⟩ := h.pending pending hp
      refine ⟨hcoun, hr, ?_, ?_, ?_⟩
      · exact nofun
      · intro callback hmem
        rcases mem_append.mp hmem with hmem | hmem
        · exact h.fired callback hmem
        rw [mem_singleton.mp hmem]
        exact hlt
      apply List.Nodup.append h.once (nodup_singleton _)
      intro callback hmem hsg
      rw [mem_singleton.mp hsg] at hmem
      exact hnot hmem

theorem sound_next (h : Sound w) (event : GateEvent G) : Sound (gateNext w event) := by
  cases event with
  | close generation => exact sound_close h generation
  | openGate generation retry => exact sound_openGate h generation retry
  | enterCriticalSection lease => exact sound_enterCriticalSection h lease
  | release k => exact sound_release h k

/-- The close epoch never goes back, and a close that takes effect moves it on. -/
theorem closeEpoch_next (w : GateWorld G) (event : GateEvent G) :
    w.gate.closeEpoch ≤ (gateNext w event).gate.closeEpoch ∧
      ∀ g, event = .close g → TakesEffect w g →
        w.gate.closeEpoch < (gateNext w event).gate.closeEpoch := by
  cases event with
  | close g =>
    rw [gateNext, close]
    by_cases hlt : g < w.gate.generation
    · rw [if_pos hlt]
      refine ⟨le_rfl, ?_⟩
      intro g' heq htakes
      cases heq
      exact absurd hlt htakes
    · rw [if_neg hlt]
      exact ⟨Nat.le_succ _, fun _ _ _ => Nat.lt_succ_self _⟩
  | openGate g retry =>
    refine ⟨?_, fun g' heq => by cases heq⟩
    simp only [gateNext, openGate]
    split
    · exact le_rfl
    · split <;> exact le_rfl
  | enterCriticalSection lease =>
    refine ⟨?_, fun g' heq => by cases heq⟩
    rcases enterCriticalSection_cases w lease with hn | hn <;> rw [hn]
  | release k =>
    refine ⟨?_, fun g' heq => by cases heq⟩
    simp only [gateNext, release, requestPendingOpenRetryIfDrained]
    split
    · exact le_rfl
    split
    · exact le_rfl
    split
    · exact le_rfl
    · split <;> exact le_rfl

/-- The callback waits while something is stale, and has been called once nothing is. -/
def Awaits (w : GateWorld G) (callback : ℕ) : Prop :=
  (∃ pending, w.gate.pendingOpenRetry = some pending ∧ pending.callback = callback ∧ Stale w ∧
    callback ∉ w.fired) ∨ (callback ∈ w.fired ∧ ¬ Stale w)

variable {event : GateEvent G} {callback : ℕ}

theorem awaits_accepted (h : Sound w)
    (hacc : Accepts w event callback) : Awaits (gateNext w event) callback := by
  obtain ⟨g, rfl, rfl, hg, hst⟩ := hacc
  left
  have hn : gateNext w (.openGate g true) =
      { w with
        gate := { w.gate with
          ready := none
          pendingOpenRetry := some ⟨g, w.gate.closeEpoch, w.opens⟩ }
        opens := w.opens + 1 } := by
    simp [gateNext, openGate, bne, hg, hst]
  rw [hn]
  refine ⟨_, rfl, rfl, (hasStaleCriticalSections_iff h.counted).mp hst, ?_⟩
  intro hmem
  exact lt_irrefl _ (h.fired _ hmem)

theorem awaits_next (h : Sound w) (hev : ¬ Supersedes w event) (ha : Awaits w callback) :
    Awaits (gateNext w event) callback := by
  cases event with
  | close g =>
    have hlt : g < w.gate.generation := not_not.mp hev
    have hnx : gateNext w (.close g) = w := by
      rw [gateNext, close, if_pos hlt]
    rw [hnx]
    exact ha
  | openGate g retry =>
    have hg : ¬ (g == w.gate.generation) = true := hev
    have hnx : gateNext w (.openGate g retry) = { w with opens := w.opens + 1 } := by
      simp [gateNext, openGate, bne, hg]
    rw [hnx]
    exact ha
  | enterCriticalSection lease =>
    rcases enterCriticalSection_cases w lease with hnx | hnx
    · rw [hnx]
      exact ha
    rw [hnx, Awaits, stale_enter]
    exact ha
  | release k =>
    cases hk : w.sections[k]? with
    | none =>
      simp only [gateNext, hk]
      exact ha
    | some s =>
      cases hs : s.released with
      | true =>
        simp only [gateNext, hk, hs, if_true]
        exact ha
      | false =>
        rcases release_cases h hk hs with ⟨hnx, hstale⟩ | ⟨pending, hp, hdrained, hnx⟩
        · rw [hnx]
          rcases ha with ⟨pending, hp, hcal, -, hnot⟩ | ⟨hfired, hn⟩
          · exact .inl ⟨pending, hp, hcal, hstale pending hp, hnot⟩
          · exact .inr ⟨hfired, fun hst => hn (stale_of_stale_drop hst)⟩
        rw [hnx]
        right
        refine ⟨mem_append.mpr ?_, hdrained⟩
        rcases ha with ⟨pending', hp', rfl, -, -⟩ | ⟨hfired, -⟩
        · rw [hp, Option.some.injEq] at hp'
          exact .inr (mem_singleton.mpr (congrArg _ hp'.symm))
        · exact .inl hfired

section Run

variable {generation : G} {events : List (GateEvent G)}

theorem sound_at (generation : G) (events : List (GateEvent G)) (n : ℕ) :
    Sound (gateAt generation events n) := by
  apply stateAt_invariant (sound_initial generation)
  intro w event h
  exact sound_next h event

theorem closeEpoch_mono (generation : G) (events : List (GateEvent G)) {n k : ℕ} (h : n ≤ k) :
    (gateAt generation events n).gate.closeEpoch ≤ (gateAt generation events k).gate.closeEpoch := by
  refine stateAt_from (P := fun w : GateWorld G =>
    (gateAt generation events n).gate.closeEpoch ≤ w.gate.closeEpoch) h le_rfl ?_
  exact fun _ event _ _ ih => ih.trans (closeEpoch_next _ event).1

theorem awaits_at {n m callback : ℕ} {event : GateEvent G} (hev : events[n]? = some event)
    (hacc : Accepts (gateAt generation events n) event callback) (hnm : n < m)
    (hbet : ∀ k event', n < k → k < m → events[k]? = some event' →
      ¬ Supersedes (gateAt generation events k) event') :
    Awaits (gateAt generation events m) callback := by
  induction m, hnm using Nat.le_induction with
  | base =>
    rw [gateAt, stateAt_succ hev]
    exact awaits_accepted (sound_at generation events n) hacc
  | succ m hnm ih =>
    have hb := ih fun k event' hk hkm => hbet k event' hk (Nat.lt_succ_of_lt hkm)
    rcases stateAt_step gateNext { gate := { generation } } events m with ⟨-, hs⟩ |
      ⟨event', hev', hn⟩
    · rw [gateAt, hs]
      exact hb
    rw [gateAt, hn]
    exact awaits_next (sound_at generation events m)
      (hbet m event' hnm (Nat.lt_succ_self m) hev') hb

end Run

/-- Every run of the gate, from any first generation, is fenced. -/
theorem gate_fences (generation : G) (events : List (GateEvent G)) : Fences generation events := by
  constructor
  · intro n path hord hallowed
    exact (sound_at generation events n).ready (ready_isSome_of_allowed hord hallowed)
  · intro n m k paths lease g hlease hnm hmk hclose htakes
    have hepoch : lease.closeEpoch = (gateAt generation events n).gate.closeEpoch := by
      unfold captureLease at hlease
      split at hlease
      · cases hlease
      cases hlease
      rfl
    have hm : (gateAt generation events m).gate.closeEpoch <
        (gateAt generation events (m + 1)).gate.closeEpoch := by
      have hnx := (closeEpoch_next (gateAt generation events m) (.close g)).2 g rfl htakes
      rw [gateAt, gateAt, stateAt_succ hclose]
      exact hnx
    have hb := closeEpoch_mono generation events hnm
    have ha := closeEpoch_mono generation events (show m + 1 ≤ k from hmk)
    have hne : lease.closeEpoch ≠ (gateAt generation events k).gate.closeEpoch := by omega
    have hc : (gateAt generation events k).gate.isLeaseCurrent lease = false := by
      simp [isLeaseCurrent, hne]
    refine ⟨hc, ?_⟩
    simp [enterCriticalSection, hc]
  · intro n
    exact (sound_at generation events n).counted
  · intro n
    exact (sound_at generation events n).once
  intro n m event callback hev hacc hnm hbet
  rcases awaits_at hev hacc hnm hbet with ⟨-, -, -, hs, hnot⟩ | ⟨hfired, hn⟩
  · exact ⟨fun hmem => absurd hmem hnot, fun hn => absurd hs hn⟩
  · exact ⟨fun _ => hn, fun _ => hfired⟩

/-- The lease of a note, captured while the fifth generation was open. -/
def openLease : RemoteProjectionPolicyLease ℕ :=
  { generation := 5, closeEpoch := 1, paths := [js "a.md"] }

/-- The last call closes an older generation. -/
def staleClose : List (GateEvent ℕ) := [.close 5, .openGate 5 false, .close 3]

/-- A lease outlives the close of an older generation. -/
theorem stale_close_keeps_lease :
    (gateAt 0 staleClose 2).gate.captureLease [js "a.md"] = some openLease ∧
      staleClose[2]? = some (.close 3) ∧
      (gateAt 0 staleClose 3).gate.isLeaseCurrent openLease = true := by
  refine ⟨?_, rfl, ?_⟩
  · rfl
  · decide

end Fencing

end Kaos.Runtime
