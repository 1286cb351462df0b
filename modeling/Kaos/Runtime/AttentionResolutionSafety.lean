import Kaos.Runtime.AttentionResolution

/-! An Attention entry is cleared at agreement if nothing changes that is not checked again. -/
namespace Kaos.Runtime

open Kaos.Lib Kaos.Sync Kaos.Utils AttentionLane AttentionPhase

variable {η : Type*}

namespace AttentionPhase

/-- The remote text has been chosen and is still to be written. -/
def keepsContent : AttentionPhase η → Bool
  | .remoteRead .. => true
  | .remoteDiscard => true
  | .flushing .useRemote none => true
  | _ => false

/-- The path's `Y.Text` is not compared any more. -/
def keepsText : AttentionPhase η → Bool
  | .flushing .useRemote (some _) => true
  | .flushing (.heal _) (some _) => true
  | .settling .clears call .stat => call.text.isNone
  | .settling .clears call .hash => call.text.isNone
  | .settling .clears call (.reading ..) => call.text.isNone
  | .settling .clears _ (.returned settled) => settled
  | _ => false

/-- The file that has been read for the last time. -/
def readFile : AttentionPhase η → Option ℕ
  | .settling .clears _ (.reading file (some _)) => some file
  | .settling .clears call (.returned true) => some call.file
  | .finalRead _ true call (some _) => some call.file
  | _ => none

/-- The file that is not looked up again. -/
def exactFile : AttentionPhase η → Option ℕ
  | .settling .clears call (.returned true) => some call.file
  | _ => none

/-- The baseline has been settled. -/
def keepsBaseline : AttentionPhase η → Bool
  | .settling _ _ (.returned settled) => settled
  | .finalRead _ settled _ _ => settled
  | _ => false

end AttentionPhase

/-- The environment leaves alone what will not be checked again, and the remote text until it is
written; and once it is written it has a file. -/
def Undisturbed (lane : AttentionLane η) : AttentionEvent η → Prop
  | .world w =>
    (lane.phase.keepsContent = true →
      w.text = lane.world.text ∧ ∀ text ∈ w.text, w.content text = lane.world.content text) ∧
    (lane.phase.keepsText = true → w.text = lane.world.text) ∧
    (∀ file ∈ lane.phase.readFile, w.disk file = lane.world.disk file) ∧
    (∀ file ∈ lane.phase.exactFile, w.isExactFile file = lane.world.isExactFile file) ∧
    (lane.phase.keepsBaseline = true →
      w.diskIndex.bind (·.contentHash) = lane.world.diskIndex.bind (·.contentHash))
  | .resume answer => ∀ written, lane.phase = .flushing .useRemote (some written) →
    answer.writeSettled = true → lane.world.file ≠ none
  | _ => True

/-- The file and the baseline have the content, and the path's `Y.Text` is one that had it when it
was applied, so that it has changed since at most. -/
structure AgreedOn (sha : JsString → η) (episode : ℕ) (content : JsString)
    (applied : Option (ℕ × JsString)) (w : AttentionWorld η) : Prop where
  entry : w.preservedUnresolved = some episode
  file : ∃ file, w.isExactFile file = true ∧ w.disk file = some content
  baseline : w.diskIndex.bind (·.contentHash) = some (sha content)
  text : ∃ text, w.text = some text ∧ applied = some (text, content)

namespace AttentionLane

/-- If the entry has been cleared, it was at agreement on what the operation has chosen. -/
def Agreed (sha : JsString → η) (lane : AttentionLane η) : Prop :=
  ∀ w ∈ lane.cleared, ∃ content ∈ lane.chosen, AgreedOn sha lane.episode content lane.applied w

def Chose (lane : AttentionLane η) (content : JsString) (text : ℕ) : Prop :=
  lane.chosen = some content ∧ lane.applied = some (text, content)

/-- The path's text is still the one that has been chosen. -/
def HoldsRemote (lane : AttentionLane η) : Prop :=
  ∃ text, lane.world.text = some text ∧ lane.chosen = some (lane.world.content text)

end AttentionLane

/-- The text that is to be compared at last. -/
def AfterSettlement.Expects (text : ℕ) : AfterSettlement → Prop
  | .clears => True
  | .keepLocal expected => expected = text
  | .useMerged expected => expected = text
  | .freshDiskEvent expected => expected = text

/-- What is known while the baseline of a chosen text is settled. -/
structure SettlementSound (sha : JsString → η) (lane : AttentionLane η)
    (after : AfterSettlement) (call : BaselineSettlement η) (phase : SettlementPhase)
    (text : ℕ) : Prop where
  chose : lane.Chose call.content text
  expects : after.Expects text
  expected : ∀ t ∈ call.text, t = text
  held : (settling after call phase).keepsText = true → lane.world.text = some text
  read : ∀ file read, phase = .reading file (some read) → after = .clears →
    lane.world.disk file = read
  baseline : phase = .returned true →
    lane.world.diskIndex.bind (·.contentHash) = some (sha call.content)
  file : phase = .returned true → after = .clears →
    lane.world.isExactFile call.file = true ∧ lane.world.disk call.file = some call.content

/-- What is known where the operation waits. -/
def AttentionPhase.Meaning (sha : JsString → η) (lane : AttentionLane η) :
    AttentionPhase η → Prop
  | .keepDiscard read text => lane.Chose read.content text
  | .mergedDiscardCrdt merge => lane.Chose merge.mergedText merge.text
  | .mergedDiscardDisk merge => lane.Chose merge.mergedText merge.text
  | .remoteRead .. => lane.HoldsRemote
  | .remoteDiscard => lane.HoldsRemote
  | .flushing (.useMerged text _ mergedText) _ => lane.Chose mergedText text
  | .flushing .useRemote none => lane.HoldsRemote
  | .flushing .useRemote (some (text, content)) =>
    lane.world.text = some text ∧ lane.chosen = some content
  | .flushing (.heal _) none => True
  | .flushing (.heal _) (some (text, _)) => lane.world.text = some text
  | .freshAttempted event text => lane.Chose event.content text
  | .settling after call phase =>
    ∃ text, SettlementSound sha lane after call phase text
  | .finalRead text settled call read =>
    lane.Chose call.content text ∧
    (settled = true → lane.world.diskIndex.bind (·.contentHash) = some (sha call.content)) ∧
    (settled = true → ∀ content, read = some content → lane.world.disk call.file = content)
  | _ => True

/-- The invariant of an operation: until it is over it has cleared nothing. -/
structure AttentionSound (sha : JsString → η) (lane : AttentionLane η) : Prop where
  agreed : lane.Agreed sha
  ongoing : lane.phase ≠ .done → lane.cleared = none
  meaning : lane.phase.Meaning sha lane

namespace AttentionSound

variable {sha : JsString → η} {lane : AttentionLane η} {content : JsString}
  {text : ℕ}

theorem finish (hcleared : lane.cleared = none) :
    AttentionSound sha lane.finish where
  agreed := by simp [AttentionLane.Agreed, AttentionLane.finish, hcleared]
  ongoing := fun h => absurd rfl h
  meaning := trivial

theorem awaiting {phase : AttentionPhase η} (hcleared : lane.cleared = none)
    (hm : phase.Meaning sha (lane.awaiting phase)) :
    AttentionSound sha (lane.awaiting phase) where
  agreed := by simp [AttentionLane.Agreed, AttentionLane.awaiting, hcleared]
  ongoing := fun _ => hcleared
  meaning := hm

theorem clear (hchosen : lane.chosen = some content)
    (hagr : AgreedOn sha lane.episode content lane.applied lane.world) :
    AttentionSound sha lane.clear where
  agreed := by
    intro w hw
    obtain rfl : lane.world = w := by simpa [AttentionLane.clear] using hw
    exact ⟨content, hchosen, hagr⟩
  ongoing := fun h => absurd rfl h
  meaning := trivial

variable {after : AfterSettlement} {stat : Option (ℕ × ℕ)} {file : ℕ}

theorem settle {expected : Option ℕ} (hcleared : lane.cleared = none)
    (hchose : lane.Chose content text) (hafter : after.Expects text)
    (hexpected : ∀ t ∈ expected, t = text) (hheld : expected = none → lane.world.text = some text) :
    AttentionSound sha (lane.settle after content stat file expected) := by
  refine awaiting hcleared ⟨text, ?_⟩
  refine
    { chose := hchose, expects := hafter, expected := hexpected, held := ?_, read := ?_
      baseline := ?_, file := ?_ }
  · intro h
    apply hheld
    cases stat <;> cases after <;> simp_all [keepsText]
  · intro _ _ h
    cases stat <;> simp at h
  · intro h
    cases stat <;> simp at h
  intro h
  cases stat <;> simp at h

/-- The baseline is settled for the text that was chosen, which is passed along. -/
theorem settleText (hcleared : lane.cleared = none) (hchose : lane.Chose content text)
    (ha : after.Expects text) :
    AttentionSound sha (lane.settle after content stat file (some text)) := by
  refine settle hcleared hchose ha ?_ ?_
  · rintro t ⟨⟩
    rfl
  · nofun

variable {call : BaselineSettlement η}

theorem settled {result saved : Bool} (hcleared : lane.cleared = none)
    (h : SettlementSound sha lane after call (.returned result) text) :
    AttentionSound sha (lane.settled after call (result && saved)) := by
  have hf : ∀ t, t = text →
      (finalRead t (result && saved) call none).Meaning sha
        (lane.awaiting (.finalRead t (result && saved) call none)) := by
    rintro t rfl
    refine ⟨h.chose, ?_, ?_⟩
    · intro hset
      have hr : result = true := by
        simp only [Bool.and_eq_true] at hset
        exact hset.1
      exact h.baseline (by rw [hr])
    · nofun
  cases after with
  | clears =>
    simp only [AttentionLane.settled]
    split
    · rename_i hif
      simp only [Bool.and_eq_true, episodeIsCurrent, decide_eq_true_eq] at hif
      obtain ⟨⟨rfl, -⟩, he⟩ := hif
      obtain ⟨hexact, hd⟩ := h.file rfl rfl
      exact clear h.chose.1
        { entry := he
          file := ⟨call.file, hexact, hd⟩
          baseline := h.baseline rfl
          text := ⟨text, h.held rfl, h.chose.2⟩ }
    · exact finish hcleared
  | keepLocal t | freshDiskEvent t =>
    simp only [AttentionLane.settled]
    split
    · exact awaiting hcleared (hf t h.expects)
    · exact finish hcleared
  | useMerged t => exact awaiting hcleared (hf t h.expects)

theorem finalChecked {settled : Bool} {read : Option JsString} (hcleared : lane.cleared = none)
    (h : (finalRead text settled call (some read)).Meaning sha lane) :
    AttentionSound sha (lane.finalChecked text settled call read) := by
  obtain ⟨hchose, hb, hd⟩ := h
  unfold AttentionLane.finalChecked
  split
  · rename_i hif
    simp only [Bool.and_eq_true, episodeIsCurrent, decide_eq_true_eq] at hif
    obtain ⟨⟨⟨⟨⟨hset, he⟩, hr⟩, hexact⟩, ht⟩, -⟩ := hif
    exact clear hchose.1
      { entry := he
        file := ⟨call.file, hexact, (hd hset _ rfl).trans hr⟩
        baseline := hb hset
        text := ⟨text, ht, hchose.2⟩ }
  · exact finish hcleared

section

variable {merge : AppliedMerge} (hcleared : lane.cleared = none)
  (hchose : lane.Chose merge.mergedText merge.text)
include hcleared hchose

theorem flushMerge : AttentionSound sha (lane.flushMerge merge) := by
  unfold AttentionLane.flushMerge
  split
  · exact awaiting hcleared hchose
  · exact finish hcleared

theorem discardDisk : AttentionSound sha (lane.discardDisk merge) := by
  unfold AttentionLane.discardDisk
  split
  · exact flushMerge hcleared hchose
  · exact awaiting hcleared hchose

end

theorem flushRemote (hcleared : lane.cleared = none) (hholds : lane.HoldsRemote) :
    AttentionSound sha (lane.flushRemote .useRemote) := by
  unfold AttentionLane.flushRemote
  split
  · exact awaiting hcleared hholds
  · exact finish hcleared

variable {event : FreshDiskEvent}

theorem attemptFresh {crdtContent : JsString} (hcleared : lane.cleared = none) :
    AttentionSound sha (lane.attemptFresh event text crdtContent) := by
  unfold AttentionLane.attemptFresh
  split
  · exact finish hcleared
  dsimp only
  split
  · exact finish hcleared
  split
  · exact finish hcleared
  · exact awaiting hcleared trivial

theorem beginFresh (hcleared : lane.cleared = none) :
    AttentionSound sha (lane.beginFresh event) := by
  unfold AttentionLane.beginFresh
  split
  · exact finish hcleared
  split
  · exact finish hcleared
  dsimp only
  split
  · exact finish hcleared
  split
  · exact attemptFresh hcleared
  · exact awaiting hcleared trivial

theorem beginHeal {diskContent : JsString} (hcleared : lane.cleared = none) :
    AttentionSound sha (lane.beginHeal diskContent) := by
  unfold AttentionLane.beginHeal
  split
  · exact finish hcleared
  split
  · rename_i file text _ _
    dsimp only
    split
    · have hchose : AttentionLane.Chose
          { lane with chosen := some diskContent, applied := some (text, diskContent) }
          diskContent text := ⟨rfl, rfl⟩
      exact settleText hcleared hchose trivial
    · exact awaiting hcleared trivial
  · exact finish hcleared

theorem beginRemote (hcleared : lane.cleared = none) : AttentionSound sha lane.beginRemote := by
  unfold AttentionLane.beginRemote
  split
  · exact finish hcleared
  · rename_i text ht
    dsimp only
    split
    · exact awaiting hcleared ⟨text, ht, rfl⟩
    · exact flushRemote hcleared ⟨text, ht, rfl⟩

theorem beginMerged {choice : MergedChoice} (hcleared : lane.cleared = none) :
    AttentionSound sha (lane.beginMerged choice) := by
  unfold AttentionLane.beginMerged
  split
  · exact finish hcleared
  split
  · exact awaiting hcleared trivial
  · exact finish hcleared

variable {w : AttentionWorld η}

/-- Every operation begins soundly. -/
theorem beginAttention {operation : AttentionOperation}
    (hbegin : beginAttention operation w = some lane) : AttentionSound sha lane := by
  obtain ⟨episode, -, rfl⟩ := Option.map_eq_some_iff.mp hbegin
  have hidle : AttentionSound sha
      ({ world := w, episode, phase := .done } : AttentionLane η).finish := finish rfl
  cases operation with
  | keepLocal =>
    dsimp only
    split
    · split
      · exact awaiting rfl trivial
      · exact hidle
    · exact hidle
  | useRemote =>
    dsimp only
    split
    · exact beginRemote rfl
    · exact hidle
  | useMerged choice =>
    dsimp only
    split
    · exact beginMerged rfl
    · exact hidle
  | freshDiskEvent event => exact beginFresh rfl
  | healFencedWinner diskContent => exact beginHeal rfl

/-- What the environment does to a lane that it leaves undisturbed. -/
theorem world (h : AttentionSound sha lane) (hcond : Undisturbed lane (.world w)) :
    AttentionSound sha { lane with world := w } := by
  obtain ⟨hc, ht, hd, hexact, hb⟩ := hcond
  refine { agreed := h.agreed, ongoing := h.ongoing, meaning := ?_ }
  have hm := h.meaning
  have hrem : lane.phase.keepsContent = true → lane.HoldsRemote →
      ({ lane with world := w } : AttentionLane η).HoldsRemote := by
    rintro hk ⟨text, hat, hchosen⟩
    obtain ⟨hsa, hcon⟩ := hc hk
    refine ⟨text, hsa.trans hat, ?_⟩
    rw [hchosen, hcon text (hsa.trans hat)]
  generalize hph : lane.phase = phase at hm hc ht hd hexact hb hrem
  cases phase with
  | remoteRead file crdtContent read | remoteDiscard => exact hrem rfl hm
  | flushing flush written =>
    cases flush with
    | useMerged text file mergedText => exact hm
    | useRemote =>
      cases written with
      | none => exact hrem rfl hm
      | some written => exact ⟨(ht rfl).trans hm.1, hm.2⟩
    | heal file =>
      cases written with
      | none => trivial
      | some written => exact (ht rfl).trans hm
  | settling after call phase =>
    obtain ⟨text, hs⟩ := hm
    refine ⟨text, ?_⟩
    refine
      { chose := hs.chose, expects := hs.expects, expected := hs.expected
        held := fun hk => (ht hk).trans (hs.held hk)
        read := ?_, baseline := ?_, file := ?_ }
    · rintro file read rfl rfl
      exact (hd file rfl).trans (hs.read file read rfl rfl)
    · rintro rfl
      exact (hb rfl).trans (hs.baseline rfl)
    rintro rfl rfl
    obtain ⟨hat, hcon⟩ := hs.file rfl rfl
    exact ⟨(hexact _ rfl).trans hat, (hd _ rfl).trans hcon⟩
  | finalRead text settled call read =>
    obtain ⟨hchose, hset, hr⟩ := hm
    refine ⟨hchose, ?_, ?_⟩
    · rintro rfl
      exact (hb rfl).trans (hset rfl)
    rintro rfl content rfl
    exact (hd _ rfl).trans (hr rfl content rfl)
  | _ => exact hm

section Resume

variable [DecidableEq η] {fastDiff : Differ UInt16}

omit [DecidableEq η] in
theorem publishLocal {read : StableAttentionRead} {ensured : Option ℕ}
    (hcleared : lane.cleared = none) :
    AttentionSound sha (lane.publishLocal fastDiff read ensured) := by
  unfold AttentionLane.publishLocal
  dsimp only
  split
  · exact finish hcleared
  split
  · exact finish hcleared
  split
  · exact awaiting hcleared ⟨rfl, rfl⟩
  · exact settleText hcleared ⟨rfl, rfl⟩ rfl

omit [DecidableEq η] in
theorem applyMerge {choice : MergedChoice} {previousContent : JsString} {file session : ℕ}
    {read : StableAttentionRead} (hcleared : lane.cleared = none) :
    AttentionSound sha
      (lane.applyMerge fastDiff choice text previousContent file session read) := by
  unfold AttentionLane.applyMerge
  dsimp only
  split
  · exact finish hcleared
  split
  · exact discardDisk hcleared ⟨rfl, rfl⟩
  · exact awaiting hcleared ⟨rfl, rfl⟩

omit [DecidableEq η] in
theorem commitFresh {event : FreshDiskEvent} {d : ClosedFileDecision} {ticket : MutationTicket}
    {read : Option JsString} (hcleared : lane.cleared = none) :
    AttentionSound sha (lane.commitFresh fastDiff event d ticket read) := by
  unfold AttentionLane.commitFresh
  dsimp only
  split
  · exact awaiting hcleared ⟨rfl, rfl⟩
  · exact finish hcleared

theorem heal {file : ℕ} {diskContent crdtContent : JsString} {baselineHash : Option η}
    (hcleared : lane.cleared = none) :
    AttentionSound sha
      (lane.heal sha file diskContent crdtContent baselineHash) := by
  unfold AttentionLane.heal
  split
  · exact beginFresh hcleared
  split
  · unfold AttentionLane.flushRemote
    split
    · exact awaiting hcleared trivial
    · exact finish hcleared
  · exact finish hcleared

omit [DecidableEq η] in
/-- With the file it has been written to, a remote text goes on to its baseline. -/
theorem flushed {flush : AttentionFlush} (hcleared : lane.cleared = none)
    (hmean : (flushing flush (some (text, content))).Meaning sha lane)
    (hfile : flush = .useRemote → lane.world.file ≠ none) :
    AttentionSound sha (lane.flushed flush text content) := by
  cases flush with
  | useMerged merged file mergedText =>
    simp only [AttentionLane.flushed]
    split
    · exact settleText hcleared hmean rfl
    · exact finish hcleared
  | useRemote =>
    obtain ⟨ht, hchosen⟩ := hmean
    simp only [AttentionLane.flushed]
    split
    · refine settle hcleared ⟨hchosen, rfl⟩ trivial ?_ fun _ => ht
      exact nofun
    · rename_i hn
      exact absurd hn (hfile rfl)
  | heal file =>
    refine settle hcleared ⟨rfl, rfl⟩ trivial ?_ fun _ => hmean
    exact nofun

variable {answer : AttentionAnswer}

/-- An await of the settlement ends. What it checks last it knows when it returns. -/
theorem resumeSettlement {after : AfterSettlement} {call : BaselineSettlement η}
    {phase : SettlementPhase} (hcleared : lane.cleared = none)
    (hph : lane.phase = .settling after call phase) (h : AttentionSound sha lane) :
    AttentionSound sha (lane.resumeSettlement sha after call answer phase) := by
  have hm := h.meaning
  rw [hph] at hm
  obtain ⟨text, hs⟩ := hm
  have hlost : AttentionSound sha
      (lane.awaiting (.settling after call (.returned false))) := by
    refine awaiting hcleared ⟨text, hs.chose, hs.expects, hs.expected, ?_, ?_, ?_, ?_⟩
    · intro hk
      cases after <;> simp [keepsText] at hk
    · nofun
    · nofun
    · nofun
  cases phase with
  | stat | hash =>
    simp only [AttentionLane.resumeSettlement]
    split
    · refine awaiting hcleared ⟨text, hs.chose, hs.expects, hs.expected, ?_, ?_, ?_, ?_⟩
      · intro hk
        apply hs.held
        cases after <;> exact hk
      · nofun
      · nofun
      · nofun
    · exact hlost
  | reading file read =>
    cases read with
    | none => exact h
    | some read =>
      simp only [AttentionLane.resumeSettlement]
      split
      · rename_i hif
        simp only [isSettlementCurrent, Bool.and_eq_true, decide_eq_true_eq] at hif
        obtain ⟨⟨⟨⟨⟨⟨hexact, hf⟩, ht⟩, -⟩, hr⟩, -⟩, -⟩ := hif
        refine awaiting hcleared
          ⟨text, hs.chose, hs.expects, hs.expected, ?_, ?_, ?_, ?_⟩
        · intro hk
          cases hc : call.text with
          | none =>
            apply hs.held
            cases after <;> simp_all [keepsText]
          | some t =>
            obtain rfl := hs.expected t hc
            rw [hc] at ht
            simp only [Option.all_some, Bool.and_eq_true, decide_eq_true_eq] at ht
            exact ht.1
        · nofun
        · intro _
          rfl
        intro _ hclears
        subst hf
        exact ⟨hexact, (hs.read _ _ rfl hclears).trans hr⟩
      · exact hlost
  | returned result => exact settled hcleared hs

/-- An await ends. -/
theorem resume (h : AttentionSound sha lane) (hcond : Undisturbed lane (.resume answer)) :
    AttentionSound sha (lane.resume fastDiff sha answer) := by
  have hm := h.meaning
  have hg := h.ongoing
  unfold AttentionLane.resume
  generalize hph : lane.phase = phase at hm hg
  cases phase with
  | done => exact h
  | keepRead file =>
    dsimp only
    split
    · exact publishLocal (hg (by simp))
    · exact finish (hg (by simp))
  | keepDiscard read text => exact settleText (hg (by simp)) hm rfl
  | mergedRead choice text previousContent file session =>
    dsimp only
    split
    · exact applyMerge (hg (by simp))
    · exact finish (hg (by simp))
  | mergedDiscardCrdt merge => exact discardDisk (hg (by simp)) hm
  | mergedDiscardDisk merge => exact flushMerge (hg (by simp)) hm
  | remoteRead file crdtContent read =>
    rcases read with _ | _ | diskContent
    · exact h
    · exact finish (hg (by simp))
    dsimp only
    split
    · exact awaiting (hg (by simp)) hm
    · exact flushRemote (hg (by simp)) hm
  | remoteDiscard => exact flushRemote (hg (by simp)) hm
  | freshHash event text crdtContent baselineHash =>
    dsimp only
    split
    · exact finish (hg (by simp))
    · exact awaiting (hg (by simp)) trivial
  | freshDiscard event text crdtContent => exact attemptFresh (hg (by simp))
  | freshReading event d ticket read =>
    cases read with
    | none => exact h
    | some read => exact commitFresh (hg (by simp))
  | freshAttempted event text =>
    dsimp only
    split
    · exact settleText (hg (by simp)) hm rfl
    · exact finish (hg (by simp))
  | healHashCrdt file diskContent crdtContent baselineHash =>
    exact awaiting (hg (by simp)) trivial
  | healHashDisk file diskContent crdtContent baselineHash => exact heal (hg (by simp))
  | flushing flush written =>
    cases written with
    | none => exact finish (hg (by simp))
    | some written =>
      dsimp only
      split
      · rename_i hset
        refine flushed (hg (by simp)) hm ?_
        rintro rfl
        exact hcond written hph hset
      · exact finish (hg (by simp))
  | settling after call phase => exact resumeSettlement (hg (by simp)) hph h
  | finalRead text settled call read =>
    cases read with
    | none => exact h
    | some read => exact finalChecked (hg (by simp)) hm

/-- What any step keeps that does not disturb the operation. -/
theorem next {e : AttentionEvent η} (h : AttentionSound sha lane) (hcond : Undisturbed lane e) :
    AttentionSound sha (lane.next fastDiff sha e) := by
  have hm := h.meaning
  have hg := h.ongoing
  cases e with
  | world w => exact world h hcond
  | resume answer => exact resume h hcond
  | read =>
    simp only [AttentionLane.next]
    split
    · rename_i hph
      rw [hph] at hm hg
      exact awaiting (hg (by simp)) hm
    · rename_i hph
      rw [hph] at hg
      exact awaiting (hg (by simp)) trivial
    · rename_i after call file hph
      rw [hph] at hm hg
      obtain ⟨text, hs⟩ := hm
      refine awaiting (hg (by simp))
        ⟨text, hs.chose, hs.expects, hs.expected, ?_, ?_, ?_, ?_⟩
      · intro hk
        apply hs.held
        cases after <;> exact hk
      · rintro _ _ ⟨⟩ -
        rfl
      · nofun
      · nofun
    · rename_i hph
      rw [hph] at hm hg
      refine awaiting (hg (by simp)) ⟨hm.1, hm.2.1, ?_⟩
      rintro - content ⟨⟩
      rfl
    · exact h
  | write =>
    simp only [AttentionLane.next]
    split
    · rename_i flush hph
      rw [hph] at hm hg
      refine awaiting (hg (by simp)) ?_
      cases flush with
      | useMerged text file mergedText => exact hm
      | useRemote =>
        obtain ⟨text, ht, hchosen⟩ := hm
        rw [ht]
        exact ⟨ht, hchosen⟩
      | heal file =>
        cases ht : lane.world.text with
        | none => trivial
        | some text => exact ht
    · exact h

end Resume

end AttentionSound

end Kaos.Runtime
