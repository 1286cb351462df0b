import Kaos.Runtime.ReadSkipSafety

/-! Runs of passes, updates, renames and edits on a vault with its disk index. -/
namespace Kaos.Runtime

open Kaos.Lib IndexedPath Option

variable {π η : Type*} [DecidableEq π] [DecidableEq η] {sha : JsString → η}
  {v v' : π → IndexedPath π η} {event : IndexEvent π η}

/-- Events one after another, each under a condition. -/
inductive IndexRun (sha : JsString → η)
    (cond : (π → IndexedPath π η) → IndexEvent π η → Prop) :
    (π → IndexedPath π η) → (π → IndexedPath π η) → Prop
  | refl {v : π → IndexedPath π η} : IndexRun sha cond v v
  | step {v v' : π → IndexedPath π η} {now : ℕ} {event : IndexEvent π η} :
      IndexRun sha cond v v' → cond v' event → IndexRun sha cond v (indexNext sha v' now event)

/-- A file that changes or comes to a path has a stat that is not remembered there. -/
def FreshStats (v : π → IndexedPath π η) (event : IndexEvent π η) : Prop :=
  match event with
  | .setFile path file => ∀ f, file = some f → ¬ (v path).Remembers f.stat
  | .renameFile oldPath newPath => ∀ f, (v oldPath).file = some f → ¬ (v newPath).Remembers f.stat
  | .flushWrite path stat _ => (v path).file.map (·.bytes) ≠ (v path).text →
    ¬ (v path).Remembers stat
  | .settleFlush _ path stat _ => (v path).file.map (·.bytes) ≠ (v path).text →
    ¬ (v path).Remembers stat
  | _ => True

/-- No hash gets the stat of other bytes: a pass settles or excludes what has changed, an update
without a text keeps the stat, an entry goes where its file has gone; and a pass decides by the
entry that the index had when it took the stat. -/
def Careful (sha : JsString → η) (v : π → IndexedPath π η)
    (event : IndexEvent π η) : Prop :=
  match event with
  | .moveIndexEntry oldPath newPath => ∀ entry, (v oldPath).entry = some entry →
    (v newPath).renamedFrom = some (oldPath, some entry)
  | .decideSkip pass path => ∀ scan bytes entry, (v path).scans pass = some scan →
    scan.atStat = some (bytes, entry) → scan.indexForSkip = entry
  | .commit pass => ∀ path scan, (v path).scans pass = some scan → (v path).Commits sha scan
  | .endUpdate update path settledContent _ => settledContent = none → ∀ under entry,
    (v path).updates update = some under → (v path).entry = some entry →
      entry.contentHash ≠ none → entry.stat = under.stat
  | _ => True

omit [DecidableEq η] in
/-- One path is replaced by one that is sound. -/
theorem sound_update (h : ∀ path, (v path).Sound sha) (path : π) {s : IndexedPath π η}
    (hs : s.Sound sha) (p : π) : (Function.update v path s p).Sound sha := by
  by_cases heq : p = path
  · subst heq
    rw [Function.update_self]
    exact hs
  rw [Function.update_of_ne heq]
  exact h p

omit [DecidableEq η] in
theorem sound_renameFile (h : ∀ path, (v path).Sound sha) {oldPath newPath : π}
    (hfr : ∀ f, (v oldPath).file = some f → ¬ (v newPath).Remembers f.stat) (p : π) :
    (renameFile v oldPath newPath p).Sound sha := by
  have hm : ({ v newPath with
      file := (v oldPath).file
      renamedFrom := some (oldPath, (v oldPath).entry) } : IndexedPath π η).Sound sha := by
    have harr := (h newPath).setFile (v oldPath).file hfr
    refine ⟨harr.real, harr.paired, ?_, harr.scanned, harr.updating⟩
    intro oldPath' entry hren
    cases hren
    exact (h oldPath).paired
  refine sound_update (sound_update h newPath hm) oldPath ((h oldPath).setFile none ?_) p
  exact nofun

omit [DecidableEq η] in
theorem sound_moveIndexEntry (h : ∀ path, (v path).Sound sha) {oldPath newPath : π}
    (hg : ∀ entry, (v oldPath).entry = some entry →
      (v newPath).renamedFrom = some (oldPath, some entry)) (p : π) :
    (moveIndexEntry v oldPath newPath p).Sound sha := by
  cases he : (v oldPath).entry with
  | none =>
    simp only [moveIndexEntry, he]
    exact h p
  | some entry =>
    have hpairs := (h newPath).renamed oldPath (some entry) (hg entry he)
    have hm := sound_update h newPath ((h newPath).setEntry hpairs (v newPath).baselineRevision)
    simp only [moveIndexEntry, he]
    exact sound_update hm oldPath ((hm oldPath).setEntry (.none _) _) p

theorem sound_indexNext (hinj : Function.Injective sha) (h : ∀ path, (v path).Sound sha)
    (now : ℕ) (hfr : FreshStats v event) (hcar : Careful sha v event) (p : π) :
    (indexNext sha v now event p).Sound sha := by
  cases event with
  | setText path text => exact sound_update h path ((h path).setText text) p
  | setFile path file => exact sound_update h path ((h path).setFile file hfr) p
  | renameFile oldPath newPath => exact sound_renameFile h hfr p
  | moveIndexEntry oldPath newPath => exact sound_moveIndexEntry h hcar p
  | flushWrite path stat recordBaseline =>
    exact sound_update h path ((h path).flushWrite stat recordBaseline now hfr).1 p
  | beginPass pass => exact (h p).beginScan pass
  | statFile pass path => exact sound_update h path ((h path).statFile pass) p
  | takeIndex pass => exact (h p).takeIndex pass
  | decideSkip pass path =>
    exact sound_update h path ((h path).decideSkip hinj pass hcar) p
  | readFile pass path => exact sound_update h path ((h path).readFile pass) p
  | dropMissing pass path => exact sound_update h path ((h path).dropMissing pass) p
  | settleDisk pass path => exact sound_update h path ((h path).settleDisk pass) p
  | settleFlush pass path stat recordBaseline =>
    exact sound_update h path ((h path).settleFlush pass stat recordBaseline now hfr) p
  | exclude pass path => exact sound_update h path ((h path).exclude pass) p
  | blockProjection pass path => exact sound_update h path ((h path).blockProjection pass) p
  | commit pass => exact (h p).commit pass now (hcar p)
  | abort pass => exact (h p).abort pass
  | beginUpdate update path => exact sound_update h path ((h path).beginUpdate update) p
  | readUpdate update path => exact sound_update h path ((h path).readUpdate update) p
  | endUpdate update path settledContent current =>
    exact sound_update h path ((h path).endUpdate update settledContent current now hcar) p

/-- Nothing is there, and nothing is known. -/
def emptyVault : π → IndexedPath π η := fun _ =>
  { file := none, text := none, entry := none, baselineRevision := 0 }

omit [DecidableEq π] [DecidableEq η] in
theorem sound_empty (p : π) : ((emptyVault : π → IndexedPath π η) p).Sound sha := by
  constructor
  · rintro _ ⟨⟩
  · rintro _ _ _ ⟨⟩
  · rintro _ _ ⟨⟩
  · rintro _ _ ⟨⟩
  · rintro _ _ ⟨⟩

theorem sound_run (hinj : Function.Injective sha)
    (hrun : IndexRun sha (fun v event => FreshStats v event ∧ Careful sha v event) v v')
    (h : ∀ path, (v path).Sound sha) (p : π) :
    (v' p).Sound sha := by
  induction hrun generalizing p with
  | refl => exact h p
  | step _ hcond ih => exact sound_indexNext hinj ih _ hcond.1 hcond.2 p

omit [DecidableEq π] in
/-- With sound entries an undisturbed pass plans for a path what a pass that reads it plans. -/
theorem reconcile_skips (hinj : Function.Injective sha)
    {s : IndexedPath π η} (hpairs : IndexedPath.Pairs sha s.entry s.file) :
    s.reconcile sha true = s.reconcile sha false := by
  unfold reconcile
  cases hf : s.file with
  | none =>
    cases s.text with
    | none => rfl
    | some crdtContent => rfl
  | some file =>
    cases ht : s.text with
    | none => rfl
    | some crdtContent =>
      simp only [Bool.true_and, Bool.false_and, Bool.false_eq_true, if_false]
      split
      · next hskips =>
        simp only [skipsRead, hf, ht] at hskips
        cases he : s.entry with
        | none => simp [hasChanged, he] at hskips
        | some entry =>
          simp only [he, hasChanged, shouldSkipDiskRead, Bool.and_eq_true, Bool.not_eq_true',
            decide_eq_false_iff_not, not_or, not_not, decide_eq_true_eq, bind_some,
            ne_eq] at hskips
          obtain ⟨⟨hmtime, hs⟩, -, hh⟩ := hskips
          have hsa : entry.stat = file.stat := Prod.ext hmtime hs
          have hequal := hinj (hpairs entry file _ he hf hsa hh.symm)
          rw [if_neg (not_not_intro hequal)]
      · rfl

variable {sha : JsString → η}

/-- In a careful run a file that is skipped had the text that was hashed, a hash on the stat that a
file has is that of its bytes, and an undisturbed pass plans what one that reads every file does. -/
theorem careful_skips_sound (hinjective : Function.Injective sha)
    (hrun : IndexRun sha (fun v event => FreshStats v event ∧ Careful sha v event) emptyVault v) :
    (∀ path pass scan content, (v path).scans pass = some scan → scan.skipped = some content →
      ∃ entry, scan.atStat = some (content, entry)) ∧
    (∀ path, IndexedPath.Pairs sha (v path).entry (v path).file) ∧
    ∀ path, (v path).reconcile sha true = (v path).reconcile sha false := by
  have hs := sound_run hinjective hrun sound_empty
  refine ⟨?_, fun path => (hs path).paired, ?_⟩
  · intro path pass scan content hscan hskip
    exact ((hs path).scanned pass scan hscan).skipped content hskip
  · exact fun path => reconcile_skips hinjective (hs path).paired

section Example

/-- The condition holds of each event where it comes. -/
def AllHold (sha : JsString → η)
    (cond : (π → IndexedPath π η) → IndexEvent π η → Prop) :
    (π → IndexedPath π η) → List (IndexEvent π η) → Prop
  | _, [] => True
  | v, event :: events =>
    cond v event ∧ AllHold sha cond (indexNext sha v 0 event) events

theorem indexRun_foldl {cond : (π → IndexedPath π η) → IndexEvent π η → Prop}
    {events : List (IndexEvent π η)} {w : π → IndexedPath π η}
    (hrun : IndexRun sha cond v w)
    (hh : AllHold sha cond w events) :
    IndexRun sha cond v
      (events.foldl (fun v event => indexNext sha v 0 event) w) := by
  induction events generalizing w with
  | nil => exact hrun
  | cons event events ih => exact ih (.step hrun hh.1) hh.2

/-- A vault with one path, and texts for their own hashes. -/
def runIndex (events : List (IndexEvent Unit JsString)) : Unit → IndexedPath Unit JsString :=
  events.foldl (fun v event => indexNext id v 0 event) emptyVault

/-- A note is settled by a pass, and the next one skips it. -/
def settledPass : List (IndexEvent Unit JsString) :=
  [.setText () (some [1]), .setFile () (some ⟨(1, 1), [1]⟩), .beginPass 0, .statFile 0 (),
    .readFile 0 (), .settleDisk 0 (), .commit 0, .beginPass 1, .statFile 1 (), .takeIndex 1,
    .decideSkip 1 ()]

/-- A note is settled by a pass. It is edited, and a conservative pass, which settles no changed
file, commits the new stat with the old hash; then an authoritative pass comes. -/
def conservativePass : List (IndexEvent Unit JsString) :=
  [.setText () (some [1]), .setFile () (some ⟨(1, 1), [1]⟩), .beginPass 0, .statFile 0 (),
    .readFile 0 (), .settleDisk 0 (), .commit 0, .setFile () (some ⟨(2, 1), [2]⟩), .beginPass 1,
    .statFile 1 (), .readFile 1 (), .commit 1, .beginPass 2, .statFile 2 (), .takeIndex 2,
    .decideSkip 2 ()]

omit [DecidableEq π] [DecidableEq η] in
/-- Between passes and updates only the index remembers a stat. -/
theorem not_remembers {s : IndexedPath π η} {stat : FileStat} (hreal : stat ≠ (0, 0))
    (he : ∀ entry, s.entry = some entry → entry.stat ≠ stat)
    (hscans : ∀ pass, s.scans pass = none) (hupd : ∀ update, s.updates update = none) :
    ¬ s.Remembers stat := by
  rintro (hzero | ⟨entry, hs, hst⟩ | ⟨pass, scan, hscan, -⟩ | ⟨update, under, hunder, -⟩)
  · exact hreal hzero
  · exact he entry hs hst
  · cases (hscans pass).symm.trans hscan
  · cases (hupd update).symm.trans hunder

theorem careful_skips_sound_settled :
    ∃ scan, (runIndex settledPass ()).scans 1 = some scan ∧ scan.skipped = some [1] ∧
      ∃ entry, scan.atStat = some ([1], entry) := by
  have hh : AllHold id (fun v event => FreshStats v event ∧ Careful id v event) emptyVault
      settledPass := by
    refine ⟨⟨trivial, trivial⟩, ⟨?_, trivial⟩, ⟨trivial, trivial⟩, ⟨trivial, trivial⟩,
      ⟨trivial, trivial⟩, ⟨trivial, trivial⟩, ⟨trivial, ?_⟩, ⟨trivial, trivial⟩,
      ⟨trivial, trivial⟩, ⟨trivial, trivial⟩, ⟨trivial, ?_⟩, trivial⟩
    · intro f hf
      cases hf
      exact not_remembers (by decide) (fun entry h => by cases h) (fun _ => rfl) (fun _ => rfl)
    · intro path scan hscan
      cases some.inj hscan
      refine ⟨fun stat entry _ _ hs => ?_, fun content entry hst => ?_⟩
      · cases hs
      · cases hst
    intro scan bytes entry hscan hatS
    cases some.inj hscan
    cases some.inj hatS
    rfl
  exact ⟨_, rfl, rfl, (careful_skips_sound Function.injective_id
    (indexRun_foldl .refl hh)).1 () 1 _ [1] rfl rfl⟩

/-- After a conservative pass an authoritative one does not read a file that has been edited. -/
theorem conservative_pass_hides_edit :
    IndexRun id FreshStats emptyVault (runIndex conservativePass) ∧
    ∃ scan entry, (runIndex conservativePass ()).scans 2 = some scan ∧
      scan.skipped = some [1] ∧ scan.atStat = some ([2], entry) ∧
      (runIndex conservativePass ()).reconcile id true = .nothing ∧
      (runIndex conservativePass ()).reconcile id false = .update [2] [1] := by
  refine ⟨indexRun_foldl .refl ?_, _, _, rfl, rfl, rfl, rfl, rfl⟩
  refine ⟨trivial, ?_, trivial, trivial, trivial, trivial, trivial, ?_, trivial, trivial, trivial,
    trivial, trivial, trivial, trivial, trivial, trivial⟩
  · intro f hf
    cases hf
    exact not_remembers (by decide) (fun entry h => by cases h) (fun _ => rfl) (fun _ => rfl)
  intro f hf
  cases hf
  refine not_remembers (by decide) ?_ ?_ (fun _ => rfl)
  · intro entry he
    cases some.inj he
    decide
  intro pass
  by_cases hpass : pass = 0
  · subst hpass
    rfl
  simp [indexNext, commit, beginScan, statFile,
    readFile, settleDisk, setScan, setFile,
    emptyVault]

end Example

end Kaos.Runtime
