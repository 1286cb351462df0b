import Kaos.Runtime.ReadSkip

/-! As long as no index entry gets a new stat for an old hash, a file that is not read has the text
that was hashed. -/
namespace Kaos.Runtime

open Kaos.Lib Option Function

variable {π η : Type*}

namespace IndexedPath

variable {sha : JsString → η} {s : IndexedPath π η} {pass : ℕ}

/-- The program knows a file with this stat at the path. No file is from before all time. -/
def Remembers (s : IndexedPath π η) (stat : FileStat) : Prop :=
  stat = (0, 0) ∨ (∃ entry, s.entry = some entry ∧ entry.stat = stat) ∨
    (∃ pass scan, s.scans pass = some scan ∧ scan.stat = some stat) ∨
    ∃ update under, s.updates update = some under ∧ under.stat = stat

/-- A hash on the stat of the file is that of its bytes. -/
def Pairs (sha : JsString → η) (entry : Option (DiskIndexEntry η))
    (file : Option DiskFile) : Prop :=
  ∀ e f hash, entry = some e → file = some f → e.stat = f.stat → e.contentHash = some hash →
    hash = sha f.bytes

/-- What a pass has read or settled on the stat that the file still has are its bytes; the entry
there was at the stat is right about the bytes there were; a skip was right. -/
structure ScanSound (sha : JsString → η) (file : Option DiskFile)
    (scan : PathScan η) : Prop where
  current : ∀ f, file = some f → scan.stat = some f.stat → ∀ content,
    scan.diskContent = some content ∨ scan.settled = some content → content = f.bytes
  atStat : ∀ stat bytes entry hash, scan.stat = some stat → scan.atStat = some (bytes, some entry) →
    entry.stat = stat → entry.contentHash = some hash → hash = sha bytes
  stated : ∀ stat, scan.stat = some stat → scan.atStat.isSome
  skipped : ∀ content, scan.skipped = some content → ∃ entry, scan.atStat = some (content, entry)

structure Sound (sha : JsString → η) (s : IndexedPath π η) : Prop where
  real : ∀ file, s.file = some file → file.stat ≠ (0, 0)
  paired : Pairs sha s.entry s.file
  renamed : ∀ oldPath entry, s.renamedFrom = some (oldPath, entry) → Pairs sha entry s.file
  scanned : ∀ pass scan, s.scans pass = some scan → ScanSound sha s.file scan
  updating : ∀ update under, s.updates update = some under → ∀ file, s.file = some file →
    file.stat = under.stat → ∀ content, under.currentDiskContent = some content →
      content = file.bytes

section

variable (h : Sound sha s)
include h

/-- A file with a stat that is not remembered is in nobody's way. -/
theorem Sound.setFile (file : Option DiskFile)
    (hfr : ∀ f, file = some f → ¬ s.Remembers f.stat) :
    Sound sha (s.setFile file) := by
  constructor
  · intro f hf heq
    exact hfr f hf (.inl heq)
  · intro e f hash he hf hs _
    exact absurd (.inr (.inl ⟨e, he, hs⟩)) (hfr f hf)
  · nofun
  · intro pass scan hscan
    have hold := h.scanned pass scan hscan
    refine ⟨?_, hold.atStat, hold.stated, hold.skipped⟩
    intro f hf hs
    exact absurd (.inr (.inr (.inl ⟨pass, scan, hscan, hs⟩))) (hfr f hf)
  · intro update under hunder f hf hs
    exact absurd (.inr (.inr (.inr ⟨update, under, hunder, hs.symm⟩))) (hfr f hf)

/-- The scan of one pass is changed. -/
theorem Sound.setScan {scan : PathScan η} (hscan : ScanSound sha s.file scan) :
    Sound sha (s.setScan pass scan) := by
  refine ⟨h.real, h.paired, h.renamed, ?_, h.updating⟩
  intro pass' scan' hs
  by_cases heq : pass' = pass
  · subst heq
    have hsf : (s.setScan pass' scan).scans pass' = some scan := update_self ..
    cases hsf.symm.trans hs
    exact hscan
  have ho : (s.setScan pass scan).scans pass' = s.scans pass' := update_of_ne heq ..
  exact h.scanned pass' scan' (ho.symm.trans hs)

theorem Sound.setText (text : Option JsString) : Sound sha { s with text } :=
  ⟨h.real, h.paired, h.renamed, h.scanned, h.updating⟩

/-- An index entry is replaced by one that is right. -/
theorem Sound.setEntry {entry : Option (DiskIndexEntry η)} (hpairs : Pairs sha entry s.file)
    (revision : ℕ) : Sound sha { s with entry, baselineRevision := revision } :=
  ⟨h.real, hpairs, h.renamed, h.scanned, h.updating⟩

theorem Sound.beginScan (pass : ℕ) : Sound sha (s.beginScan pass) := by
  refine h.setScan ⟨?_, ?_, ?_, ?_⟩ <;> nofun

theorem Sound.statFile (pass : ℕ) : Sound sha (s.statFile pass) := by
  unfold IndexedPath.statFile
  split
  · next scan file hscan hfi =>
    split
    · exact h
    · next hf =>
      simp only [Bool.or_eq_true, not_or, Bool.not_eq_true, isSome_eq_false_iff,
        isNone_iff_eq_none] at hf
      obtain ⟨⟨hatS, hr⟩, hset⟩ := hf
      refine h.setScan ⟨?_, ?_, fun _ _ => rfl, ?_⟩
      · rintro f _ _ content (hc | hc)
        · cases hr.symm.trans hc
        · cases hset.symm.trans hc
      · intro stat bytes entry hash hs hb
        simp only [Option.some.injEq, Prod.mk.injEq] at hs hb
        obtain ⟨rfl, he⟩ := hb
        subst hs
        exact h.paired entry file hash he hfi
      · intro content hskip
        obtain ⟨entry, hso⟩ := (h.scanned pass scan hscan).skipped content hskip
        cases hatS.symm.trans hso
  · exact h

theorem Sound.takeIndex (pass : ℕ) : Sound sha (s.takeIndex pass) := by
  unfold IndexedPath.takeIndex
  split
  · next scan hscan =>
    have hold := h.scanned pass scan hscan
    exact h.setScan ⟨hold.current, hold.atStat, hold.stated, hold.skipped⟩
  · exact h

theorem Sound.exclude (pass : ℕ) : Sound sha (s.exclude pass) := by
  unfold IndexedPath.exclude
  split
  · next scan hscan =>
    have hold := h.scanned pass scan hscan
    exact h.setScan ⟨hold.current, hold.atStat, hold.stated, hold.skipped⟩
  · exact h

theorem Sound.blockProjection (pass : ℕ) : Sound sha (s.blockProjection pass) := by
  unfold IndexedPath.blockProjection
  split
  · next scan hscan =>
    have hold := h.scanned pass scan hscan
    exact h.setScan ⟨hold.current, hold.atStat, hold.stated, hold.skipped⟩
  · exact h

theorem Sound.dropMissing (pass : ℕ) : Sound sha (s.dropMissingAfterScan pass) := by
  unfold IndexedPath.dropMissingAfterScan
  split
  · next scan hscan =>
    have hold := h.scanned pass scan hscan
    refine h.setScan ⟨?_, ?_, ?_, hold.skipped⟩ <;> nofun
  · exact h

theorem Sound.readFile (pass : ℕ) : Sound sha (s.readFile pass) := by
  unfold IndexedPath.readFile
  split
  · next scan file hscan hf =>
    have hold := h.scanned pass scan hscan
    refine h.setScan ⟨?_, hold.atStat, hold.stated, hold.skipped⟩
    rintro f hs hst content (hc | hc)
    · cases hf.symm.trans hs
      exact (some.inj hc).symm
    · exact hold.current f hs hst content (.inr hc)
  · exact h

theorem Sound.settleDisk (pass : ℕ) : Sound sha (s.settleDisk pass) := by
  unfold IndexedPath.settleDisk
  split
  · next scan hscan =>
    split
    · next content hr =>
      have hold := h.scanned pass scan hscan
      refine h.setScan ⟨?_, hold.atStat, hold.stated, hold.skipped⟩
      rintro f hs hst content' (hc | hc)
      · exact hold.current f hs hst content' (.inl hc)
      cases hc
      exact hold.current f hs hst content (.inl hr)
    · exact h
  · exact h

theorem Sound.abort (pass : ℕ) : Sound sha (s.abort pass) := by
  refine ⟨h.real, h.paired, h.renamed, ?_, h.updating⟩
  intro pass' scan' hs
  by_cases heq : pass' = pass
  · subst heq
    have hn : (s.abort pass').scans pass' = none := update_self ..
    cases hn.symm.trans hs
  have ho : (s.abort pass).scans pass' = s.scans pass' := update_of_ne heq ..
  exact h.scanned pass' scan' (ho.symm.trans hs)

/-- One update is changed. -/
theorem Sound.setUpdate (update : ℕ)
    (under : Option BaselineUpdate) (hunder : ∀ u, under = some u → ∀ file, s.file = some file →
      file.stat = u.stat → ∀ content, u.currentDiskContent = some content → content = file.bytes) :
    Sound sha { s with updates := Function.update s.updates update under } := by
  refine ⟨h.real, h.paired, h.renamed, h.scanned, ?_⟩
  intro update' under' hs
  dsimp only at hs
  by_cases heq : update' = update
  · subst heq
    rw [update_self] at hs
    exact hunder under' hs
  rw [update_of_ne heq] at hs
  exact h.updating update' under' hs

theorem Sound.beginUpdate (update : ℕ) : Sound sha (s.beginUpdate update) := by
  unfold IndexedPath.beginUpdate
  split
  · refine h.setUpdate update _ ?_
    rintro u hs file _ _ content hc
    cases hs
    cases hc
  · exact h

theorem Sound.readUpdate (update : ℕ) : Sound sha (s.readUpdate update) := by
  unfold IndexedPath.readUpdate
  split
  · next under file _ hf =>
    refine h.setUpdate update _ ?_
    rintro u hs file' hf' _ content hc
    cases hs
    cases hf.symm.trans hf'
    exact (some.inj hc).symm
  · exact h

end

section Hashes

variable [DecidableEq η]

/-- With the entry of the stat and an injective digest the text is that of the file. -/
theorem Sound.decideSkip (h : Sound sha s)
    (hinj : Function.Injective sha) (pass : ℕ)
    (hwin : ∀ scan bytes entry, s.scans pass = some scan →
      scan.atStat = some (bytes, entry) → scan.indexForSkip = entry) :
    Sound sha (s.decideSkip sha pass) := by
  unfold IndexedPath.decideSkip
  split
  · next scan crdtContent hscan ht =>
    split
    · next stat hs =>
      split
      · next hskips =>
        have hold := h.scanned pass scan hscan
        refine h.setScan ⟨hold.current, hold.atStat, hold.stated, ?_⟩
        intro content hskip
        cases hskip
        obtain ⟨⟨bytes, entry⟩, hatS⟩ := isSome_iff_exists.mp (hold.stated stat hs)
        have he := hwin scan bytes entry hscan hatS
        refine ⟨entry, ?_⟩
        rw [he] at hskips
        cases entry with
        | none => simp [hasChanged] at hskips
        | some entry =>
          simp only [hasChanged, shouldSkipDiskRead, Bool.and_eq_true, Bool.not_eq_true',
            decide_eq_false_iff_not, not_or, not_not, decide_eq_true_eq, bind_some,
            ne_eq] at hskips
          obtain ⟨⟨hmtime, hsz⟩, -, hh⟩ := hskips
          have hsa : entry.stat = stat := Prod.ext hmtime hsz
          have hb := hold.atStat stat bytes entry _ hs hatS hsa hh.symm
          rw [hatS, hinj hb]
      · exact h
    · exact h
  · exact h

omit [DecidableEq η] in
/-- The hash of what is on the disk is right on any stat that is the file's. -/
theorem Sound.diskWritten (h : Sound sha s) (content : JsString) (now : ℕ)
    (hc : ∀ f, s.file = some f → (∃ entry, s.entry = some entry ∧ entry.stat = f.stat) →
      content = f.bytes) :
    Sound sha (s.diskWritten sha content now) := by
  refine h.setEntry ?_ _
  intro e f hash he hf hs hh
  split at he
  · next entry hso =>
    cases he
    rw [← hc f hf ⟨entry, hso, hs⟩]
    exact (some.inj hh).symm
  cases he
  exact absurd hs.symm (h.real f hf)

omit [DecidableEq η] in
theorem Sound.flushWrite (h : Sound sha s) (stat : FileStat) (recordBaseline : Bool) (now : ℕ)
    (hfresh : s.file.map (·.bytes) ≠ s.text → ¬ s.Remembers stat) :
    Sound sha (s.flushWrite sha stat recordBaseline now) ∧
      ∀ content, s.text = some content →
        ∀ f, (s.flushWrite sha stat recordBaseline now).file = some f → content = f.bytes := by
  unfold IndexedPath.flushWrite
  cases htx : s.text with
  | none => exact ⟨h, nofun⟩
  | some content =>
    dsimp only
    rw [htx] at hfresh
    have hflus : Sound sha (if s.file.map (·.bytes) = some content then s
        else s.setFile (some { stat, bytes := content })) ∧
        ∀ f, (if s.file.map (·.bytes) = some content then s
          else s.setFile (some { stat, bytes := content })).file = some f → content = f.bytes := by
      split
      · next ht =>
        refine ⟨h, ?_⟩
        intro f hfi
        rw [hfi] at ht
        exact (some.inj ht).symm
      · next hw =>
        refine ⟨h.setFile _ ?_, ?_⟩ <;> intro f hf
        · cases hf
          exact hfresh hw
        cases hf
        rfl
    obtain ⟨hs, hb⟩ := hflus
    split
    · refine ⟨hs.diskWritten content now fun f hfi _ => hb f hfi, ?_⟩
      rintro _ ⟨⟩ f hfi
      exact hb f hfi
    refine ⟨hs, ?_⟩
    rintro _ ⟨⟩ f hfi
    exact hb f hfi

omit [DecidableEq η] in
theorem Sound.settleFlush (h : Sound sha s) (pass : ℕ) (stat : FileStat) (recordBaseline : Bool)
    (now : ℕ) (hfr : s.file.map (·.bytes) ≠ s.text → ¬ s.Remembers stat) :
    Sound sha (s.settleFlush sha pass stat recordBaseline now) := by
  unfold IndexedPath.settleFlush
  split
  · next scan content hscan ht =>
    obtain ⟨hs, hb⟩ := h.flushWrite stat recordBaseline now hfr
    have hscans : (s.flushWrite sha stat recordBaseline now).scans pass = some scan := by
      unfold IndexedPath.flushWrite
      rw [ht]
      dsimp only
      split
      all_goals split <;> exact hscan
    have hold := hs.scanned pass scan hscans
    refine hs.setScan ⟨?_, hold.atStat, hold.stated, hold.skipped⟩
    rintro f hf hst content' (hc | hc)
    · exact hold.current f hf hst content' (.inl hc)
    cases hc
    exact hb content ht f hf
  · exact h

omit [DecidableEq η] in
theorem Pairs.none (file : Option DiskFile) : Pairs sha none file := by
  exact nofun

/-- What a pass may commit at a path: a file that it has not settled is as the index knows it, and a
path that it has settled without a stat has the hash already. -/
structure Commits (sha : JsString → η) (s : IndexedPath π η) (scan : PathScan η) : Prop where
  unsettled : ∀ stat entry, scan.stat = some stat → scan.excluded = false → scan.settled = none →
    s.entry = some entry → entry.contentHash ≠ none → entry.stat = stat
  created : ∀ content entry, scan.stat = none → scan.excluded = false →
    scan.settled = some content → s.entry = some entry → entry.contentHash = some (sha content)

theorem Sound.nextDiskIndex (h : Sound sha s) {scan : PathScan η}
    (hscan : s.scans pass = some scan) (hcom : Commits sha s scan) (now : ℕ) :
    Pairs sha (s.nextDiskIndex sha scan now) s.file := by
  have hold := h.scanned pass scan hscan
  have hupd : Pairs sha (updateIndex s.entry scan.stat scan.excluded
      (scan.settled.map sha) now) s.file := by
    cases hs : scan.stat with
    | none => exact .none _
    | some stat =>
      simp only [updateIndex, bind_some]
      split
      · exact h.paired
      · next hinc =>
        rw [Bool.not_eq_true] at hinc
        intro e f hash he hf hsa hh
        cases he
        have hstat : scan.stat = some f.stat := hs.trans (congrArg some hsa)
        cases hset : scan.settled with rw [hset] at hh
        | some content =>
          rw [← hold.current f hf hstat content (.inr hset)]
          exact (some.inj hh).symm
        | none =>
          cases hp : s.entry with rw [hp] at hh
          | none => cases hh
          | some previous =>
            have hk := hcom.unsettled stat previous hs hinc hset hp (by
              intro hn
              cases hn.symm.trans hh)
            exact h.paired previous f hash hp hf (hk.trans hsa) hh
  have hmiss : updateIndex s.entry scan.stat scan.excluded
      (scan.settled.map sha) now = none → scan.excluded = false → scan.stat = none := by
    intro hn hinc
    cases hs : scan.stat with
    | none => rfl
    | some stat =>
      rw [hs, hinc] at hn
      cases hn
  unfold IndexedPath.nextDiskIndex
  dsimp only
  generalize updateIndex s.entry scan.stat scan.excluded
    (scan.settled.map sha) now = updated at hupd hmiss
  have hbloc : Pairs sha
      (if scan.projectionBlocked && s.entry.isSome then s.entry else updated) s.file ∧
      ((if scan.projectionBlocked && s.entry.isSome then s.entry else updated) = none →
        updated = none) := by
    split
    · next hk =>
      refine ⟨h.paired, ?_⟩
      intro hn
      simp [hn] at hk
    · exact ⟨hupd, id⟩
  generalize (if scan.projectionBlocked && s.entry.isSome then s.entry else updated) = blocked
    at hbloc ⊢
  have hv : Pairs sha
      (if (s.entry.bind (·.contentHash)).isSome &&
          (s.baselineRevision ≠ scan.baselineRevisionAtStart ||
            scan.settled.map sha = s.entry.bind (·.contentHash) &&
              scan.stat.isNone) then s.entry else blocked) s.file ∧
      ((if (s.entry.bind (·.contentHash)).isSome &&
          (s.baselineRevision ≠ scan.baselineRevisionAtStart ||
            scan.settled.map sha = s.entry.bind (·.contentHash) &&
              scan.stat.isNone) then s.entry else blocked) = none → blocked = none) := by
    split
    · next hk =>
      refine ⟨h.paired, ?_⟩
      intro hn
      simp [hn] at hk
    · exact ⟨hbloc.1, id⟩
  generalize (if (s.entry.bind (·.contentHash)).isSome &&
      (s.baselineRevision ≠ scan.baselineRevisionAtStart ||
        scan.settled.map sha = s.entry.bind (·.contentHash) &&
          scan.stat.isNone) then s.entry else blocked) = verified at hv ⊢
  cases hset : scan.settled with
  | none => exact hv.1
  | some content =>
    cases verified with
    | some entry => exact hv.1
    | none =>
      simp only [map_some]
      split
      · exact .none _
      · next hinc =>
        rw [Bool.not_eq_true] at hinc
        have hs := hmiss (hbloc.2 (hv.2 rfl)) hinc
        intro e f hash he hf hsa hh
        cases hp : s.entry with rw [hp] at he
        | none =>
          cases he
          exact absurd hsa.symm (h.real f hf)
        | some previous =>
          cases he
          have hc := hcom.created content previous hs hinc hset hp
          exact h.paired previous f hash hp hf hsa (hc.trans hh)

theorem Sound.commit (h : Sound sha s) (pass : ℕ) (now : ℕ)
    (hcommits : ∀ scan, s.scans pass = some scan → Commits sha s scan) :
    Sound sha (s.commit sha pass now) := by
  unfold IndexedPath.commit
  split
  · next scan hscan =>
    have hpairs := h.nextDiskIndex hscan (hcommits scan hscan) now
    exact (h.abort pass).setEntry hpairs _
  · exact h

omit [DecidableEq η] in
/-- An update on a text that was read has its hash; one without a text keeps the hash's stat. -/
theorem Sound.endUpdate (h : Sound sha s) (update : ℕ)
    (settledContent : Option JsString) (current : Bool) (now : ℕ)
    (hk : settledContent = none → ∀ under entry, s.updates update = some under →
      s.entry = some entry → entry.contentHash ≠ none → entry.stat = under.stat) :
    Sound sha
      (s.updateDiskIndexForPath sha update settledContent current now) := by
  unfold updateDiskIndexForPath
  split
  · exact h
  · next under hunder =>
    have hg := h.setUpdate update none nofun
    have hr := h.updating update under hunder
    split
    · next content =>
      split
      · next hcur =>
        simp only [Bool.and_eq_true, decide_eq_true_eq] at hcur
        refine hg.setEntry ?_ _
        intro e f hash he hf hst hh
        cases he
        rw [← hr f hf hst.symm content hcur.2]
        exact (some.inj hh).symm
      · exact hg
    refine hg.setEntry ?_ _
    intro e f hash he hf hst hh
    cases he
    cases hs : s.entry with rw [hs] at hh
    | none => cases hh
    | some entry =>
      have hsa := hk rfl under entry hunder hs (by
        intro hn
        cases hn.symm.trans hh)
      exact h.paired entry f hash hs hf (hsa.trans hst) hh

end Hashes

end IndexedPath

end Kaos.Runtime
