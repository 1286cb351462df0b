import Kaos.Runtime.NoEventStructuralPlanner

/-! The inferred renames are a matching, each with its ground, whatever the order of the paths. -/
namespace Kaos.Runtime

open Kaos.Lib StructuralMatching List

section Matching

variable {m : StructuralMatching} {rename : PlannedStructuralRename}
  {change : UnresolvedStructuralChange}

def StructuralMatching.oldPaths (m : StructuralMatching) : List JsString :=
  m.renames.map (·.oldPath) ++ m.unresolved.flatMap (·.oldPaths)

def StructuralMatching.newPaths (m : StructuralMatching) : List JsString :=
  m.renames.map (·.newPath) ++ m.unresolved.flatMap (·.newPaths)

/-- Each path is at most once in the plan, and is consumed if it is. -/
structure IsMatching (m : StructuralMatching) : Prop where
  old_nodup : m.oldPaths.Nodup
  new_nodup : m.newPaths.Nodup
  old_consumed : ∀ path ∈ m.oldPaths, path ∈ m.consumedOld
  new_consumed : ∀ path ∈ m.newPaths, path ∈ m.consumedNew

theorem isMatching_empty : IsMatching {} := by
  refine ⟨nodup_nil, nodup_nil, ?_, ?_⟩ <;> nofun

theorem oldPaths_addRename : (m.addRename rename).oldPaths.Perm (rename.oldPath :: m.oldPaths) := by
  simp only [oldPaths, addRename, map_append, map_cons, map_nil, append_assoc, singleton_append]
  exact perm_middle

theorem newPaths_addRename : (m.addRename rename).newPaths.Perm (rename.newPath :: m.newPaths) := by
  simp only [newPaths, addRename, map_append, map_cons, map_nil, append_assoc, singleton_append]
  exact perm_middle

theorem oldPaths_addUnresolved :
    (m.addUnresolved change).oldPaths = m.oldPaths ++ change.oldPaths := by
  simp [oldPaths, addUnresolved]

theorem newPaths_addUnresolved :
    (m.addUnresolved change).newPaths = m.newPaths ++ change.newPaths := by
  simp [newPaths, addUnresolved]

/-- A rename of paths that are not consumed keeps the matching. -/
theorem IsMatching.addRename (h : IsMatching m) (hold : rename.oldPath ∉ m.consumedOld)
    (hnew : rename.newPath ∉ m.consumedNew) : IsMatching (m.addRename rename) where
  old_nodup := oldPaths_addRename.nodup_iff.mpr
    (nodup_cons.mpr ⟨fun hmem => hold (h.old_consumed _ hmem), h.old_nodup⟩)
  new_nodup := newPaths_addRename.nodup_iff.mpr
    (nodup_cons.mpr ⟨fun hmem => hnew (h.new_consumed _ hmem), h.new_nodup⟩)
  old_consumed := by
    intro path hp
    rcases mem_cons.mp (oldPaths_addRename.mem_iff.mp hp) with rfl | hp
    · exact mem_cons_self
    · exact mem_cons_of_mem _ (h.old_consumed path hp)
  new_consumed := by
    intro path hp
    rcases mem_cons.mp (newPaths_addRename.mem_iff.mp hp) with rfl | hp
    · exact mem_cons_self
    · exact mem_cons_of_mem _ (h.new_consumed path hp)

/-- So does an unresolved change of distinct paths that are not consumed. -/
theorem IsMatching.addUnresolved (h : IsMatching m) (hold : change.oldPaths.Nodup)
    (hnew : change.newPaths.Nodup) (holdFree : ∀ path ∈ change.oldPaths, path ∉ m.consumedOld)
    (hnewFree : ∀ path ∈ change.newPaths, path ∉ m.consumedNew) :
    IsMatching (m.addUnresolved change) where
  old_nodup := by
    rw [oldPaths_addUnresolved, nodup_append']
    refine ⟨h.old_nodup, hold, ?_⟩
    intro path hmem hch
    exact holdFree path hch (h.old_consumed path hmem)
  new_nodup := by
    rw [newPaths_addUnresolved, nodup_append']
    refine ⟨h.new_nodup, hnew, ?_⟩
    intro path hmem hch
    exact hnewFree path hch (h.new_consumed path hmem)
  old_consumed := by
    intro path hp
    rw [oldPaths_addUnresolved] at hp
    rcases mem_append.mp hp with hp | hp
    · exact mem_append_right _ (h.old_consumed path hp)
    · exact mem_append_left _ hp
  new_consumed := by
    intro path hp
    rw [newPaths_addUnresolved] at hp
    rcases mem_append.mp hp with hp | hp
    · exact mem_append_right _ (h.new_consumed path hp)
    · exact mem_append_left _ hp

end Matching

section Passes

variable {localeCompare : JsString → JsString → Ordering} {input : NoEventStructuralInput}
  {m : StructuralMatching} {paths : List StructuralPathHash} {path hash : JsString}

theorem entryByPath_spec {entry : StructuralPathHash} (h : entryByPath paths path = some entry) :
    entry ∈ paths ∧ entry.path = path := by
  have hmem := mem_of_find?_eq_some h
  have hp := find?_some h
  exact ⟨mem_reverse.mp hmem, of_decide_eq_true hp⟩

theorem mem_groupByHash : path ∈ groupByHash paths hash ↔ ⟨path, hash⟩ ∈ paths := by
  rw [groupByHash, mem_insertionSort, mem_map]
  constructor
  · rintro ⟨⟨_, _⟩, he, rfl⟩
    obtain ⟨hmem, hh⟩ := mem_filter.mp he
    obtain rfl := of_decide_eq_true hh
    exact hmem
  intro hmem
  exact ⟨⟨path, hash⟩, mem_filter.mpr ⟨hmem, decide_eq_true rfl⟩, rfl⟩

theorem nodup_groupByHash (h : (paths.map (·.path)).Nodup) : (groupByHash paths hash).Nodup :=
  (perm_insertionSort _ _).nodup_iff.mpr (h.sublist (filter_sublist.map _))

/-- The ground of a planned rename: evidence for this pair, or a hash that no other path has. -/
structure Continuity (input : NoEventStructuralInput) (rename : PlannedStructuralRename) :
    Prop where
  authoritative : input.authoritative = true
  old_hash : ⟨rename.oldPath, rename.contentHash⟩ ∈ input.missingCrdtPaths
  new_hash : ⟨rename.newPath, rename.contentHash⟩ ∈ input.extraDiskPaths
  sameName : basename rename.oldPath = basename rename.newPath
  baseline : input.previousDiskIndex rename.oldPath = some (some rename.contentHash)
  neverIndexed : input.previousDiskIndex rename.newPath = none
  onlyOld : ∀ path, ⟨path, rename.contentHash⟩ ∈ input.missingCrdtPaths → path = rename.oldPath
  onlyNew : ∀ path, ⟨path, rename.contentHash⟩ ∈ input.extraDiskPaths → path = rename.newPath

structure Grounded (input : NoEventStructuralInput) (rename : PlannedStructuralRename) : Prop where
  missing : ∃ entry ∈ input.missingCrdtPaths, entry.path = rename.oldPath
  extra : ∃ entry ∈ input.extraDiskPaths, entry.path = rename.newPath
  ground : (∃ evidence ∈ input.renameEvidence, evidence.oldPath = rename.oldPath ∧
      evidence.newPath = rename.newPath ∧ rename.reason = .evidence evidence.reason) ∨
    rename.reason = .baselineHashContinuity ∧ Continuity input rename

/-- What every pass keeps. -/
structure SafePlan (input : NoEventStructuralInput) (m : StructuralMatching) : Prop extends
    IsMatching m where
  grounded : ∀ rename ∈ m.renames, Grounded input rename

theorem safePlan_empty : SafePlan input {} where
  toIsMatching := isMatching_empty
  grounded := by
    exact nofun

theorem SafePlan.addRename (h : SafePlan input m) {rename : PlannedStructuralRename}
    (hold : rename.oldPath ∉ m.consumedOld) (hnew : rename.newPath ∉ m.consumedNew)
    (hground : Grounded input rename) : SafePlan input (m.addRename rename) where
  toIsMatching := h.toIsMatching.addRename hold hnew
  grounded := by
    intro r hr
    rcases mem_append.mp hr with hr | hr
    · exact h.grounded r hr
    · exact mem_singleton.mp hr ▸ hground

theorem SafePlan.addUnresolved (h : SafePlan input m) {change : UnresolvedStructuralChange}
    (hold : change.oldPaths.Nodup) (hnew : change.newPaths.Nodup)
    (holdFree : ∀ path ∈ change.oldPaths, path ∉ m.consumedOld)
    (hnewFree : ∀ path ∈ change.newPaths, path ∉ m.consumedNew) :
    SafePlan input (m.addUnresolved change) where
  toIsMatching := h.toIsMatching.addUnresolved hold hnew holdFree hnewFree
  grounded := h.grounded

theorem SafePlan.planEvidence (h : SafePlan input m) {evidence : StructuralRenameEvidence}
    (hevid : evidence ∈ input.renameEvidence) : SafePlan input (planEvidence input m evidence) := by
  rw [Runtime.planEvidence]
  split
  · next oldEntry newEntry hold hnew =>
    by_cases hcon : evidence.oldPath ∈ m.consumedOld ∨ evidence.newPath ∈ m.consumedNew
    · rw [if_pos hcon]
      exact h
    rw [if_neg hcon]
    obtain ⟨hfreeOld, hfreeNew⟩ := not_or.mp hcon
    exact h.addRename hfreeOld hfreeNew
      { missing := ⟨oldEntry, entryByPath_spec hold⟩
        extra := ⟨newEntry, entryByPath_spec hnew⟩
        ground := .inl ⟨evidence, hevid, rfl, rfl, rfl⟩ }
  · exact h

theorem afterEvidence_safe : SafePlan input (afterEvidence localeCompare input) := by
  have hall : ∀ (evidences : List StructuralRenameEvidence) (m : StructuralMatching),
      (∀ evidence ∈ evidences, evidence ∈ input.renameEvidence) → SafePlan input m →
      SafePlan input (evidences.foldl (planEvidence input) m) := by
    intro evidences
    induction evidences with
    | nil => exact fun _ _ h => h
    | cons evidence rest ih =>
      intro m hmem h
      exact ih _ (fun e he => hmem e (mem_cons_of_mem _ he))
        (h.planEvidence (hmem evidence mem_cons_self))
  refine hall _ _ ?_ safePlan_empty
  intro evidence hevid
  exact (mem_insertionSort _).mp hevid

theorem onlyPath (h : (groupByHash paths hash).length = 1) (hmem : path ∈ groupByHash paths hash)
    {other : JsString} (ho : ⟨other, hash⟩ ∈ paths) : other = path := by
  obtain ⟨p, hp⟩ := length_eq_one_iff.mp h
  have hin := mem_groupByHash.mpr ho
  rw [hp] at hmem hin
  rw [mem_singleton.mp hmem, mem_singleton.mp hin]

theorem SafePlan.planPair (h : SafePlan input m) {oldPath newPath : JsString}
    (hold : oldPath ∈ groupByHash input.missingCrdtPaths hash)
    (hnew : newPath ∈ groupByHash input.extraDiskPaths hash)
    (hfreeOld : oldPath ∉ m.consumedOld) (hfreeNew : newPath ∉ m.consumedNew) :
    SafePlan input (planPair input m hash oldPath newPath) := by
  have holdMem := mem_groupByHash.mp hold
  have hnewMem := mem_groupByHash.mp hnew
  rw [Runtime.planPair]
  by_cases hn : basename oldPath ≠ basename newPath
  · rw [if_pos hn]
    exact h
  rw [if_neg hn]
  by_cases hproves : provesContinuity input hash oldPath newPath = true
  · rw [if_pos hproves]
    obtain ⟨haut, holdOne, hnewOne, hb, hix⟩ := of_decide_eq_true hproves
    exact h.addRename hfreeOld hfreeNew
      { missing := ⟨_, holdMem, rfl⟩
        extra := ⟨_, hnewMem, rfl⟩
        ground := .inr ⟨rfl,
          { authoritative := haut
            old_hash := holdMem
            new_hash := hnewMem
            sameName := not_not.mp hn
            baseline := hb
            neverIndexed := hix
            onlyOld := fun _ ho => onlyPath holdOne hold ho
            onlyNew := fun _ ho => onlyPath hnewOne hnew ho }⟩ }
  rw [if_neg hproves]
  refine h.addUnresolved (nodup_singleton _) (nodup_singleton _) ?_ ?_
  · intro path hp
    exact mem_singleton.mp hp ▸ hfreeOld
  intro path hp
  exact mem_singleton.mp hp ▸ hfreeNew

/-- One hash group adds each of its free paths at most once. -/
theorem SafePlan.planHash (h : SafePlan input m)
    (hold : (input.missingCrdtPaths.map (·.path)).Nodup)
    (hnew : (input.extraDiskPaths.map (·.path)).Nodup) :
    SafePlan input (planHash input m hash) := by
  have holdNodup : ((groupByHash input.missingCrdtPaths hash).filter
      (· ∉ m.consumedOld)).Nodup := (nodup_groupByHash hold).filter _
  have hnewNodup : ((groupByHash input.extraDiskPaths hash).filter
      (· ∉ m.consumedNew)).Nodup := (nodup_groupByHash hnew).filter _
  have holdFree : ∀ path ∈ (groupByHash input.missingCrdtPaths hash).filter (· ∉ m.consumedOld),
      path ∈ groupByHash input.missingCrdtPaths hash ∧ path ∉ m.consumedOld := by
    intro path hp
    simpa using mem_filter.mp hp
  have hnewFree : ∀ path ∈ (groupByHash input.extraDiskPaths hash).filter (· ∉ m.consumedNew),
      path ∈ groupByHash input.extraDiskPaths hash ∧ path ∉ m.consumedNew := by
    intro path hp
    simpa using mem_filter.mp hp
  rw [Runtime.planHash]
  generalize (groupByHash input.missingCrdtPaths hash).filter (· ∉ m.consumedOld) = oldPaths at *
  generalize (groupByHash input.extraDiskPaths hash).filter (· ∉ m.consumedNew) = newPaths at *
  split
  · exact h
  · exact h
  · next oldPath newPath =>
    obtain ⟨holdMem, hfreeOld⟩ := holdFree oldPath mem_cons_self
    obtain ⟨hnewMem, hfreeNew⟩ := hnewFree newPath mem_cons_self
    exact h.planPair holdMem hnewMem hfreeOld hfreeNew
  exact h.addUnresolved holdNodup hnewNodup (fun path hp => (holdFree path hp).2)
    fun path hp => (hnewFree path hp).2

theorem afterHashes_safe (hold : (input.missingCrdtPaths.map (·.path)).Nodup)
    (hnew : (input.extraDiskPaths.map (·.path)).Nodup) :
    SafePlan input (afterHashes localeCompare input) := by
  have hall : ∀ (hashes : List JsString) (m : StructuralMatching), SafePlan input m →
      SafePlan input (hashes.foldl (planHash input) m) := by
    intro hashes
    induction hashes with
    | nil => exact fun _ h => h
    | cons hash rest ih => exact fun m h => ih _ (h.planHash hold hnew)
  exact hall _ _ afterEvidence_safe

/-- No path of a name that is still to come is consumed. -/
def NamesFree (olds news : List StructuralPathHash) (m : StructuralMatching)
    (names : List JsString) : Prop :=
  (∀ entry ∈ olds, basename entry.path ∈ names → entry.path ∉ m.consumedOld) ∧
    ∀ entry ∈ news, basename entry.path ∈ names → entry.path ∉ m.consumedNew

/-- A name takes only its own paths, once. -/
theorem SafePlan.planBasename {olds news : List StructuralPathHash} {name : JsString}
    {names : List JsString} (h : SafePlan input m) (hn : name ∉ names)
    (hf : NamesFree olds news m (name :: names)) :
    SafePlan input (planBasename olds news m name) ∧
      NamesFree olds news (Runtime.planBasename olds news m name) names := by
  have hr : NamesFree olds news m names :=
    ⟨fun entry he hin => hf.1 entry he (mem_cons_of_mem _ hin),
      fun entry he hin => hf.2 entry he (mem_cons_of_mem _ hin)⟩
  rw [Runtime.planBasename]
  split
  · next oldEntry newEntry holds hnews =>
    have hold : oldEntry ∈ olds ∧ basename oldEntry.path = name := by
      have hmem : oldEntry ∈ olds.filter (basename ·.path = name) := by
        rw [holds]
        exact mem_cons_self
      simpa using mem_filter.mp hmem
    have hnew : newEntry ∈ news ∧ basename newEntry.path = name := by
      have hmem : newEntry ∈ news.filter (basename ·.path = name) := by
        rw [hnews]
        exact mem_cons_self
      simpa using mem_filter.mp hmem
    constructor
    · refine h.addUnresolved (nodup_singleton _) (nodup_singleton _) ?_ ?_
      · intro path hp
        rw [mem_singleton.mp hp]
        exact hf.1 oldEntry hold.1 (hold.2 ▸ mem_cons_self)
      intro path hp
      rw [mem_singleton.mp hp]
      exact hf.2 newEntry hnew.1 (hnew.2 ▸ mem_cons_self)
    constructor <;> intro entry he hin hcon
    · rcases mem_cons.mp hcon with heq | hcon
      · rw [heq, hold.2] at hin
        exact hn hin
      · exact hr.1 entry he hin hcon
    rcases mem_cons.mp hcon with heq | hcon
    · rw [heq, hnew.2] at hin
      exact hn hin
    · exact hr.2 entry he hin hcon
  · exact ⟨h, hr⟩

theorem basenames_safe {olds news : List StructuralPathHash} {names : List JsString}
    (hnames : names.Nodup) (h : SafePlan input m) (hf : NamesFree olds news m names) :
    SafePlan input (names.foldl (planBasename olds news) m) := by
  induction names generalizing m with
  | nil => exact h
  | cons name rest ih =>
    obtain ⟨hn, hr⟩ := nodup_cons.mp hnames
    obtain ⟨hsafe, hf⟩ := h.planBasename hn hf
    exact ih hr hsafe hf

theorem afterBasenames_safe (hold : (input.missingCrdtPaths.map (·.path)).Nodup)
    (hnew : (input.extraDiskPaths.map (·.path)).Nodup) :
    SafePlan input (afterBasenames localeCompare input) := by
  refine basenames_safe (nodup_reverse.mpr (nodup_dedup _)) (afterHashes_safe hold hnew) ⟨?_, ?_⟩
  all_goals
    intro entry he _
    exact of_decide_eq_true (mem_filter.mp he).2

end Passes

section Order

variable {localeCompare : JsString → JsString → Ordering} {input input' : NoEventStructuralInput}
  {paths paths' : List StructuralPathHash}

/-- Two inputs that differ in the order of the paths. -/
structure SamePaths (input input' : NoEventStructuralInput) : Prop where
  missing : input.missingCrdtPaths.Perm input'.missingCrdtPaths
  extra : input.extraDiskPaths.Perm input'.extraDiskPaths
  evidence : input.renameEvidence = input'.renameEvidence
  authoritative : input.authoritative = input'.authoritative
  previousDiskIndex : input.previousDiskIndex = input'.previousDiskIndex

/-- Sorting by code units forgets the order. -/
theorem sortStrings_congr {l l' : List JsString} (h : l.Perm l') :
    l.insertionSort (fun s t => JsString.le s t = true) =
      l'.insertionSort fun s t => JsString.le s t = true := by
  have : Std.Total fun s t : JsString => JsString.le s t = true := ⟨JsString.le_total⟩
  have : IsTrans JsString fun s t => JsString.le s t = true := ⟨fun _ _ _ => JsString.le_trans⟩
  refine List.Perm.eq_of_pairwise (fun s t _ _ => JsString.le_antisymm)
    (pairwise_insertionSort _ _) (pairwise_insertionSort _ _) ?_
  exact (perm_insertionSort _ _).trans (h.trans (perm_insertionSort _ _).symm)

theorem groupByHash_congr (h : paths.Perm paths') : groupByHash paths = groupByHash paths' := by
  funext hash
  exact sortStrings_congr ((h.filter _).map _)

theorem entryByPath_congr (h : paths.Perm paths') (hnd : (paths.map (·.path)).Nodup) :
    entryByPath paths = entryByPath paths' := by
  funext path
  cases hf : entryByPath paths path with
  | none =>
    symm
    rw [entryByPath, find?_eq_none] at hf ⊢
    intro entry he
    exact hf entry (mem_reverse.mpr (h.mem_iff.mpr (mem_reverse.mp he)))
  | some entry =>
    obtain ⟨hmem, hp⟩ := entryByPath_spec hf
    cases hf' : entryByPath paths' path with
    | none =>
      rw [entryByPath, find?_eq_none] at hf'
      exact (hf' entry (mem_reverse.mpr (h.mem_iff.mp hmem)) (decide_eq_true hp)).elim
    | some entry' =>
      obtain ⟨hmem', hp'⟩ := entryByPath_spec hf'
      exact congrArg some (inj_on_of_nodup_map hnd hmem (h.mem_iff.mpr hmem') (hp.trans hp'.symm))

theorem planEvidence_congr (h : SamePaths input input')
    (hold : (input.missingCrdtPaths.map (·.path)).Nodup)
    (hnew : (input.extraDiskPaths.map (·.path)).Nodup) : planEvidence input = planEvidence input' := by
  funext m evidence
  rw [planEvidence, planEvidence, entryByPath_congr h.missing hold, entryByPath_congr h.extra hnew]

theorem planHash_congr (h : SamePaths input input') : planHash input = planHash input' := by
  funext m hash
  have hpair : planPair input = planPair input' := by
    funext m hash oldPath newPath
    rw [planPair, planPair, provesContinuity, provesContinuity, groupByHash_congr h.missing,
      groupByHash_congr h.extra, h.authoritative, h.previousDiskIndex]
  rw [planHash, planHash, groupByHash_congr h.missing, groupByHash_congr h.extra, hpair]

/-- Before the names are looked at, nothing depends on the order of the paths. -/
theorem afterHashes_congr (h : SamePaths input input')
    (hold : (input.missingCrdtPaths.map (·.path)).Nodup)
    (hnew : (input.extraDiskPaths.map (·.path)).Nodup) :
    afterHashes localeCompare input = afterHashes localeCompare input' := by
  have hhas : sortedHashes input = sortedHashes input' :=
    sortStrings_congr (((h.missing.append h.extra).map _).dedup)
  have hevid : sortedEvidence localeCompare input = sortedEvidence localeCompare input' := by
    rw [sortedEvidence, sortedEvidence, h.evidence]
  rw [afterHashes, afterHashes, afterEvidence, afterEvidence, hhas, hevid,
    planHash_congr h, planEvidence_congr h hold hnew]

/-- What a name adds to the unresolved changes. -/
def sameNameChange (olds news : List StructuralPathHash) (name : JsString) :
    List UnresolvedStructuralChange :=
  (planBasename olds news {} name).unresolved

theorem planBasename_eq (olds news : List StructuralPathHash) (m : StructuralMatching)
    (name : JsString) : (planBasename olds news m name).renames = m.renames ∧
      (planBasename olds news m name).unresolved =
        m.unresolved ++ sameNameChange olds news name := by
  rw [sameNameChange, planBasename, planBasename]
  split
  · exact ⟨rfl, rfl⟩
  · exact ⟨rfl, (append_nil _).symm⟩

theorem basenames_eq (olds news : List StructuralPathHash) (names : List JsString)
    (m : StructuralMatching) :
    (names.foldl (planBasename olds news) m).renames = m.renames ∧
      (names.foldl (planBasename olds news) m).unresolved =
        m.unresolved ++ names.flatMap (sameNameChange olds news) := by
  induction names generalizing m with
  | nil => exact ⟨rfl, (append_nil _).symm⟩
  | cons name rest ih =>
    obtain ⟨hren, hunres⟩ := planBasename_eq olds news m name
    obtain ⟨ihRenames, ihUnresolved⟩ := ih (planBasename olds news m name)
    rw [foldl_cons, flatMap_cons, ← append_assoc, ← hunres]
    exact ⟨ihRenames.trans hren, ihUnresolved⟩

/-- A list with one entry at most is not changed by its order. -/
theorem sameNameChange_congr {olds olds' news news' : List StructuralPathHash}
    (hold : olds.Perm olds') (hnew : news.Perm news') :
    sameNameChange olds news = sameNameChange olds' news' := by
  funext name
  have hs : ∀ {l l' : List StructuralPathHash}, l.Perm l' →
      l = l' ∨ (∀ e, l ≠ [e]) ∧ ∀ e, l' ≠ [e] := by
    intro l l' hperm
    by_cases hone : ∃ e, l = [e]
    · obtain ⟨e, rfl⟩ := hone
      exact .inl (singleton_perm.mp hperm)
    refine .inr ⟨fun e he => hone ⟨e, he⟩, ?_⟩
    rintro e rfl
    exact hone ⟨e, perm_singleton.mp hperm⟩
  have hn : ∀ {olds news : List StructuralPathHash},
      (∀ e, olds.filter (basename ·.path = name) ≠ [e]) ∨
        (∀ e, news.filter (basename ·.path = name) ≠ [e]) →
      sameNameChange olds news name = [] := by
    intro olds news h
    rw [sameNameChange, planBasename]
    split
    · next oldEntry newEntry holds hnews =>
      rcases h with h | h
      · exact (h _ holds).elim
      · exact (h _ hnews).elim
    · rfl
  rcases hs (hold.filter (basename ·.path = name)) with hold | ⟨hold, hold'⟩
  · rcases hs (hnew.filter (basename ·.path = name)) with hnew | ⟨hnew, hnew'⟩
    · rw [sameNameChange, sameNameChange, planBasename, planBasename, hold, hnew]
    · rw [hn (.inr hnew), hn (.inr hnew')]
  · rw [hn (.inl hold), hn (.inl hold')]

theorem firstOccurrences_perm {names names' : List JsString} (h : names.Perm names') :
    (firstOccurrences names).Perm (firstOccurrences names') :=
  (reverse_perm _).trans
    ((((reverse_perm _).trans (h.trans (reverse_perm _).symm)).dedup).trans (reverse_perm _).symm)

/-- The plan has the same renames and the same unresolved changes for each order of the paths. -/
theorem plan_order (h : SamePaths input input') (hold : (input.missingCrdtPaths.map (·.path)).Nodup)
    (hnew : (input.extraDiskPaths.map (·.path)).Nodup) :
    (planNoEventStructuralRenames localeCompare input).renames =
        (planNoEventStructuralRenames localeCompare input').renames ∧
      (planNoEventStructuralRenames localeCompare input).unresolved.Perm
        (planNoEventStructuralRenames localeCompare input').unresolved := by
  have hhas : afterHashes localeCompare input = afterHashes localeCompare input' :=
    afterHashes_congr h hold hnew
  have holds : (remainingOld localeCompare input).Perm (remainingOld localeCompare input') := by
    rw [remainingOld, remainingOld, hhas]
    exact h.missing.filter _
  have hnews : (remainingNew localeCompare input).Perm (remainingNew localeCompare input') := by
    rw [remainingNew, remainingNew, hhas]
    exact h.extra.filter _
  obtain ⟨hren, hunres⟩ := basenames_eq (remainingOld localeCompare input)
    (remainingNew localeCompare input)
    (firstOccurrences ((remainingOld localeCompare input).map (basename ·.path)))
    (afterHashes localeCompare input)
  obtain ⟨hren', hunres'⟩ := basenames_eq (remainingOld localeCompare input')
    (remainingNew localeCompare input')
    (firstOccurrences ((remainingOld localeCompare input').map (basename ·.path)))
    (afterHashes localeCompare input')
  constructor
  · rw [planNoEventStructuralRenames, planNoEventStructuralRenames, afterBasenames,
      afterBasenames, hren, hren', hhas]
  refine (perm_insertionSort _ _).trans (List.Perm.trans ?_ (perm_insertionSort _ _).symm)
  rw [afterBasenames, afterBasenames, hunres, hunres', hhas, sameNameChange_congr holds hnews]
  exact (List.Perm.refl _).append ((firstOccurrences_perm (holds.map _)).flatMap_right _)

/-- The comparison orders all evidence, and no two entries of the list tie. -/
structure EvidenceOrder (localeCompare : JsString → JsString → Ordering)
    (evidences : List StructuralRenameEvidence) : Prop where
  total : ∀ a b : StructuralRenameEvidence,
    comparePaths localeCompare a.oldPath a.newPath b.oldPath b.newPath ≠ .gt ∨
      comparePaths localeCompare b.oldPath b.newPath a.oldPath a.newPath ≠ .gt
  trans : ∀ a b c : StructuralRenameEvidence,
    comparePaths localeCompare a.oldPath a.newPath b.oldPath b.newPath ≠ .gt →
      comparePaths localeCompare b.oldPath b.newPath c.oldPath c.newPath ≠ .gt →
        comparePaths localeCompare a.oldPath a.newPath c.oldPath c.newPath ≠ .gt
  noTies : ∀ a ∈ evidences, ∀ b ∈ evidences,
    comparePaths localeCompare a.oldPath a.newPath b.oldPath b.newPath ≠ .gt →
      comparePaths localeCompare b.oldPath b.newPath a.oldPath a.newPath ≠ .gt → a = b

/-- Nor does the plan depend on the order of evidence that the comparison tells apart. -/
theorem plan_evidenceOrder {evidences : List StructuralRenameEvidence}
    (hperm : evidences.Perm input.renameEvidence)
    (ho : EvidenceOrder localeCompare input.renameEvidence) :
    planNoEventStructuralRenames localeCompare { input with renameEvidence := evidences } =
      planNoEventStructuralRenames localeCompare input := by
  let le := fun a b : StructuralRenameEvidence =>
    comparePaths localeCompare a.oldPath a.newPath b.oldPath b.newPath ≠ .gt
  have : Std.Total le := ⟨ho.total⟩
  have : IsTrans StructuralRenameEvidence le := ⟨ho.trans⟩
  have hs : evidences.insertionSort le = input.renameEvidence.insertionSort le := by
    refine List.Perm.eq_of_pairwise ?_ (pairwise_insertionSort le evidences)
      (pairwise_insertionSort le input.renameEvidence) ?_
    · intro a b ha hb hab hba
      exact ho.noTies a (hperm.mem_iff.mp ((mem_insertionSort _).mp ha)) b
        ((mem_insertionSort _).mp hb) hab hba
    · exact (perm_insertionSort _ _).trans (hperm.trans (perm_insertionSort _ _).symm)
  have hevid : afterEvidence localeCompare { input with renameEvidence := evidences } =
      afterEvidence localeCompare input := by
    exact congrArg (List.foldl (planEvidence input) {}) hs
  have hhas : afterHashes localeCompare { input with renameEvidence := evidences } =
      afterHashes localeCompare input := by
    rw [afterHashes, afterHashes, hevid]
    rfl
  have hnames : afterBasenames localeCompare { input with renameEvidence := evidences } =
      afterBasenames localeCompare input := by
    rw [afterBasenames, afterBasenames, remainingOld, remainingOld, remainingNew, remainingNew,
      hhas]
  rw [planNoEventStructuralRenames, planNoEventStructuralRenames, hnames]

/-- The planned renames and unresolved changes are a matching, each rename has its ground, and
the order of the paths does not matter, nor that of evidence without ties. -/
theorem structural_plan_safe (localeCompare : JsString → JsString → Ordering)
    (input : NoEventStructuralInput) (hold : (input.missingCrdtPaths.map (·.path)).Nodup)
    (hnew : (input.extraDiskPaths.map (·.path)).Nodup) :
    let plan := planNoEventStructuralRenames localeCompare input
    (plan.renames.map (·.oldPath) ++ plan.unresolved.flatMap (·.oldPaths)).Nodup ∧
    (plan.renames.map (·.newPath) ++ plan.unresolved.flatMap (·.newPaths)).Nodup ∧
    (∀ rename ∈ plan.renames, Grounded input rename) ∧
    (∀ input', SamePaths input input' →
      plan.renames = (planNoEventStructuralRenames localeCompare input').renames ∧
        plan.unresolved.Perm (planNoEventStructuralRenames localeCompare input').unresolved) ∧
    ∀ evidences : List StructuralRenameEvidence, evidences.Perm input.renameEvidence →
      EvidenceOrder localeCompare input.renameEvidence →
        planNoEventStructuralRenames localeCompare { input with renameEvidence := evidences } =
          plan := by
  have hsafe : SafePlan input (afterBasenames localeCompare input) := afterBasenames_safe hold hnew
  have hrenames : (planNoEventStructuralRenames localeCompare input).renames.Perm
      (afterBasenames localeCompare input).renames := perm_insertionSort _ _
  have hunr : (planNoEventStructuralRenames localeCompare input).unresolved.Perm
      (afterBasenames localeCompare input).unresolved := perm_insertionSort _ _
  refine ⟨?_, ?_, ?_, fun input' h => plan_order h hold hnew,
    fun evidences hperm ho => plan_evidenceOrder hperm ho⟩
  · exact ((hrenames.map _).append (hunr.flatMap_right _)).nodup_iff.mpr hsafe.old_nodup
  · exact ((hrenames.map _).append (hunr.flatMap_right _)).nodup_iff.mpr hsafe.new_nodup
  intro rename hren
  exact hsafe.grounded rename (hrenames.mem_iff.mp hren)

/-- One note moved to another folder with its settled content, one was renamed by a pending rename,
one was copied twice, and one has another content under its name. -/
def movedNotes : NoEventStructuralInput where
  missingCrdtPaths := [⟨js "a/n.md", js "h"⟩, ⟨js "old.md", js "e"⟩, ⟨js "c.md", js "k"⟩,
    ⟨js "a/s.md", js "u"⟩]
  extraDiskPaths := [⟨js "b/n.md", js "h"⟩, ⟨js "new.md", js "f"⟩, ⟨js "c1.md", js "k"⟩,
    ⟨js "c2.md", js "k"⟩, ⟨js "b/s.md", js "v"⟩]
  renameEvidence := [⟨js "old.md", js "new.md", .pendingRename⟩]
  authoritative := true
  previousDiskIndex := fun path => if path = js "a/n.md" then some (some (js "h")) else none

/-- The plan for the notes: two renames, with their grounds, and two changes left open. -/
theorem structural_plan_safe_moved :
    let plan := planNoEventStructuralRenames (fun _ _ => .eq) movedNotes
    (plan.renames.map (·.oldPath) ++ plan.unresolved.flatMap (·.oldPaths)).Nodup ∧
      plan.renames = [⟨js "old.md", js "new.md", js "e:f", .evidence .pendingRename⟩,
        ⟨js "a/n.md", js "b/n.md", js "h", .baselineHashContinuity⟩] ∧
      plan.unresolved.map (·.reason) = [.countMismatch, .contentDivergedSameBasename] ∧
      ∀ rename ∈ plan.renames, Grounded movedNotes rename := by
  have hsafe := structural_plan_safe (fun _ _ => .eq) movedNotes (by decide) (by decide)
  exact ⟨hsafe.1, by decide, by decide, hsafe.2.2.1⟩

end Order

end Kaos.Runtime
