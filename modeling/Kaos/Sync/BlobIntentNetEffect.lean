import Kaos.Lib.Run
import Kaos.Sync.PendingBlobIntentJournal

/-! The journal against the files whose deletions and renames it records. -/
namespace Kaos.Sync

open Kaos.Lib PendingBlobIntent PendingBlobIntentJournal PendingBlobIntentKind List

/-- A file by the path it started at, with the path it has now unless it is deleted. -/
structure TrackedFile where
  origin : JsString
  current : Option JsString
  deriving DecidableEq

namespace TrackedFile

/-- The file is not where it started. -/
def Moved (file : TrackedFile) : Prop := file.current ≠ some file.origin

/-- What there is to record of a file that has moved. -/
def intent (file : TrackedFile) : PendingBlobIntentKind :=
  match file.current with
  | none => .delete file.origin
  | some path => .rename file.origin path

end TrackedFile

def deleteFile (path : JsString) (files : List TrackedFile) : List TrackedFile :=
  files.map fun file => if file.current = some path then { file with current := none } else file

def renameFile (oldPath newPath : JsString) (files : List TrackedFile) : List TrackedFile :=
  files.map fun file =>
    if file.current = some oldPath then { file with current := some newPath } else file

/-- A recorded operation, with what its call passes and draws. -/
inductive FileCall
  | recordDelete (path : JsString) (base : PendingBlobMutationBase) (recordedAt : ℤ)
      (random : JsString)
  | recordRename (oldPath newPath : JsString) (base : PendingBlobMutationBase) (recordedAt : ℤ)
      (random : JsString)

/-- The id the call would give a new intent. -/
def FileCall.newId (journal : PendingBlobIntentJournal) : FileCall → JsString
  | .recordDelete _ _ recordedAt random | .recordRename _ _ _ recordedAt random =>
    createIntentId (nextSequence journal.intentSequence) recordedAt random

structure FilesWorld where
  journal : PendingBlobIntentJournal := {}
  files : List TrackedFile

section Run

variable (norm : JsString → JsString) (scope : PendingBlobIntentScope)

def filesNext (w : FilesWorld) : FileCall → FilesWorld
  | .recordDelete path base recordedAt random =>
    { journal := w.journal.recordDelete norm path scope base recordedAt random
      files := deleteFile (norm path) w.files }
  | .recordRename oldPath newPath base recordedAt random =>
    { journal := w.journal.recordRename norm oldPath newPath scope base recordedAt random
      files := renameFile (norm oldPath) (norm newPath) w.files }

/-- The world after some calls, from a new journal and files that are where they start. -/
def filesAt (origins : List JsString) (calls : List FileCall) (n : ℕ) : FilesWorld :=
  stateAt (filesNext norm scope)
    { files := origins.map fun origin => ⟨origin, some origin⟩ } calls n

/-- The call names the path of a file, and a rename goes to a free path. -/
def Describes (w : FilesWorld) : FileCall → Prop
  | .recordDelete path _ _ _ => ∃ file ∈ w.files, file.current = some (norm path)
  | .recordRename oldPath newPath _ _ _ =>
    (∃ file ∈ w.files, file.current = some (norm oldPath)) ∧
      norm newPath ≠ [] ∧ ∀ file ∈ w.files, file.current ≠ some (norm newPath)

/-- No intent has the id the call would give. -/
def Fresh (w : FilesWorld) (call : FileCall) : Prop :=
  ∀ entry ∈ w.journal.entries, entry.id ≠ call.newId w.journal

/-- A deleted file left its first path, and nobody is there now; a renamed file is not where a
deleted one started. -/
def Traceable (w : FilesWorld) : FileCall → Prop
  | .recordDelete path _ _ _ => ∀ file ∈ w.files, file.current = some (norm path) →
    file.origin = norm path ∨ ∀ other ∈ w.files, other.current ≠ some file.origin
  | .recordRename oldPath _ _ _ _ => ∀ other ∈ w.files, other.origin = norm oldPath →
    other.current ≠ none

/-- The journal holds what became of each file, and nothing of one that is where it started. -/
structure NetEffect (w : FilesWorld) : Prop where
  deleted : ∀ file ∈ w.files,
    (∃ entry ∈ w.journal.entries, entry.scope = scope ∧ entry.kind = .delete file.origin) ↔
      file.current = none
  renamed : ∀ file ∈ w.files, ∀ path,
    (∃ entry ∈ w.journal.entries, entry.scope = scope ∧ entry.kind = .rename file.origin path) ↔
      file.current = some path ∧ path ≠ file.origin

end Run

/-- Files have their own first paths, their own present paths, and no empty path. -/
structure Tracked (files : List TrackedFile) : Prop where
  origins : (files.map TrackedFile.origin).Nodup
  currents : ∀ file ∈ files, ∀ other ∈ files, ∀ path, file.current = some path →
    other.current = some path → file = other
  nonempty : ∀ file ∈ files, file.current ≠ some []

/-- Exactly the files that have moved have an entry, one each. -/
structure Records (scope : PendingBlobIntentScope) (w : FilesWorld) : Prop where
  tracked : Tracked w.files
  ready : ∀ entry ∈ w.journal.entries, entry.scope = scope ∧ entry.isReadyToCommit = true
  sound : ∀ entry ∈ w.journal.entries, ∃ file ∈ w.files, file.Moved ∧ entry.kind = file.intent
  complete : ∀ file ∈ w.files, file.Moved → ∃ entry ∈ w.journal.entries, entry.kind = file.intent
  sources : (w.journal.entries.map PendingBlobIntent.source).Nodup
  ids : (w.journal.entries.map PendingBlobIntent.id).Nodup

section Lemmas

variable {scope : PendingBlobIntentScope} {w : FilesWorld} {entry : PendingBlobIntent}
  {file other : TrackedFile} {path oldPath newPath : JsString} {files : List TrackedFile}
  {entries : List PendingBlobIntent}

theorem source_eq (h : entry.kind = file.intent) : entry.source = file.origin := by
  unfold source
  rw [h, TrackedFile.intent]
  cases file.current with
  | none => rfl
  | some path => rfl

theorem Tracked.eq_of_origin (h : Tracked files) (hf : file ∈ files) (ho : other ∈ files)
    (heq : file.origin = other.origin) : file = other := eq_of_key h.origins hf ho heq

theorem isReadyDelete_iff : entry.isReadyDelete scope path = true ↔
    entry.kind = .delete path ∧ entry.scope = scope ∧ entry.isReadyToCommit = true := by
  simp [isReadyDelete, and_assoc]

theorem isReadyRenameTo_iff : entry.isReadyRenameTo scope path = true ↔
    entry.kind = .rename entry.source path ∧ entry.scope = scope ∧
      entry.isReadyToCommit = true := by
  unfold isReadyRenameTo source
  cases entry.kind with
  | delete p => simp [leadsTo]
  | rename p q => simp [leadsTo, and_assoc]

theorem source_of_isReadyRenameFrom (h : entry.isReadyRenameFrom scope path = true) :
    entry.source = path ∧ ∃ newPath, entry.kind = .rename path newPath := by
  unfold isReadyRenameFrom at h
  unfold source
  cases hk : entry.kind with
  | delete p => simp [hk, startsAt] at h
  | rename p q =>
    have hp : p = path := by
      simp only [hk, startsAt, Bool.and_eq_true, decide_eq_true_eq] at h
      exact h.1.1
    exact ⟨hp, q, by rw [hp]⟩

/-- The entry of a deletion is of a deleted file that started there. -/
theorem Records.of_delete (h : Records scope w) (he : entry ∈ w.journal.entries)
    (hk : entry.kind = .delete path) :
    ∃ file ∈ w.files, file.origin = path ∧ file.current = none := by
  obtain ⟨file, hf, -, hi⟩ := h.sound entry he
  rw [hk] at hi
  unfold TrackedFile.intent at hi
  split at hi
  · next hcur =>
    cases hi
    exact ⟨file, hf, rfl, hcur⟩
  · cases hi

/-- The entry of a rename is of a file that went from one path to the other. -/
theorem Records.of_rename (h : Records scope w) (he : entry ∈ w.journal.entries)
    (hk : entry.kind = .rename oldPath newPath) :
    ∃ file ∈ w.files, file.origin = oldPath ∧ file.current = some newPath ∧ oldPath ≠ newPath := by
  obtain ⟨file, hf, hm, hi⟩ := h.sound entry he
  rw [hk] at hi
  unfold TrackedFile.intent at hi
  split at hi
  · cases hi
  · next hcur =>
    cases hi
    refine ⟨file, hf, rfl, hcur, ?_⟩
    intro heq
    apply hm
    rw [hcur, heq]

theorem Records.netEffect (h : Records scope w) : NetEffect scope w := by
  constructor
  · intro file hf
    constructor
    · rintro ⟨entry, he, -, hk⟩
      obtain ⟨other, ho, horigin, hcur⟩ := h.of_delete he hk
      rw [← h.tracked.eq_of_origin ho hf horigin]
      exact hcur
    intro hcur
    have hm : file.Moved := by
      rw [TrackedFile.Moved, hcur]
      exact nofun
    obtain ⟨entry, he, hk⟩ := h.complete file hf hm
    rw [TrackedFile.intent, hcur] at hk
    exact ⟨entry, he, (h.ready entry he).1, hk⟩
  intro file hf path
  constructor
  · rintro ⟨entry, he, -, hk⟩
    obtain ⟨other, ho, horigin, hcur, hne⟩ := h.of_rename he hk
    rw [← h.tracked.eq_of_origin ho hf horigin]
    exact ⟨hcur, horigin ▸ Ne.symm hne⟩
  rintro ⟨hcur, hne⟩
  have hm : file.Moved := by
    rw [TrackedFile.Moved, hcur]
    intro heq
    exact hne (Option.some.inj heq)
  obtain ⟨entry, he, hk⟩ := h.complete file hf hm
  rw [TrackedFile.intent, hcur] at hk
  exact ⟨entry, he, (h.ready entry he).1, hk⟩

/-- The files when the one at a path goes elsewhere or is deleted. -/
theorem tracked_map {target : Option JsString} (h : Tracked files) (hne : target ≠ some [])
    (hf : ∀ file ∈ files, target ≠ none → file.current ≠ target) :
    Tracked (files.map fun file =>
      if file.current = some path then { file with current := target } else file) := by
  constructor
  · rw [map_map]
    have hs : (TrackedFile.origin ∘ fun file : TrackedFile =>
        if file.current = some path then { file with current := target } else file) =
        TrackedFile.origin := by
      funext file
      simp only [Function.comp_apply]
      split <;> rfl
    rw [hs]
    exact h.origins
  · have := h.currents
    grind
  have := h.nonempty
  grind

/-- What the file that goes and the others have become. -/
theorem mem_map_current {target : Option JsString} (h : Tracked files) (hf : file ∈ files)
    (hcur : file.current = some path) :
    other ∈ (files.map fun file =>
      if file.current = some path then { file with current := target } else file) ↔
      other = { file with current := target } ∨ (other ∈ files ∧ other.origin ≠ file.origin) := by
  have horigin : ∀ g ∈ files, g.origin = file.origin → g = file := by
    intro g hg
    exact h.eq_of_origin hg hf
  have huniq : ∀ g ∈ files, g.current = some path → g = file := by
    intro g hg hp
    exact h.currents g hg file hf path hp hcur
  simp only [mem_map]
  constructor
  · rintro ⟨g, hg, rfl⟩
    split
    · next hp => exact .inl (by rw [huniq g hg hp])
    · next hp => exact .inr ⟨hg, fun heq => hp (by rw [horigin g hg heq, hcur])⟩
  rintro (rfl | ⟨ho, hne⟩)
  · exact ⟨file, hf, if_pos hcur⟩
  refine ⟨other, ho, if_neg ?_⟩
  intro hp
  exact hne (by rw [huniq other ho hp])

variable {journal : PendingBlobIntentJournal} {files : List TrackedFile}

/-- A journal whose entries are those of the other files, and possibly one of a file that has gone
elsewhere, records the files with that file elsewhere. -/
theorem Records.change (h : Records scope w) {moved : TrackedFile} (htrac : Tracked files)
    (hf : ∀ other, other ∈ files ↔ other = moved ∨ (other ∈ w.files ∧ other.origin ≠ file.origin))
    (hen : ∀ entry ∈ journal.entries, entry.source ≠ file.origin → entry ∈ w.journal.entries)
    (hkp : ∀ entry ∈ w.journal.entries, entry.source ≠ file.origin → entry ∈ journal.entries)
    (hown : ∀ entry ∈ journal.entries, entry.source = file.origin →
      moved.Moved ∧ entry.kind = moved.intent ∧ entry.scope = scope ∧ entry.isReadyToCommit = true)
    (hmv : moved.Moved → ∃ entry ∈ journal.entries, entry.kind = moved.intent)
    (hsour : (journal.entries.map PendingBlobIntent.source).Nodup)
    (hids : (journal.entries.map PendingBlobIntent.id).Nodup) : Records scope ⟨journal, files⟩ := by
  refine ⟨htrac, ?_, ?_, ?_, hsour, hids⟩
  · intro entry he
    by_cases hs : entry.source = file.origin
    · obtain ⟨-, -, hscope, hr⟩ := hown entry he hs
      exact ⟨hscope, hr⟩
    · exact h.ready entry (hen entry he hs)
  · intro entry he
    by_cases hs : entry.source = file.origin
    · obtain ⟨hm, hk, -, -⟩ := hown entry he hs
      exact ⟨moved, (hf moved).mpr (.inl rfl), hm, hk⟩
    obtain ⟨other, ho, hm, hk⟩ := h.sound entry (hen entry he hs)
    refine ⟨other, (hf other).mpr (.inr ⟨ho, ?_⟩), hm, hk⟩
    rw [← source_eq hk]
    exact hs
  intro other ho hm
  rcases (hf other).mp ho with rfl | ⟨ho, hne⟩
  · exact hmv hm
  obtain ⟨entry, he, hk⟩ := h.complete other ho hm
  refine ⟨entry, hkp entry he ?_, hk⟩
  rw [source_eq hk]
  exact hne

theorem collapseRenames_of_none (h : entries.find? (isReadyRenameTo scope path) = none) (rounds : ℕ)
    (base : PendingBlobMutationBase) :
    collapseRenames scope rounds entries path base = (entries, path, base) := by
  cases rounds with
  | zero => rfl
  | succ rounds => rw [collapseRenames, h]

/-- The loop only drops entries, and ends at its start or at a source of an entry. -/
theorem collapseRenames_spec (scope : PendingBlobIntentScope) (rounds : ℕ)
    (entries : List PendingBlobIntent) (path : JsString) (base : PendingBlobMutationBase) :
    (collapseRenames scope rounds entries path base).1.Sublist entries ∧
      ((collapseRenames scope rounds entries path base).2.1 = path ∨
        ∃ entry ∈ entries,
          entry.source = (collapseRenames scope rounds entries path base).2.1) := by
  apply collapseRenames_invariant (P := fun left path' _ => left.Sublist entries ∧
    (path' = path ∨ ∃ entry ∈ entries, entry.source = path'))
  · rintro left path' base' entry ⟨hsub, -⟩ hf
    refine ⟨eraseP_sublist.trans hsub, .inr ⟨entry, ?_, rfl⟩⟩
    exact hsub.subset (mem_of_find?_eq_some hf)
  · exact ⟨List.Sublist.refl _, .inl rfl⟩

/-- Nobody at a path, no rename to it. -/
theorem Records.find?_eq_none (h : Records scope w) (hsub : entries ⊆ w.journal.entries)
    (hp : ∀ file ∈ w.files, file.current = some path → file.origin = path) :
    entries.find? (isReadyRenameTo scope path) = none := by
  rw [List.find?_eq_none]
  intro entry he hto
  obtain ⟨hk, -, -⟩ := isReadyRenameTo_iff.mp hto
  obtain ⟨file, hf, horigin, hcur, hne⟩ := h.of_rename (hsub he) hk
  exact hne (horigin ▸ hp file hf hcur)

theorem mem_removeIntent (h : Records scope w) (he : entry ∈ w.journal.entries)
    {other : PendingBlobIntent} : other ∈ removeIntent entry.id w.journal.entries ↔
      other ∈ w.journal.entries ∧ other.source ≠ entry.source := by
  unfold removeIntent
  rw [mem_eraseP_key h.ids he]
  constructor <;> rintro ⟨hmem, hne⟩
  · exact ⟨hmem, fun heq => hne (eq_of_key h.sources hmem he heq)⟩
  · exact ⟨hmem, fun heq => hne (congrArg _ heq)⟩

/-- The entry of a file that is elsewhere is the one that leads to where it is. -/
theorem Records.find?_eq_some (h : Records scope w) (hf : file ∈ w.files)
    (hcur : file.current = some path) (hne : file.origin ≠ path) :
    ∃ entry ∈ w.journal.entries, entry.kind = .rename file.origin path ∧
      w.journal.entries.find? (isReadyRenameTo scope path) = some entry := by
  have hm : file.Moved := by
    rw [TrackedFile.Moved, hcur]
    intro heq
    exact hne (Option.some.inj heq).symm
  obtain ⟨entry, he, hk⟩ := h.complete file hf hm
  rw [TrackedFile.intent, hcur] at hk
  have hsrc : entry.source = file.origin := by
    rw [source, hk]
  have hto : entry.isReadyRenameTo scope path = true :=
    isReadyRenameTo_iff.mpr ⟨hsrc ▸ hk, h.ready entry he⟩
  cases hfind : w.journal.entries.find? (isReadyRenameTo scope path) with
  | none =>
    rw [List.find?_eq_none] at hfind
    exact absurd hto (hfind entry he)
  | some found =>
    have hfd := List.mem_of_find?_eq_some hfind
    obtain ⟨hk', -, -⟩ := isReadyRenameTo_iff.mp (List.find?_some hfind)
    obtain ⟨other, ho, horigin, hcur', -⟩ := h.of_rename hfd hk'
    have hs := h.tracked.currents other ho file hf path hcur' hcur
    subst hs
    have heq : found = entry := eq_of_key h.sources hfd he (horigin.symm.trans hsrc.symm)
    exact ⟨entry, he, hk, heq ▸ rfl⟩

/-- Where the loop of a traceable deletion ends: at the file's first path, without its entry. -/
theorem collapse_of_traceable (h : Records scope w) (hf : file ∈ w.files)
    (hcur : file.current = some path)
    (htrac : file.origin = path ∨ ∀ other ∈ w.files, other.current ≠ some file.origin)
    (base : PendingBlobMutationBase) : ∃ entries base',
      collapseRenames scope w.journal.entries.length w.journal.entries path base =
        (entries, file.origin, base') ∧ entries.Sublist w.journal.entries ∧
      ∀ entry, entry ∈ entries ↔ entry ∈ w.journal.entries ∧ entry.source ≠ file.origin := by
  by_cases hhome : file.origin = path
  · have hn : w.journal.entries.find? (isReadyRenameTo scope path) = none := by
      apply h.find?_eq_none (List.Subset.refl _)
      intro other ho hcur'
      rw [h.tracked.currents other ho file hf path hcur' hcur, hhome]
    refine ⟨w.journal.entries, base, ?_, List.Sublist.refl _, ?_⟩
    · rw [collapseRenames_of_none hn, hhome]
    intro entry
    refine ⟨fun he => ⟨he, ?_⟩, And.left⟩
    intro hsrc
    obtain ⟨other, ho, hm, hk⟩ := h.sound entry he
    have hs := h.tracked.eq_of_origin ho hf ((source_eq hk).symm.trans hsrc)
    apply hm
    rw [hs, hcur, hhome]
  obtain ⟨entry, he, hk, hfind⟩ := h.find?_eq_some hf hcur hhome
  have hsrc : entry.source = file.origin := by
    rw [source, hk]
  have hfr := htrac.resolve_left hhome
  have hsub : (removeIntent entry.id w.journal.entries).Sublist w.journal.entries := eraseP_sublist
  have hn : (removeIntent entry.id w.journal.entries).find?
      (isReadyRenameTo scope file.origin) = none := by
    apply h.find?_eq_none hsub.subset
    intro other ho hcur'
    exact absurd hcur' (hfr other ho)
  refine ⟨removeIntent entry.id w.journal.entries, entry.base, ?_, hsub, ?_⟩
  · cases hlen : w.journal.entries.length with
    | zero =>
      rw [length_eq_zero_iff] at hlen
      rw [hlen] at he
      cases he
    | succ rounds =>
      rw [collapseRenames, hfind]
      simp only [hsrc]
      exact collapseRenames_of_none hn rounds _
  · intro other
    rw [mem_removeIntent h he, hsrc]

variable {kind : PendingBlobIntentKind} {base : PendingBlobMutationBase} {recordedAt : ℤ}

/-- The entry that a push adds. -/
theorem mem_push {random : JsString} :
    entry ∈ (journal.push entries kind scope base recordedAt random).entries ↔
      entry ∈ entries ∨ entry = newIntent (createIntentId (nextSequence journal.intentSequence)
        recordedAt random) kind recordedAt scope base := by
  simp [push]

theorem isReadyToCommit_newIntent {id : JsString} :
    (newIntent id kind recordedAt scope base).isReadyToCommit = true := by
  simp [newIntent, isReadyToCommit]

variable {norm : JsString → JsString} {base : PendingBlobMutationBase} {recordedAt : ℤ}
  {random : JsString}

/-- Entries of the other files and a new one for this file record the file's new place. -/
theorem records_push (h : Records scope w) (moved : TrackedFile)
    (horigin : moved.origin = file.origin) (hm : moved.Moved) (htrac : Tracked files)
    (hf : ∀ other, other ∈ files ↔ other = moved ∨ (other ∈ w.files ∧ other.origin ≠ file.origin))
    (hsub : entries.Sublist w.journal.entries)
    (hmem : ∀ entry, entry ∈ entries ↔ entry ∈ w.journal.entries ∧ entry.source ≠ file.origin)
    (hfr : ∀ entry ∈ w.journal.entries, entry.id ≠
      createIntentId (nextSequence w.journal.intentSequence) recordedAt random) :
    Records scope ⟨w.journal.push entries moved.intent scope base recordedAt random, files⟩ := by
  have hsrc : (newIntent (createIntentId (nextSequence w.journal.intentSequence) recordedAt
      random) moved.intent recordedAt scope base).source = file.origin := by
    rw [← horigin]
    exact source_eq rfl
  apply h.change htrac hf
  · intro entry he hne
    rcases mem_push.mp he with he | rfl
    · exact hsub.subset he
    · exact absurd hsrc hne
  · intro entry he hne
    exact mem_push.mpr (.inl ((hmem entry).mpr ⟨he, hne⟩))
  · intro entry he heq
    rcases mem_push.mp he with he | rfl
    · exact absurd heq ((hmem entry).mp he).2
    · exact ⟨hm, rfl, rfl, isReadyToCommit_newIntent⟩
  · intro _
    exact ⟨_, mem_push.mpr (.inr rfl), rfl⟩
  · apply nodup_map_push (h.sources.sublist (hsub.map _))
    intro entry he
    rw [hsrc]
    exact ((hmem entry).mp he).2
  apply nodup_map_push (h.ids.sublist (hsub.map _))
  intro entry he
  exact hfr entry (hsub.subset he)

theorem records_recordDelete (h : Records scope w) (hf : file ∈ w.files)
    (hcur : file.current = some (norm path))
    (htrac : file.origin = norm path ∨ ∀ other ∈ w.files, other.current ≠ some file.origin)
    (hfr : ∀ entry ∈ w.journal.entries, entry.id ≠
      createIntentId (nextSequence w.journal.intentSequence) recordedAt random) :
    Records scope ⟨w.journal.recordDelete norm path scope base recordedAt random,
      deleteFile (norm path) w.files⟩ := by
  obtain ⟨entries, base', hcol, hsub, hmem⟩ := collapse_of_traceable h hf hcur htrac base
  have hany : entries.any (isReadyDelete scope file.origin) = false := by
    rw [any_eq_false]
    intro entry he hd
    obtain ⟨hk, -, -⟩ := isReadyDelete_iff.mp hd
    apply ((hmem entry).mp he).2
    rw [source, hk]
  have hfil : (entries.filter fun entry => !entry.isReadyRenameFrom scope file.origin) =
      entries := by
    rw [filter_eq_self]
    intro entry he
    cases hfrom : entry.isReadyRenameFrom scope file.origin with
    | false => rfl
    | true => exact absurd (source_of_isReadyRenameFrom hfrom).1 ((hmem entry).mp he).2
  have hd : w.journal.recordDelete norm path scope base recordedAt random =
      w.journal.push entries (.delete file.origin) scope base' recordedAt random := by
    simp only [recordDelete, hcol, hany, hfil, Bool.false_eq_true, if_false]
  rw [hd]
  apply records_push h { file with current := none } rfl ?_ (tracked_map h.tracked (Option.some_ne_none _).symm (by simp))
    (fun other => mem_map_current h.tracked hf hcur) hsub hmem hfr
  exact nofun

/-- A deletion that cannot be traced is recorded of another path. -/
theorem not_netEffect_recordDelete (h : Records scope w) (hf : file ∈ w.files)
    (hcur : file.current = some (norm path)) (hne : file.origin ≠ norm path)
    (ho : other ∈ w.files) (hot : other.current = some file.origin) :
    ¬ NetEffect scope ⟨w.journal.recordDelete norm path scope base recordedAt random,
      deleteFile (norm path) w.files⟩ := by
  obtain ⟨entry, he, hk, hfind⟩ := h.find?_eq_some hf hcur hne
  have hsrc : entry.source = file.origin := by
    rw [source, hk]
  have hos : other.origin ≠ file.origin := by
    intro heq
    rw [h.tracked.eq_of_origin ho hf heq, hcur] at hot
    exact hne (Option.some.inj hot).symm
  obtain ⟨entry', he', hk', hfind'⟩ := h.find?_eq_some ho hot hos
  have hsrc' : entry'.source ≠ file.origin := by
    rw [source, hk']
    exact hos
  have hl : entry' ∈ removeIntent entry.id w.journal.entries :=
    (mem_removeIntent h he).mpr ⟨he', hsrc ▸ hsrc'⟩
  -- the loop goes on past the file's first path
  have hpast : ∀ rounds base, w.journal.entries.length = rounds + 1 →
      (collapseRenames scope rounds (removeIntent entry.id w.journal.entries) file.origin base).2.1 ≠
        file.origin := by
    intro rounds base hlen
    cases rounds with
    | zero =>
      rw [length_eq_one_iff] at hlen
      obtain ⟨only, hlen⟩ := hlen
      rw [hlen, mem_singleton] at he he'
      exact absurd (he'.trans he.symm ▸ hsrc) hsrc'
    | succ rounds =>
      rw [collapseRenames]
      cases hfd : (removeIntent entry.id w.journal.entries).find?
          (isReadyRenameTo scope file.origin) with
      | none =>
        rw [find?_eq_none] at hfd
        have hto : entry'.isReadyRenameTo scope file.origin = true := find?_some hfind'
        exact absurd hto (hfd entry' hl)
      | some found =>
        have hsour : ∀ e ∈ removeIntent found.id (removeIntent entry.id w.journal.entries),
            e.source ≠ file.origin := by
          intro e hmem
          have hmem' := (mem_removeIntent h he).mp (eraseP_subset hmem)
          rw [← hsrc]
          exact hmem'.2
        have hfd' := (mem_removeIntent h he).mp (mem_of_find?_eq_some hfd)
        rcases (collapseRenames_spec scope rounds _ found.source found.base).2 with hend | ⟨e, hmem, hend⟩
        · rw [hend, ← hsrc]
          exact hfd'.2
        rw [← hend]
        exact hsour e hmem
  have hcol : (collapseRenames scope w.journal.entries.length w.journal.entries
        (norm path) base).2.1 ≠ file.origin ∧
      (collapseRenames scope w.journal.entries.length w.journal.entries (norm path)
        base).1.Sublist w.journal.entries := by
    refine ⟨?_, (collapseRenames_spec _ _ _ _ _).1⟩
    cases hlen : w.journal.entries.length with
    | zero =>
      rw [length_eq_zero_iff] at hlen
      rw [hlen] at he
      cases he
    | succ rounds =>
      rw [collapseRenames, hfind]
      simp only [hsrc]
      exact hpast rounds _ hlen
  intro hef
  have hfi : { file with current := none } ∈ deleteFile (norm path) w.files :=
    (mem_map_current h.tracked hf hcur).mpr (.inl rfl)
  obtain ⟨e, hmem, -, hdel⟩ := (hef.deleted _ hfi).mpr rfl
  have hold : e ∉ w.journal.entries := by
    intro hmem'
    obtain ⟨g, hg, horigin, hgone⟩ := h.of_delete hmem' hdel
    rw [h.tracked.eq_of_origin hg hf horigin, hcur] at hgone
    cases hgone
  simp only [recordDelete] at hmem
  split at hmem
  · exact hold (hcol.2.subset hmem)
  rcases mem_push.mp hmem with hmem | rfl
  · exact hold (hcol.2.subset (mem_of_mem_filter hmem))
  rw [newIntent] at hdel
  exact hcol.1 (delete.inj hdel)

variable {moved : TrackedFile} {p : PendingBlobIntent → Bool}

/-- A file that comes back to where it started has no entry any more. -/
theorem records_removeIntent (h : Records scope w) (hm : ¬ moved.Moved) (htrac : Tracked files)
    (hf : ∀ other, other ∈ files ↔ other = moved ∨ (other ∈ w.files ∧ other.origin ≠ file.origin))
    (he : entry ∈ w.journal.entries) (hsrc : entry.source = file.origin) :
    Records scope
      ⟨{ w.journal with entries := removeIntent entry.id w.journal.entries }, files⟩ := by
  have hmem : ∀ e, e ∈ removeIntent entry.id w.journal.entries ↔
      e ∈ w.journal.entries ∧ e.source ≠ file.origin := by
    intro e
    rw [mem_removeIntent h he, hsrc]
  apply h.change htrac hf
  · intro e hmem' _
    exact ((hmem e).mp hmem').1
  · intro e hmem' hne
    exact (hmem e).mpr ⟨hmem', hne⟩
  · intro e hmem' heq
    exact absurd heq ((hmem e).mp hmem').2
  · intro hm'
    exact absurd hm' hm
  · exact h.sources.sublist (eraseP_sublist.map _)
  exact h.ids.sublist (eraseP_sublist.map _)

/-- A file that goes on has its entry, with the new place. -/
theorem records_redirect (h : Records scope w) (hm : moved.Moved)
    (hin : moved.intent = .rename file.origin newPath) (htrac : Tracked files)
    (hf : ∀ other, other ∈ files ↔ other = moved ∨ (other ∈ w.files ∧ other.origin ≠ file.origin))
    (hfind : w.journal.entries.find? p = some entry) (hsrc : entry.source = file.origin) :
    Records scope
      ⟨{ w.journal with
        entries := updateFirst p
          (fun e => { e with kind := .rename e.source newPath, recordedAt := recordedAt })
          w.journal.entries }, files⟩ := by
  have hsour : ((updateFirst p (fun e => { e with
      kind := .rename e.source newPath, recordedAt := recordedAt })
        w.journal.entries).map PendingBlobIntent.source).Nodup := by
    rw [map_updateFirst]
    · exact h.sources
    · exact fun _ _ _ => rfl
  have hown := mem_updateFirst_self (f := fun e => { e with
    kind := .rename e.source newPath, recordedAt := recordedAt }) hfind
  apply h.change htrac hf
  · intro e hmem hne
    rcases mem_updateFirst hmem with hmem | ⟨found, hfound, rfl⟩
    · exact hmem
    rw [hfind] at hfound
    cases hfound
    exact absurd hsrc hne
  · intro e hmem hne
    apply mem_updateFirst_of_ne hmem
    rw [hfind]
    rintro heq
    cases heq
    exact hne hsrc
  · intro e hmem heq
    -- one entry has the source, and it is the changed one
    have hnew := eq_of_key hsour hmem hown (heq.trans hsrc.symm)
    subst hnew
    refine ⟨hm, ?_, h.ready entry (mem_of_find?_eq_some hfind)⟩
    rw [hin, ← hsrc]
  · intro _
    refine ⟨_, hown, ?_⟩
    rw [hin, ← hsrc]
  · exact hsour
  dsimp only
  rw [map_updateFirst]
  · exact h.ids
  · exact fun _ _ _ => rfl

theorem records_recordRename (h : Records scope w) (hf : file ∈ w.files)
    (hcur : file.current = some (norm oldPath)) (hnon : norm newPath ≠ [])
    (hfree : ∀ other ∈ w.files, other.current ≠ some (norm newPath))
    (htraceable : ∀ other ∈ w.files, other.origin = norm oldPath → other.current ≠ none)
    (hfr : ∀ entry ∈ w.journal.entries, entry.id ≠
      createIntentId (nextSequence w.journal.intentSequence) recordedAt random) :
    Records scope ⟨w.journal.recordRename norm oldPath newPath scope base recordedAt random,
      renameFile (norm oldPath) (norm newPath) w.files⟩ := by
  have htrac : Tracked (renameFile (norm oldPath) (norm newPath) w.files) :=
    tracked_map h.tracked (by simpa using hnon) fun file hf _ => hfree file hf
  have hfs : ∀ other, other ∈ renameFile (norm oldPath) (norm newPath) w.files ↔
      other = { file with current := some (norm newPath) } ∨
        (other ∈ w.files ∧ other.origin ≠ file.origin) :=
    fun other => mem_map_current h.tracked hf hcur
  have hg : ¬ (norm oldPath = [] ∨ norm newPath = [] ∨ norm oldPath = norm newPath) := by
    rintro (hold | hnew | heq)
    · exact h.tracked.nonempty file hf (hold ▸ hcur)
    · exact hnon hnew
    · exact hfree file hf (heq ▸ hcur)
  have hd : w.journal.entries.any (isReadyDelete scope (norm oldPath)) = false := by
    rw [any_eq_false]
    intro entry he hd
    obtain ⟨hk, -, -⟩ := isReadyDelete_iff.mp hd
    obtain ⟨other, ho, horigin, hgone⟩ := h.of_delete he hk
    exact htraceable other ho horigin hgone
  rw [recordRename]
  simp only [hg, hd, Bool.false_eq_true, if_false]
  by_cases hhome : file.origin = norm oldPath
  · -- a file that is where it started has no entry: the rename is new
    have hsour : ∀ entry ∈ w.journal.entries, entry.source ≠ file.origin := by
      intro entry he hsrc
      obtain ⟨other, ho, hm, hk⟩ := h.sound entry he
      have hsa := h.tracked.eq_of_origin ho hf ((source_eq hk).symm.trans hsrc)
      apply hm
      rw [hsa, hcur, hhome]
    have hto : w.journal.entries.any (isReadyRenameTo scope (norm oldPath)) = false := by
      rw [any_eq_false, ← find?_eq_none]
      apply h.find?_eq_none (List.Subset.refl _)
      intro other ho hcur'
      rw [h.tracked.currents other ho file hf _ hcur' hcur, hhome]
    have hfind : w.journal.entries.find? (renameToContinue
        w.journal.entries scope (norm oldPath)) = none := by
      rw [renameToContinue, hto, find?_eq_none]
      intro entry he hfrom
      exact hsour entry he ((source_of_isReadyRenameFrom hfrom).1.trans hhome.symm)
    rw [hfind, ← hhome]
    rw [← hhome] at htrac hfs
    apply records_push h { file with current := some (norm newPath) } rfl ?_ htrac hfs
      (List.Sublist.refl _) ?_ hfr
    · intro heq
      rw [Option.some.injEq] at heq
      exact hg (.inr (.inr (hhome.symm.trans heq.symm)))
    intro entry
    exact ⟨fun he => ⟨he, hsour entry he⟩, And.left⟩
  obtain ⟨entry, he, hk, hfind⟩ := h.find?_eq_some hf hcur hhome
  have hsrc : entry.source = file.origin := by
    rw [source, hk]
  have hto : w.journal.entries.any (isReadyRenameTo scope (norm oldPath)) = true := by
    rw [any_eq_true]
    exact ⟨entry, he, find?_some hfind⟩
  have hcon : renameToContinue w.journal.entries scope
      (norm oldPath) =
      isReadyRenameTo scope (norm oldPath) := by
    rw [renameToContinue, if_pos hto]
  rw [hcon, hfind]
  by_cases hb : entry.source = norm newPath
  · simp only [hb, if_true]
    apply records_removeIntent h ?_ htrac hfs he hsrc
    exact fun hm => hm (congrArg some (hb.symm.trans hsrc))
  simp only [hb, if_false]
  apply records_redirect h ?_ rfl htrac hfs hfind hsrc
  intro heq
  exact hb (hsrc.trans (Option.some.inj heq).symm)

/-- A rename away from where a deleted file started is not recorded. -/
theorem not_netEffect_recordRename (h : Records scope w) (hf : file ∈ w.files)
    (hcur : file.current = some (norm oldPath))
    (hfr : ∀ other ∈ w.files, other.current ≠ some (norm newPath)) (ho : other ∈ w.files)
    (horigin : other.origin = norm oldPath) (hg : other.current = none) :
    ¬ NetEffect scope ⟨w.journal.recordRename norm oldPath newPath scope base recordedAt
      random, renameFile (norm oldPath) (norm newPath) w.files⟩ := by
  have hm : other.Moved := by
    rw [TrackedFile.Moved, hg]
    intro heq
    cases heq
  obtain ⟨entry, he, hk⟩ := h.complete other ho hm
  rw [TrackedFile.intent, hg] at hk
  have hd : w.journal.entries.any (isReadyDelete scope (norm oldPath)) = true := by
    rw [any_eq_true]
    exact ⟨entry, he, isReadyDelete_iff.mpr ⟨horigin ▸ hk, h.ready entry he⟩⟩
  have hs : w.journal.recordRename norm oldPath newPath scope base recordedAt random =
      w.journal := by
    rw [recordRename]
    simp only [hd, if_true, ite_self]
  have hne : file.origin ≠ norm oldPath := by
    intro heq
    rw [h.tracked.eq_of_origin hf ho (heq.trans horigin.symm), hg] at hcur
    cases hcur
  obtain ⟨entry', he', hk', -⟩ := h.find?_eq_some hf hcur hne
  intro hef
  rw [hs] at hef
  have hfi : { file with current := some (norm newPath) } ∈
      renameFile (norm oldPath) (norm newPath) w.files :=
    (mem_map_current h.tracked hf hcur).mpr (.inl rfl)
  obtain ⟨hnow, -⟩ := (hef.renamed _ hfi (norm oldPath)).mp
    ⟨entry', he', (h.ready entry' he').1, hk'⟩
  exact hfr file hf (hcur.trans hnow.symm)

end Lemmas

section Runs

variable {norm : JsString → JsString} {scope : PendingBlobIntentScope}
  {origins : List JsString} {calls : List FileCall} {w : FilesWorld} {call : FileCall}

theorem records_init (horig : origins.Nodup) (hnon : [] ∉ origins) :
    Records scope { files := origins.map fun origin => ⟨origin, some origin⟩ } := by
  have hhome : ∀ file ∈ origins.map fun origin => (⟨origin, some origin⟩ : TrackedFile),
      file.origin ∈ origins ∧ file.current = some file.origin := by
    intro file hf
    obtain ⟨origin, ho, rfl⟩ := mem_map.mp hf
    exact ⟨ho, rfl⟩
  refine ⟨⟨?_, ?_, ?_⟩, ?_, ?_, ?_, nodup_nil, nodup_nil⟩
  · rw [map_map]
    exact (map_id origins).symm ▸ horig
  · intro file hf other ho path hfi hot
    obtain ⟨-, hfi'⟩ := hhome file hf
    obtain ⟨-, hot'⟩ := hhome other ho
    have horigin : file.origin = other.origin := by
      rw [hfi, Option.some.injEq] at hfi'
      rw [hot, Option.some.injEq] at hot'
      rw [← hfi', ← hot']
    cases file
    cases other
    simp only at horigin hfi hot
    rw [horigin, hfi, hot]
  · intro file hf hem
    obtain ⟨hmem, hcur⟩ := hhome file hf
    rw [hcur, Option.some.injEq] at hem
    exact hnon (hem ▸ hmem)
  · intro entry he
    cases he
  · intro entry he
    cases he
  intro file hf hm
  exact absurd (hhome file hf).2 hm

/-- A traceable call keeps the record. -/
theorem records_filesNext (h : Records scope w) (hdes : Describes norm w call)
    (hfr : Fresh w call) (htrac : Traceable norm w call) :
    Records scope (filesNext norm scope w call) := by
  cases call with
  | recordDelete path base recordedAt random =>
    obtain ⟨file, hf, hcur⟩ := hdes
    exact records_recordDelete h hf hcur (htrac file hf hcur) hfr
  | recordRename oldPath newPath base recordedAt random =>
    obtain ⟨⟨file, hf, hcur⟩, hne, hfree⟩ := hdes
    exact records_recordRename h hf hcur hne hfree htrac hfr

/-- Any other call loses what became of some file. -/
theorem traceable_of_netEffect (h : Records scope w) (hdes : Describes norm w call)
    (hef : NetEffect scope (filesNext norm scope w call)) :
    Traceable norm w call := by
  cases call with
  | recordDelete path base recordedAt random =>
    intro file hf hcur
    by_cases hhome : file.origin = norm path
    · exact .inl hhome
    refine .inr fun other ho hot => ?_
    exact not_netEffect_recordDelete h hf hcur hhome ho hot hef
  | recordRename oldPath newPath base recordedAt random =>
    obtain ⟨⟨file, hf, hcur⟩, -, hfr⟩ := hdes
    intro other ho horigin hg
    exact not_netEffect_recordRename h hf hcur hfr ho horigin hg hef

/-- As long as every call so far was traceable, the journal records the files. -/
theorem records_at (horig : origins.Nodup) (hnon : [] ∉ origins) {n : ℕ}
    (hdes : ∀ m call, calls[m]? = some call →
      Describes norm (filesAt norm scope origins calls m) call)
    (hfr : ∀ m call, calls[m]? = some call → Fresh (filesAt norm scope origins calls m) call)
    (htrac : ∀ m < n, ∀ call, calls[m]? = some call →
      Traceable norm (filesAt norm scope origins calls m) call) :
    Records scope (filesAt norm scope origins calls n) := by
  induction n with
  | zero => exact records_init horig hnon
  | succ n ih =>
    have hr := ih fun m hm => htrac m (by omega)
    cases hc : calls[n]? with
    | none =>
      rw [filesAt, stateAt_succ_none hc]
      exact hr
    | some call =>
      rw [filesAt, stateAt_succ hc]
      exact records_filesNext hr (hdes n call hc) (hfr n call hc)
        (htrac n (by omega) call hc)

/-- The journal holds the net effect in exactly the runs whose calls are all traceable. -/
theorem netEffect_iff (horigins : origins.Nodup) (hnonempty : [] ∉ origins)
    (hdescribes : ∀ n call, calls[n]? = some call →
      Describes norm (filesAt norm scope origins calls n) call)
    (hfresh : ∀ n call, calls[n]? = some call → Fresh (filesAt norm scope origins calls n) call) :
    (∀ n, NetEffect scope (filesAt norm scope origins calls n)) ↔
      ∀ n call, calls[n]? = some call →
        Traceable norm (filesAt norm scope origins calls n) call := by
  constructor
  · intro hef n
    induction n using Nat.strong_induction_on with
    | _ n ih =>
      intro call hc
      have hrec := records_at horigins hnonempty hdescribes hfresh ih
      apply traceable_of_netEffect hrec (hdescribes n call hc)
      have hn := hef (n + 1)
      rwa [filesAt, stateAt_succ hc] at hn
  · intro htrac n
    exact (records_at horigins hnonempty hdescribes hfresh fun m _ => htrac m).netEffect

instance (w : FilesWorld) (call : FileCall) : Decidable (Describes norm w call) :=
  match call with
  | .recordDelete .. => inferInstanceAs (Decidable (∃ file ∈ w.files, _))
  | .recordRename .. => inferInstanceAs (Decidable ((∃ file ∈ w.files, _) ∧ _))

instance (w : FilesWorld) (call : FileCall) : Decidable (Fresh w call) :=
  inferInstanceAs (Decidable (∀ entry ∈ w.journal.entries, _))

instance (w : FilesWorld) (call : FileCall) : Decidable (Traceable norm w call) :=
  match call with
  | .recordDelete .. => inferInstanceAs (Decidable (∀ file ∈ w.files, _ → _))
  | .recordRename .. => inferInstanceAs (Decidable (∀ other ∈ w.files, _ → _))

end Runs

def exampleScope : PendingBlobIntentScope := ⟨js "host", js "vault", js "device"⟩

/-- Two files change places through a third path, a third is deleted. -/
def swapCalls : List FileCall :=
  [.recordRename (js "a") (js "t") { known := false } 1 (js "x"),
    .recordRename (js "b") (js "a") { known := false } 2 (js "x"),
    .recordRename (js "t") (js "b") { known := false } 3 (js "x"),
    .recordDelete (js "c") { known := false } 4 (js "x")]

theorem swap_recorded : ¬ ∃ n, ¬ NetEffect exampleScope
    (filesAt id exampleScope [js "a", js "b", js "c"] swapCalls n) := by
  have hsteps : ∀ n < 4, ∀ call ∈ swapCalls[n]?,
      Describes id (filesAt id exampleScope [js "a", js "b", js "c"] swapCalls n) call ∧
      Fresh (filesAt id exampleScope [js "a", js "b", js "c"] swapCalls n) call ∧
      Traceable id (filesAt id exampleScope [js "a", js "b", js "c"] swapCalls n) call := by
    decide
  have hc : ∀ n call, swapCalls[n]? = some call → n < 4 := by
    intro n call hc
    exact (List.getElem?_eq_some_iff.mp hc).1
  rintro ⟨n, hn⟩
  apply hn
  apply (netEffect_iff (by decide) (by decide) ?_ ?_).mpr
  · intro n call h
    exact (hsteps n (hc n call h) call h).2.2
  · intro n call h
    exact (hsteps n (hc n call h) call h).1
  intro n call h
  exact (hsteps n (hc n call h) call h).2.1

/-- The first of two files makes room for the second and is deleted. -/
def displacedCalls : List FileCall :=
  [.recordRename (js "b") (js "c") { known := false } 1 (js "x"),
    .recordRename (js "a") (js "b") { known := false } 2 (js "x"),
    .recordDelete (js "c") { known := false } 3 (js "x")]

/-- Each call describes an operation, but in the end the file of the one path is deleted, and the
deletion is recorded of the other. -/
theorem displaced_deletes_other_file :
    (¬ ∃ n call, displacedCalls[n]? = some call ∧
      ¬ (Describes id (filesAt id exampleScope [js "a", js "b"] displacedCalls n) call ∧
        Fresh (filesAt id exampleScope [js "a", js "b"] displacedCalls n) call)) ∧
    ¬ NetEffect exampleScope (filesAt id exampleScope [js "a", js "b"] displacedCalls 3) := by
  constructor
  · rintro ⟨n, call, hc, hnot⟩
    have hn : n < 3 := (List.getElem?_eq_some_iff.mp hc).1
    have hsteps : ∀ n < 3, ∀ call ∈ displacedCalls[n]?,
        Describes id (filesAt id exampleScope [js "a", js "b"] displacedCalls n) call ∧
        Fresh (filesAt id exampleScope [js "a", js "b"] displacedCalls n) call := by
      decide
    exact hnot (hsteps n hn call hc)
  intro hef
  have hdel := (hef.deleted ⟨js "b", none⟩ (by decide)).mpr rfl
  revert hdel
  decide

end Kaos.Sync
