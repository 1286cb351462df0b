import Kaos.Headless.VaultAdapter

/-! What the writing operations of the headless vault keep of the files of other programs. -/
namespace Kaos.Headless

open Kaos.Lib LogEntry LinkedFiles Option
open List (append_nil mem_append_left mem_append_right mem_cons_self)

variable {β : Type*}

section Invariants

variable (fs : VaultFiles β) (log : List (LogEntry β))

/-- A file that another program has put at a path. -/
def External (file : ℕ) : Prop := ∃ path content, put path file content ∈ log

/-- A file that another program has taken from a path, or that a `process` has read and given up. -/
def Excused (file : ℕ) : Prop :=
  (∃ path, took path file ∈ log) ∨ ∃ op content, read op file content ∈ log ∧ retired op file ∈ log

/-- A file is excused or has a name. -/
def Kept (file : ℕ) : Prop := Excused log file ∨ ∃ name, fs.names name = some file

variable (index : ℕ) (seen : List (JsString × Option ℕ))

/-- A path holds what the operation found there or what somebody else has put there. -/
def Seen (path : JsString) : Prop := (path, fs.names (.vault path)) ∈ seen

namespace ProcessOp

variable (op : ProcessOp β)

/-- The source has been read as the callback got it. -/
def Read (transform : Transform β) : Prop :=
  read index transform.source transform.current ∈ log ∧
    op.fn transform.current = some transform.next

/-- The temporary file has what the callback returned. -/
def Written (transform : Transform β) : Prop :=
  ∀ file, fs.names (.temporary op.tmp) = some file → fs.content file = transform.next

/-- Everything is ready to be committed. -/
def Ready (transform : Transform β) : Prop := Read log index op transform ∧ Written fs op transform

/-- Nothing has been moved yet. -/
def Before : Prop := Seen fs seen op.path ∧ fs.names (.temporary op.displaced) = none

/-- The file of the path has been moved aside. -/
def Guarded : Prop := ∃ file, fs.names (.temporary op.displaced) = some file ∧
  (op.path, some file) ∈ seen ∧ LogEntry.displaced index op.path file ∈ log

def Aside : Prop :=
  (fs.names (.vault op.path) = none ∨ Seen fs seen op.path) ∧ Guarded fs log index seen op

/-- The result was linked at the path in the place of the file that had been read. -/
def Returned (next : β) : Prop := ∃ source current,
  read index source current ∈ log ∧ op.fn current = some next ∧
    LogEntry.displaced index op.path source ∈ log ∧ committed index op.path next ∈ log

/-- What an operation leaves at the path when nothing has to be recovered. -/
def Settled : ProcessOutcome β → Prop
  | .returned next => Returned log index op next
  | .failed _ => Seen fs seen op.path

/-- The same, or the file that was moved aside is still there. -/
def Ended (outcome : ProcessOutcome β) : Prop :=
  Settled fs log index seen op outcome ∨ outcome = .failed .retained ∧ Guarded fs log index seen op

/-- The displaced file can go. -/
def Expendable : Prop := ∀ file, fs.names (.temporary op.displaced) = some file →
  External log file → Excused log file ∨ fs.names (.vault op.path) = some file

def PhaseSound : ProcessPhase β → Prop
  | .openSource => Before fs seen op
  | .statSource source | .readSource source => Before fs seen op ∧ source < fs.count
  | .openTemporary transform => Before fs seen op ∧ Read log index op transform
  | .writeTemporary transform file => Before fs seen op ∧ Read log index op transform ∧
    fs.names (.temporary op.tmp) = some file
  | .statBefore transform | .readLatest transform _ | .statAfter transform _ _
  | .beforeCommit transform | .displace transform =>
    Before fs seen op ∧ Ready fs log index op transform
  | .statDisplacedBefore transform | .readDisplaced transform _
  | .statDisplacedAfter transform _ _ =>
    Aside fs log index seen op ∧ Ready fs log index op transform
  | .restore transform _ => Aside fs log index seen op ∧ Read log index op transform
  | .commit transform => Aside fs log index seen op ∧ Ready fs log index op transform ∧
    fs.names (.temporary op.displaced) = some transform.source
  | .closeSource outcome cleanup | .removeTemporary outcome cleanup =>
    if cleanup then Settled fs log index seen op outcome ∧ Expendable fs log op
    else Ended fs log index seen op outcome
  | .removeDisplaced outcome => Settled fs log index seen op outcome ∧ Expendable fs log op
  | .done outcome => Ended fs log index seen op outcome

end ProcessOp

/-- The temporary file of an operation is its own. -/
def OwnTemporary (tmp : ℕ) : Prop :=
  ∀ file, fs.names (.temporary tmp) = some file → ¬ External log file

def CreateOp.PhaseSound (op : CreateOp β) : CreatePhase → Prop
  | .writeTemporary file => Seen fs seen op.path ∧ fs.names (.temporary op.tmp) = some file
  | .removeTemporary true | .done true => True
  | _ => Seen fs seen op.path

namespace RenameOp

variable (op : RenameOp)

/-- A file is still at a path, if it was put somewhere by another program that has not taken it. -/
def Holds (path : JsString) (file : ℕ) : Prop := file < fs.count ∧
  (External log file → Excused log file ∨ fs.names (.vault path) = some file)

/-- The new path holds what was seen there, or what the old path held. -/
def NewPath : Prop := Seen fs seen op.newPath ∨
  ∃ file, fs.names (.vault op.newPath) = some file ∧ (op.oldPath, some file) ∈ seen

def PhaseSound : RenamePhase → Prop
  | .mkdir | .link => op.oldPath ≠ op.newPath ∧ Seen fs seen op.oldPath ∧ Seen fs seen op.newPath
  | .removeOld file => op.oldPath ≠ op.newPath ∧ Seen fs seen op.oldPath ∧
    NewPath fs seen op ∧ (op.newPath, none) ∈ seen ∧
      Holds fs log op.oldPath file ∧ Holds fs log op.newPath file
  | .removeNew file => op.oldPath ≠ op.newPath ∧ Seen fs seen op.oldPath ∧
    NewPath fs seen op ∧ (op.newPath, none) ∈ seen ∧ Holds fs log op.oldPath file
  | .done true => True
  | .done false => Seen fs seen op.oldPath ∧ NewPath fs seen op

end RenameOp

def Op.Sound : Op β → Prop
  | .process op => op.tmp ≠ op.displaced ∧ OwnTemporary fs log op.tmp ∧
    op.PhaseSound fs log index seen op.phase
  | .create op => OwnTemporary fs log op.tmp ∧ op.PhaseSound fs seen op.phase
  | .rename op => op.PhaseSound fs log seen op.phase

end Invariants

/-- A `process` that has moved aside another file than it has read finds the path free again, and a
`rename` removes the name of the file that it has linked. -/
def Op.Admissible (fs : VaultFiles β) : Op β → Prop
  | .process op => match op.phase with
    | .restore transform _ => fs.names (.vault op.path) ≠ none →
        fs.names (.temporary op.displaced) = some transform.source
    | _ => True
  | .create _ => True
  | .rename op => match op.phase with
    | .removeOld file => ∀ other, fs.names (.vault op.oldPath) = some other → other = file
    | .removeNew file => ∀ other, fs.names (.vault op.newPath) = some other → other = file
    | _ => True

/-- What a call of an operation does to the files, whatever its operation is. -/
structure OwnStep (op op' : Op β) (fs fs' : VaultFiles β) (log entries : List (LogEntry β))
    (index : ℕ) (seen : List (JsString × Option ℕ)) : Prop where
  sound : op'.Sound fs' (log ++ entries) index seen
  kept : ∀ file, External log file → Kept fs log file → Kept fs' (log ++ entries) file
  names : ∀ name, (∀ path ∈ op.paths, name ≠ .vault path) →
    (∀ tmp ∈ op.temporaries, name ≠ .temporary tmp) → fs'.names name = fs.names name
  bound : ∀ name file, fs'.names name = some file → file < fs'.count
  count : fs.count ≤ fs'.count
  scratch : ∀ tmp ∈ op.scratch, fs'.names (.temporary tmp) = fs.names (.temporary tmp) ∨
    ∀ file, fs'.names (.temporary tmp) = some file → file = fs.count
  content : ∀ file < fs.count, (∀ tmp ∈ op.scratch, fs.names (.temporary tmp) ≠ some file) →
    fs'.content file = fs.content file
  noPut : ∀ path file content, put path file content ∉ entries
  reads : ∀ op file content, read op file content ∈ entries →
    content = fs.content file ∧ file < fs.count

section Steps

variable {fs fs' : VaultFiles β} {log log' entries : List (LogEntry β)} {index : ℕ}
  {seen seen' : List (JsString × Option ℕ)} {file : ℕ} {path : JsString}

theorem External.append (h : External log file) : External (log ++ entries) file := by
  obtain ⟨path, content, hmem⟩ := h
  exact ⟨path, content, mem_append_left _ hmem⟩

theorem external_append (hnoPut : ∀ path file content, put path file content ∉ entries) :
    External (log ++ entries) file ↔ External log file := by
  refine ⟨?_, External.append⟩
  rintro ⟨path, content, hmem⟩
  rcases List.mem_append.mp hmem with hmem | hmem
  · exact ⟨path, content, hmem⟩
  · exact absurd hmem (hnoPut path file content)

theorem Excused.append (h : Excused log file) : Excused (log ++ entries) file := by
  rcases h with ⟨path, hmem⟩ | ⟨op, content, hr, hret⟩
  · exact .inl ⟨path, mem_append_left _ hmem⟩
  · exact .inr ⟨op, content, mem_append_left _ hr, mem_append_left _ hret⟩

variable {op op' : Op β}

/-- A call that leaves the files as they are. -/
theorem OwnStep.same (hb : fs.Bounded) (hs : op'.Sound fs log index seen) :
    OwnStep op op' fs fs log [] index seen := by
  refine ⟨?_, ?_, fun _ _ _ => rfl, hb, le_rfl, fun _ _ => .inl rfl, fun _ _ _ => rfl,
    fun _ _ _ => List.not_mem_nil, fun _ _ _ h => absurd h List.not_mem_nil⟩
  · rwa [append_nil]
  intro file _ h
  rwa [append_nil]

/-- What a step that touches no name of a file leaves of it. -/
theorem Kept.of_names (h : Kept fs log file)
    (hnames : ∀ name, fs.names name = some file → fs'.names name = some file) :
    Kept fs' (log ++ entries) file := by
  rcases h with hexc | ⟨name, hn⟩
  · exact .inl hexc.append
  · exact .inr ⟨name, hnames name hn⟩

variable {name : VaultName}

theorem bind_other {name' : VaultName} {target : Option ℕ} (hf : fs.names name = none)
    (h : fs.names name' = some file) : (fs.bind name target).names name' = some file := by
  have hne : name' ≠ name := by
    intro heq
    rw [heq, hf] at h
    cases h
  rw [names_bind, if_neg hne, h]

/-- A call that only logs. -/
theorem OwnStep.logged (hb : fs.Bounded) (hs : op'.Sound fs (log ++ entries) index seen)
    (hnoPut : ∀ path file content, put path file content ∉ entries)
    (hr : ∀ op file content, read op file content ∈ entries → content = fs.content file ∧
      file < fs.count) :
    OwnStep op op' fs fs log entries index seen :=
  ⟨hs, fun _ _ h => h.of_names fun _ hn => hn, fun _ _ _ => rfl, hb, le_rfl,
    fun _ _ => .inl rfl, fun _ _ _ => rfl, hnoPut, hr⟩

/-- A call that gives a free path a file that has another name. -/
theorem OwnStep.linked (hb : fs.Bounded) (hp : path ∈ op.paths)
    (hf : fs.names (.vault path) = none) (hn : fs.names name = some file)
    (hs : op'.Sound (fs.bind (.vault path) (some file)) (log ++ entries) index seen)
    (hnoPut : ∀ path file content, put path file content ∉ entries)
    (hnoR : ∀ op file content, read op file content ∉ entries) :
    OwnStep op op' fs (fs.bind (.vault path) (some file)) log entries index seen := by
  refine ⟨hs, fun other _ hk => hk.of_names fun name h => bind_other hf h, ?_, ?_,
    le_rfl, fun tmp _ => .inl ?_, fun _ _ _ => rfl, hnoPut,
    fun op file content hmem => absurd hmem (hnoR op file content)⟩
  · intro other ho _
    rw [names_bind, if_neg (ho path hp)]
  · intro name other ho
    rw [names_bind] at ho
    split at ho
    · cases ho
      exact hb _ _ hn
    · exact hb _ _ ho
  · simp [names_bind]

/-- A call that moves the file of a path to a free temporary name, at which it creates none. -/
theorem OwnStep.moved {tmp : ℕ} (hb : fs.Bounded) (hp : path ∈ op.paths)
    (htmp : tmp ∈ op.temporaries) (hscr : tmp ∉ op.scratch)
    (hf : fs.names (.temporary tmp) = none)
    (hs : op'.Sound (fs.move (.vault path) (.temporary tmp)) (log ++ entries) index seen)
    (hnoPut : ∀ path file content, put path file content ∉ entries)
    (hnoR : ∀ op file content, read op file content ∉ entries) :
    OwnStep op op' fs (fs.move (.vault path) (.temporary tmp)) log entries index seen := by
  refine ⟨hs, ?_, ?_, ?_, le_rfl, fun other ho => .inl ?_, fun _ _ _ => rfl, hnoPut,
    fun op file content hmem => absurd hmem (hnoR op file content)⟩
  · -- the file that is moved has the temporary name, every other one the name it had
    rintro file - (hexc | ⟨name, hn⟩)
    · exact .inl hexc.append
    right
    by_cases heq : name = .vault path
    · refine ⟨.temporary tmp, ?_⟩
      rw [heq] at hn
      simp [names_move, hn]
    refine ⟨name, ?_⟩
    have hnot : name ≠ .temporary tmp := by
      intro heq
      rw [heq, hf] at hn
      cases hn
    rw [names_move, if_neg heq, if_neg hnot, hn]
  · intro name ho htem
    rw [names_move, if_neg (ho path hp), if_neg (htem tmp htmp)]
  · intro name file hn
    rw [names_move] at hn
    split at hn
    · cases hn
    split at hn <;> exact hb _ _ hn
  have hne : other ≠ tmp := ne_of_mem_of_not_mem ho hscr
  simp [names_move, hne]

/-- A call that removes a name: a file that had it is excused or has another one. -/
theorem OwnStep.unlinked (hb : fs.Bounded)
    (hn : (∃ path ∈ op.paths, name = .vault path) ∨ ∃ tmp ∈ op.temporaries, name = .temporary tmp)
    (ho : ∀ file, External log file → fs.names name = some file →
      Excused log file ∨ ∃ name', name' ≠ name ∧ fs.names name' = some file)
    (hs : op'.Sound (fs.unlink name) log index seen) :
    OwnStep op op' fs (fs.unlink name) log [] index seen := by
  refine ⟨?_, ?_, ?_, ?_, le_rfl, fun tmp _ => ?_, fun _ _ _ => rfl, by simp, by simp⟩
  · rwa [append_nil]
  · intro file hext hk
    rw [append_nil]
    rcases hk with hexc | ⟨name', hf⟩
    · exact .inl hexc
    by_cases heq : name' = name
    · rw [heq] at hf
      refine (ho file hext hf).imp_right ?_
      rintro ⟨name'', hne, h⟩
      exact ⟨name'', by rw [names_unlink, if_neg hne, h]⟩
    · exact .inr ⟨name', by rw [names_unlink, if_neg heq, hf]⟩
  · intro name' hp htem
    rw [names_unlink, if_neg]
    rintro rfl
    rcases hn with ⟨path, hmem, rfl⟩ | ⟨tmp, hmem, rfl⟩
    · exact hp path hmem rfl
    · exact htem tmp hmem rfl
  · intro name' file hf
    rw [names_unlink] at hf
    split at hf
    · cases hf
    · exact hb _ _ hf
  rw [names_unlink]
  split
  · right
    exact nofun
  · exact .inl rfl

variable {tmp : ℕ} {content : β}

/-- A call that creates the temporary file of the operation. -/
theorem OwnStep.created (hb : fs.Bounded)
    (htmp : tmp ∈ op.temporaries) (hf : fs.names (.temporary tmp) = none)
    (hs : op'.Sound (fs.create (.temporary tmp) content) log index seen) :
    OwnStep op op' fs (fs.create (.temporary tmp) content) log [] index seen := by
  refine ⟨?_, ?_, ?_, ?_, Nat.le_succ _, fun other _ => ?_, ?_, by simp, by simp⟩
  · rwa [append_nil]
  · intro file hext hk
    rw [append_nil]
    refine hk.imp_right ?_
    rintro ⟨name, hn⟩
    refine ⟨name, ?_⟩
    rw [names_create, if_neg, hn]
    intro heq
    rw [heq, hf] at hn
    cases hn
  · intro name _ htem
    rw [names_create, if_neg (htem tmp htmp)]
  · intro name file hn
    rw [names_create] at hn
    split at hn
    · cases hn
      exact Nat.lt_succ_self _
    · exact Nat.lt_succ_of_lt (hb name file hn)
  · rw [names_create]
    split
    · right
      intro file h
      exact (some.inj h).symm
    · exact .inl rfl
  · intro file hlt _
    exact content_create_of_ne (Nat.ne_of_lt hlt)

/-- A call that writes a file of the operation itself. -/
theorem OwnStep.written (hb : fs.Bounded) (htmp : tmp ∈ op.scratch)
    (hn : fs.names (.temporary tmp) = some file)
    (hs : op'.Sound (fs.write file content) log index seen) :
    OwnStep op op' fs (fs.write file content) log [] index seen := by
  refine ⟨?_, ?_, fun _ _ _ => rfl, hb, le_rfl, fun _ _ => .inl rfl, ?_, by simp, by simp⟩
  · rwa [append_nil]
  · intro other _ hk
    rwa [append_nil]
  intro other _ ho
  refine content_write_of_ne ?_
  intro heq
  exact ho tmp htmp (heq ▸ hn)

/-- A new temporary file is the operation's own. -/
theorem ownTemporary_create (hexternal : ∀ file, External log file → file < fs.count) :
    OwnTemporary (fs.create (.temporary tmp) content) log tmp := by
  intro file hn hext
  simp only [names_create, if_true, Option.some.injEq] at hn
  exact absurd (hexternal file hext) (hn ▸ lt_irrefl _)

theorem OwnTemporary.append (hown : OwnTemporary fs log tmp)
    (hnames : fs'.names (.temporary tmp) = fs.names (.temporary tmp))
    (hnoPut : ∀ path file content, put path file content ∉ entries) :
    OwnTemporary fs' (log ++ entries) tmp := by
  intro file hn
  rw [external_append hnoPut]
  exact hown file (hnames ▸ hn)

namespace ProcessOp

variable {op : ProcessOp β}

/-- The source has been read and is given up: it can go. -/
theorem expendable_source {transform : Transform β} (hr : Read log index op transform)
    (hn : fs.names (.temporary op.displaced) = some transform.source)
    (hret : retired index transform.source ∈ entries) :
    Expendable fs (log ++ entries) op := by
  intro file hf _
  rw [hn] at hf
  cases hf
  exact .inl (.inr ⟨index, transform.current, mem_append_left _ hr.1, mem_append_right _ hret⟩)

/-- What an operation leaves at the path is still there when no path has changed. -/
theorem Settled.of_paths {outcome : ProcessOutcome β} (h : Settled fs log index seen op outcome)
    (hp : ∀ path, fs'.names (.vault path) = fs.names (.vault path)) :
    Settled fs' log index seen op outcome := by
  cases outcome with
  | returned next => exact h
  | failed error => simpa only [Settled, Seen, hp] using h

section Phases

variable {transform : Transform β} {phase : ProcessPhase β} {fault : Bool}

variable (hb : fs.Bounded) (hne : op.tmp ≠ op.displaced) (hown : OwnTemporary fs log op.tmp)

include hb hne hown in
/-- A call that goes on and changes no file. -/
theorem ownStep_same (h : PhaseSound fs log index seen op phase) :
    OwnStep (.process op) (.process { op with phase }) fs fs log [] index seen :=
  .same hb ⟨hne, hown, h⟩

include hb hne hown in
/-- The file of the path is moved aside. -/
theorem ownStep_displace (hbef : Before fs seen op) (hr : Ready fs log index op transform)
    (hnm : fs.names (.vault op.path) = some file) :
    OwnStep (.process op) (.process { op with phase := .statDisplacedBefore transform }) fs
      (fs.move (.vault op.path) (.temporary op.displaced)) log [.displaced index op.path file]
      index seen := by
  have hkeep : (fs.move (.vault op.path) (.temporary op.displaced)).names
      (.temporary op.tmp) = fs.names (.temporary op.tmp) := by
    simp [names_move, hne]
  refine .moved hb mem_cons_self (by simp [Op.temporaries])
    (by simpa [Op.scratch] using Ne.symm hne) hbef.2
    ⟨hne, hown.append hkeep (by simp), ⟨.inl ?_, file, ?_, hnm ▸ hbef.1, ?_⟩,
      ⟨mem_append_left _ hr.1.1, hr.1.2⟩, ?_⟩ (by simp) (by simp)
  · simp [names_move]
  · simp [names_move, hnm]
  · exact mem_append_right _ (List.mem_singleton_self _)
  intro other ho
  rw [hkeep] at ho
  exact hr.2 other ho

include hb hne hown in
/-- The result is linked, and the source is given up. -/
theorem ownStep_commit (ha : Aside fs log index seen op) (hr : Ready fs log index op transform)
    (hsrc : fs.names (.temporary op.displaced) = some transform.source)
    (hnm : fs.names (.vault op.path) = none) (htmp : fs.names (.temporary op.tmp) = some file) :
    OwnStep (.process op)
      (.process { op with phase := .closeSource (.returned transform.next) true }) fs
      (fs.bind (.vault op.path) (some file)) log
      [.committed index op.path (fs.content file), .retired index transform.source]
      index seen := by
  obtain ⟨-, displaced, hdis, -, hlog⟩ := ha
  have heq : displaced = transform.source := by
    rw [hsrc] at hdis
    exact (some.inj hdis).symm
  subst heq
  refine .linked hb mem_cons_self hnm htmp
    ⟨hne, hown.append (by simp [names_bind]) (by simp), ?_,
      expendable_source hr.1 ?_ (by simp)⟩ (by simp) (by simp)
  · refine ⟨transform.source, transform.current, mem_append_left _ hr.1.1, hr.1.2,
      mem_append_left _ hlog, mem_append_right _ ?_⟩
    rw [hr.2 file htmp]
    exact mem_cons_self
  · simpa [names_bind] using hsrc

variable {error : ProcessError} {outcome : ProcessOutcome β}

include hb hne hown in
/-- The file that was moved aside is linked at its path again. -/
theorem ownStep_relink (hguar : Guarded fs log index seen op)
    (hnm : fs.names (.vault op.path) = none)
    (hdis : fs.names (.temporary op.displaced) = some file) :
    OwnStep (.process op) (.process { op with phase := .closeSource (.failed error) true }) fs
      (fs.bind (.vault op.path) (some file)) log [] index seen := by
  obtain ⟨displaced, hd, hs, -⟩ := hguar
  rw [hdis] at hd
  cases hd
  refine .linked hb mem_cons_self hnm hdis
    ⟨hne, hown.append (by simp [names_bind]) (by simp), ?_, ?_⟩ (by simp) (by simp)
  · simpa [Settled, Seen, names_bind] using hs
  intro other ho _
  simp only [names_bind, reduceCtorEq, if_false, hdis] at ho
  simp only [names_bind, if_true]
  exact .inr ho

include hb hne hown in
/-- Somebody has taken the path: only the source itself may be given up. -/
theorem ownStep_giveUp (hr : Read log index op transform)
    (hs : Seen fs seen op.path)
    (hsrc : fs.names (.temporary op.displaced) = some transform.source) :
    OwnStep (.process op) (.process { op with phase := .closeSource (.failed error) true }) fs fs
      log [.retired index transform.source] index seen :=
  .logged hb ⟨hne, hown.append rfl (by simp), hs,
    expendable_source hr hsrc (List.mem_singleton_self _)⟩ (by simp) (by simp)

include hb hne hown in
theorem ownStep_removeTemporary {cleanup : Bool}
    (hps : PhaseSound fs log index seen op (.removeTemporary outcome cleanup)) :
    OwnStep (.process op)
      (.process { op with phase := if cleanup then .removeDisplaced outcome else .done outcome })
      fs (if fault then fs else fs.unlink (.temporary op.tmp)) log [] index seen := by
  have hphas : ∀ fs' : VaultFiles β, (∀ path, fs'.names (.vault path) =
      fs.names (.vault path)) → fs'.names (.temporary op.displaced) =
        fs.names (.temporary op.displaced) → PhaseSound fs' log index seen op
          (if cleanup then .removeDisplaced outcome else .done outcome) := by
    intro fs' hp hdis
    cases cleanup with
    | true =>
      refine ⟨hps.1.of_paths hp, ?_⟩
      simpa only [Expendable, hp, hdis] using hps.2
    | false =>
      refine hps.imp (Settled.of_paths · hp) (And.imp_right ?_)
      simp only [Guarded, hdis, imp_self]
  cases fault with
  | true => exact ownStep_same hb hne hown (hphas fs (fun _ => rfl) rfl)
  | false =>
    refine .unlinked hb (.inr ⟨op.tmp, mem_cons_self, rfl⟩) ?_ ⟨hne, ?_, hphas _ ?_ ?_⟩
    · exact fun file hext hnm => absurd hext (hown file hnm)
    · intro file hnm
      simp [names_unlink] at hnm
    · simp [names_unlink]
    · simp [names_unlink, Ne.symm hne]

include hb hne hown in
theorem ownStep_removeDisplaced (hset : Settled fs log index seen op outcome)
    (hexp : Expendable fs log op) :
    OwnStep (.process op) (.process { op with phase := .done outcome }) fs
      (if fault then fs else fs.unlink (.temporary op.displaced)) log [] index seen := by
  cases fault with
  | true => exact ownStep_same hb hne hown (.inl hset)
  | false =>
    refine .unlinked hb (.inr ⟨op.displaced, by simp [Op.temporaries], rfl⟩) ?_
      ⟨hne, ?_, .inl (hset.of_paths fun path => by simp [names_unlink])⟩
    · intro file hext hnm
      exact (hexp file hnm hext).imp_right fun hpa => ⟨.vault op.path, by simp, hpa⟩
    intro file hnm
    rw [names_unlink, if_neg (by simpa using hne)] at hnm
    exact hown file hnm

end Phases

variable [DecidableEq β] [Inhabited β] {fault : Bool}

/-- One call of `process`. -/
theorem ownStep (hb : fs.Bounded)
    (hexternal : ∀ file, External log file → file < fs.count)
    (hsd : (Op.process op).Sound fs log index seen)
    (hadm : fault = false → (Op.process op).Admissible fs) :
    OwnStep (.process op) (.process { op with phase := (op.call index fs fault).1 }) fs
      (op.call index fs fault).2.1 log (op.call index fs fault).2.2 index seen := by
  obtain ⟨hne, hown, hps⟩ := hsd
  have hsa : ∀ phase, PhaseSound fs log index seen op phase →
      OwnStep (.process op) (.process { op with phase }) fs fs log [] index seen :=
    fun _ h => ownStep_same hb hne hown h
  have hstop : ∀ error, Before fs seen op →
      OwnStep (.process op) (.process { op with phase := stop error }) fs fs log [] index seen :=
    fun error h => hsa (.closeSource (.failed error) false) (.inl h.1)
  have hres : ∀ transform error, Aside fs log index seen op →
      Read log index op transform → OwnStep (.process op)
        (.process { op with phase := .restore transform error }) fs fs log [] index seen :=
    fun transform error ha hr => hsa (.restore transform error) ⟨ha, hr⟩
  unfold call
  cases hph : op.phase <;> rw [hph] at hps <;> dsimp only
  case openSource =>
    split
    · next source hnm => exact hsa (.statSource source) ⟨hps, hb _ _ hnm⟩
    · exact hsa (.done (.failed .call)) (.inl hps.1)
  case statSource source =>
    split
    · exact hstop _ hps.1
    · exact hsa (.readSource source) hps
  case readSource source =>
    split
    · exact hstop _ hps.1
    split
    · next next hfn =>
      refine .logged hb ⟨hne, hown.append rfl (by simp), hps.1,
        mem_append_right _ (List.mem_singleton_self _), hfn⟩ (by simp) ?_
      intro op file content hmem
      rw [List.mem_singleton] at hmem
      cases hmem
      exact ⟨rfl, hps.2⟩
    · exact hstop _ hps.1
  case openTemporary transform =>
    obtain ⟨hbef, hr⟩ := hps
    split
    · exact hstop _ hbef
    · next hfails =>
      have hfr := not_not.mp (mt Or.inr hfails)
      refine .created hb mem_cons_self hfr
        ⟨hne, ownTemporary_create hexternal, ⟨?_, ?_⟩, hr, ?_⟩
      · simpa [Seen, names_create] using hbef.1
      · simpa [names_create, Ne.symm hne] using hbef.2
      · simp [names_create]
  case writeTemporary transform file =>
    obtain ⟨hbef, hr, htmp⟩ := hps
    split
    · exact hstop _ hbef
    refine .written hb mem_cons_self htmp ⟨hne, hown, hbef, hr, ?_⟩
    intro other ho
    rw [names_write, htmp] at ho
    cases ho
    exact content_write_self
  case statBefore transform =>
    split
    · next before _ => exact hsa (.readLatest transform before) hps
    · exact hstop _ hps.1
  case readLatest transform before =>
    split
    · next file _ => exact hsa (.statAfter transform before (fs.content file)) hps
    · exact hstop _ hps.1
  case statAfter transform before latest =>
    split
    · split
      · exact hstop _ hps.1
      · exact hsa (.beforeCommit transform) hps
    · exact hstop _ hps.1
  case beforeCommit transform =>
    split
    · exact hstop _ hps.1
    · exact hsa (.displace transform) hps
  case displace transform =>
    split
    · next file hnm => exact ownStep_displace hb hne hown hps.1 hps.2 hnm
    · exact hstop _ hps.1
  case statDisplacedBefore transform =>
    obtain ⟨ha, hry⟩ := hps
    split
    · next before _ => exact hsa (.readDisplaced transform before) ⟨ha, hry⟩
    · exact hres _ _ ha hry.1
  case readDisplaced transform before =>
    obtain ⟨ha, hry⟩ := hps
    split
    · next file _ =>
      exact hsa (.statDisplacedAfter transform before (fs.content file)) ⟨ha, hry⟩
    · exact hres _ _ ha hry.1
  case statDisplacedAfter transform before content =>
    obtain ⟨ha, hry⟩ := hps
    split
    · next after hnm =>
      split
      · exact hres _ _ ha hry.1
      · next hsam =>
        simp only [not_or, not_not] at hsam
        refine hsa (.commit transform) ⟨ha, hry, ?_⟩
        rw [hnm, hsam.2.1]
    · exact hres _ _ ha hry.1
  case commit transform =>
    obtain ⟨ha, hr, hsrc⟩ := hps
    split
    · exact hres _ _ ha hr.1
    split
    · next file hnm htmp =>
      rw [hsrc]
      exact ownStep_commit hb hne hown ha hr hsrc hnm htmp
    all_goals exact hres _ _ ha hr.1
  case restore transform error =>
    obtain ⟨⟨hpa, hguar⟩, hr⟩ := hps
    split
    · exact hsa (.closeSource (.failed .retained) false) (.inr ⟨rfl, hguar⟩)
    · next hfault =>
      split
      · next file hnm hdis => exact ownStep_relink hb hne hown hguar hnm hdis
      · next file hnm =>
        have hsrc : fs.names (.temporary op.displaced) = some transform.source := by
          have h := hadm (Bool.eq_false_of_not_eq_true hfault)
          simp only [Op.Admissible, hph] at h
          exact h (by simp [hnm])
        have hs : Seen fs seen op.path := by
          refine hpa.resolve_left ?_
          intro hn
          rw [hnm] at hn
          cases hn
        rw [hsrc]
        exact ownStep_giveUp hb hne hown hr hs hsrc
      · next hn =>
        obtain ⟨displaced, hdis, -, -⟩ := hguar
        rw [hdis] at hn
        cases hn
  case closeSource outcome cleanup => exact hsa (.removeTemporary outcome cleanup) hps
  case removeTemporary outcome cleanup => exact ownStep_removeTemporary hb hne hown hps
  case removeDisplaced outcome => exact ownStep_removeDisplaced hb hne hown hps.1 hps.2
  case done outcome => exact hsa (.done outcome) hps

end ProcessOp

variable [Inhabited β] {fault : Bool}

/-- One call of `create`. -/
theorem CreateOp.ownStep {op : CreateOp β} (hb : fs.Bounded)
    (hexternal : ∀ file, External log file → file < fs.count)
    (hsd : (Op.create op).Sound fs log index seen) :
    OwnStep (.create op) (.create { op with phase := (op.call fs fault).1 }) fs
      (op.call fs fault).2.1 log (op.call fs fault).2.2 index seen := by
  obtain ⟨hown, hps⟩ := hsd
  have hsa : ∀ phase, PhaseSound fs seen op phase →
      OwnStep (.create op) (.create { op with phase }) fs fs log [] index seen :=
    fun phase h => .same hb ⟨hown, h⟩
  unfold call
  cases hph : op.phase <;> rw [hph] at hps <;> dsimp only
  case mkdir =>
    split
    · exact hsa (.done false) hps
    · exact hsa .openTemporary hps
  case openTemporary =>
    split
    · exact hsa (.removeTemporary false) hps
    · next hfails =>
      have hf := not_not.mp (mt Or.inr hfails)
      refine .created hb mem_cons_self hf ⟨ownTemporary_create hexternal, ?_, ?_⟩
      · simpa [PhaseSound, Seen, names_create] using hps
      · simp [names_create]
  case writeTemporary file =>
    obtain ⟨hs, htmp⟩ := hps
    split
    · exact hsa (.removeTemporary false) hs
    · exact .written hb mem_cons_self htmp ⟨hown, hs⟩
  case link =>
    split
    · next file hn htmp =>
      exact .linked hb mem_cons_self hn htmp
        ⟨hown.append (by simp [names_bind]) (by simp), trivial⟩ (by simp) (by simp)
    · exact hsa (.removeTemporary false) hps
  case removeTemporary created =>
    cases fault with
    | true =>
      refine hsa (.done created) ?_
      cases created with
      | true => trivial
      | false => exact hps
    | false =>
      refine .unlinked hb (.inr ⟨op.tmp, mem_cons_self, rfl⟩) ?_ ⟨?_, ?_⟩
      · exact fun file hext hn => absurd hext (hown file hn)
      · intro file hn
        simp [names_unlink] at hn
      cases created with
      | true => trivial
      | false => simpa [PhaseSound, Seen, names_unlink] using hps
  case done created => exact hsa (.done created) hps

omit [Inhabited β] in
/-- One call of `rename`. -/
theorem RenameOp.ownStep {op : RenameOp} (hb : fs.Bounded)
    (hs : (Op.rename op : Op β).Sound fs log index seen)
    (hadm : fault = false → (Op.rename op : Op β).Admissible fs) :
    OwnStep (.rename op) (.rename { op with phase := (op.call fs fault).1 }) fs
      (op.call fs fault).2.1 log (op.call fs fault).2.2 index seen := by
  have hps : op.PhaseSound fs log seen op.phase := hs
  have hsa : ∀ phase, PhaseSound fs log seen op phase →
      OwnStep (.rename op) (.rename { op with phase }) fs fs log [] index seen :=
    fun phase h => .same hb h
  unfold call
  cases hph : op.phase <;> rw [hph] at hps <;> dsimp only
  case mkdir =>
    obtain ⟨hne, hold, hnew⟩ := hps
    split
    · exact hsa (.done false) ⟨hold, .inl hnew⟩
    · exact hsa .link ⟨hne, hold, hnew⟩
  case link =>
    obtain ⟨hne, hold, hnew⟩ := hps
    split
    · next file holdName hnewName =>
      have hkeep : (fs.bind (.vault op.newPath) (some file)).names (.vault op.oldPath) =
          some file := by
        rw [names_bind, if_neg (by simpa using hne), holdName]
      have hplaced : (fs.bind (.vault op.newPath) (some file)).names (.vault op.newPath) =
          some file := by
        rw [names_bind, if_pos rfl]
      have hf : (op.oldPath, some file) ∈ seen := by
        rw [← holdName]
        exact hold
      refine .linked hb (by simp [Op.paths]) hnewName holdName
        ⟨hne, ?_, .inr ⟨file, hplaced, hf⟩, ?_, ⟨hb _ _ holdName, fun _ => .inr hkeep⟩,
          ⟨hb _ _ holdName, fun _ => .inr hplaced⟩⟩ (by simp) (by simp)
      · rw [Seen, hkeep]
        exact hf
      rw [← hnewName]
      exact hnew
    · exact hsa (.done false) ⟨hold, .inl hnew⟩
  case removeOld file =>
    obtain ⟨hne, hold, hnew, hn, hhol, hholdsNew⟩ := hps
    split
    · next other hnm =>
      have hsam : other = file := by
        have h := hadm rfl
        simp only [Op.Admissible, hph] at h
        exact h other hnm
      subst hsam
      refine .unlinked hb (.inl ⟨op.oldPath, by simp [Op.paths], rfl⟩) ?_ trivial
      intro moved hext hm
      rw [hnm] at hm
      cases hm
      exact (hholdsNew.2 hext).imp_right fun h =>
        ⟨.vault op.newPath, by simpa using Ne.symm hne, h⟩
    · exact hsa (.removeNew file) ⟨hne, hold, hnew, hn, hhol⟩
  case removeNew file =>
    obtain ⟨hne, hold, hnew, hn, hhol⟩ := hps
    cases fault with
    | true => exact hsa (.done false) ⟨hold, hnew⟩
    | false =>
      refine .unlinked hb (.inl ⟨op.newPath, by simp [Op.paths], rfl⟩) ?_ ⟨?_, .inl ?_⟩
      · intro other hext ho
        have hsam : other = file := by
          have h := hadm rfl
          simp only [Op.Admissible, hph] at h
          exact h other ho
        subst hsam
        exact (hhol.2 hext).imp_right fun h => ⟨.vault op.oldPath, by simpa using hne, h⟩
      · rw [Seen, names_unlink, if_neg (by simpa using hne)]
        exact hold
      rw [Seen, names_unlink, if_pos rfl]
      exact hn
  case done renamed => exact hsa (.done renamed) hps

variable [DecidableEq β]

/-- One call of any operation. -/
theorem Op.ownStep {op : Op β} (hb : fs.Bounded)
    (hext : ∀ file, External log file → file < fs.count) (hs : op.Sound fs log index seen)
    (hadm : fault = false → op.Admissible fs) :
    OwnStep op (op.call index fs fault).1 fs (op.call index fs fault).2.1 log
      (op.call index fs fault).2.2 index seen := by
  cases op with
  | process op => exact op.ownStep hb hext hs hadm
  | create op => exact op.ownStep hb hext hs
  | rename op => exact op.ownStep hb hs hadm

end Steps

end Kaos.Headless
