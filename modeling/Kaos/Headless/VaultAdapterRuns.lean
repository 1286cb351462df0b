import Mathlib.Tactic.IntervalCases
import Kaos.Headless.VaultAdapterSafety

/-! Runs of the headless vault among programs that write the same files. -/
namespace Kaos.Headless

open Kaos.Lib VaultState LogEntry List Option LinkedFiles

variable {β : Type*}

/-- What somebody else's step leaves of the files of an operation. -/
structure OtherStep (op : Op β) (fs fs' : VaultFiles β) (log log' : List (LogEntry β))
    (seen seen' : List (JsString × Option ℕ)) : Prop where
  temporaries : ∀ tmp ∈ op.temporaries, fs'.names (.temporary tmp) = fs.names (.temporary tmp)
  content : ∀ tmp ∈ op.scratch, ∀ file, fs.names (.temporary tmp) = some file →
    fs'.content file = fs.content file
  count : fs.count ≤ fs'.count
  logged : ∀ entry ∈ log, entry ∈ log'
  fresh : ∀ file < fs.count, External log' file → External log file
  witnessed : ∀ entry ∈ seen, entry ∈ seen'
  paths : ∀ path ∈ op.paths, fs'.names (.vault path) = fs.names (.vault path) ∨ Seen fs' seen' path
  held : ∀ path ∈ op.paths, ∀ file, fs.names (.vault path) = some file →
    Excused log' file ∨ fs'.names (.vault path) = some file

theorem Op.temporaries_of_scratch {op : Op β} {tmp : ℕ} (h : tmp ∈ op.scratch) :
    tmp ∈ op.temporaries := by
  cases op with
  | process op => exact mem_cons.mpr (.inl (mem_singleton.mp h))
  | create op => exact h
  | rename op => cases h

theorem Excused.mono {log log' : List (LogEntry β)} {file : ℕ} (hlog : ∀ entry ∈ log, entry ∈ log')
    (h : Excused log file) : Excused log' file := by
  rcases h with ⟨path, hmem⟩ | ⟨op, content, hr, hret⟩
  · exact .inl ⟨path, hlog _ hmem⟩
  · exact .inr ⟨op, content, hlog _ hr, hlog _ hret⟩

section Others

variable {fs fs' : VaultFiles β} {log log' : List (LogEntry β)}
  {seen seen' : List (JsString × Option ℕ)} {index : ℕ}

variable {op : Op β}

theorem Seen.other {path : JsString} (hother : OtherStep op fs fs' log log' seen seen')
    (hp : path ∈ op.paths) (h : Seen fs seen path) : Seen fs' seen' path := by
  rcases hother.paths path hp with hsa | hs
  · rw [Seen, hsa]
    exact hother.witnessed _ h
  · exact hs

theorem OwnTemporary.other {tmp : ℕ} (hb : fs.Bounded)
    (hother : OtherStep op fs fs' log log' seen seen') (htmp : tmp ∈ op.temporaries)
    (h : OwnTemporary fs log tmp) : OwnTemporary fs' log' tmp := by
  intro file hn hext
  rw [hother.temporaries tmp htmp] at hn
  exact h file hn (hother.fresh file (hb _ _ hn) hext)

namespace ProcessOp

variable {op : ProcessOp β} {transform : Transform β} {outcome : ProcessOutcome β}

section

variable (hother : OtherStep (.process op) fs fs' log log' seen seen')
include hother

theorem Before.other (h : Before fs seen op) : Before fs' seen' op := by
  refine ⟨h.1.other hother mem_cons_self, ?_⟩
  rw [hother.temporaries op.displaced (by simp [Op.temporaries])]
  exact h.2

theorem Read.other (h : Read log index op transform) : Read log' index op transform :=
  ⟨hother.logged _ h.1, h.2⟩

theorem Ready.other (h : Ready fs log index op transform) : Ready fs' log' index op transform := by
  refine ⟨h.1.other hother, ?_⟩
  intro file hn
  rw [hother.temporaries op.tmp mem_cons_self] at hn
  rw [hother.content op.tmp mem_cons_self file hn]
  exact h.2 file hn

theorem Guarded.other (h : Guarded fs log index seen op) : Guarded fs' log' index seen' op := by
  obtain ⟨file, hn, hs, hdis⟩ := h
  refine ⟨file, ?_, hother.witnessed _ hs, hother.logged _ hdis⟩
  rw [hother.temporaries op.displaced (by simp [Op.temporaries])]
  exact hn

theorem Aside.other (h : Aside fs log index seen op) : Aside fs' log' index seen' op := by
  refine ⟨?_, h.2.other hother⟩
  rcases hother.paths op.path mem_cons_self with hsa | hs
  · rw [Seen, hsa]
    exact h.1.imp_right (hother.witnessed _)
  · exact .inr hs

theorem Settled.other
    (h : Settled fs log index seen op outcome) : Settled fs' log' index seen' op outcome := by
  cases outcome with
  | returned next =>
    obtain ⟨source, current, hr, hfn, hdis, hc⟩ := h
    exact ⟨source, current, hother.logged _ hr, hfn, hother.logged _ hdis, hother.logged _ hc⟩
  | failed error => exact Seen.other hother mem_cons_self h

theorem Ended.other
    (h : Ended fs log index seen op outcome) : Ended fs' log' index seen' op outcome :=
  h.imp (Settled.other hother) (And.imp_right (Guarded.other hother))

end

theorem Expendable.other (hb : fs.Bounded)
    (hother : OtherStep (.process op) fs fs' log log' seen seen') (h : Expendable fs log op) :
    Expendable fs' log' op := by
  intro file hn hext
  rw [hother.temporaries op.displaced (by simp [Op.temporaries])] at hn
  rcases h file hn (hother.fresh file (hb _ _ hn) hext) with hexc | hp
  · exact .inl (hexc.mono hother.logged)
  · exact hother.held op.path mem_cons_self file hp

theorem PhaseSound.other {phase : ProcessPhase β} (hb : fs.Bounded)
    (hother : OtherStep (.process op) fs fs' log log' seen seen')
    (h : PhaseSound fs log index seen op phase) : PhaseSound fs' log' index seen' op phase := by
  cases phase with
  | openSource => exact Before.other hother h
  | statSource source | readSource source => exact ⟨h.1.other hother, h.2.trans_le hother.count⟩
  | openTemporary transform => exact ⟨h.1.other hother, h.2.other hother⟩
  | writeTemporary transform file =>
    refine ⟨h.1.other hother, h.2.1.other hother, ?_⟩
    rw [hother.temporaries op.tmp mem_cons_self]
    exact h.2.2
  | statBefore transform | readLatest transform before | statAfter transform before latest
  | beforeCommit transform | displace transform => exact ⟨h.1.other hother, h.2.other hother⟩
  | statDisplacedBefore transform | readDisplaced transform before
  | statDisplacedAfter transform before content => exact ⟨h.1.other hother, h.2.other hother⟩
  | restore transform error => exact ⟨h.1.other hother, h.2.other hother⟩
  | commit transform =>
    refine ⟨h.1.other hother, h.2.1.other hother, ?_⟩
    rw [hother.temporaries op.displaced (by simp [Op.temporaries])]
    exact h.2.2
  | closeSource outcome cleanup | removeTemporary outcome cleanup =>
    cases cleanup with
    | true => exact ⟨Settled.other hother h.1, Expendable.other hb hother h.2⟩
    | false => exact Ended.other hother h
  | removeDisplaced outcome => exact ⟨Settled.other hother h.1, Expendable.other hb hother h.2⟩
  | done outcome => exact Ended.other hother h

end ProcessOp

theorem CreateOp.PhaseSound.other {op : CreateOp β} {phase : CreatePhase}
    (hother : OtherStep (.create op) fs fs' log log' seen seen')
    (h : PhaseSound fs seen op phase) : PhaseSound fs' seen' op phase := by
  have hs : Seen fs seen op.path → Seen fs' seen' op.path := Seen.other hother mem_cons_self
  cases phase with
  | mkdir | openTemporary | link => exact hs h
  | writeTemporary file =>
    refine ⟨hs h.1, ?_⟩
    rw [hother.temporaries op.tmp mem_cons_self]
    exact h.2
  | removeTemporary created | done created =>
    cases created with
    | true => trivial
    | false => exact hs h

namespace RenameOp

variable {op : RenameOp}

theorem NewPath.other (hother : OtherStep (.rename op) fs fs' log log' seen seen')
    (h : NewPath fs seen op) : NewPath fs' seen' op := by
  have hmem : op.newPath ∈ (Op.rename op : Op β).paths := by simp [Op.paths]
  rcases h with hs | ⟨file, hn, hold⟩
  · exact .inl (hs.other hother hmem)
  rcases hother.paths _ hmem with hsa | hs
  · exact .inr ⟨file, hsa.trans hn, hother.witnessed _ hold⟩
  · exact .inl hs

theorem Holds.other {path : JsString} {file : ℕ}
    (hother : OtherStep (.rename op) fs fs' log log' seen seen')
    (hp : path ∈ (Op.rename op : Op β).paths) (h : Holds fs log path file) :
    Holds fs' log' path file := by
  refine ⟨h.1.trans_le hother.count, ?_⟩
  intro hext
  rcases h.2 (hother.fresh file h.1 hext) with hexc | hn
  · exact .inl (hexc.mono hother.logged)
  · exact hother.held path hp file hn

theorem PhaseSound.other {phase : RenamePhase}
    (hother : OtherStep (.rename op) fs fs' log log' seen seen')
    (h : PhaseSound fs log seen op phase) : PhaseSound fs' log' seen' op phase := by
  have hold : op.oldPath ∈ (Op.rename op : Op β).paths := by simp [Op.paths]
  have hnew : op.newPath ∈ (Op.rename op : Op β).paths := by simp [Op.paths]
  cases phase with
  | mkdir | link =>
    obtain ⟨hne, hs, hseenNew⟩ := h
    exact ⟨hne, hs.other hother hold, hseenNew.other hother hnew⟩
  | removeOld file =>
    obtain ⟨hne, hs, hnewPath, hn, hhol, hholdsNew⟩ := h
    exact ⟨hne, hs.other hother hold, hnewPath.other hother, hother.witnessed _ hn,
      hhol.other hother hold, hholdsNew.other hother hnew⟩
  | removeNew file =>
    obtain ⟨hne, hs, hnewPath, hn, hhol⟩ := h
    exact ⟨hne, hs.other hother hold, hnewPath.other hother, hother.witnessed _ hn,
      hhol.other hother hold⟩
  | done renamed =>
    cases renamed with
    | true => trivial
    | false => exact ⟨Seen.other hother hold h.1, NewPath.other hother h.2⟩

end RenameOp

theorem Op.Sound.other (hb : fs.Bounded) (hother : OtherStep op fs fs' log log' seen seen')
    (h : op.Sound fs log index seen) : op.Sound fs' log' index seen' := by
  cases op with
  | process op =>
    exact ⟨h.1, h.2.1.other hb hother mem_cons_self, h.2.2.other hb hother⟩
  | create op =>
    exact ⟨h.1.other hb hother mem_cons_self, CreateOp.PhaseSound.other hother h.2⟩
  | rename op => exact RenameOp.PhaseSound.other hother h

end Others

/-- What every state of a run keeps. -/
structure VaultState.Inv (s : VaultState β) : Prop where
  bound : ∀ name file, s.fs.names name = some file → file < s.fs.count
  free : ∀ n, s.temporaryFileSequence ≤ n → s.fs.names (.temporary n) = none
  owned : ∀ (i : ℕ) (running : Running β), s.ops[i]? = some running →
    ∀ tmp ∈ running.op.temporaries, tmp < s.temporaryFileSequence
  apart : ∀ (i j : ℕ) (one other : Running β), s.ops[i]? = some one → s.ops[j]? = some other →
    i ≠ j → ∀ tmp ∈ one.op.temporaries, tmp ∉ other.op.temporaries
  alone : ∀ (i j : ℕ) (one other : Running β), s.ops[i]? = some one → s.ops[j]? = some other →
    i ≠ j → one.op.isDone = false → other.op.isDone = false →
      ∀ path ∈ one.op.paths, path ∉ other.op.paths
  scratch : ∀ (i j : ℕ) (one other : Running β), s.ops[i]? = some one → s.ops[j]? = some other →
    i ≠ j → ∀ tmp ∈ one.op.scratch, ∀ tmp' ∈ other.op.scratch, ∀ file,
      s.fs.names (.temporary tmp) = some file → s.fs.names (.temporary tmp') ≠ some file
  puts : ∀ path file content, put path file content ∈ s.log →
    file < s.fs.count ∧ s.fs.content file = content
  reads : ∀ op file content, read op file content ∈ s.log →
    file < s.fs.count ∧ ∀ path content', put path file content' ∈ s.log → content = content'
  kept : ∀ file, External s.log file → Kept s.fs s.log file
  sound : ∀ (i : ℕ) (running : Running β), s.ops[i]? = some running → running.op.isDone = false →
    running.op.Sound s.fs s.log i running.seen

/-- What another program can do to the files. -/
structure Interference (fs fs' : VaultFiles β) (log entries : List (LogEntry β)) : Prop where
  temporaries : ∀ tmp, fs'.names (.temporary tmp) = fs.names (.temporary tmp)
  bound : ∀ name file, fs'.names name = some file → file < fs'.count
  count : fs.count ≤ fs'.count
  content : ∀ file < fs.count, fs'.content file = fs.content file
  puts : ∀ path file content, put path file content ∈ entries →
    fs.count ≤ file ∧ file < fs'.count ∧ fs'.content file = content ∧
      ∃ name, fs'.names name = some file
  noRead : ∀ op file content, read op file content ∉ entries
  held : ∀ path file, fs.names (.vault path) = some file →
    Excused (log ++ entries) file ∨ fs'.names (.vault path) = some file

namespace VaultState

section Steps

variable {s : VaultState β}

theorem Inv.external (h : s.Inv) {file : ℕ} (hf : External s.log file) : file < s.fs.count := by
  obtain ⟨path, content, hmem⟩ := hf
  exact (h.puts path file content hmem).1

theorem Inv.interfere {fs' : VaultFiles β} {entries : List (LogEntry β)} (h : s.Inv)
    (hfs : Interference s.fs fs' s.log entries) : (s.interfere fs' entries).Inv := by
  have hops : ∀ (i : ℕ) (running : Running β), (s.interfere fs' entries).ops[i]? = some running →
      ∃ before, s.ops[i]? = some before ∧ running = Running.observe s.fs fs' before := by
    intro i running hi
    simp only [VaultState.interfere, getElem?_map, map_eq_some_iff] at hi
    obtain ⟨before, hb, heq⟩ := hi
    exact ⟨before, hb, heq.symm⟩
  have hfr : ∀ file < s.fs.count, External (s.log ++ entries) file → External s.log file := by
    rintro file hlt ⟨path, content, hmem⟩
    rcases mem_append.mp hmem with hmem | hmem
    · exact ⟨path, content, hmem⟩
    · exact absurd (hfs.puts path file content hmem).1 (Nat.not_le_of_lt hlt)
  constructor
  · exact hfs.bound
  · intro n hn
    exact (hfs.temporaries n).trans (h.free n hn)
  · intro i running hi
    obtain ⟨before, hb, rfl⟩ := hops i running hi
    exact h.owned i before hb
  · intro i j one other hi hj hne
    obtain ⟨one, hone, rfl⟩ := hops i one hi
    obtain ⟨other, hother, rfl⟩ := hops j other hj
    exact h.apart i j one other hone hother hne
  · intro i j one other hi hj hne
    obtain ⟨one, hone, rfl⟩ := hops i one hi
    obtain ⟨other, hother, rfl⟩ := hops j other hj
    exact h.alone i j one other hone hother hne
  · intro i j one other hi hj hne tmp htmp tmp' htmp' file
    obtain ⟨one, hone, rfl⟩ := hops i one hi
    obtain ⟨other, hother, rfl⟩ := hops j other hj
    simp only [VaultState.interfere, hfs.temporaries]
    exact h.scratch i j one other hone hother hne tmp htmp tmp' htmp' file
  · intro path file content hmem
    rcases mem_append.mp hmem with hmem | hmem
    · obtain ⟨hlt, hc⟩ := h.puts path file content hmem
      exact ⟨hlt.trans_le hfs.count, (hfs.content file hlt).trans hc⟩
    obtain ⟨-, hlt, hc, -⟩ := hfs.puts path file content hmem
    exact ⟨hlt, hc⟩
  · intro op file content hmem
    rcases mem_append.mp hmem with hmem | hmem
    · obtain ⟨hlt, hputs⟩ := h.reads op file content hmem
      refine ⟨hlt.trans_le hfs.count, ?_⟩
      intro path content' hput
      rcases mem_append.mp hput with hput | hput
      · exact hputs path content' hput
      · exact absurd (hfs.puts path file content' hput).1 (Nat.not_le_of_lt hlt)
    · exact absurd hmem (hfs.noRead op file content)
  · intro file hext
    by_cases hlt : file < s.fs.count
    · rcases h.kept file (hfr file hlt hext) with hexc | ⟨name, hnm⟩
      · exact .inl hexc.append
      cases name with
      | vault path => exact (hfs.held path file hnm).imp_right fun h => ⟨.vault path, h⟩
      | temporary n => exact .inr ⟨.temporary n, (hfs.temporaries n).trans hnm⟩
    obtain ⟨path, content, hmem⟩ := hext
    rcases mem_append.mp hmem with hmem | hmem
    · exact absurd (h.puts path file content hmem).1 hlt
    · exact .inr (hfs.puts path file content hmem).2.2.2
  intro i running hi hd
  obtain ⟨before, hb, rfl⟩ := hops i running hi
  refine (h.sound i before hb hd).other h.bound ?_
  refine ⟨fun tmp _ => hfs.temporaries tmp, ?_, hfs.count, ?_, hfr, ?_, ?_, ?_⟩
  · intro tmp _ file hnm
    exact hfs.content file (h.bound _ _ hnm)
  · exact fun entry hmem => mem_append_left _ hmem
  · exact fun entry hmem => mem_append_left _ hmem
  · intro path hp
    by_cases hs : fs'.names (.vault path) = s.fs.names (.vault path)
    · exact .inl hs
    right
    refine mem_append_right _ (mem_filter.mpr ⟨?_, by simpa using hs⟩)
    exact mem_map.mpr ⟨path, hp, rfl⟩
  · exact fun path _ => hfs.held path

variable {path : JsString}

theorem held_seen {fs : VaultFiles β} {paths : List JsString}
    (h : path ∈ paths) : Seen fs (held fs paths) path := mem_map.mpr ⟨path, h, rfl⟩

theorem Inv.start {op : Op β} (h : s.Inv)
    (htemporaries : ∀ tmp ∈ op.temporaries, s.temporaryFileSequence ≤ tmp ∧
      tmp < s.temporaryFileSequence + op.temporaries.length)
    (hsound : op.Sound s.fs s.log s.ops.length (held s.fs op.paths)) : (s.start op).Inv := by
  rw [VaultState.start]
  split
  · exact h
  · next hlock =>
    have hf : ∀ (i : ℕ) (running : Running β), s.ops[i]? = some running →
        running.op.isDone = false → ∀ path ∈ running.op.paths, path ∉ op.paths := by
      intro i running hi hd path hp hmem
      refine hlock (List.any_eq_true.mpr ⟨running, List.mem_of_getElem? hi, ?_⟩)
      simp only [hd, Bool.not_false, Bool.true_and, List.any_eq_true, decide_eq_true_eq]
      exact ⟨path, hp, hmem⟩
    constructor
    · exact h.bound
    · exact fun n hn => h.free n ((Nat.le_add_right _ _).trans hn)
    · intro i running hi tmp htmp
      rcases getElem?_append_one hi with hi | ⟨-, rfl⟩
      · exact (h.owned i running hi tmp htmp).trans_le (Nat.le_add_right _ _)
      · exact (htemporaries tmp htmp).2
    · intro i j one other hi hj hne tmp hone hother
      rcases getElem?_append_one hi with hi | ⟨rfl, rfl⟩
      · rcases getElem?_append_one hj with hj | ⟨rfl, rfl⟩
        · exact h.apart i j one other hi hj hne tmp hone hother
        · exact absurd (h.owned i one hi tmp hone) (Nat.not_lt_of_le (htemporaries tmp hother).1)
      rcases getElem?_append_one hj with hj | ⟨rfl, rfl⟩
      · exact absurd (h.owned j other hj tmp hother) (Nat.not_lt_of_le (htemporaries tmp hone).1)
      · exact hne rfl
    · intro i j one other hi hj hne hd hd' path hone hother
      rcases getElem?_append_one hi with hi | ⟨rfl, rfl⟩
      · rcases getElem?_append_one hj with hj | ⟨rfl, rfl⟩
        · exact h.alone i j one other hi hj hne hd hd' path hone hother
        · exact hf i one hi hd path hone hother
      rcases getElem?_append_one hj with hj | ⟨rfl, rfl⟩
      · exact hf j other hj hd' path hother hone
      · exact hne rfl
    · -- the temporary names of the new operation have no file yet
      intro i j one other hi hj hne tmp hone tmp' hother file hnm hnm'
      have hnew : ∀ tmp ∈ op.scratch, s.fs.names (.temporary tmp) = none :=
        fun tmp htmp => h.free tmp (htemporaries tmp (Op.temporaries_of_scratch htmp)).1
      rcases getElem?_append_one hi with hi | ⟨rfl, rfl⟩
      · rcases getElem?_append_one hj with hj | ⟨rfl, rfl⟩
        · exact h.scratch i j one other hi hj hne tmp hone tmp' hother file hnm hnm'
        · cases (hnew tmp' hother).symm.trans hnm'
      · cases (hnew tmp hone).symm.trans hnm
    · exact h.puts
    · exact h.reads
    · exact h.kept
    intro i running hi hd
    rcases getElem?_append_one hi with hi | ⟨rfl, rfl⟩
    · exact h.sound i running hi hd
    · exact hsound

theorem mem_took {entry : LogEntry β} (h : entry ∈ s.took path) :
    ∃ file, s.fs.names (.vault path) = some file ∧ entry = .took path file := by
  simpa [took, eq_comm] using h

theorem took_of_name {file : ℕ} (h : s.fs.names (.vault path) = some file) :
    LogEntry.took path file ∈ s.took path := by
  simp [took, h]

theorem interference_create (hb : s.fs.Bounded) (path : JsString) (content : β) :
    Interference s.fs (s.fs.create (.vault path) content) s.log
      (s.took path ++ [.put path s.fs.count content]) := by
  constructor
  · simp [names_create]
  · intro name file hn
    rw [names_create] at hn
    split at hn
    · cases hn
      exact Nat.lt_succ_self _
    · exact Nat.lt_succ_of_lt (hb name file hn)
  · exact Nat.le_succ _
  · exact fun file hlt => content_create_of_ne (Nat.ne_of_lt hlt)
  · intro path' file content' hmem
    rcases mem_append.mp hmem with htook | hput
    · obtain ⟨_, -, heq⟩ := mem_took htook
      cases heq
    cases mem_singleton.mp hput
    refine ⟨le_rfl, Nat.lt_succ_self _, content_create_self, .vault path, ?_⟩
    rw [names_create, if_pos rfl]
  · intro op file content' hmem
    rcases mem_append.mp hmem with htook | hput
    · obtain ⟨_, -, heq⟩ := mem_took htook
      cases heq
    · cases mem_singleton.mp hput
  intro path' file hn
  by_cases heq : path' = path
  · subst heq
    exact .inl (.inl ⟨path', mem_append_right _ (mem_append_left _ (took_of_name hn))⟩)
  right
  rwa [names_create, if_neg (by simpa using heq)]

theorem interference_unlink (hb : s.fs.Bounded) (path : JsString) :
    Interference s.fs (s.fs.unlink (.vault path)) s.log (s.took path) := by
  constructor
  · simp [names_unlink]
  · intro name file hn
    rw [names_unlink] at hn
    split at hn
    · cases hn
    · exact hb name file hn
  · exact le_rfl
  · exact fun _ _ => rfl
  · intro path' file content hmem
    obtain ⟨_, -, heq⟩ := mem_took hmem
    cases heq
  · intro op file content hmem
    obtain ⟨_, -, heq⟩ := mem_took hmem
    cases heq
  intro path' file hn
  by_cases heq : path' = path
  · subst heq
    exact .inl (.inl ⟨path', mem_append_right _ (took_of_name hn)⟩)
  right
  rwa [names_unlink, if_neg (by simpa using heq)]

end Steps

end VaultState

section Calls

variable [DecidableEq β] [Inhabited β] {fs : VaultFiles β} {index : ℕ} {fault : Bool}

theorem Op.call_paths (op : Op β) : (op.call index fs fault).1.paths = op.paths := by
  cases op <;> rfl

theorem Op.call_temporaries (op : Op β) :
    (op.call index fs fault).1.temporaries = op.temporaries := by
  cases op <;> rfl

theorem Op.call_scratch (op : Op β) : (op.call index fs fault).1.scratch = op.scratch := by
  cases op <;> rfl

/-- An operation that has ended makes no further calls. -/
theorem Op.call_of_isDone {op : Op β} (h : op.isDone = true) :
    op.call index fs fault = (op, fs, []) := by
  cases op with
  | process op =>
    obtain ⟨path, fn, tmp, displaced, phase⟩ := op
    cases phase with
    | done outcome => rfl
    | _ => cases h
  | create op =>
    obtain ⟨path, content, tmp, phase⟩ := op
    cases phase with
    | done created => rfl
    | _ => cases h
  | rename op =>
    obtain ⟨oldPath, newPath, phase⟩ := op
    cases phase with
    | done renamed => rfl
    | _ => cases h

end Calls

omit β in
variable {index : ℕ} {seen : List (JsString × Option ℕ)}

theorem Op.Sound.ownTemporary {β : Type*} {op : Op β} {fs : VaultFiles β} {log : List (LogEntry β)}
    (h : op.Sound fs log index seen) : ∀ tmp ∈ op.scratch, OwnTemporary fs log tmp := by
  intro tmp htmp
  cases op with
  | process op => exact mem_singleton.mp htmp ▸ h.2.1
  | create op => exact mem_singleton.mp htmp ▸ h.1
  | rename op => cases htmp

/-- How a `process` is going to end. -/
def ProcessPhase.outcome : ProcessPhase β → Option (ProcessOutcome β)
  | .restore _ error => some (.failed error)
  | .closeSource outcome _ | .removeTemporary outcome _ | .removeDisplaced outcome
  | .done outcome => some outcome
  | _ => none

/-- The operation does not leave a file under a temporary name. -/
def Op.NotRetained : Op β → Prop
  | .process op => op.phase.outcome ≠ some (.failed .retained)
  | _ => True

theorem ProcessOp.notRetained_call [DecidableEq β] [Inhabited β] {op : ProcessOp β}
    {fs : VaultFiles β} {fault : Bool}
    (hr : fault = true → ∀ transform error, op.phase ≠ .restore transform error)
    (ha : ∀ transform error, op.phase = .restore transform error →
      fs.names (.temporary op.displaced) ≠ none)
    (h : op.phase.outcome ≠ some (.failed .retained)) :
    (op.call index fs fault).1.outcome ≠ some (.failed .retained) := by
  unfold call
  cases hph : op.phase <;> rw [hph] at h
  case restore transform error =>
    have hdis := ha _ _ hph
    cases fault with
    | true => exact absurd hph (hr rfl _ _)
    | false =>
      dsimp only
      rw [if_neg Bool.false_ne_true]
      split
      · exact h
      · exact h
      · next hn => exact absurd hn hdis
  case removeTemporary outcome cleanup => cases cleanup <;> exact h
  case closeSource | removeDisplaced | done => exact h
  all_goals
    dsimp only
    (repeat' split) <;> simp [ProcessPhase.outcome, stop]

namespace VaultState

variable [DecidableEq β] [Inhabited β] {s : VaultState β} {index : ℕ} {fault : Bool}
  {running : Running β}

theorem next_call (h : s.ops[index]? = some running) : s.next (.call index fault) =
    { s with
      fs := (running.op.call index s.fs fault).2.1
      log := s.log ++ (running.op.call index s.fs fault).2.2
      ops := s.ops.set index { running with op := (running.op.call index s.fs fault).1 } } := by
  simp only [next, h]

theorem next_call_of_isDone (h : s.ops[index]? = some running) (hd : running.op.isDone = true) :
    s.next (.call index fault) = s := by
  have hset : s.ops.set index running = s.ops := by
    obtain ⟨hlt, rfl⟩ := List.getElem?_eq_some_iff.mp h
    exact List.set_getElem_self hlt
  rw [next_call h, Op.call_of_isDone hd]
  simp only [append_nil, hset]

omit [DecidableEq β] [Inhabited β] in
/-- The temporary file of the caller is its old one or a new one, so no other operation has it. -/
theorem Inv.scratch_ne {op' : Op β} {fs' : VaultFiles β} {entries : List (LogEntry β)} {i : ℕ}
    {other : Running β} {tmp tmp' file : ℕ} (h : s.Inv) (hindex : s.ops[index]? = some running)
    (hown : OwnStep running.op op' s.fs fs' s.log entries index running.seen)
    (hi : s.ops[i]? = some other) (hne : index ≠ i) (htmp : tmp ∈ running.op.scratch)
    (htmp' : tmp' ∈ other.op.scratch) (hnm : fs'.names (.temporary tmp) = some file) :
    s.fs.names (.temporary tmp') ≠ some file := by
  intro hnm'
  rcases hown.scratch tmp htmp with hsa | hnew
  · exact h.scratch index i running other hindex hi hne tmp htmp tmp' htmp' file
      (hsa.symm.trans hnm) hnm'
  · exact absurd (h.bound _ _ hnm') (hnew file hnm ▸ lt_irrefl _)

/-- A call of an operation that is under way. -/
theorem Inv.call (h : s.Inv) (hindex : s.ops[index]? = some running)
    (hdone : running.op.isDone = false) (hadm : fault = false → running.op.Admissible s.fs) :
    (s.next (.call index fault)).Inv := by
  have hs := h.sound index running hindex hdone
  have hown := running.op.ownStep h.bound (fun file => h.external) hs hadm
  rw [next_call hindex]
  generalize hcal : running.op.call index s.fs fault = called at hown
  obtain ⟨op', fs', entries⟩ := called
  have hps : op'.paths = running.op.paths := by
    have heq : (running.op.call index s.fs fault).1.paths = running.op.paths :=
      running.op.call_paths
    rwa [hcal] at heq
  have htem : op'.temporaries = running.op.temporaries := by
    have heq : (running.op.call index s.fs fault).1.temporaries = running.op.temporaries :=
      running.op.call_temporaries
    rwa [hcal] at heq
  have hscr : op'.scratch = running.op.scratch := by
    have heq : (running.op.call index s.fs fault).1.scratch = running.op.scratch :=
      running.op.call_scratch
    rwa [hcal] at heq
  have hlt := (List.getElem?_eq_some_iff.mp hindex).1
  have hops : ∀ i after,
      (s.ops.set index { running with op := op' })[i]? = some after →
        i = index ∧ after = { running with op := op' } ∨ i ≠ index ∧ s.ops[i]? = some after := by
    intro i after hi
    rw [List.getElem?_set] at hi
    split at hi
    · next heq => exact .inl ⟨heq.symm, (some.inj hi).symm⟩
    · next hne => exact .inr ⟨Ne.symm hne, hi⟩
  -- the operations have the names they had
  have hb : ∀ (i : ℕ) (after : Running β),
      (s.ops.set index { running with op := op' })[i]? = some after →
        ∃ before, s.ops[i]? = some before ∧ after.op.paths = before.op.paths ∧
          after.op.temporaries = before.op.temporaries ∧ after.op.scratch = before.op.scratch ∧
            (after.op.isDone = false → before.op.isDone = false) := by
    intro i after hi
    rcases hops i after hi with ⟨rfl, rfl⟩ | ⟨-, hi⟩
    · exact ⟨running, hindex, hps, htem, hscr, fun _ => hdone⟩
    · exact ⟨after, hi, rfl, rfl, rfl, id⟩
  -- those of the other operations are left alone
  have hfor : ∀ i other, i ≠ index → s.ops[i]? = some other →
      ∀ tmp ∈ other.op.temporaries, fs'.names (.temporary tmp) = s.fs.names (.temporary tmp) := by
    intro i other hne hi tmp htmp
    refine hown.names _ nofun ?_
    rintro tmp' htmp' heq
    cases heq
    exact h.apart i index other running hi hindex hne tmp htmp htmp'
  constructor
  · exact hown.bound
  · intro n hn
    rw [← h.free n hn]
    refine hown.names _ nofun ?_
    rintro tmp htmp heq
    cases heq
    exact absurd (h.owned index running hindex n htmp) (Nat.not_lt_of_le hn)
  · intro i after hi tmp htmp
    obtain ⟨before, hi, -, heq, -⟩ := hb i after hi
    exact h.owned i before hi tmp (heq ▸ htmp)
  · intro i j one other hi hj hne
    obtain ⟨one', hi, -, heq, -⟩ := hb i one hi
    obtain ⟨other', hj, -, heq', -⟩ := hb j other hj
    rw [heq, heq']
    exact h.apart i j one' other' hi hj hne
  · intro i j one other hi hj hne hone hother
    obtain ⟨one', hi, heq, -, -, hkeep⟩ := hb i one hi
    obtain ⟨other', hj, heq', -, -, hkeep'⟩ := hb j other hj
    rw [heq, heq']
    exact h.alone i j one' other' hi hj hne (hkeep hone) (hkeep' hother)
  · intro i j one other hi hj hne tmp htmp tmp' htmp' file hnm hnm'
    obtain ⟨one', hi', -, -, heq, -⟩ := hb i one hi
    obtain ⟨other', hj', -, -, heq', -⟩ := hb j other hj
    rw [heq] at htmp
    rw [heq'] at htmp'
    by_cases hiin : i = index
    · subst hiin
      have hrun : one' = running := some.inj (hi'.symm.trans hindex)
      subst hrun
      rw [hfor j other' (Ne.symm hne) hj' tmp' (Op.temporaries_of_scratch htmp')] at hnm'
      exact h.scratch_ne hindex hown hj' hne htmp htmp' hnm hnm'
    rw [hfor i one' hiin hi' tmp (Op.temporaries_of_scratch htmp)] at hnm
    by_cases hjin : j = index
    · subst hjin
      have hrun : other' = running := some.inj (hj'.symm.trans hindex)
      subst hrun
      exact h.scratch_ne hindex hown hi' (Ne.symm hne) htmp' htmp hnm' hnm
    · rw [hfor j other' hjin hj' tmp' (Op.temporaries_of_scratch htmp')] at hnm'
      exact h.scratch i j one' other' hi' hj' hne tmp htmp tmp' htmp' file hnm hnm'
  · intro path file content hmem
    have hmem' := (List.mem_append.mp hmem).resolve_right (hown.noPut path file content)
    obtain ⟨hbd, hc⟩ := h.puts path file content hmem'
    refine ⟨hbd.trans_le hown.count, (hown.content file hbd ?_).trans hc⟩
    intro tmp htmp hnm
    exact hs.ownTemporary tmp htmp file hnm ⟨path, content, hmem'⟩
  · intro op file content hmem
    have hputs : ∀ path content', put path file content' ∈ s.log ++ entries →
        put path file content' ∈ s.log := fun path content' hput =>
      (List.mem_append.mp hput).resolve_right (hown.noPut path file content')
    rcases List.mem_append.mp hmem with hmem | hmem
    · obtain ⟨hbd, hc⟩ := h.reads op file content hmem
      exact ⟨hbd.trans_le hown.count, fun path content' hput =>
        hc path content' (hputs path content' hput)⟩
    obtain ⟨hc, hbd⟩ := hown.reads op file content hmem
    exact ⟨hbd.trans_le hown.count, fun path content' hput =>
      hc.trans (h.puts path file content' (hputs path content' hput)).2⟩
  · intro file hext
    have hext' := (external_append hown.noPut).mp hext
    exact hown.kept file hext' (h.kept file hext')
  intro i after hi ha
  rcases hops i after hi with ⟨rfl, rfl⟩ | ⟨hne, hi⟩
  · exact hown.sound
  refine (h.sound i after hi ha).other h.bound ?_
  have hpat : ∀ path ∈ after.op.paths, fs'.names (.vault path) = s.fs.names (.vault path) := by
    intro path hp
    refine hown.names _ ?_ nofun
    rintro path' hp' heq
    cases heq
    exact h.alone i index after running hi hindex hne ha hdone path hp hp'
  refine ⟨hfor i after hne hi, ?_, hown.count, fun _ => mem_append_left _,
    fun _ _ => (external_append hown.noPut).mp, fun _ => id,
    fun path hp => .inl (hpat path hp),
    fun path hp file hnm => .inr ((hpat path hp).trans hnm)⟩
  intro tmp htmp file hnm
  refine hown.content file (h.bound _ _ hnm) ?_
  intro tmp' htmp'
  exact h.scratch i index after running hi hindex hne tmp htmp tmp' htmp' file hnm

/-- A call that succeeds does not take or give up what it has not read. -/
def Admissible (s : VaultState β) : Event β → Prop
  | .call index false => ∀ running, s.ops[index]? = some running → running.op.Admissible s.fs
  | _ => True

variable {event : Event β}

theorem Inv.next (h : s.Inv) (hadm : s.Admissible event) : (s.next event).Inv := by
  cases event with
  | process path fn =>
    refine h.start ?_ ⟨?_, ?_, held_seen mem_cons_self, h.free _ (Nat.le_succ _)⟩
    · simp only [Op.temporaries, mem_cons, not_mem_nil, or_false, length_cons, length_nil]
      omega
    · exact Nat.ne_of_lt (Nat.lt_succ_self _)
    intro file hn
    cases (h.free _ le_rfl).symm.trans hn
  | create path content =>
    refine h.start ?_ ⟨?_, held_seen mem_cons_self⟩
    · simp only [Op.temporaries, mem_cons, not_mem_nil, or_false, length_cons, length_nil]
      omega
    intro file hn
    cases (h.free _ le_rfl).symm.trans hn
  | rename oldPath newPath =>
    refine h.start (fun tmp htmp => absurd htmp not_mem_nil) ?_
    by_cases hs : oldPath = newPath
    · simp [hs, Op.Sound, RenameOp.PhaseSound]
    simp only [hs, if_false, Op.Sound, RenameOp.PhaseSound]
    exact ⟨hs, held_seen (by simp [Op.paths]), held_seen (by simp [Op.paths])⟩
  | call index fault =>
    cases hix : s.ops[index]? with
    | none => simpa only [VaultState.next, hix] using h
    | some running =>
      cases hd : running.op.isDone with
      | true => rwa [next_call_of_isDone hix hd]
      | false =>
        refine h.call hix hd ?_
        rintro rfl
        exact hadm running hix
  | externalCreate path content =>
    cases hn : s.fs.names (.vault path) with
    | some file => simpa only [VaultState.next, hn] using h
    | none =>
      have hcreate := h.interfere (interference_create h.bound path content)
      simpa only [VaultState.next, hn, VaultState.took, map_none, toList_none,
        nil_append] using hcreate
  | externalReplace path content => exact h.interfere (interference_create h.bound path content)
  | externalDelete path => exact h.interfere (interference_unlink h.bound path)

/-- No operation has begun, and the files that are there are those of other programs. -/
structure Initial (s : VaultState β) : Prop where
  ops : s.ops = []
  bound : ∀ name file, s.fs.names name = some file → file < s.fs.count
  free : ∀ n, s.temporaryFileSequence ≤ n → s.fs.names (.temporary n) = none
  log : ∀ entry ∈ s.log, ∃ path file, entry = .put path file (s.fs.content file) ∧
    s.fs.names (.vault path) = some file

omit [DecidableEq β] [Inhabited β] in
theorem Initial.inv (h : s.Initial) : s.Inv := by
  have hn : ∀ (i : ℕ) (running : Running β), s.ops[i]? ≠ some running := by
    intro i running hi
    rw [h.ops] at hi
    cases hi
  constructor
  · exact h.bound
  · exact h.free
  · exact fun i running hi => absurd hi (hn i running)
  · exact fun i _ one _ hi => absurd hi (hn i one)
  · exact fun i _ one _ hi => absurd hi (hn i one)
  · exact fun i _ one _ hi => absurd hi (hn i one)
  · intro path file content hmem
    obtain ⟨path', file', heq, hnm⟩ := h.log _ hmem
    cases heq
    exact ⟨h.bound _ _ hnm, rfl⟩
  · intro op file content hmem
    obtain ⟨_, _, heq, -⟩ := h.log _ hmem
    cases heq
  · rintro file ⟨path, content, hmem⟩
    obtain ⟨path', file', heq, hnm⟩ := h.log _ hmem
    cases heq
    exact .inr ⟨_, hnm⟩
  · exact fun i running hi => absurd hi (hn i running)

/-- A call that moves a file back or undoes a link does not fail for a reason of its own. -/
def Restores (s : VaultState β) : Event β → Prop
  | .call index true => ∀ running, s.ops[index]? = some running → match running.op with
    | .process op => ∀ transform error, op.phase ≠ .restore transform error
    | .create _ => True
    | .rename op => ∀ file, op.phase ≠ .removeNew file
  | _ => True

/-- A step leaves an operation as it is, or is a call of it, or the operation begins. -/
theorem next_op {running' : Running β} (h : (s.next event).ops[index]? = some running') :
    (∃ running, s.ops[index]? = some running ∧ running'.op = running.op) ∨
    (∃ fault running, event = .call index fault ∧ s.ops[index]? = some running ∧
      running' = { running with op := (running.op.call index s.fs fault).1 }) ∨
    s.ops[index]? = none ∧ running'.op.NotRetained := by
  have hst : ∀ op : Op β, op.NotRetained → (s.start op).ops[index]? = some running' →
      (∃ running, s.ops[index]? = some running ∧ running'.op = running.op) ∨
        s.ops[index]? = none ∧ running'.op.NotRetained := by
    intro op hnot hop
    rw [VaultState.start] at hop
    split at hop
    · exact .inl ⟨running', hop, rfl⟩
    rcases getElem?_append_one hop with hop | ⟨rfl, rfl⟩
    · exact .inl ⟨running', hop, rfl⟩
    · exact .inr ⟨List.getElem?_eq_none le_rfl, hnot⟩
  have hint : ∀ fs' entries, (s.interfere fs' entries).ops[index]? = some running' →
      ∃ running, s.ops[index]? = some running ∧ running'.op = running.op := by
    intro fs' entries hop
    simp only [VaultState.interfere, getElem?_map, map_eq_some_iff] at hop
    obtain ⟨running, hix, rfl⟩ := hop
    exact ⟨running, hix, rfl⟩
  cases event with
  | process path fn =>
    refine (hst _ ?_ h).imp_right .inr
    simp [Op.NotRetained, ProcessPhase.outcome]
  | create path content | rename oldPath newPath =>
    refine (hst _ ?_ h).imp_right .inr
    trivial
  | externalCreate path content =>
    cases hn : s.fs.names (.vault path) with
    | some file =>
      simp only [VaultState.next, hn] at h
      exact .inl ⟨running', h, rfl⟩
    | none =>
      simp only [VaultState.next, hn] at h
      exact .inl (hint _ _ h)
  | externalReplace path content | externalDelete path => exact .inl (hint _ _ h)
  | call index' fault =>
    cases hcal : s.ops[index']? with
    | none =>
      simp only [VaultState.next, hcal] at h
      exact .inl ⟨running', h, rfl⟩
    | some caller =>
      rw [next_call hcal] at h
      simp only [getElem?_set] at h
      split at h
      · next heq =>
        subst heq
        rw [if_pos (List.getElem?_eq_some_iff.mp hcal).1] at h
        cases h
        exact .inr (.inl ⟨fault, caller, rfl, hcal, rfl⟩)
      · exact .inl ⟨running', h, rfl⟩

/-- An operation ends with a call of its own. -/
theorem call_of_ended {running' : Running β} (hix : s.ops[index]? = some running)
    (hd : running.op.isDone = false) (hix' : (s.next event).ops[index]? = some running')
    (hd' : running'.op.isDone = true) : ∃ fault, event = .call index fault ∧
      running' = { running with op := (running.op.call index s.fs fault).1 } := by
  rcases next_op hix' with ⟨one, hone, heq⟩ | ⟨fault, one, hev, hone, heq⟩ | ⟨hn, -⟩
  · cases hix.symm.trans hone
    rw [heq, hd] at hd'
    cases hd'
  · cases hix.symm.trans hone
    exact ⟨fault, hev, heq⟩
  · cases hix.symm.trans hn

theorem Inv.notRetained_next (h : s.Inv) (hr : s.Restores event)
    (hnot : ∀ (i : ℕ) (running : Running β), s.ops[i]? = some running → running.op.NotRetained)
    (i : ℕ) (running' : Running β) (hi : (s.next event).ops[i]? = some running') :
    running'.op.NotRetained := by
  rcases next_op hi with ⟨one, hone, heq⟩ | ⟨fault, ⟨op, seen⟩, rfl, hone, rfl⟩ | ⟨-, hnew⟩
  · rw [heq]
    exact hnot i one hone
  · cases op with
    | process op =>
      refine op.notRetained_call ?_ ?_ (hnot i _ hone)
      · rintro rfl
        exact hr _ hone
      intro transform error hph
      have hs := (h.sound i _ hone (by simp [Op.isDone, hph])).2.2
      rw [hph] at hs
      obtain ⟨⟨-, file, hn, -⟩, -⟩ := hs
      exact hn ▸ some_ne_none file
    | create op | rename op => trivial
  · exact hnew

end VaultState

/-- What an operation that has ended promises of its paths. -/
def Op.Promise (fs : VaultFiles β) (log : List (LogEntry β)) (index : ℕ)
    (seen : List (JsString × Option ℕ)) : Op β → Prop
  | .process op => ∀ outcome, op.phase = .done outcome → op.Ended fs log index seen outcome
  | .create op => op.phase = .done false → Seen fs seen op.path
  | .rename op => op.phase = .done false → Seen fs seen op.oldPath ∧ op.NewPath fs seen

/-- What it promises when nothing has failed that restores a path. -/
def Op.Restored (fs : VaultFiles β) (log : List (LogEntry β)) (index : ℕ)
    (seen : List (JsString × Option ℕ)) : Op β → Prop
  | .process op => ∀ outcome, op.phase = .done outcome → op.Settled fs log index seen outcome
  | .create op => op.phase = .done false → Seen fs seen op.path
  | .rename op => op.phase = .done false → Seen fs seen op.oldPath ∧ Seen fs seen op.newPath

theorem Op.Sound.promise {op : Op β} {fs : VaultFiles β} {log : List (LogEntry β)}
    (h : op.Sound fs log index seen) : op.Promise fs log index seen := by
  cases op with
  | process op =>
    intro outcome hph
    have hs := h.2.2
    rwa [hph] at hs
  | create op =>
    intro hph
    have hs := h.2
    rwa [hph] at hs
  | rename op =>
    intro hph
    have hs : op.PhaseSound fs log seen op.phase := h
    rwa [hph] at hs

theorem Op.Sound.restored {op : Op β} {fs : VaultFiles β} {log : List (LogEntry β)}
    (h : op.Sound fs log index seen) (hnot : op.NotRetained)
    (hnew : ∀ r, op = .rename r → r.phase = .done false → Seen fs seen r.newPath) :
    op.Restored fs log index seen := by
  cases op with
  | process op =>
    intro outcome hph
    refine (h.promise outcome hph).resolve_right ?_
    rintro ⟨rfl, -⟩
    exact hnot (by rw [hph, ProcessPhase.outcome])
  | create op => exact h.promise
  | rename op => exact fun hph => ⟨(h.promise hph).1, hnew op rfl hph⟩

/-- A rename that fails leaves the new path as it was when its undo does not fail. -/
theorem RenameOp.seen_of_failed {op : RenameOp} {fs : VaultFiles β} {log : List (LogEntry β)}
    {fault : Bool} (h : op.PhaseSound fs log seen op.phase) (hnot : op.phase ≠ .done false)
    (hr : fault = true → ∀ file, op.phase ≠ .removeNew file)
    (hd : (op.call fs fault).1 = .done false) : Seen (op.call fs fault).2.1 seen op.newPath := by
  unfold call at hd ⊢
  cases hph : op.phase <;> rw [hph] at h hd <;> dsimp only at hd ⊢
  case mkdir => exact h.2.2
  case link =>
    split at hd
    · cases hd
    · exact h.2.2
  case removeOld file => split at hd <;> cases hd
  case removeNew file =>
    cases fault with
    | true => exact absurd hph (hr rfl file)
    | false => simpa [Seen, names_unlink] using h.2.2.2.1
  case done renamed => exact absurd (hph.trans hd) hnot

section Runs

variable [DecidableEq β] [Inhabited β] {s : VaultState β} {events : List (Event β)}

theorem VaultState.Inv.stateAt (h : s.Inv) (hadm : ∀ n event, events[n]? = some event →
      (stateAt VaultState.next s events n).Admissible event) (n : ℕ) :
    (stateAt VaultState.next s events n).Inv :=
  stateAt_from (Nat.zero_le n) h fun k event _ hev h => h.next (hadm k event hev)

theorem VaultState.Initial.notRetained (hs : s.Initial) (hinv : ∀ n, (stateAt next s events n).Inv)
    {n : ℕ} (hr : ∀ m < n, ∀ event, events[m]? = some event →
      (stateAt next s events m).Restores event) :
    ∀ (i : ℕ) (running : Running β), (stateAt next s events n).ops[i]? = some running →
      running.op.NotRetained := by
  induction n with
  | zero =>
    intro i running hi
    rw [stateAt_zero, hs.ops] at hi
    cases hi
  | succ n ih =>
    have hb := ih fun m hm => hr m (Nat.lt_succ_of_lt hm)
    rcases stateAt_step next s events n with ⟨-, heq⟩ | ⟨event, hev, heq⟩
    · rwa [heq]
    rw [heq]
    exact (hinv n).notRetained_next (hr n (Nat.lt_succ_self n) event hev) hb

/-- The files of other programs, and what operations leave at their paths. -/
theorem external_files_kept (hs : s.Initial) (hadmissible : ∀ n event, events[n]? = some event →
      (stateAt VaultState.next s events n).Admissible event) (n : ℕ) :
    (∀ path file content,
      put path file content ∈ (stateAt VaultState.next s events n).log →
        (∃ path', LogEntry.took path' file ∈ (stateAt VaultState.next s events n).log) ∨
        (∃ op, read op file content ∈ (stateAt VaultState.next s events n).log ∧
          retired op file ∈ (stateAt VaultState.next s events n).log) ∨
        ∃ name, (stateAt VaultState.next s events n).fs.names name = some file ∧
          (stateAt VaultState.next s events n).fs.content file = content) ∧
    ∀ (index : ℕ) (running running' : Running β),
      (stateAt VaultState.next s events n).ops[index]? = some running →
      running.op.isDone = false →
      (stateAt VaultState.next s events (n + 1)).ops[index]? = some running' →
      running'.op.isDone = true →
      running'.op.Promise (stateAt VaultState.next s events (n + 1)).fs
        (stateAt VaultState.next s events (n + 1)).log index running'.seen ∧
      ((∀ m ≤ n, ∀ event, events[m]? = some event →
        (stateAt VaultState.next s events m).Restores event) →
        running'.op.Restored (stateAt VaultState.next s events (n + 1)).fs
          (stateAt VaultState.next s events (n + 1)).log index running'.seen) := by
  have hinv := hs.inv.stateAt hadmissible
  constructor
  · intro path file content hput
    rcases (hinv n).kept file ⟨path, content, hput⟩ with (htook | ⟨op, content', hr, hret⟩) |
      ⟨name, hn⟩
    · exact .inl htook
    · rw [((hinv n).reads op file content' hr).2 path content hput] at hr
      exact .inr (.inl ⟨op, hr, hret⟩)
    · exact .inr (.inr ⟨name, hn, ((hinv n).puts path file content hput).2⟩)
  intro index running running' hix hd hix' hd'
  have hf := @VaultState.Initial.notRetained _ _ _ s events hs hinv (n + 1)
  rcases stateAt_step VaultState.next s events n with ⟨-, heq⟩ | ⟨event, hev, heq⟩
  · rw [heq, hix] at hix'
    cases hix'
    rw [hd] at hd'
    cases hd'
  rw [heq] at hix' hf ⊢
  obtain ⟨fault, rfl, rfl⟩ := call_of_ended hix hd hix' hd'
  have hsd := (hinv n).sound _ running hix hd
  have hend : (running.op.call index (stateAt VaultState.next s events n).fs fault).1.Sound
      ((stateAt VaultState.next s events n).next (.call index fault)).fs
      ((stateAt VaultState.next s events n).next (.call index fault)).log index running.seen := by
    rw [next_call hix]
    refine (running.op.ownStep (hinv n).bound (fun file => (hinv n).external) hsd ?_).sound
    rintro rfl
    exact hadmissible n _ hev running hix
  refine ⟨hend.promise, fun hrs => hend.restored
    (hf (fun m hm => hrs m (Nat.le_of_lt_succ hm)) index _ hix') ?_⟩
  rw [next_call hix]
  rintro r heq hph
  obtain ⟨op, seen⟩ := running
  cases op with
  | process op | create op => cases heq
  | rename op =>
    cases heq
    refine RenameOp.seen_of_failed hsd ?_ ?_ hph
    · rintro hdn
      simp [Op.isDone, hdn] at hd
    rintro rfl
    exact hrs n le_rfl _ hev _ hix

end Runs

/-- One path that has a file of another program. -/
def VaultState.single (path : JsString) (content : ℕ) : VaultState ℕ where
  fs :=
    { names := fun name => if name = .vault path then some 0 else none
      content := fun _ => content
      count := 1 }
  temporaryFileSequence := 0
  log := [.put path 0 content]

theorem VaultState.single_initial (path : JsString) (content : ℕ) :
    (single path content).Initial := by
  constructor
  · rfl
  · intro name file hn
    simp only [single] at hn ⊢
    split at hn
    · cases hn
      exact Nat.zero_lt_one
    · cases hn
  · intro n _
    simp [single]
  intro entry hmem
  exact ⟨path, 0, mem_singleton.mp hmem, by simp [single]⟩

/-- A `process` that nobody disturbs. -/
theorem external_files_kept_process :
    Op.Restored (stateAt next (.single [97] 7)
        (.process [97] some :: List.replicate 17 (.call 0 false)) 18).fs
      (stateAt next (.single [97] 7)
        (.process [97] some :: List.replicate 17 (.call 0 false)) 18).log 0 [([97], some 0)]
      (.process ⟨[97], some, 0, 1, .done (.returned 7)⟩) := by
  refine ((@external_files_kept ℕ _ _ (.single [97] 7)
    (.process [97] some :: List.replicate 17 (.call 0 false)) (single_initial [97] 7) ?_ 17).2 0
    ⟨.process ⟨[97], some, 0, 1, .removeDisplaced (.returned 7)⟩, [([97], some 0)]⟩
    ⟨.process ⟨[97], some, 0, 1, .done (.returned 7)⟩, [([97], some 0)]⟩ rfl rfl rfl rfl).2 ?_
  · intro n event hev
    have hlt : n < 18 := (List.getElem?_eq_some_iff.mp hev).1
    interval_cases n <;> cases hev
    · trivial
    all_goals
      intro running hr
      cases hr
      trivial
  intro n hn event hev
  interval_cases n <;> cases hev <;> trivial

/-- A note that is replaced just before it is moved aside, at a path that is then taken. -/
def takenRace : List (Event ℕ) :=
  .process [97] some :: List.replicate 9 (.call 0 false) ++
    .externalReplace [97] 8 :: List.replicate 4 (.call 0 false) ++
      .externalCreate [97] 9 :: List.replicate 4 (.call 0 false)

theorem takenRace_log :
    (stateAt next (.single [97] 7) takenRace takenRace.length).log =
      [.put [97] 0 7, .read 0 0 7, .took [97] 0, .put [97] 2 8, .displaced 0 [97] 2, .put [97] 3 9,
        .retired 0 2] := rfl

theorem takenRace_fs :
    (stateAt next (.single [97] 7) takenRace takenRace.length).fs =
      ((((((((single [97] 7).fs.create (.temporary 0) 0).write 1 7).create
        (.vault [97]) 8).move (.vault [97]) (.temporary 1)).create (.vault [97]) 9).unlink
          (.temporary 0)).unlink (.temporary 1)) := rfl

/-- Another program replaces the note just before `process` moves it aside, and one takes the free
path: the file that was put there is lost. -/
theorem external_file_lost : ∃ (s : VaultState ℕ) (events : List (Event ℕ)), s.Initial ∧
    ∃ path file content, put path file content ∈ (stateAt next s events events.length).log ∧
      (∀ path', LogEntry.took path' file ∉ (stateAt next s events events.length).log) ∧
      (∀ op, read op file content ∉ (stateAt next s events events.length).log) ∧
      ∀ name, (stateAt next s events events.length).fs.names name ≠ some file := by
  refine ⟨.single [97] 7, takenRace, single_initial [97] 7, [97], 2, 8, ?_⟩
  rw [takenRace_log, takenRace_fs]
  refine ⟨by simp, by simp, by simp, ?_⟩
  intro name
  simp only [LinkedFiles.names_unlink, LinkedFiles.names_create, LinkedFiles.names_move,
    LinkedFiles.names_write, single]
  split_ifs <;> simp

end Kaos.Headless
