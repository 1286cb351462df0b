import Mathlib.Data.List.Basic
import Mathlib.Logic.Function.Basic

/-! Files to which several names can lead, as in a POSIX directory with hard links. -/
namespace Kaos.Lib

/-- Files are numbered in the order in which they are created. -/
structure LinkedFiles (ν β : Type*) where
  names : ν → Option ℕ
  content : ℕ → β
  count : ℕ

namespace LinkedFiles

variable {ν β : Type*} [DecidableEq ν]

/-- Only files that there are have names. -/
def Bounded (fs : LinkedFiles ν β) : Prop := ∀ name file, fs.names name = some file → file < fs.count

def bind (fs : LinkedFiles ν β) (name : ν) (file : Option ℕ) : LinkedFiles ν β :=
  { fs with names := Function.update fs.names name file }

def unlink (fs : LinkedFiles ν β) (name : ν) : LinkedFiles ν β := fs.bind name none

/-- A new file takes a name, whatever had it before. -/
def create (fs : LinkedFiles ν β) (name : ν) (content : β) : LinkedFiles ν β where
  names := Function.update fs.names name (some fs.count)
  content := Function.update fs.content fs.count content
  count := fs.count + 1

def write (fs : LinkedFiles ν β) (file : ℕ) (content : β) : LinkedFiles ν β :=
  { fs with content := Function.update fs.content file content }

/-- A file changes its name. -/
def move (fs : LinkedFiles ν β) (source target : ν) : LinkedFiles ν β :=
  (fs.bind target (fs.names source)).unlink source

variable {fs : LinkedFiles ν β} {name name' source target : ν} {file : Option ℕ} {n : ℕ}
  {content : β}

theorem names_bind : (fs.bind name file).names name' =
    if name' = name then file else fs.names name' := Function.update_apply ..

theorem names_unlink : (fs.unlink name).names name' =
    if name' = name then none else fs.names name' := names_bind

theorem names_create : (fs.create name content).names name' =
    if name' = name then some fs.count else fs.names name' := Function.update_apply ..

theorem names_move : (fs.move source target).names name' =
    if name' = source then none else if name' = target then fs.names source
      else fs.names name' := by
  rw [move, names_unlink, names_bind]

omit [DecidableEq ν] in
@[simp] theorem names_write : (fs.write n content).names = fs.names := rfl

@[simp] theorem count_move : (fs.move source target).count = fs.count := rfl

@[simp] theorem count_create : (fs.create name content).count = fs.count + 1 := rfl

omit [DecidableEq ν] in
@[simp] theorem count_write : (fs.write n content).count = fs.count := rfl

theorem content_create_of_ne (h : n ≠ fs.count) :
    (fs.create name content).content n = fs.content n := Function.update_of_ne h ..

theorem content_create_self : (fs.create name content).content fs.count = content :=
  Function.update_self ..

omit [DecidableEq ν] in
theorem content_write_of_ne {m : ℕ} (h : m ≠ n) : (fs.write n content).content m = fs.content m :=
  Function.update_of_ne h ..

omit [DecidableEq ν] in
theorem content_write_self : (fs.write n content).content n = content := Function.update_self ..

end LinkedFiles

end Kaos.Lib
