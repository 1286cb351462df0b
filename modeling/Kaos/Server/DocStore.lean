import Mathlib.Algebra.Ring.Nat
import Mathlib.Data.List.Basic

/-! The abstract document store: what `ChunkedDocStore` is for, without its storage layout. -/
namespace Kaos.Server

structure JournalStats where
  entryCount : ℕ
  totalBytes : ℕ
  nextSeq : ℕ
  deriving DecidableEq, Repr

/-- An optional checkpoint with its state vector, and the updates journaled since. -/
structure DocStore (β σ : Type*) where
  checkpoint : Option (β × σ)
  journal : List β
  deriving DecidableEq

namespace DocStore

variable {β σ : Type*}

def empty : DocStore β σ := ⟨none, []⟩

/-- An update of no bytes is accepted and leaves no entry. -/
def appendUpdate (byteLength : β → ℕ) (store : DocStore β σ) (update : β) : DocStore β σ :=
  if byteLength update = 0 then store else { store with journal := store.journal ++ [update] }

def rewriteCheckpoint (update : β) (stateVector : σ) : DocStore β σ :=
  ⟨some (update, stateVector), []⟩

/-- Sequence numbers restart at 1 after a checkpoint. -/
def journalStats (byteLength : β → ℕ) (store : DocStore β σ) : JournalStats where
  entryCount := store.journal.length
  totalBytes := (store.journal.map byteLength).sum
  nextSeq := store.journal.length + 1

/-- The checkpoint update and the journal, in load order. -/
def updates (store : DocStore β σ) : List β :=
  (store.checkpoint.map Prod.fst).toList ++ store.journal

end DocStore

end Kaos.Server
