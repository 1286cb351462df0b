import Mathlib.Data.Finset.Lattice.Basic
import Mathlib.Data.Finset.Card
import Mathlib.Data.Finsupp.Order
import Mathlib.Order.BoundedOrder.Basic

/-! Yjs documents and updates: a join-semilattice of inserted items with a delete set. What is relied
on is what Yjs documents: updates can be applied and merged in any order and more than once, a
state vector has the next clock of each client and says nothing of deletions, and the update for a
state vector has the items from these clocks on and every deletion. -/
namespace Kaos.Yjs

open List

/-- Yjs names every item by the client that created it and that client's clock. -/
structure ItemId where
  client : ℕ
  clock : ℕ
  deriving DecidableEq

/-- What an encoded update carries: inserted items, and the items it deletes. -/
@[ext] structure Update where
  items : Finset ItemId
  deletes : Finset ItemId
  deriving DecidableEq

/-- The integrated state of a `Y.Doc` is everything it would encode. -/
abbrev Doc := Update

instance : SemilatticeSup Update where
  le u v := u.items ⊆ v.items ∧ u.deletes ⊆ v.deletes
  le_refl _ := ⟨Finset.Subset.rfl, Finset.Subset.rfl⟩
  le_trans _ _ _ h h' := ⟨h.1.trans h'.1, h.2.trans h'.2⟩
  le_antisymm _ _ h h' := Update.ext (h.1.antisymm h'.1) (h.2.antisymm h'.2)
  sup u v := ⟨u.items ∪ v.items, u.deletes ∪ v.deletes⟩
  le_sup_left _ _ := ⟨Finset.subset_union_left, Finset.subset_union_left⟩
  le_sup_right _ _ := ⟨Finset.subset_union_right, Finset.subset_union_right⟩
  sup_le _ _ _ h h' := ⟨Finset.union_subset h.1 h'.1, Finset.union_subset h.2 h'.2⟩

instance : OrderBot Update where
  bot := ⟨∅, ∅⟩
  bot_le _ := ⟨Finset.empty_subset _, Finset.empty_subset _⟩

instance (u v : Update) : Decidable (u ≤ v) :=
  inferInstanceAs (Decidable (u.items ⊆ v.items ∧ u.deletes ⊆ v.deletes))

/-- Per client, the clock the next item of that client would take. -/
abbrev StateVector := ℕ →₀ ℕ

/-- The contiguous prefix of a client's clocks; a gap hides every later item. -/
def nextClock (items : Finset ItemId) (client : ℕ) : ℕ :=
  ((List.range items.card).takeWhile fun clock => decide (⟨client, clock⟩ ∈ items)).length

theorem lt_length_takeWhile_range {p : ℕ → Bool} {k n : ℕ} :
    n < ((List.range k).takeWhile p).length ↔ n < k ∧ ∀ m ≤ n, p m = true := by
  induction k generalizing p n with
  | zero => simp
  | succ k ih =>
    rw [range_succ_eq_map]
    cases h0 : p 0 with
    | false =>
      simp only [takeWhile_cons, h0, Bool.false_eq_true, ↓reduceIte, length_nil,
        Nat.not_lt_zero, false_iff, not_and]
      intro _ h
      simpa [h0] using h 0 (Nat.zero_le n)
    | true =>
      simp only [takeWhile_cons, h0, ↓reduceIte, length_cons, takeWhile_map, length_map]
      cases n with
      | zero => simp [h0]
      | succ n =>
        rw [Nat.succ_lt_succ_iff, Nat.succ_lt_succ_iff, ih]
        refine and_congr_right fun _ => ⟨?_, fun h m hm => h (m + 1) (by omega)⟩
        intro h m hm
        cases m with
        | zero => exact h0
        | succ m => exact h m (by omega)

variable {items : Finset ItemId} {client : ℕ}

theorem lt_nextClock {n : ℕ} :
    n < nextClock items client ↔ n < items.card ∧ ∀ m ≤ n, (⟨client, m⟩ : ItemId) ∈ items := by
  simp [nextClock, lt_length_takeWhile_range]

theorem nextClock_mono {items' : Finset ItemId} (h : items ⊆ items') (client : ℕ) :
    nextClock items client ≤ nextClock items' client := by
  refine Nat.le_of_not_lt fun hlt => ?_
  obtain ⟨hcard, hall⟩ := lt_nextClock.mp hlt
  exact lt_irrefl _ (lt_nextClock.mpr
    ⟨hcard.trans_le (Finset.card_le_card h), fun m hm => h (hall m hm)⟩)

theorem mem_of_nextClock_ne_zero
    (h : nextClock items client ≠ 0) : (⟨client, 0⟩ : ItemId) ∈ items :=
  (lt_nextClock.mp (Nat.pos_of_ne_zero h)).2 0 le_rfl

/-- State vectors see insertions only; the delete set leaves no mark in them. -/
def encodeStateVector (doc : Doc) : StateVector where
  support := (doc.items.image ItemId.client).filter fun client => nextClock doc.items client ≠ 0
  toFun := nextClock doc.items
  mem_support_toFun client := by
    simp only [Finset.mem_filter, Finset.mem_image, and_iff_right_iff_imp]
    exact fun h => ⟨_, mem_of_nextClock_ne_zero h, rfl⟩

/-- The vector read off an update agrees with the one of a document that holds just it. -/
def encodeStateVectorFromUpdate (update : Update) : StateVector := encodeStateVector update

theorem encodeStateVector_mono {u v : Update} (h : u ≤ v) :
    encodeStateVector u ≤ encodeStateVector v := fun client => nextClock_mono h.1 client

def applyUpdate (doc : Doc) (update : Update) : Doc := doc ⊔ update

def mergeUpdates : List Update → Update
  | [] => ⊥
  | update :: rest => update ⊔ mergeUpdates rest

/-- The whole state, or what a peer at the given vector is missing. A vector names no
deletions, so the delete set is always sent whole. -/
def encodeStateAsUpdate (doc : Doc) : Option StateVector → Update
  | none => doc
  | some target => ⟨doc.items.filter fun item => target item.client ≤ item.clock, doc.deletes⟩

theorem encodeStateAsUpdate_le (doc : Doc) (target : Option StateVector) :
    encodeStateAsUpdate doc target ≤ doc := by
  cases target with
  | none => exact le_rfl
  | some target => exact ⟨Finset.filter_subset _ _, Finset.Subset.rfl⟩

@[simp] theorem mergeUpdates_nil : mergeUpdates [] = ⊥ := rfl

@[simp] theorem mergeUpdates_cons (update : Update) (rest : List Update) :
    mergeUpdates (update :: rest) = update ⊔ mergeUpdates rest := rfl

@[simp] theorem mergeUpdates_append (us vs : List Update) :
    mergeUpdates (us ++ vs) = mergeUpdates us ⊔ mergeUpdates vs := by
  induction us with
  | nil => simp
  | cons u us ih => simp [ih, sup_assoc]

/-- The encoded size of an update. An encoding of no bytes carries nothing. -/
structure Encoding where
  byteLength : Update → ℕ
  eq_bot_of_byteLength_eq_zero : ∀ {update}, byteLength update = 0 → update = ⊥

end Kaos.Yjs
