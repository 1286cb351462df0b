import Mathlib.Data.Int.Notation
import Kaos.Lib.Run

/-! The bounded-concurrency map, whose workers share an index and an array of results. -/
namespace Kaos.Utils

open Kaos.Lib List

/-- Where a loop stands: at the `await` of the call for an item, or at its end. -/
inductive RunWorker (T : Type*)
  | awaiting (item : T) (index : ℕ)
  | returned
  | rejected (index : ℕ)

/-- The loop has called for the item and stored no result. -/
def RunWorker.holds {T : Type*} (i : ℕ) : RunWorker T → Bool
  | awaiting _ index | rejected index => index = i
  | returned => false

structure ConcurrentMap (T R ε : Type*) where
  nextIndex : ℕ
  workers : List (RunWorker T)
  results : List (Option R)
  /-- The first error of a worker, with which `Promise.all` rejects. -/
  rejection : Option ε

def normalizedLimit (limit : ℤ) (length : ℕ) : ℕ := (max 1 (min limit length)).toNat

variable {T R ε : Type*} {items : List T} {worker : T → ℕ → Except ε R} {k w i : ℕ}
  {s s' : ConcurrentMap T R ε} {loop : RunWorker T}

namespace ConcurrentMap

/-- The head of a loop: it takes the next index, and returns if there is no such item. -/
def runWorker (items : List T) (s : ConcurrentMap T R ε) : RunWorker T :=
  match items[s.nextIndex]? with
  | none => .returned
  | some item => .awaiting item s.nextIndex

/-- The loops start in turn, each running up to its first `await`. -/
def started (items : List T) : ℕ → ConcurrentMap T R ε
  | 0 => ⟨0, [], items.map fun _ => none, none⟩
  | k + 1 =>
    let s := started items k
    { s with nextIndex := s.nextIndex + 1, workers := s.workers ++ [s.runWorker items] }

def start (items : List T) (limit : ℤ) : ConcurrentMap T R ε :=
  started items (if items.length = 0 then 0 else normalizedLimit limit items.length)

/-- The call that loop `w` awaits settles; after a result the loop goes round. -/
def settle (items : List T) (worker : T → ℕ → Except ε R) (s : ConcurrentMap T R ε) (w : ℕ) :
    ConcurrentMap T R ε :=
  match s.workers[w]? with
  | some (.awaiting item index) =>
    match worker item index with
    | .ok result =>
      { s with
        nextIndex := s.nextIndex + 1
        workers := s.workers.set w (s.runWorker items)
        results := s.results.set index (some result) }
    | .error error =>
      { s with
        workers := s.workers.set w (.rejected index)
        rejection := s.rejection.or (some error) }
  | _ => s

/-- What the promise has settled with; after a rejection the other loops go on. -/
def outcome (s : ConcurrentMap T R ε) : Option (Except ε (List (Option R))) :=
  match s.rejection with
  | some error => some (.error error)
  | none => if s.workers.all (· matches .returned) then some (.ok s.results) else none

end ConcurrentMap

open ConcurrentMap

/-- The map after the calls of the loops in `order` have settled. -/
def mapWithConcurrency (items : List T) (limit : ℤ) (worker : T → ℕ → Except ε R)
    (order : List ℕ) : ConcurrentMap T R ε :=
  order.foldl (settle items worker) (start items limit)

/-- A loop awaits the call for its item, or ends with no item left or with its error kept. -/
def RunWorker.Placed (items : List T) (s : ConcurrentMap T R ε) : RunWorker T → Prop
  | awaiting item index => items[index]? = some item
  | returned => items.length ≤ s.nextIndex
  | rejected _ => s.rejection ≠ none

/-- Every item whose index has been taken is with one loop or has its result. -/
structure Mapping (items : List T) (worker : T → ℕ → Except ε R) (k : ℕ)
    (s : ConcurrentMap T R ε) : Prop where
  workers : s.workers.length = k
  results : s.results.length = items.length
  once : ∀ i < items.length, s.workers.countP (·.holds i) +
    s.results[i]?.join.toList.length = if i < s.nextIndex then 1 else 0
  placed : ∀ loop ∈ s.workers, loop.Placed items s
  own : ∀ i r, s.results[i]? = some (some r) → ∃ item, items[i]? = some item ∧ worker item i = .ok r
  failed : ∀ e, s.rejection = some e → ∃ i item, items[i]? = some item ∧ worker item i = .error e

theorem RunWorker.Placed.mono (h : loop.Placed items s) (hn : s.nextIndex ≤ s'.nextIndex)
    (hrej : s.rejection ≠ none → s'.rejection ≠ none) : loop.Placed items s' := by
  cases loop with
  | awaiting => exact h
  | returned => exact Nat.le_trans h hn
  | rejected => exact hrej h

theorem runWorker_placed : (s.runWorker items).Placed items s := by
  unfold runWorker
  split
  next hn => exact getElem?_eq_none_iff.mp hn
  next hi => exact hi

theorem runWorker_holds (hi : i < items.length) :
    (if (s.runWorker items).holds i then 1 else 0) = if i = s.nextIndex then 1 else 0 := by
  unfold runWorker
  split <;> grind [RunWorker.holds]

theorem mapping_started : ∀ k, Mapping items worker k (started items k)
  | 0 => ⟨rfl, length_map _, by intro i hi; simp [started, hi], nofun,
      by intro i r hr; simp [started, getElem?_replicate] at hr, nofun⟩
  | k + 1 => by
    have h : Mapping items worker k (started items k) := mapping_started k
    refine { h with workers := by simp [started, h.workers], once := ?_, placed := ?_ }
    · intro i hi
      have := h.once i hi
      simp only [started, countP_append, countP_singleton, runWorker_holds hi]
      grind
    · intro loop hloop
      refine RunWorker.Placed.mono ?_ (Nat.le_succ _) id
      rcases mem_append.mp hloop with hloop | hloop
      · exact h.placed loop hloop
      · exact mem_singleton.mp hloop ▸ runWorker_placed

/-- One loop in a new state, the others in their old ones. -/
theorem countP_step {workers : List (RunWorker T)} {old : RunWorker T} (p : RunWorker T → Bool)
    (new : RunWorker T) (h : workers[w]? = some old) :
    (workers.set w new).countP p + (if p old then 1 else 0) =
      workers.countP p + if p new then 1 else 0 := by
  obtain ⟨hlt, rfl⟩ := List.getElem?_eq_some_iff.mp h
  have : p workers[w] → 0 < workers.countP p :=
    fun hp => countP_pos_iff.mpr ⟨_, getElem_mem hlt, hp⟩
  rw [countP_set hlt]
  split <;> simp_all only [forall_const] <;> omega

theorem Mapping.settle (h : Mapping items worker k s) (w : ℕ) :
    Mapping items worker k (s.settle items worker w) := by
  unfold ConcurrentMap.settle
  split
  next item index hw =>
    have hit : items[index]? = some item := h.placed _ (mem_of_getElem? hw)
    split
    next result hres =>
      refine { h with
        workers := by simp [h.workers], results := by simp [h.results], once := ?_, placed := ?_
        own := ?_ }
      · intro i hi
        have hold := h.once i hi
        have hs := countP_step (·.holds i) (s.runWorker items) hw
        simp only [runWorker_holds hi] at hs
        simp only [getElem?_set, h.results]
        grind [RunWorker.holds]
      · intro loop hloop
        refine RunWorker.Placed.mono ?_ (Nat.le_succ _) id
        rcases mem_or_eq_of_mem_set hloop with hloop | rfl
        · exact h.placed loop hloop
        · exact runWorker_placed
      · intro i r hr
        rcases getElem?_set_cases hr with ⟨-, hold⟩ | ⟨rfl, heq⟩
        · exact h.own i r hold
        · cases heq
          exact ⟨item, hit, hres⟩
    next error herror =>
      refine { h with
        workers := by simp [h.workers], once := ?_, placed := ?_, failed := ?_ }
      · intro i hi
        have hs := countP_step (·.holds i) (.rejected index) hw
        rw [← h.once i hi]
        exact congrArg (· + _) (Nat.add_right_cancel hs)
      · intro loop hloop
        rcases mem_or_eq_of_mem_set hloop with hloop | rfl
        · exact (h.placed loop hloop).mono (Nat.le_refl _) (by simp)
        · simp [RunWorker.Placed]
      · intro e he
        rcases Option.or_eq_some_iff.mp he with he | ⟨-, he⟩
        · exact h.failed e he
        · cases he
          exact ⟨index, item, hit, herror⟩
  next => exact h

theorem mapping_run (items : List T) (limit : ℤ) (worker : T → ℕ → Except ε R) (order : List ℕ) :
    Mapping items worker (if items.length = 0 then 0 else normalizedLimit limit items.length)
      (mapWithConcurrency items limit worker order) := by
  refine order.foldlRecOn _ (mapping_started _) fun s h w _ => h.settle w

/-- When all loops have returned, the results are those of the calls for all items. -/
theorem Mapping.results_eq (h : Mapping items worker k s) (hk : items ≠ [] → 0 < k)
    (hret : ∀ loop ∈ s.workers, loop = .returned) :
    s.results.map (·.map .ok) = items.mapIdx fun i item => some (worker item i) := by
  refine ext_getElem? fun i => ?_
  rw [getElem?_map, getElem?_mapIdx]
  by_cases hi : i < items.length
  · have hc : s.workers.countP (·.holds i) = 0 :=
      countP_eq_zero.mpr fun loop hloop => by simp [hret loop hloop, RunWorker.holds]
    obtain ⟨loop, hloop⟩ :=
      exists_mem_of_length_pos (h.workers ▸ hk (ne_nil_of_length_pos (by omega)))
    have hn : items.length ≤ s.nextIndex := by
      have := h.placed loop hloop
      rwa [hret loop hloop] at this
    have honce := h.once i hi
    rw [hc, if_pos (by omega)] at honce
    cases hr : s.results[i]?.join with
    | none => simp [hr] at honce
    | some r =>
      have hr := Option.join_eq_some_iff.mp hr
      obtain ⟨item, hit, hwor⟩ := h.own i r hr
      rw [hr, hit, Option.map_some, Option.map_some, Option.map_some, hwor]
  · rw [getElem?_eq_none (by have := h.results; omega), getElem?_eq_none (by omega)]
    rfl

/-- There are no more loops than the limit, each awaiting one call, and an item is called for
once: it is with the one loop that took its index until its result is stored. -/
theorem mapWithConcurrency_once (items : List T) (limit : ℤ) (worker : T → ℕ → Except ε R)
    (order : List ℕ) :
    (mapWithConcurrency items limit worker order).workers.length ≤
      normalizedLimit limit items.length ∧ ∀ i < items.length,
        (mapWithConcurrency items limit worker order).workers.countP (·.holds i) +
          (mapWithConcurrency items limit worker order).results[i]?.join.toList.length =
        if i < (mapWithConcurrency items limit worker order).nextIndex then 1 else 0 := by
  have h := mapping_run items limit worker order
  refine ⟨?_, h.once⟩
  rw [h.workers]
  split
  · exact Nat.zero_le _
  · exact Nat.le_refl _

/-- While the promise is pending a call is in flight; it resolves with the results of the calls for
all items in their order, and it rejects with the error of a call. -/
theorem mapWithConcurrency_outcome (items : List T) (limit : ℤ) (worker : T → ℕ → Except ε R)
    (order : List ℕ) :
    match (mapWithConcurrency items limit worker order).outcome with
    | none => ∃ item i, .awaiting item i ∈ (mapWithConcurrency items limit worker order).workers
    | some (.ok results) =>
      results.map (·.map .ok) = items.mapIdx fun i item => some (worker item i)
    | some (.error e) => ∃ i item, items[i]? = some item ∧ worker item i = .error e := by
  have h := mapping_run items limit worker order
  unfold outcome
  cases hrej : (mapWithConcurrency items limit worker order).rejection with
  | some e => exact h.failed e hrej
  | none =>
    split_ifs with hall
    · refine h.results_eq (fun hne => ?_) fun loop hloop => ?_
      · rw [if_neg (by simpa using hne), normalizedLimit]
        omega
      · have := all_eq_true.mp hall loop hloop
        cases loop <;> first | rfl | cases this
    · obtain ⟨loop, hloop, hne⟩ := by simpa using hall
      cases loop with
      | awaiting item i => exact ⟨item, i, hloop⟩
      | returned => cases hne
      | rejected i => exact absurd hrej (h.placed _ hloop)

end Kaos.Utils
