import Mathlib.Algebra.BigOperators.Group.List.Basic
import Mathlib.Algebra.Ring.Int.Defs
import Mathlib.Data.List.Basic
import Mathlib.Data.List.Pairwise

/-! Splices of a list: what each puts in and takes away, and the loop that applies them in turn. -/
namespace Kaos.Lib

open List


/-- The elements from `baseStart` up to `baseEnd` make way for `content`. -/
structure Splice (α : Type*) where
  baseStart : ℕ
  baseEnd : ℕ
  content : List α
  deriving DecidableEq

variable {α : Type*} {base xs : List α} {i k n start stop : ℕ}

/-- `slice` of JavaScript, for bounds that are not negative. -/
def slice (xs : List α) (start stop : ℕ) : List α := (xs.take stop).drop start

theorem slice_length (xs : List α) (start : ℕ) : slice xs start xs.length = xs.drop start := by
  rw [slice, take_length]

theorem slice_of_le (h : stop ≤ start) : slice xs start stop = [] := by
  apply drop_eq_nil_of_le
  rw [length_take]
  omega

theorem slice_append_slice (h : start ≤ k) (hstop : k ≤ stop) :
    slice xs start k ++ slice xs k stop = slice xs start stop := by
  unfold slice
  rw [drop_take, drop_take, drop_take]
  have hdrop : xs.drop k = (xs.drop start).drop (k - start) := by
    rw [drop_drop]
    congr 1
    omega
  have htotal : stop - start = k - start + (stop - k) := by omega
  rw [hdrop, htotal, take_add]

theorem take_drop_eq_slice : (xs.drop start).take (stop - start) = slice xs start stop := by
  rw [slice, drop_take]

namespace Splice

variable {c d : Splice α} {cs ds : List (Splice α)}

/-- What the splices put in before a position. -/
def insertedAt (cs : List (Splice α)) (i : ℕ) : List α :=
  (cs.filter fun c => c.baseStart = i).flatMap content

/-- Some splice takes the element at a position away. -/
def removedAt (cs : List (Splice α)) (i : ℕ) : Bool :=
  cs.any fun c => c.baseStart ≤ i ∧ i < c.baseEnd

/-- A list that stands at position `i` of a base, with every splice applied at its position. -/
def patchFrom (cs : List (Splice α)) (i : ℕ) : List α → List α
  | [] => insertedAt cs i
  | x :: xs => insertedAt cs i ++ (if removedAt cs i then [] else [x]) ++ patchFrom cs (i + 1) xs

/-- Every element that no splice takes away, once and in order, with the content of each splice
where it starts. -/
def patched (base : List α) (cs : List (Splice α)) : List α := patchFrom cs 0 base

/-- The loop that copies the base up to each splice in turn. -/
def applyFrom (base : List α) (stop : ℕ) : ℕ → List (Splice α) → List α
  | cursor, [] => slice base cursor stop
  | cursor, c :: cs =>
    slice base cursor c.baseStart ++ c.content ++ applyFrom base stop c.baseEnd cs

/-- Splices of a base of length `n`, in order and with nothing taken away twice. -/
structure Sequential (n : ℕ) (cs : List (Splice α)) : Prop where
  le : ∀ c ∈ cs, c.baseStart ≤ c.baseEnd
  le_length : ∀ c ∈ cs, c.baseEnd ≤ n
  pairwise : cs.Pairwise fun c d => c.baseEnd ≤ d.baseStart

instance (n : ℕ) (cs : List (Splice α)) : Decidable (Sequential n cs) :=
  decidable_of_iff ((∀ c ∈ cs, c.baseStart ≤ c.baseEnd) ∧ (∀ c ∈ cs, c.baseEnd ≤ n) ∧
      cs.Pairwise fun c d => c.baseEnd ≤ d.baseStart)
    ⟨fun h => ⟨h.1, h.2.1, h.2.2⟩, fun h => ⟨h.le, h.le_length, h.pairwise⟩⟩

/-- Between any two of the splices an element of the base stays. -/
structure Separated (n : ℕ) (cs : List (Splice α)) : Prop where
  le : ∀ c ∈ cs, c.baseStart ≤ c.baseEnd
  le_length : ∀ c ∈ cs, c.baseEnd ≤ n
  pairwise : cs.Pairwise fun c d => c.baseEnd < d.baseStart

theorem Separated.sequential (h : Separated n cs) : Sequential n cs where
  le := h.le
  le_length := h.le_length
  pairwise := h.pairwise.imp fun hlt => Nat.le_of_lt hlt

theorem Sequential.of_cons (h : Sequential n (c :: cs)) : Sequential n cs where
  le d hd := h.le d (mem_cons_of_mem _ hd)
  le_length d hd := h.le_length d (mem_cons_of_mem _ hd)
  pairwise := h.pairwise.of_cons

theorem Sequential.cons (h : Sequential n cs) (hle : c.baseStart ≤ c.baseEnd)
    (hlen : c.baseEnd ≤ n) (ha : ∀ d ∈ cs, c.baseEnd ≤ d.baseStart) :
    Sequential n (c :: cs) where
  le := forall_mem_cons.mpr ⟨hle, h.le⟩
  le_length := forall_mem_cons.mpr ⟨hlen, h.le_length⟩
  pairwise := pairwise_cons.mpr ⟨ha, h.pairwise⟩

theorem Separated.of_cons (h : Separated n (c :: cs)) : Separated n cs where
  le d hd := h.le d (mem_cons_of_mem _ hd)
  le_length d hd := h.le_length d (mem_cons_of_mem _ hd)
  pairwise := h.pairwise.of_cons

theorem Separated.start_ne (h : Separated n cs) :
    cs.Pairwise fun c d => c.baseStart ≠ d.baseStart := by
  apply h.pairwise.imp_of_mem
  intro c d hc hd hlt
  have hle := h.le c hc
  omega

theorem Separated.nodup (h : Separated n cs) : cs.Nodup := by
  apply h.start_ne.imp
  rintro c d hne rfl
  exact hne rfl

theorem Separated.filter (h : Separated n cs) (p : Splice α → Bool) :
    Separated n (cs.filter p) where
  le c hc := h.le c (mem_of_mem_filter hc)
  le_length c hc := h.le_length c (mem_of_mem_filter hc)
  pairwise := h.pairwise.filter p

theorem Separated.append (hcs : Separated n cs) (hds : Separated n ds)
    (h : ∀ c ∈ cs, ∀ d ∈ ds, c.baseEnd < d.baseStart) : Separated n (cs ++ ds) where
  le c hc := (mem_append.mp hc).elim (hcs.le c) (hds.le c)
  le_length c hc := (mem_append.mp hc).elim (hcs.le_length c) (hds.le_length c)
  pairwise := pairwise_append.mpr ⟨hcs.pairwise, hds.pairwise, h⟩

/-- Two splices meet where one starts no later than the other ends. -/
def touches (c d : Splice α) : Prop := c.baseStart ≤ d.baseEnd ∧ d.baseStart ≤ c.baseEnd

theorem touches_comm : c.touches d ↔ d.touches c := And.comm

/-- No two of the separated splices meet. -/
theorem Separated.eq_of_touches (h : Separated n cs) (hc : c ∈ cs) (hd : d ∈ cs)
    (htouc : c.touches d) : c = d := by
  induction cs with
  | nil => cases hc
  | cons e es ih =>
    have hf := (pairwise_cons.mp h.pairwise).1
    rcases mem_cons.mp hc with rfl | hc'
    · rcases mem_cons.mp hd with rfl | hd'
      · rfl
      have hlt := hf d hd'
      have hle := htouc.2
      omega
    rcases mem_cons.mp hd with rfl | hd'
    · have hlt := hf c hc'
      have hle := htouc.1
      omega
    · exact ih h.of_cons hc' hd'

section Patch

theorem insertedAt_eq_nil (h : ∀ c ∈ cs, i < c.baseStart) : insertedAt cs i = [] := by
  rw [insertedAt, filter_eq_nil_iff.mpr, flatMap_nil]
  intro c hc hst
  have hlt := h c hc
  rw [decide_eq_true_eq] at hst
  omega

theorem removedAt_eq_false (h : ∀ c ∈ cs, i < c.baseStart) : removedAt cs i = false := by
  rw [removedAt, any_eq_false]
  intro c hc hrem
  have hlt := h c hc
  rw [decide_eq_true_eq] at hrem
  omega

/-- Where no splice starts yet, the list stays as it is. -/
theorem patchFrom_skip (h : ∀ c ∈ cs, i + k ≤ c.baseStart) (hk : k ≤ xs.length) :
    patchFrom cs i xs = xs.take k ++ patchFrom cs (i + k) (xs.drop k) := by
  induction k generalizing i xs with
  | zero => rfl
  | succ k ih =>
    cases xs with
    | nil => simp at hk
    | cons x xs =>
      have hlt : ∀ c ∈ cs, i < c.baseStart := by
        intro c hc
        have hle := h c hc
        omega
      have hn : patchFrom cs (i + 1) xs = xs.take k ++ patchFrom cs (i + 1 + k) (xs.drop k) := by
        apply ih
        · intro c hc
          have hle := h c hc
          omega
        · exact Nat.le_of_succ_le_succ hk
      have hsum : i + 1 + k = i + (k + 1) := by omega
      rw [patchFrom, insertedAt_eq_nil hlt, removedAt_eq_false hlt, hn, hsum]
      simp

/-- A splice that lies behind the position plays no part any more. -/
theorem patchFrom_past (hst : c.baseStart < i) (hend : c.baseEnd ≤ i) :
    patchFrom (c :: cs) i xs = patchFrom cs i xs := by
  induction xs generalizing i with
  | nil =>
    have hne : c.baseStart ≠ i := by omega
    simp [patchFrom, insertedAt, hne]
  | cons x xs ih =>
    have hne : c.baseStart ≠ i := by omega
    have ha : ¬ i < c.baseEnd := by omega
    rw [patchFrom, patchFrom, ih (by omega) (by omega)]
    simp [insertedAt, removedAt, hne, ha]

/-- Inside a splice nothing stays and no other splice starts. -/
theorem patchFrom_inside (hst : c.baseStart < i) (h : ∀ d ∈ cs, i + k ≤ d.baseStart)
    (hend : c.baseEnd = i + k) (hk : k ≤ xs.length) :
    patchFrom (c :: cs) i xs = patchFrom cs (i + k) (xs.drop k) := by
  induction k generalizing i xs with
  | zero => exact patchFrom_past hst (by omega)
  | succ k ih =>
    cases xs with
    | nil => simp at hk
    | cons x xs =>
      have hne : c.baseStart ≠ i := by omega
      have hin : c.baseStart ≤ i ∧ i < c.baseEnd := by omega
      have hlt : ∀ d ∈ cs, i < d.baseStart := by
        intro d hd
        have hle := h d hd
        omega
      have hins : insertedAt (c :: cs) i = [] := by
        rw [insertedAt, filter_cons_of_neg (by simpa using hne)]
        exact insertedAt_eq_nil hlt
      have hrem : removedAt (c :: cs) i = true := by
        rw [removedAt, any_cons, decide_eq_true hin, Bool.true_or]
      have hn : patchFrom (c :: cs) (i + 1) xs = patchFrom cs (i + 1 + k) (xs.drop k) := by
        apply ih
        · omega
        · intro d hd
          have hle := h d hd
          omega
        · omega
        · exact Nat.le_of_succ_le_succ hk
      have hsum : i + 1 + k = i + (k + 1) := by omega
      rw [patchFrom, hins, hrem, hn, hsum]
      rfl

/-- At the start of a splice its content comes, and what it takes away is left out. -/
theorem patchFrom_start (hle : c.baseStart ≤ c.baseEnd) (h : ∀ d ∈ cs, c.baseEnd ≤ d.baseStart)
    (hk : c.baseEnd - c.baseStart ≤ xs.length) :
    patchFrom (c :: cs) c.baseStart xs =
      c.content ++ patchFrom cs c.baseEnd (xs.drop (c.baseEnd - c.baseStart)) := by
  have hins : insertedAt (c :: cs) c.baseStart = c.content ++ insertedAt cs c.baseStart := by
    rw [insertedAt, filter_cons_of_pos (by simp), flatMap_cons]
    rfl
  rcases Nat.eq_or_lt_of_le hle with heq | hlt
  · rw [← heq, Nat.sub_self, drop_zero]
    cases xs with
    | nil => exact hins
    | cons x xs =>
      have hrem : removedAt (c :: cs) c.baseStart = removedAt cs c.baseStart := by
        simp [removedAt, ← heq]
      rw [patchFrom, hins, hrem, patchFrom_past (by omega) (by omega)]
      simp [patchFrom]
  cases xs with
  | nil =>
    rw [length_nil] at hk
    omega
  | cons x xs =>
    have ha : ∀ d ∈ cs, c.baseStart < d.baseStart := by
      intro d hd
      have hle' := h d hd
      omega
    have hrem : removedAt (c :: cs) c.baseStart = true := by
      simp [removedAt, hlt]
    have hlen : c.baseEnd - c.baseStart = c.baseEnd - c.baseStart - 1 + 1 := by omega
    have hend : c.baseStart + 1 + (c.baseEnd - c.baseStart - 1) = c.baseEnd := by omega
    have hinside : patchFrom (c :: cs) (c.baseStart + 1) xs =
        patchFrom cs c.baseEnd (xs.drop (c.baseEnd - c.baseStart - 1)) := by
      rw [patchFrom_inside (k := c.baseEnd - c.baseStart - 1) (by omega) (by rwa [hend])
        hend.symm (by
          rw [length_cons] at hk
          omega), hend]
    rw [patchFrom, hins, insertedAt_eq_nil ha, hrem, hinside, hlen, drop_succ_cons]
    simp

/-- From a cursor before all splices the loop does what the splices say. -/
theorem applyFrom_eq_patchFrom (h : Sequential base.length cs) (hk : k ≤ base.length)
    (hcs : ∀ c ∈ cs, k ≤ c.baseStart) :
    applyFrom base base.length k cs = patchFrom cs k (base.drop k) := by
  induction cs generalizing k with
  | nil =>
    rw [patchFrom_skip (k := (base.drop k).length) (by simp) (Nat.le_refl _), take_length,
      drop_length, applyFrom, slice_length]
    simp [patchFrom, insertedAt]
  | cons c cs ih =>
    have hmem : c ∈ c :: cs := mem_cons_self
    have hst := hcs c hmem
    have hle := h.le c hmem
    have hlen := h.le_length c hmem
    have ha : ∀ d ∈ cs, c.baseEnd ≤ d.baseStart := by
      intro d hd
      exact rel_of_pairwise_cons h.pairwise hd
    have hsum : k + (c.baseStart - k) = c.baseStart := by omega
    have hskip : patchFrom (c :: cs) k (base.drop k) =
        slice base k c.baseStart ++ patchFrom (c :: cs) c.baseStart (base.drop c.baseStart) := by
      rw [patchFrom_skip (k := c.baseStart - k), drop_drop, hsum, take_drop_eq_slice]
      · intro d hd
        rcases mem_cons.mp hd with rfl | hd
        · omega
        have hle' := ha d hd
        omega
      · rw [length_drop]
        omega
    have hc : patchFrom (c :: cs) c.baseStart (base.drop c.baseStart) =
        c.content ++ patchFrom cs c.baseEnd (base.drop c.baseEnd) := by
      have hdrop : c.baseStart + (c.baseEnd - c.baseStart) = c.baseEnd := by omega
      rw [patchFrom_start hle ha, drop_drop, hdrop]
      rw [length_drop]
      omega
    rw [applyFrom, ih h.of_cons hlen ha, hskip, hc, append_assoc]

/-- The loop over a whole base applies every splice once, at its position. -/
theorem applyFrom_eq_patched (h : Sequential base.length cs) :
    applyFrom base base.length 0 cs = patched base cs :=
  applyFrom_eq_patchFrom h (Nat.zero_le _) fun c _ => Nat.zero_le c.baseStart

/-- Two runs of the loop that meet at a position between their splices are one. -/
theorem applyFrom_append (hk : k ≤ n) (hn : n ≤ stop) (hcs : ∀ c ∈ cs, c.baseEnd ≤ n)
    (hseq : cs.Pairwise fun c d => c.baseEnd ≤ d.baseStart) (hkcs : ∀ c ∈ cs, k ≤ c.baseStart)
    (hds : ∀ d ∈ ds, n ≤ d.baseStart) :
    applyFrom base stop k (cs ++ ds) = applyFrom base n k cs ++ applyFrom base stop n ds := by
  induction cs generalizing k with
  | nil =>
    rw [nil_append, applyFrom]
    cases ds with
    | nil => rw [applyFrom, applyFrom, slice_append_slice hk hn]
    | cons d ds =>
      rw [applyFrom, applyFrom, ← slice_append_slice hk (hds d mem_cons_self)]
      simp
  | cons c cs ih =>
    have hr : applyFrom base stop c.baseEnd (cs ++ ds) =
        applyFrom base n c.baseEnd cs ++ applyFrom base stop n ds := by
      apply ih
      · exact hcs c mem_cons_self
      · exact fun d hd => hcs d (mem_cons_of_mem _ hd)
      · exact hseq.of_cons
      · exact fun d hd => rel_of_pairwise_cons hseq hd
    rw [cons_append, applyFrom, applyFrom, hr]
    simp

theorem content_subset_applyFrom (h : c ∈ cs) : c.content ⊆ applyFrom base stop k cs := by
  intro x hx
  induction cs generalizing k with
  | nil => cases h
  | cons d cs ih =>
    rw [applyFrom, mem_append, mem_append]
    rcases mem_cons.mp h with rfl | h
    · exact .inl (.inr hx)
    · exact .inr (ih h)

/-- The loop puts nothing in but the content of the splices. -/
theorem mem_applyFrom {x : α} (h : x ∈ applyFrom base stop k cs) :
    x ∈ base ∨ ∃ c ∈ cs, x ∈ c.content := by
  have hslice : ∀ {start stop}, x ∈ slice base start stop → x ∈ base := fun hx =>
    mem_of_mem_take (mem_of_mem_drop hx)
  induction cs generalizing k with
  | nil => exact .inl (hslice h)
  | cons c cs ih =>
    rw [applyFrom, mem_append, mem_append] at h
    rcases h with (h | h) | h
    · exact .inl (hslice h)
    · exact .inr ⟨c, mem_cons_self, h⟩
    rcases ih h with hb | ⟨d, hd, hx⟩
    · exact .inl hb
    · exact .inr ⟨d, mem_cons_of_mem _ hd, hx⟩

/-- What is put in at a position does not depend on the order of splices that start apart. -/
theorem insertedAt_perm (h : cs.Perm ds)
    (hst : cs.Pairwise fun c d => c.baseStart ≠ d.baseStart) (i : ℕ) :
    insertedAt cs i = insertedAt ds i := by
  have hperm := h.filter fun c => c.baseStart = i
  have hfew : (cs.filter fun c => c.baseStart = i).length ≤ 1 := by
    have hpair := hst.filter fun c => c.baseStart = i
    cases hcs : cs.filter fun c => c.baseStart = i with
    | nil => simp
    | cons c rest =>
      cases rest with
      | nil => simp
      | cons d rest =>
        rw [hcs] at hpair
        have hc : c.baseStart = i := by
          have hmem : c ∈ cs.filter fun c => c.baseStart = i := by simp [hcs]
          simpa using (mem_filter.mp hmem).2
        have hd : d.baseStart = i := by
          have hmem : d ∈ cs.filter fun c => c.baseStart = i := by simp [hcs]
          simpa using (mem_filter.mp hmem).2
        exact absurd (hc.trans hd.symm) (rel_of_pairwise_cons hpair mem_cons_self)
  unfold insertedAt
  cases hcs : cs.filter fun c => c.baseStart = i with
  | nil =>
    rw [hcs] at hperm
    rw [hperm.nil_eq]
  | cons c rest =>
    rw [hcs] at hperm hfew
    have hr : rest = [] := by
      apply eq_nil_of_length_eq_zero
      rw [length_cons] at hfew
      omega
    subst hr
    rw [← perm_singleton.mp hperm.symm]

/-- Splices that start apart may be listed in any order. -/
theorem patched_perm (h : cs.Perm ds)
    (hst : cs.Pairwise fun c d => c.baseStart ≠ d.baseStart) : patched base cs = patched base ds := by
  have hrem : ∀ i, removedAt cs i = removedAt ds i := by
    intro i
    rw [Bool.eq_iff_iff]
    simp only [removedAt, any_eq_true]
    constructor <;> rintro ⟨c, hc, hin⟩
    · exact ⟨c, h.mem_iff.mp hc, hin⟩
    · exact ⟨c, h.mem_iff.mpr hc, hin⟩
  unfold patched
  generalize 0 = i
  induction base generalizing i with
  | nil => exact insertedAt_perm h hst i
  | cons x xs ih => rw [patchFrom, patchFrom, insertedAt_perm h hst i, hrem, ih]

end Patch

section Count

variable [BEq α]

/-- How many more of an element the splice puts in than it takes away. -/
def gain (base : List α) (x : α) (c : Splice α) : ℤ :=
  c.content.count x - (slice base c.baseStart c.baseEnd).count x

theorem gain_nonpos [LawfulBEq α] (x : α) (h : x ∉ c.content) : gain base x c ≤ 0 := by
  have hn := count_eq_zero_of_not_mem h
  unfold gain
  omega

/-- The loop changes the number of an element by what the splices gain. -/
theorem count_applyFrom (x : α) (h : Sequential n cs) (hn : n ≤ stop) (hk : k ≤ stop)
    (hcs : ∀ c ∈ cs, k ≤ c.baseStart) : ((applyFrom base stop k cs).count x : ℤ) =
      (slice base k stop).count x + (cs.map (gain base x)).sum := by
  induction cs generalizing k with
  | nil => simp [applyFrom]
  | cons c cs ih =>
    have hmem : c ∈ c :: cs := mem_cons_self
    have hst := hcs c hmem
    have hle := h.le c hmem
    have hend : c.baseEnd ≤ stop := Nat.le_trans (h.le_length c hmem) hn
    have hr := ih h.of_cons hend fun d hd => rel_of_pairwise_cons h.pairwise hd
    have hslice : slice base k stop = slice base k c.baseStart ++
        (slice base c.baseStart c.baseEnd ++ slice base c.baseEnd stop) := by
      rw [slice_append_slice hle hend, slice_append_slice hst (Nat.le_trans hle hend)]
    rw [applyFrom, count_append, count_append, map_cons, sum_cons, hslice,
      count_append, count_append, gain]
    omega

theorem count_patched (x : α) (h : Sequential base.length cs) :
    ((patched base cs).count x : ℤ) = base.count x + (cs.map (gain base x)).sum := by
  rw [← applyFrom_eq_patched h, count_applyFrom x h (Nat.le_refl _) (Nat.zero_le _)
    fun c _ => Nat.zero_le c.baseStart, slice_length, drop_zero]

end Count

end Splice

end Kaos.Lib
