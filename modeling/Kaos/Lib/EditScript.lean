import Kaos.Lib.Splice

/-! Edit scripts that rewrite one list into another, and the splices they amount to. -/
namespace Kaos.Lib

open List

inductive EditOp
  | equal
  | delete
  | insert
  deriving DecidableEq

/-- Segments that are kept, taken out of the base or put into the variant. -/
abbrev EditScript (α : Type*) := List (EditOp × List α)

namespace EditScript

variable {α : Type*} {base variant : List α} {script : EditScript α}

/-- The list a script reads. -/
def source : EditScript α → List α
  | [] => []
  | (.equal, xs) :: rest => xs ++ source rest
  | (.delete, xs) :: rest => xs ++ source rest
  | (.insert, _) :: rest => source rest

/-- The list a script writes. -/
def target : EditScript α → List α
  | [] => []
  | (.equal, xs) :: rest => xs ++ target rest
  | (.delete, _) :: rest => target rest
  | (.insert, xs) :: rest => xs ++ target rest

/-- A script of non-empty segments from a base to a variant. -/
structure Rewrites (script : EditScript α) (base variant : List α) : Prop where
  nonempty : ∀ segment ∈ script, segment.2 ≠ []
  source : script.source = base
  target : script.target = variant

section Map

variable {β : Type*} (f : α → β)

/-- Each element of a script under a function. -/
def map (script : EditScript α) : EditScript β :=
  List.map (fun segment => (segment.1, segment.2.map f)) script

theorem source_map (script : EditScript α) : source (map f script) = (source script).map f := by
  induction script with
  | nil => rfl
  | cons segment rest ih =>
    obtain ⟨op, xs⟩ := segment
    have hcons : map f ((op, xs) :: rest) = (op, xs.map f) :: map f rest := rfl
    cases op <;> simp [hcons, source, ih]

theorem target_map (script : EditScript α) : target (map f script) = (target script).map f := by
  induction script with
  | nil => rfl
  | cons segment rest ih =>
    obtain ⟨op, xs⟩ := segment
    have hcons : map f ((op, xs) :: rest) = (op, xs.map f) :: map f rest := rfl
    cases op <;> simp [hcons, target, ih]

theorem Rewrites.map (h : script.Rewrites base variant) :
    Rewrites (EditScript.map f script) (base.map f) (variant.map f) where
  nonempty segment hseg := by
    obtain ⟨segment', hmem, rfl⟩ := mem_map.mp hseg
    have hne := h.nonempty segment' hmem
    simpa using hne
  source := by rw [source_map, h.source]
  target := by rw [target_map, h.target]

end Map

/-- The loop over a script at position `cursor` of its source, with the splice that is open. An
equal segment closes it. -/
def splicesFrom : ℕ → Option (Splice α) → EditScript α → List (Splice α)
  | _, current, [] => current.toList
  | cursor, current, (.equal, xs) :: rest =>
    current.toList ++ splicesFrom (cursor + xs.length) none rest
  | cursor, current, (.delete, xs) :: rest =>
    let change := current.getD ⟨cursor, cursor, []⟩
    splicesFrom (cursor + xs.length) (some { change with baseEnd := cursor + xs.length }) rest
  | cursor, current, (.insert, xs) :: rest =>
    let change := current.getD ⟨cursor, cursor, []⟩
    splicesFrom cursor (some { change with content := change.content ++ xs }) rest

/-- The runs of deletions and insertions between equal segments. -/
def splices (script : EditScript α) : List (Splice α) := splicesFrom 0 none script

/-- An open splice ends at the cursor. -/
def Open (cursor start : ℕ) (current : Option (Splice α)) : Prop :=
  ∀ c ∈ current, start ≤ c.baseStart ∧ c.baseStart ≤ c.baseEnd ∧ c.baseEnd = cursor

variable {current : Option (Splice α)}

variable {cursor start : ℕ}

theorem open_delete {n : ℕ} (h : Open cursor start current) (hst : start ≤ cursor) :
    Open (cursor + n) start
      (some { current.getD ⟨cursor, cursor, []⟩ with baseEnd := cursor + n }) := by
  intro c hc
  cases hc
  cases current with
  | none => exact ⟨hst, Nat.le_add_right _ _, rfl⟩
  | some d =>
    obtain ⟨hd, hle, hend⟩ := h d rfl
    refine ⟨hd, ?_, rfl⟩
    change d.baseStart ≤ cursor + n
    omega

theorem open_insert (h : Open cursor start current) (hst : start ≤ cursor)
    (xs : List α) : Open cursor start (some { current.getD ⟨cursor, cursor, []⟩ with
      content := (current.getD ⟨cursor, cursor, []⟩).content ++ xs }) := by
  intro c hc
  cases hc
  cases current with
  | none => exact ⟨hst, Nat.le_refl _, rfl⟩
  | some d => exact h d rfl

/-- The splices of a script follow each other at a distance and end within its source. -/
theorem separated_splicesFrom (hne : ∀ segment ∈ script, segment.2 ≠ [])
    (hcur : Open cursor start current) (hst : start ≤ cursor) :
    Splice.Separated (cursor + script.source.length) (splicesFrom cursor current script) ∧
      ∀ c ∈ splicesFrom cursor current script, start ≤ c.baseStart := by
  induction script generalizing cursor start current with
  | nil =>
    cases current with
    | none => exact ⟨⟨by simp [splicesFrom], by simp [splicesFrom], by simp [splicesFrom]⟩,
        by simp [splicesFrom]⟩
    | some c =>
      obtain ⟨hc, hle, hend⟩ := hcur c rfl
      refine ⟨⟨?_, ?_, ?_⟩, ?_⟩
      · simpa [splicesFrom] using hle
      · simp [splicesFrom, hend]
      · simp [splicesFrom]
      · simpa [splicesFrom] using hc
  | cons segment rest ih =>
    obtain ⟨op, xs⟩ := segment
    have hne' : ∀ segment ∈ rest, segment.2 ≠ [] :=
      fun segment hmem => hne segment (mem_cons_of_mem _ hmem)
    have hpos : 0 < xs.length := length_pos_iff.mpr (hne (op, xs) mem_cons_self)
    cases op with
    | equal =>
      have hsum : cursor + (source ((.equal, xs) :: rest)).length =
          cursor + xs.length + (source rest).length := by
        rw [source, length_append]
        omega
      have hclosed : Open (cursor + xs.length) (cursor + xs.length) (none : Option (Splice α)) := by
        simp [Open]
      obtain ⟨hsep, ha⟩ := ih hne' hclosed (Nat.le_refl _)
      rw [hsum, splicesFrom]
      cases current with
      | none =>
        refine ⟨hsep, ?_⟩
        intro c hc
        have hle := ha c hc
        omega
      | some c =>
        obtain ⟨hc, hle, hend⟩ := hcur c rfl
        refine ⟨⟨?_, ?_, ?_⟩, ?_⟩
        · intro d hd
          rcases mem_cons.mp hd with rfl | hd
          · exact hle
          · exact hsep.le d hd
        · intro d hd
          rcases mem_cons.mp hd with rfl | hd
          · omega
          · exact hsep.le_length d hd
        · apply pairwise_cons.mpr
          refine ⟨?_, hsep.pairwise⟩
          intro d hd
          have hle' := ha d hd
          omega
        intro d hd
        rcases mem_cons.mp hd with rfl | hd
        · exact hc
        have hle' := ha d hd
        omega
    | delete =>
      have hsum : cursor + (source ((.delete, xs) :: rest)).length =
          cursor + xs.length + (source rest).length := by
        rw [source, length_append]
        omega
      rw [hsum]
      exact ih hne' (open_delete hcur hst) (by omega)
    | insert => exact ih hne' (open_insert hcur hst xs) hst

/-- What the loop over splices copies before the rest of a script. -/
def copied (base : List α) (k cursor : ℕ) : Option (Splice α) → List α
  | none => slice base k cursor
  | some c => slice base k c.baseStart ++ c.content

/-- An insertion adds to what is copied. -/
theorem copied_insert {k : ℕ} (current : Option (Splice α)) (xs : List α) :
    copied base k cursor (some { current.getD ⟨cursor, cursor, []⟩ with
      content := (current.getD ⟨cursor, cursor, []⟩).content ++ xs }) =
      copied base k cursor current ++ xs := by
  cases current <;> simp [copied]

/-- A deletion adds nothing. -/
theorem copied_delete {k : ℕ} (current : Option (Splice α)) (n : ℕ) : copied base k (cursor + n)
        (some { current.getD ⟨cursor, cursor, []⟩ with baseEnd := cursor + n }) =
      copied base k cursor current := by
  cases current <;> simp [copied]

/-- The part of a base that a segment of the script reads. -/
theorem slice_of_drop {xs rest : List α} (h : base.drop cursor = xs ++ rest) :
    slice base cursor (cursor + xs.length) = xs ∧ base.drop (cursor + xs.length) = rest := by
  constructor
  · have hlen : cursor + xs.length - cursor = xs.length := by omega
    rw [← take_drop_eq_slice, h, hlen, take_left']
    rfl
  rw [← drop_drop, h, drop_left']
  rfl

/-- Splicing what a script amounts to into its source writes its target. -/
theorem applyFrom_splicesFrom {k : ℕ} (hb : base.drop cursor = source script)
    (hlen : cursor ≤ base.length) (hcur : Open cursor k current) (hk : k ≤ cursor) :
    Splice.applyFrom base base.length k (splicesFrom cursor current script) =
      copied base k cursor current ++ target script := by
  induction script generalizing cursor k current with
  | nil =>
    have hend : base.length ≤ cursor := drop_eq_nil_iff.mp hb
    have hcursor : cursor = base.length := by omega
    rw [target, append_nil, splicesFrom]
    cases current with
    | none => rw [Option.toList, Splice.applyFrom, copied, hcursor]
    | some c =>
      obtain ⟨-, -, hc⟩ := hcur c rfl
      rw [Option.toList, Splice.applyFrom, Splice.applyFrom, copied, hc, hcursor,
        slice_of_le (Nat.le_refl _), append_nil]
  | cons segment rest ih =>
    obtain ⟨op, xs⟩ := segment
    cases op with
    | equal =>
      obtain ⟨hslice, hdrop⟩ := slice_of_drop hb
      have hle : cursor + xs.length ≤ base.length := by
        have hlong := congrArg List.length hb
        rw [length_drop, source, length_append] at hlong
        omega
      have hclosed : ∀ k, Open (cursor + xs.length) k (none : Option (Splice α)) := by
        simp [Open]
      rw [splicesFrom, target]
      cases current with
      | none =>
        rw [Option.toList, nil_append, ih hdrop hle (hclosed k) (by omega), copied, copied,
          ← slice_append_slice hk (Nat.le_add_right cursor xs.length), hslice, append_assoc]
      | some c =>
        obtain ⟨-, -, hend⟩ := hcur c rfl
        rw [Option.toList, singleton_append, Splice.applyFrom, hend,
          ih hdrop hle (hclosed cursor) (by omega), copied, copied, hslice]
    | delete =>
      obtain ⟨-, hdrop⟩ := slice_of_drop hb
      have hle : cursor + xs.length ≤ base.length := by
        have hlong := congrArg List.length hb
        rw [length_drop, source, length_append] at hlong
        omega
      rw [splicesFrom, target, ih hdrop hle (open_delete hcur hk) (by omega), copied_delete]
    | insert =>
      rw [splicesFrom, target, ih hb hlen (open_insert hcur hk xs) hk, copied_insert, append_assoc]

/-- The splices of a script keep an element of its source between any two of them. -/
theorem Rewrites.separated (h : script.Rewrites base variant) :
    Splice.Separated base.length script.splices := by
  have hclosed : Open 0 0 (none : Option (Splice α)) := by simp [Open]
  have hsep := (separated_splicesFrom h.nonempty hclosed (Nat.le_refl 0)).1
  rwa [h.source, Nat.zero_add] at hsep

/-- The splices of a script rewrite its source into its target. -/
theorem Rewrites.patched (h : script.Rewrites base variant) :
    Splice.patched base script.splices = variant := by
  have hclosed : Open 0 0 (none : Option (Splice α)) := by simp [Open]
  have hb : base.drop 0 = EditScript.source script := h.source.symm
  rw [← Splice.applyFrom_eq_patched h.separated.sequential, splices,
    applyFrom_splicesFrom hb (Nat.zero_le _) hclosed (Nat.le_refl 0), h.target, copied,
    slice_of_le (Nat.le_refl 0), nil_append]

section Affix

/-- A segment, unless it is empty. -/
def segment (op : EditOp) (xs : List α) : EditScript α := if xs = [] then [] else [(op, xs)]

theorem segment_nonempty {op : EditOp} {xs : List α} : ∀ s ∈ segment op xs, s.2 ≠ [] := by
  intro s hs
  unfold segment at hs
  split at hs
  · cases hs
  · next hne =>
    rw [mem_singleton.mp hs]
    exact hne

theorem source_segment_append (op : EditOp) (xs : List α) (rest : EditScript α) :
    source (segment op xs ++ rest) = (if op = .insert then [] else xs) ++ source rest := by
  unfold segment
  split
  · next h => simp [h]
  · cases op <;> simp [source]

theorem target_segment_append (op : EditOp) (xs : List α) (rest : EditScript α) :
    target (segment op xs ++ rest) = (if op = .delete then [] else xs) ++ target rest := by
  unfold segment
  split
  · next h => simp [h]
  · cases op <;> simp [target]

variable [DecidableEq α]

/-- The longest common start of two lists. -/
def commonPrefix : List α → List α → List α
  | x :: xs, y :: ys => if x = y then x :: commonPrefix xs ys else []
  | _, _ => []

theorem commonPrefix_append (xs ys : List α) :
    commonPrefix xs ys ++ xs.drop (commonPrefix xs ys).length = xs ∧
      commonPrefix xs ys ++ ys.drop (commonPrefix xs ys).length = ys := by
  induction xs generalizing ys with
  | nil => simp [commonPrefix]
  | cons x xs ih =>
    cases ys with
    | nil => simp [commonPrefix]
    | cons y ys =>
      unfold commonPrefix
      split
      · next heq =>
        subst heq
        simpa using ih ys
      · simp

/-- The script that keeps the common start and the common end of two lists and replaces what is
between them. -/
def affixScript (base variant : List α) : EditScript α :=
  let front := commonPrefix base variant
  let base' := (base.drop front.length).reverse
  let variant' := (variant.drop front.length).reverse
  let back := commonPrefix base' variant'
  segment .equal front ++ (segment .delete (base'.drop back.length).reverse ++
    (segment .insert (variant'.drop back.length).reverse ++ (segment .equal back.reverse ++ [])))

@[simp] theorem commonPrefix_self (xs : List α) : commonPrefix xs xs = xs := by
  induction xs with
  | nil => rfl
  | cons x xs ih => rw [commonPrefix, if_pos rfl, ih]

/-- Nothing is replaced between a list and itself. -/
theorem affixScript_self (xs : List α) : ∀ s ∈ affixScript xs xs, s.1 = .equal := by
  intro s hs
  simp only [affixScript, commonPrefix_self, drop_length, reverse_nil, segment, if_true,
    append_nil] at hs
  split at hs
  · cases hs
  · rw [mem_singleton.mp hs]

theorem rewrites_affixScript (base variant : List α) :
    (affixScript base variant).Rewrites base variant := by
  unfold affixScript
  dsimp only
  generalize hfront : commonPrefix base variant = front
  obtain ⟨hba, hvar⟩ := commonPrefix_append base variant
  rw [hfront] at hba hvar
  generalize base.drop front.length = base' at hba ⊢
  generalize variant.drop front.length = variant' at hvar ⊢
  generalize hbk : commonPrefix base'.reverse variant'.reverse = back
  obtain ⟨hba', hvar'⟩ := commonPrefix_append base'.reverse variant'.reverse
  rw [hbk] at hba' hvar'
  have hb := congrArg List.reverse hba'
  have hv := congrArg List.reverse hvar'
  rw [reverse_append, reverse_reverse] at hb hv
  constructor
  · intro s hs
    simp only [mem_append, not_mem_nil, or_false] at hs
    rcases hs with hs | hs | hs | hs <;> exact segment_nonempty s hs
  · rw [source_segment_append, source_segment_append, source_segment_append, source_segment_append]
    simpa [source, hb] using hba
  rw [target_segment_append, target_segment_append, target_segment_append, target_segment_append]
  simpa [target, hv] using hvar

end Affix

/-- A script without changes amounts to no splices. -/
theorem splices_of_equal (h : ∀ segment ∈ script, segment.1 = .equal) : splices script = [] := by
  unfold splices
  generalize 0 = cursor
  induction script generalizing cursor with
  | nil => rfl
  | cons segment rest ih =>
    obtain ⟨op, xs⟩ := segment
    have hop : op = .equal := h (op, xs) mem_cons_self
    subst hop
    exact ih (fun segment hmem => h segment (mem_cons_of_mem _ hmem)) _

end EditScript

/-- A function that finds a script of non-empty segments between any two lists. -/
structure Differ (α : Type*) where
  diff : List α → List α → EditScript α
  rewrites : ∀ base variant, (diff base variant).Rewrites base variant

def affixDiffer {α : Type*} [DecidableEq α] : Differ α :=
  ⟨EditScript.affixScript, EditScript.rewrites_affixScript⟩

end Kaos.Lib
