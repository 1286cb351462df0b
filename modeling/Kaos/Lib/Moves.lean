import Kaos.Lib.OrderedMap

/-! Moves of a map's entries, made one after another. -/
namespace Kaos.Lib.OrderedMap

open List

variable {κ ν : Type*} [DecidableEq κ] {m : OrderedMap κ ν} {old new k : κ} {v : ν}
  {moves : List (κ × κ)}

/-- The entry found under the old key is put under the new one. -/
def move (m : OrderedMap κ ν) (old new : κ) : OrderedMap κ ν :=
  match m.get? old with
  | none => m
  | some v => (m.set new v).delete old

def moveAll (m : OrderedMap κ ν) (moves : List (κ × κ)) : OrderedMap κ ν :=
  moves.foldl (fun m step => m.move step.1 step.2) m

/-- No entry is moved onto itself, or onto a key whose own move comes later. -/
structure InOrder (m : OrderedMap κ ν) (moves : List (κ × κ)) : Prop where
  self : ∀ step ∈ moves, step.2 = step.1 → m.get? step.1 = none
  later : moves.Pairwise fun step step' => step.2 = step'.1 → m.get? step.1 = none

theorem get?_move_of_ne (hold : k ≠ old) (hnew : new = k → m.get? old = none) :
    (m.move old new).get? k = m.get? k := by
  unfold move
  split
  · rfl
  · next v hv =>
    have hne : k ≠ new := fun h => by simp [hnew h.symm] at hv
    rw [get?_delete_of_ne hold, get?_set_of_ne hne]

theorem get?_move_old : (m.move old new).get? old = none := by
  unfold move
  split
  · assumption
  · exact get?_delete_self

theorem get?_move_new (hv : m.get? old = some v) (hne : new ≠ old) :
    (m.move old new).get? new = some v := by
  simp only [move, hv, get?_delete_of_ne hne, get?_set_self]

theorem get?_moveAll_of_not_mem (hold : k ∉ moves.map Prod.fst) (hnew : k ∉ moves.map Prod.snd) :
    (m.moveAll moves).get? k = m.get? k := by
  induction moves generalizing m with
  | nil => rfl
  | cons step moves ih =>
    simp only [map_cons, mem_cons, not_or] at hold hnew
    exact (ih hold.2 hnew.2).trans (get?_move_of_ne hold.1 fun h => absurd h.symm hnew.1)

variable {step : κ × κ}

/-- The first of some moves made in order leaves the others theirs to move. -/
theorem InOrder.first (h : m.InOrder (step :: moves))
    (hk : ((step :: moves).map Prod.fst).Nodup) {step' : κ × κ} (hmem : step' ∈ moves) :
    (m.move step.1 step.2).get? step'.1 = m.get? step'.1 := by
  rw [map_cons, nodup_cons] at hk
  refine get?_move_of_ne (fun he => hk.1 (he ▸ mem_map_of_mem hmem)) ?_
  exact (pairwise_cons.mp h.later).1 step' hmem

theorem InOrder.rest (h : m.InOrder (step :: moves))
    (hk : ((step :: moves).map Prod.fst).Nodup) : (m.move step.1 step.2).InOrder moves where
  self step' hmem he := (h.first hk hmem).trans (h.self step' (mem_cons_of_mem _ hmem) he)
  later := (pairwise_cons.mp h.later).2.imp_of_mem fun hmem _ hl he =>
    (h.first hk hmem).trans (hl he)

/-- A key that no entry is moved onto keeps its own unless it is one of the old keys. -/
theorem get?_moveAll_of_unsought (h : m.InOrder moves) (hkeys : (moves.map Prod.fst).Nodup)
    (hnew : ∀ step ∈ moves, step.2 = k → m.get? step.1 = none) :
    (k ∈ moves.map Prod.fst → (m.moveAll moves).get? k = none) ∧
    (k ∉ moves.map Prod.fst → (m.moveAll moves).get? k = m.get? k) := by
  induction moves generalizing m with
  | nil => exact ⟨fun hk => absurd hk not_mem_nil, fun _ => rfl⟩
  | cons step moves ih =>
    obtain ⟨hold, hkp⟩ := ih (h.rest hkeys) (nodup_cons.mp hkeys).2 fun step' hmem he =>
      (h.first hkeys hmem).trans (hnew step' (mem_cons_of_mem _ hmem) he)
    rw [map_cons, mem_cons, not_or]
    constructor
    · intro hk
      by_cases hl : k ∈ moves.map Prod.fst
      · exact hold hl
      have he : k = step.1 := hk.resolve_right hl
      exact (hkp hl).trans (he ▸ get?_move_old)
    · intro hk
      exact (hkp hk.2).trans (get?_move_of_ne hk.1 (hnew step mem_cons_self))

theorem get?_moveAll_new (h : m.InOrder moves) (hk : (moves.map Prod.fst).Nodup)
    (hvs : (moves.map Prod.snd).Nodup) (hmem : step ∈ moves)
    (hv : m.get? step.1 = some v) : (m.moveAll moves).get? step.2 = some v := by
  induction moves generalizing m with
  | nil => exact absurd hmem not_mem_nil
  | cons first moves ih =>
    obtain ⟨hvalue, hvs'⟩ := nodup_cons.mp hvs
    rcases mem_cons.mp hmem with rfl | hmem'
    · have hne : step.2 ≠ step.1 := fun he => by simp [h.self step hmem he] at hv
      have hl : step.2 ∉ moves.map Prod.fst := by
        intro hin
        obtain ⟨step', hmem', he⟩ := mem_map.mp hin
        simp [(pairwise_cons.mp h.later).1 step' hmem' he.symm] at hv
      exact (get?_moveAll_of_not_mem hl hvalue).trans (get?_move_new hv hne)
    · exact ih (h.rest hk) (nodup_cons.mp hk).2 hvs' hmem'
        ((h.first hk hmem').trans hv)

/-- A key is empty once its own move is made, unless another move onto it follows. -/
theorem get?_moveAll_old {before after : List (κ × κ)}
    (hs : moves = before ++ step :: after) (hk : (moves.map Prod.fst).Nodup)
    (hnew : step.1 ∉ after.map Prod.snd) : (m.moveAll moves).get? step.1 = none := by
  subst hs
  have hold : step.1 ∉ after.map Prod.fst := by
    rw [map_append, map_cons] at hk
    exact (nodup_cons.mp (nodup_append.mp hk).2.1).1
  have ha : (((m.moveAll before).move step.1 step.2).moveAll after).get? step.1 = none :=
    (get?_moveAll_of_not_mem hold hnew).trans get?_move_old
  simpa only [moveAll, foldl_append, foldl_cons] using ha

theorem inOrder_of_moved (hk : (moves.map Prod.fst).Nodup) (hv : (moves.map Prod.snd).Nodup)
    (hm : ∀ step ∈ moves, (m.moveAll moves).get? step.2 = m.get? step.1) : m.InOrder moves := by
  -- a target whose own move is not made earlier is empty at the end
  have hem : ∀ i j (hj : j < moves.length) (hij : i ≤ j),
      moves[i].2 = moves[j].1 → m.get? moves[i].1 = none := by
    intro i j hj hij he
    have hs : moves = moves.take j ++ moves[j] :: moves.drop (j + 1) :=
      (take_append_drop j moves).symm.trans (congrArg _ (drop_eq_getElem_cons hj))
    have hmem : moves[j].1 ∈ (moves.map Prod.snd).take (j + 1) :=
      mem_take_iff_getElem.mpr ⟨i, by simp; omega, by simpa using he⟩
    have hnot : moves[j].1 ∉ (moves.drop (j + 1)).map Prod.snd :=
      map_drop ▸ disjoint_take_drop hv (Nat.le_refl _) hmem
    rw [← hm _ (getElem_mem _), he]
    exact get?_moveAll_old hs hk hnot
  exact {
    self := fun step hmem he => by
      obtain ⟨i, hi, rfl⟩ := getElem_of_mem hmem
      exact hem i i hi (Nat.le_refl i) he
    later := pairwise_iff_getElem.mpr fun i j hi hj hij => hem i j hj (Nat.le_of_lt hij) }

end Kaos.Lib.OrderedMap
