import Mathlib.Data.List.Nodup

/-! Changing the first entry of a list that passes a test. -/
namespace Kaos.Lib

open List

variable {α β : Type*} {p : α → Bool} {f : α → α} {l : List α} {a b : α}

/-- The list with its first match replaced. -/
def updateFirst (p : α → Bool) (f : α → α) : List α → List α
  | [] => []
  | a :: l => if p a then f a :: l else a :: updateFirst p f l

/-- Around the first match the list falls into three parts. -/
theorem find?_split (h : l.find? p = some a) : ∃ l₁ l₂, l = l₁ ++ a :: l₂ ∧ p a = true ∧
    updateFirst p f l = l₁ ++ f a :: l₂ ∧ l.eraseP p = l₁ ++ l₂ := by
  induction l with
  | nil => cases h
  | cons b l ih =>
    by_cases hb : p b = true
    · rw [find?_cons_of_pos hb, Option.some.injEq] at h
      subst h
      exact ⟨[], l, rfl, hb, by simp [updateFirst, hb], by simp [hb]⟩
    rw [find?_cons_of_neg hb] at h
    obtain ⟨l₁, l₂, hl, ha, hu, herase⟩ := ih h
    refine ⟨b :: l₁, l₂, by rw [hl, cons_append], ha, ?_, ?_⟩
    · rw [updateFirst, if_neg hb, hu, cons_append]
    · rw [eraseP_cons_of_neg hb, herase, cons_append]

theorem updateFirst_of_none (h : l.find? p = none) : updateFirst p f l = l := by
  induction l with
  | nil => rfl
  | cons b l ih =>
    rw [find?_cons] at h
    split at h
    · cases h
    · next hb => rw [updateFirst, if_neg (by rw [hb]; exact Bool.noConfusion), ih h]

/-- If the new first match still passes the test, it is the first match of the new list. -/
theorem find?_updateFirst (h : l.find? p = some a) (hf : p (f a) = true) :
    (updateFirst p f l).find? p = some (f a) := by
  induction l with
  | nil => cases h
  | cons b l ih =>
    by_cases hb : p b = true
    · rw [find?_cons_of_pos hb, Option.some.injEq] at h
      subst h
      rw [updateFirst, if_pos hb, find?_cons_of_pos hf]
    rw [find?_cons_of_neg hb] at h
    rw [updateFirst, if_neg hb, find?_cons_of_neg hb, ih h]

/-- An entry of the new list was there before or is the new one. -/
theorem mem_updateFirst (h : b ∈ updateFirst p f l) :
    b ∈ l ∨ ∃ a, l.find? p = some a ∧ b = f a := by
  cases hf : l.find? p with
  | none =>
    rw [updateFirst_of_none hf] at h
    exact .inl h
  | some a =>
    obtain ⟨l₁, l₂, hl, -, hu, -⟩ := find?_split (f := f) hf
    rw [hu, mem_append, mem_cons] at h
    rw [hl]
    rcases h with h | rfl | h
    · exact .inl (mem_append_left _ h)
    · exact .inr ⟨a, rfl, rfl⟩
    · exact .inl (mem_append_right _ (mem_cons_of_mem _ h))

theorem mem_updateFirst_self (h : l.find? p = some a) : f a ∈ updateFirst p f l := by
  obtain ⟨l₁, l₂, -, -, hu, -⟩ := find?_split (f := f) h
  rw [hu]
  exact mem_append_right _ mem_cons_self

/-- What the change does not touch stays as it is. -/
theorem map_updateFirst {γ : Type*} {g : α → γ} (h : ∀ a ∈ l, p a = true → g (f a) = g a) :
    (updateFirst p f l).map g = l.map g := by
  induction l with
  | nil => rfl
  | cons a l ih =>
    rw [updateFirst]
    split
    · next ha => rw [map_cons, map_cons, h a mem_cons_self ha]
    · rw [map_cons, map_cons, ih fun b hb => h b (mem_cons_of_mem _ hb)]

theorem mem_updateFirst_of_ne (hb : b ∈ l) (h : l.find? p ≠ some b) : b ∈ updateFirst p f l := by
  cases hf : l.find? p with
  | none =>
    rw [updateFirst_of_none hf]
    exact hb
  | some a =>
    obtain ⟨l₁, l₂, hl, -, hu, -⟩ := find?_split (f := f) hf
    rw [hl, mem_append, mem_cons] at hb
    rw [hu]
    rcases hb with hb | rfl | hb
    · exact mem_append_left _ hb
    · exact absurd hf h
    · exact mem_append_right _ (mem_cons_of_mem _ hb)

variable {κ : Type*} {key : α → κ}

/-- Where a key tells the entries apart, removing by the key of one removes that one. -/
theorem mem_eraseP_key [DecidableEq κ] (hl : (l.map key).Nodup)
    (ha : a ∈ l) : b ∈ l.eraseP (fun c => key c = key a) ↔ b ∈ l ∧ b ≠ a := by
  induction l with
  | nil => cases ha
  | cons c l ih =>
    rw [map_cons, nodup_cons] at hl
    rcases mem_cons.mp ha with rfl | ha
    · rw [eraseP_cons_of_pos (by simp)]
      constructor
      · intro hb
        refine ⟨mem_cons_of_mem _ hb, ?_⟩
        rintro rfl
        exact hl.1 (mem_map_of_mem hb)
      rintro ⟨hb, hne⟩
      rcases mem_cons.mp hb with rfl | hb
      · exact absurd rfl hne
      · exact hb
    have hc : key c ≠ key a := by
      intro heq
      exact hl.1 (heq ▸ mem_map_of_mem ha)
    rw [eraseP_cons_of_neg (by simpa using hc), mem_cons, mem_cons, ih hl.2 ha]
    constructor
    · rintro (rfl | ⟨hb, hne⟩)
      · exact ⟨.inl rfl, fun heq => hc (congrArg key heq)⟩
      · exact ⟨.inr hb, hne⟩
    rintro ⟨rfl | hb, hne⟩
    · exact .inl rfl
    · exact .inr ⟨hb, hne⟩

theorem eq_of_key (hl : (l.map key).Nodup) (ha : a ∈ l) (hb : b ∈ l)
    (hkey : key a = key b) : a = b := inj_on_of_nodup_map hl ha hb hkey

/-- One more entry with a key of its own. -/
theorem nodup_map_push (hl : (l.map key).Nodup)
    (ha : ∀ b ∈ l, key b ≠ key a) : ((l ++ [a]).map key).Nodup := by
  rw [map_append, map_singleton]
  apply hl.append (nodup_singleton _)
  intro c hc hmem
  rw [mem_singleton] at hmem
  obtain ⟨b, hb, rfl⟩ := mem_map.mp hc
  exact ha b hb hmem

end Kaos.Lib
