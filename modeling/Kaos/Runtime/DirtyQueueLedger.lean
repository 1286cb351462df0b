import Kaos.Runtime.DirtyQueue

/-! Every change that has been taken in waits under its path, is worked on or has come to an end. -/
namespace Kaos.Runtime.DirtyQueue

open Kaos.Lib DirtyQueue List OrderedMap Function Option

variable {π : Type*} [DecidableEq π] {s s' : DirtyQueue π} {w : DirtyWorld π} {m : ℕ} {p q : π}
  {outcome : ChangeOutcome π} {changes : List ℕ}

section Ledger

theorem mem_owedAt : m ∈ s.owedAt p ↔ (m, p) ∈ s.owed := by
  simp [owedAt]

theorem mem_settle : (m, p) ∈ (s.settle changes q outcome).owed ↔
    (m, p) ∈ s.owed ∧ ¬ (m ∈ changes ∧ p = q) := by
  simp only [settle, mem_filter, decide_eq_true_eq]

/-- What is still owed after a settlement was owed, and is not settled. -/
theorem of_mem_settle (s : DirtyQueue π) (changes : List ℕ) (q : π) (outcome : ChangeOutcome π)
    (h : (m, p) ∈ (s.settle changes q outcome).owed) :
    (m, p) ∈ s.owed ∧ ¬ (m ∈ changes ∧ p = q) := mem_settle.mp h

theorem mem_settleAll : (m, p) ∈ (s.settleAll q outcome).owed ↔ (m, p) ∈ s.owed ∧ p ≠ q := by
  unfold settleAll
  rw [mem_settle, mem_owedAt]
  constructor
  · rintro ⟨ho, hnot⟩
    exact ⟨ho, fun heq => hnot ⟨heq ▸ ho, heq⟩⟩
  rintro ⟨ho, hne⟩
  exact ⟨ho, fun h => hne h.2⟩

/-- Every change is owed or has come to an end. -/
def Recorded (s : DirtyQueue π) : Prop :=
  ∀ m < s.changes, (∃ p, (m, p) ∈ s.owed) ∨ ∃ outcome, (m, outcome) ∈ s.outcomes

theorem Recorded.settle (h : Recorded s) (changes : List ℕ) (q : π) (outcome : ChangeOutcome π) :
    Recorded (s.settle changes q outcome) := by
  intro m hlt
  rcases h m hlt with ⟨p, ho⟩ | ⟨outcome', he⟩
  · by_cases hset : m ∈ changes ∧ p = q
    · refine .inr ⟨outcome, mem_append_left _ ?_⟩
      have hmem : (m, p) ∈ s.owed.filter fun change => change.1 ∈ changes ∧ change.2 = q := by
        simpa using ⟨ho, hset⟩
      exact mem_map_of_mem (f := fun change => (change.1, outcome)) hmem
    · exact .inl ⟨p, mem_settle.mpr ⟨ho, hset⟩⟩
  · exact .inr ⟨outcome', mem_append_right _ he⟩

omit [DecidableEq π] in
theorem Recorded.change (h : Recorded s) (q : π) : Recorded (s.change q) := by
  unfold DirtyQueue.change
  split <;> intro m hlt
  · rcases Nat.lt_succ_iff_lt_or_eq.mp hlt with hold | rfl
    · exact (h m hold).imp_right fun ⟨outcome, he⟩ =>
        ⟨outcome, mem_cons_of_mem _ he⟩
    · exact .inr ⟨.cancelled, mem_cons_self⟩
  rcases Nat.lt_succ_iff_lt_or_eq.mp hlt with hold | rfl
  · exact (h m hold).imp_left fun ⟨p, ho⟩ => ⟨p, mem_cons_of_mem _ ho⟩
  · exact .inl ⟨q, mem_cons_self⟩

/-- What is owed after a rename was owed before, under the old name or under its own. -/
theorem mem_rename {oldPath newPath : π} (h : (m, p) ∈ (s.rename oldPath newPath).owed) :
    ((m, oldPath) ∈ s.owed ∧ p = newPath ∨ (m, p) ∈ s.owed ∧ p ≠ oldPath) ∧
      (p = newPath → s.resolutions newPath = none) := by
  have hm : ∀ m p, (m, p) ∈ (s.owed.map fun change : ℕ × π =>
      (change.1, if change.2 = oldPath then newPath else change.2)) →
      (m, oldPath) ∈ s.owed ∧ p = newPath ∨ (m, p) ∈ s.owed ∧ p ≠ oldPath := by
    intro m p hmem
    obtain ⟨⟨m', p'⟩, ho, heq⟩ := mem_map.mp hmem
    simp only [Prod.mk.injEq] at heq
    obtain ⟨rfl, hp⟩ := heq
    split at hp
    · next hold => exact .inl ⟨hold ▸ ho, hp.symm⟩
    · next hne => exact .inr ⟨hp ▸ ho, hp ▸ hne⟩
  unfold rename at h
  dsimp only at h
  split at h
  · obtain ⟨ho, hne⟩ := mem_settleAll.mp h
    exact ⟨hm m p ho, fun heq => absurd heq hne⟩
  · next hact => exact ⟨hm m p h, fun _ => by simpa using hact⟩

theorem Recorded.rename (h : Recorded s) (oldPath newPath : π) :
    Recorded (s.rename oldPath newPath) := by
  have hm : Recorded { s with
      owed := s.owed.map fun change : ℕ × π =>
        (change.1, if change.2 = oldPath then newPath else change.2) } := by
    intro m hlt
    rcases h m hlt with ⟨p, ho⟩ | he
    · exact .inl ⟨_, mem_map_of_mem (f := fun change : ℕ × π =>
        (change.1, if change.2 = oldPath then newPath else change.2)) ho⟩
    · exact .inr he
  unfold DirtyQueue.rename
  dsimp only
  split
  · exact hm.settle _ _ _
  · exact hm

end Ledger

/-- No resolution has come since the entry was made. -/
def Fits (s : DirtyQueue π) (p : π) (entry : MarkdownDirtyEntry) : Prop :=
  ∀ generation, entry.generation = some generation → generation = s.markdownIngestGenerations p

def Queued (s : DirtyQueue π) (p : π) : Prop :=
  ∃ entry, s.dirtyMarkdownPaths.get? p = some entry ∧ Fits s p entry

def Waiting (s : DirtyQueue π) (p : π) : Prop :=
  ∃ drain, s.drain = some drain ∧ ∃ entry, (p, entry) ∈ drain.batch ∧ Fits s p entry

/-- The ingest of the path has the change, and its file is still there. -/
def Working (s : DirtyQueue π) (m : ℕ) (p : π) : Prop :=
  ∃ drain active, s.drain = some drain ∧ drain.phase.active = some active ∧ active.path = p ∧
    active.redirectedTo = none ∧ active.generation = s.markdownIngestGenerations p ∧
    m ∈ active.covers

/-- Changes that are owed are queued, in the batch or worked on, under the path of their file. -/
structure NothingLost (s : DirtyQueue π) : Prop where
  accounted : ∀ m p, (m, p) ∈ s.owed → Queued s p ∨ Waiting s p ∨ Working s m p
  unresolved : ∀ m p, (m, p) ∈ s.owed → s.resolutions p = none
  /-- An ingest that a newer event has overtaken has that event behind it. -/
  renewed : ∀ drain active, s.drain = some drain → drain.phase.active = some active →
    active.redirectedTo = none → active.diskRevision ≠ s.markdownDiskRevisions active.path →
      ∀ m, (m, active.path) ∈ s.owed → Queued s active.path
  kept : 0 < s.dirtyMarkdownPaths.size → s.markdownDrainTimer = true ∨ s.drain.isSome
  recorded : Recorded s

/-- At most one path is queued anew. -/
structure Requeues (q : π) (s s' : DirtyQueue π) : Prop where
  drain : s'.drain = s.drain
  generations : s'.markdownIngestGenerations = s.markdownIngestGenerations
  revisions : s'.markdownDiskRevisions = s.markdownDiskRevisions
  resolutions : s'.resolutions = s.resolutions
  changes : s'.changes = s.changes
  owed : s'.owed = s.owed
  outcomes : s'.outcomes = s.outcomes
  queued : ∀ p, Queued s p → Queued s' p
  anew : s.resolutions q = none → Queued s' q
  timer : s'.markdownDrainTimer = true

section Requeues

variable {entry : MarkdownDirtyEntry}

theorem queued_set (s s' : DirtyQueue π) (hfits : Fits s q entry)
    (hmap : s'.dirtyMarkdownPaths = s.dirtyMarkdownPaths.set q entry)
    (hgens : s'.markdownIngestGenerations = s.markdownIngestGenerations) :
    Queued s' q ∧ ∀ p, Queued s p → Queued s' p := by
  have hs : Queued s' q := by
    refine ⟨entry, by rw [hmap, get?_set_self], ?_⟩
    unfold Fits
    rw [hgens]
    exact hfits
  refine ⟨hs, ?_⟩
  rintro p ⟨previous, hget, hp⟩
  by_cases heq : p = q
  · exact heq ▸ hs
  refine ⟨previous, by rw [hmap, get?_set_of_ne heq, hget], ?_⟩
  unfold Fits
  rw [hgens]
  exact hp

/-- An entry of the path's generation goes into the map, unless the path is being resolved. -/
theorem merge_cases (s : DirtyQueue π) (entry : MarkdownDirtyEntry)
    (hgen : entry.generation = some (s.markdownIngestGenerations q)) :
    (s.resolutions q).isSome ∧ s.mergeDirtyMarkdownPath q entry = s ∨
      s.resolutions q = none ∧ ∃ merged, Fits s q merged ∧ s.mergeDirtyMarkdownPath q entry =
        { s with dirtyMarkdownPaths := s.dirtyMarkdownPaths.set q merged } := by
  cases hact : s.resolutions q with
  | some lease => exact .inl ⟨rfl, by simp [mergeDirtyMarkdownPath, hact]⟩
  | none =>
    refine .inr ⟨rfl, ?_⟩
    simp only [mergeDirtyMarkdownPath, hact, isSome_none, Bool.false_eq_true, if_false,
      hgen, any_some, ne_eq, not_true_eq_false, decide_false]
    refine ⟨_, ?_, rfl⟩
    intro generation hm
    cases hp : (s.dirtyMarkdownPaths.get? q).filter fun previous =>
        previous.generation.all (· = s.markdownIngestGenerations q) with
    | none =>
      rw [hp] at hm
      exact (some.inj hm).symm
    | some previous =>
      rw [hp] at hm
      exact (some.inj hm).symm

theorem requeues_mergeInto (s : DirtyQueue π) (w : DirtyWorld π)
    (hgen : entry.generation = some (s.markdownIngestGenerations q)) :
    Requeues q s (s.mergeDirtyEntryIntoPath w q entry) := by
  unfold mergeDirtyEntryIntoPath
  have hcases := merge_cases s { entry with
    coalescedOpIds := entry.coalescedOpIds.eraseDups } hgen
  rcases hcases with ⟨hact, heq⟩ | ⟨hn, merged, hfits, heq⟩ <;> rw [heq]
  · refine ⟨rfl, rfl, rfl, rfl, rfl, rfl, rfl, fun _ h => h, ?_, rfl⟩
    intro hn
    rw [hn] at hact
    cases hact
  obtain ⟨hs, hq⟩ := queued_set s { s with
    dirtyMarkdownPaths := s.dirtyMarkdownPaths.set q merged
    lastMarkdownDirtyAt := w.now
    markdownDrainTimer := true } hfits rfl rfl
  exact ⟨rfl, rfl, rfl, rfl, rfl, rfl, rfl, hq, fun _ => hs, rfl⟩

theorem requeues_queueDirty (s : DirtyQueue π) (w : DirtyWorld π) (reason : MarkdownDirtyReason)
    (opId : Option ℕ) (coalescedOpIds : List ℕ) (retryCount : ℕ) (episode : Option ℕ)
    (hn : s.resolutions q = none) :
    Requeues q s (s.queueDirtyMarkdownPath w q reason opId coalescedOpIds retryCount episode) := by
  unfold queueDirtyMarkdownPath
  rw [if_neg (by simp [hn])]
  have hcases := merge_cases (q := q) s
    { reason
      primaryOpId := opId
      coalescedOpIds := coalescedOpIds.eraseDups
      retryCount
      notBeforeMs := getRecentEditorDirtyDeferUntil w q reason
      generation := some (s.markdownIngestGenerations q)
      preservedUnresolvedEpisodeIdAtAdmission := episode <|>
        if retryCount = 0 then w.preservedUnresolved q else none } rfl
  rcases hcases with ⟨hact, -⟩ | ⟨-, merged, hfits, heq⟩
  · rw [hn] at hact
    cases hact
  rw [heq]
  obtain ⟨hs, hq⟩ := queued_set s { s with
    dirtyMarkdownPaths := s.dirtyMarkdownPaths.set q merged
    lastMarkdownDirtyAt := w.now
    markdownDrainTimer := true } hfits rfl rfl
  exact ⟨rfl, rfl, rfl, rfl, rfl, rfl, rfl, hq, fun _ => hs, rfl⟩

end Requeues

section Events

/-- A path that is queued anew loses nothing, and neither does a change of its file. -/
theorem Requeues.nothingLost (hreq : Requeues q s s') (hr : Recorded s)
    (hacc : ∀ m p, (m, p) ∈ s.owed → p = q ∨ Queued s p ∨ Waiting s p ∨ Working s m p)
    (hunres : ∀ m p, (m, p) ∈ s.owed → s.resolutions p = none)
    (hren : ∀ drain active, s.drain = some drain → drain.phase.active = some active →
      active.redirectedTo = none → active.diskRevision ≠ s.markdownDiskRevisions active.path →
        ∀ m, (m, active.path) ∈ s.owed → active.path = q ∨ Queued s active.path) :
    NothingLost s' := by
  have hanew : ∀ m p, (m, p) ∈ s.owed → p = q → Queued s' p := by
    rintro m p ho rfl
    exact hreq.anew (hunres m p ho)
  constructor
  · intro m p ho
    rw [hreq.owed] at ho
    rcases hacc m p ho with heq | hq | ⟨drain, hd, entry, hmem, hfits⟩ |
      ⟨drain, active, hd, hact, hp, hs, hgen, hcov⟩
    · exact .inl (hanew m p ho heq)
    · exact .inl (hreq.queued p hq)
    · refine .inr (.inl ⟨drain, hreq.drain.trans hd, entry, hmem, ?_⟩)
      unfold Fits
      rw [hreq.generations]
      exact hfits
    refine .inr (.inr ⟨drain, active, hreq.drain.trans hd, hact, hp, hs, ?_, hcov⟩)
    rw [hreq.generations]
    exact hgen
  · intro m p ho
    rw [hreq.owed] at ho
    rw [hreq.resolutions]
    exact hunres m p ho
  · intro drain active hd hact hs hrev m ho
    rw [hreq.drain] at hd
    rw [hreq.revisions] at hrev
    rw [hreq.owed] at ho
    rcases hren drain active hd hact hs hrev m ho with heq | hq
    · exact hanew m _ ho heq
    · exact hreq.queued _ hq
  · exact fun _ => .inl hreq.timer
  intro m hlt
  rw [hreq.changes] at hlt
  rw [hreq.owed, hreq.outcomes]
  exact hr m hlt

section

variable (h : NothingLost s)
include h

/-- Changes that come to an end are no longer to be accounted for; those that are left are of paths
about which the rest is as before. -/
theorem NothingLost.fewer {P : π → Prop}
    (ho : ∀ m p, (m, p) ∈ s'.owed → (m, p) ∈ s.owed ∧ P p) (hr : Recorded s')
    (hmap : ∀ p, P p → s'.dirtyMarkdownPaths.get? p = s.dirtyMarkdownPaths.get? p)
    (hsz : s'.dirtyMarkdownPaths.size ≤ s.dirtyMarkdownPaths.size) (hd : s'.drain = s.drain)
    (htimer : s'.markdownDrainTimer = s.markdownDrainTimer)
    (hgens : ∀ p, P p → s'.markdownIngestGenerations p = s.markdownIngestGenerations p)
    (hrevisions : s'.markdownDiskRevisions = s.markdownDiskRevisions)
    (hres : ∀ p, P p → s.resolutions p = none → s'.resolutions p = none) :
    NothingLost s' := by
  have hq : ∀ p, P p → Queued s p → Queued s' p := by
    intro p hp
    unfold Queued Fits
    rw [hmap p hp, hgens p hp]
    exact id
  constructor
  · intro m p hmem
    obtain ⟨hold, hp⟩ := ho m p hmem
    refine (h.accounted m p hold).imp (hq p hp) ?_
    unfold Waiting Working Fits
    rw [hd, hgens p hp]
    exact id
  · intro m p hmem
    obtain ⟨hold, hp⟩ := ho m p hmem
    exact hres p hp (h.unresolved m p hold)
  · intro drain active hd' hact hs hrev m hmem
    rw [hd] at hd'
    rw [hrevisions] at hrev
    obtain ⟨hold, hp⟩ := ho m _ hmem
    exact hq _ hp (h.renewed drain active hd' hact hs hrev m hold)
  · intro hpos
    rw [hd, htimer]
    exact h.kept (Nat.lt_of_lt_of_le hpos hsz)
  · exact hr

/-- A change of a path that is being resolved is not taken in. -/
theorem NothingLost.refused {lease : ℕ} (hact : s.resolutions q = some lease) :
    NothingLost (s.change q) ∧ NothingLost ((s.change q).noteMarkdownDiskMutation q) := by
  have hch : s.change q =
      { s with changes := s.changes + 1, outcomes := (s.changes, .cancelled) :: s.outcomes } := by
    simp [change, hact]
  have hr := h.recorded.change q
  rw [hch] at hr ⊢
  refine ⟨⟨h.accounted, h.unresolved, h.renewed, h.kept, hr⟩,
    ⟨h.accounted, h.unresolved, ?_, h.kept, hr⟩⟩
  intro drain active hd hph hs hrev m ho
  by_cases hp : active.path = q
  · rw [hp] at ho
    cases (h.unresolved m q ho).symm.trans hact
  refine h.renewed drain active hd hph hs ?_ m ho
  intro hsa
  apply hrev
  simpa [noteMarkdownDiskMutation, update_of_ne hp] using hsa

/-- A change that is taken in is queued at once. -/
theorem NothingLost.taken (hn : s.resolutions q = none)
    (hreq : Requeues q (s.change q) s' ∨
      Requeues q ((s.change q).noteMarkdownDiskMutation q) s') : NothingLost s' := by
  have hch : s.change q =
      { s with changes := s.changes + 1, owed := (s.changes, q) :: s.owed } := by
    simp [change, hn]
  have hr := h.recorded.change q
  rw [hch] at hr hreq
  have ho : ∀ m p, (m, p) ∈ (s.changes, q) :: s.owed → p = q ∨ (m, p) ∈ s.owed := by
    intro m p hmem
    rcases mem_cons.mp hmem with heq | hold
    · exact .inl (congrArg Prod.snd heq)
    · exact .inr hold
  have hacc : ∀ m p, (m, p) ∈ (s.changes, q) :: s.owed →
      p = q ∨ Queued s p ∨ Waiting s p ∨ Working s m p :=
    fun m p hmem => (ho m p hmem).imp_right (h.accounted m p)
  have hunres : ∀ m p, (m, p) ∈ (s.changes, q) :: s.owed → s.resolutions p = none := by
    intro m p hmem
    rcases ho m p hmem with rfl | hold
    · exact hn
    · exact h.unresolved m p hold
  rcases hreq with hreq | hreq
  · refine hreq.nothingLost hr hacc hunres ?_
    intro drain active hd hact hs hrev m hmem
    rcases ho m _ hmem with heq | hold
    · exact .inl heq
    · exact .inr (h.renewed drain active hd hact hs hrev m hold)
  refine hreq.nothingLost hr hacc hunres ?_
  intro drain active hd hact hs hrev m hmem
  rcases ho m _ hmem with heq | hold
  · exact .inl heq
  by_cases hp : active.path = q
  · exact .inl hp
  refine .inr (h.renewed drain active hd hact hs ?_ m hold)
  intro hsa
  apply hrev
  simpa [noteMarkdownDiskMutation, update_of_ne hp] using hsa

theorem NothingLost.mark (w : DirtyWorld π) (q : π)
    (reason : MarkdownDirtyReason) (opId : Option ℕ) :
    NothingLost (s.markMarkdownDirty w q reason opId) := by
  unfold markMarkdownDirty
  cases hact : s.resolutions q with
  | some lease =>
    have hs : ((s.change q).noteMarkdownDiskMutation q).queueDirtyMarkdownPath w q reason opId
        opId.toList 0 none = (s.change q).noteMarkdownDiskMutation q := by
      simp [queueDirtyMarkdownPath, noteMarkdownDiskMutation, change, hact]
    rw [hs]
    exact (h.refused hact).2
  | none =>
    refine h.taken hact (.inr (requeues_queueDirty _ w reason opId opId.toList 0 none ?_))
    simp [noteMarkdownDiskMutation, change, hact]

theorem NothingLost.intercepted (w : DirtyWorld π) (q : π) :
    NothingLost (s.noteInterceptedExternalDiskMutation w q) := by
  unfold noteInterceptedExternalDiskMutation
  cases hact : s.resolutions q with
  | some lease =>
    have hs : (s.change q).queueDirtyMarkdownPath w q .modify none [] 0 none = s.change q := by
      simp [queueDirtyMarkdownPath, change, hact]
    rw [hs]
    exact (h.refused hact).1
  | none =>
    refine h.taken hact (.inl (requeues_queueDirty _ w .modify none [] 0 none ?_))
    simp [change, hact]

/-- A path leaves the map, and nothing is owed there any more. -/
theorem NothingLost.cleared (outcome : ChangeOutcome π)
    (hmap : s'.dirtyMarkdownPaths = s.dirtyMarkdownPaths.delete q)
    (ho : s'.owed = (s.settleAll q outcome).owed) (hr : Recorded s')
    (hd : s'.drain = s.drain) (htimer : s'.markdownDrainTimer = s.markdownDrainTimer)
    (hgens : ∀ p, p ≠ q → s'.markdownIngestGenerations p = s.markdownIngestGenerations p)
    (hrev : s'.markdownDiskRevisions = s.markdownDiskRevisions)
    (hres : ∀ p, p ≠ q → s'.resolutions p = s.resolutions p) : NothingLost s' := by
  refine h.fewer (P := (· ≠ q)) ?_ hr ?_ ?_ hd htimer hgens hrev ?_
  · intro m p hmem
    rw [ho] at hmem
    exact mem_settleAll.mp hmem
  · intro p hne
    rw [hmap, get?_delete_of_ne hne]
  · rw [hmap]
    exact length_filter_le _ _
  intro p hne hn
  rw [hres p hne, hn]

theorem NothingLost.drop (q : π) : NothingLost (s.dropDirtyPath q) :=
  h.cleared .dropped rfl rfl (h.recorded.settle (s.owedAt q) q .dropped) rfl rfl (fun _ _ => rfl)
    rfl (fun _ _ => rfl)

theorem NothingLost.acquire (q : π) : NothingLost (s.acquireMarkdownRemoteDeleteResolution q) := by
  unfold acquireMarkdownRemoteDeleteResolution
  split
  · exact h
  refine h.cleared .cancelled rfl rfl (h.recorded.settle (s.owedAt q) q .cancelled) rfl rfl ?_
    rfl ?_ <;> exact fun p hne => update_of_ne hne _ _

theorem NothingLost.release (q : π) (lease : ℕ) :
    NothingLost (s.releaseMarkdownRemoteDeleteResolution q lease) := by
  unfold releaseMarkdownRemoteDeleteResolution
  split
  · refine h.fewer (fun _ _ hmem => ⟨hmem, trivial⟩) h.recorded (fun _ _ => rfl) (Nat.le_refl _) rfl rfl
      (fun _ _ => rfl) rfl ?_
    intro p _ hn
    by_cases heq : p = q
    · subst heq
      exact update_self ..
    · exact (update_of_ne heq _ _).trans hn
  · exact h

end

end Events

section Redirect

variable {oldPath newPath : π}

/-- A redirect: the renamed changes, what was queued or worked on under the old name queued under
the new one, and nothing done about the batch. -/
structure Redirects (oldPath newPath : π) (s s' : DirtyQueue π) : Prop where
  owed : s'.owed = (s.rename oldPath newPath).owed
  outcomes : s'.outcomes = (s.rename oldPath newPath).outcomes
  changes : s'.changes = s.changes
  generations : s'.markdownIngestGenerations = s.markdownIngestGenerations
  revisions : s'.markdownDiskRevisions = s.markdownDiskRevisions
  resolutions : s'.resolutions = s.resolutions
  queued : ∀ p, p ≠ oldPath → Queued s p → Queued s' p
  moved : s.resolutions newPath = none → (Queued s oldPath ∨ ∃ drain active,
    s.drain = some drain ∧ drain.phase.active = some active ∧ active.path = oldPath) →
      Queued s' newPath
  drain : s'.drain = s.drain ∧ (∀ drain active, s.drain = some drain →
      drain.phase.active = some active → active.path ≠ oldPath) ∨
    ∃ drain active, s.drain = some drain ∧ drain.phase.active = some active ∧
      active.path = oldPath ∧ s'.drain = some { drain with phase := drain.phase.redirect newPath }
  timer : s'.markdownDrainTimer = true ∨
    s'.dirtyMarkdownPaths = s.dirtyMarkdownPaths ∧ s'.markdownDrainTimer = s.markdownDrainTimer

theorem rename_frame (s : DirtyQueue π) (oldPath newPath : π) :
    (s.rename oldPath newPath).dirtyMarkdownPaths = s.dirtyMarkdownPaths ∧
      (s.rename oldPath newPath).drain = s.drain ∧
      (s.rename oldPath newPath).markdownDrainTimer = s.markdownDrainTimer ∧
      (s.rename oldPath newPath).markdownIngestGenerations = s.markdownIngestGenerations ∧
      (s.rename oldPath newPath).markdownDiskRevisions = s.markdownDiskRevisions ∧
      (s.rename oldPath newPath).resolutions = s.resolutions ∧
      (s.rename oldPath newPath).changes = s.changes := by
  unfold rename
  dsimp only
  split <;> exact ⟨rfl, rfl, rfl, rfl, rfl, rfl, rfl⟩

omit [DecidableEq π] in
theorem redirect_active {phase : DrainPhase π} {active : ActiveMarkdownIngest π} (newPath : π)
    (h : phase.active = some active) :
    (phase.redirect newPath).active = some { active with redirectedTo := some newPath } := by
  cases phase with
  | between => cases h
  | suppressing active' | syncing active' =>
    cases h
    rfl

/-- The entry in the map goes to the new path. -/
def redirectQueued (s : DirtyQueue π) (w : DirtyWorld π) (oldPath newPath : π) : DirtyQueue π :=
  match s.dirtyMarkdownPaths.get? oldPath with
  | none => s
  | some entry =>
    { s with dirtyMarkdownPaths := s.dirtyMarkdownPaths.delete oldPath }.mergeDirtyEntryIntoPath w
      newPath { entry with generation := some (s.markdownIngestGenerations newPath) }

/-- The ingest under way is told, and its entry goes to the new path too. -/
def redirectActive (s : DirtyQueue π) (w : DirtyWorld π) (oldPath newPath : π) : DirtyQueue π :=
  match s.drain with
  | none => s
  | some drain => match drain.phase.active with
    | none => s
    | some active =>
      if active.path = oldPath then
        { s with
          drain := some { drain with phase := drain.phase.redirect newPath }
        }.mergeDirtyEntryIntoPath w newPath
          { active.entry with generation := some (s.markdownIngestGenerations newPath) }
      else s

theorem redirectQueued_spec (s : DirtyQueue π) (w : DirtyWorld π) (oldPath newPath : π) :
    redirectQueued s w oldPath newPath = s ∧ s.dirtyMarkdownPaths.get? oldPath = none ∨
      Requeues newPath { s with dirtyMarkdownPaths := s.dirtyMarkdownPaths.delete oldPath }
        (redirectQueued s w oldPath newPath) := by
  unfold redirectQueued
  cases hget : s.dirtyMarkdownPaths.get? oldPath with
  | none => exact .inl ⟨rfl, rfl⟩
  | some entry =>
    exact .inr (requeues_mergeInto
      { s with dirtyMarkdownPaths := s.dirtyMarkdownPaths.delete oldPath } w rfl)

theorem queued_delete {p : π} (hne : p ≠ oldPath) (h : Queued s p) :
    Queued { s with dirtyMarkdownPaths := s.dirtyMarkdownPaths.delete oldPath } p := by
  obtain ⟨entry, hget, hfits⟩ := h
  exact ⟨entry, (get?_delete_of_ne hne).trans hget, hfits⟩

theorem redirects (s : DirtyQueue π) (w : DirtyWorld π) (oldPath newPath : π) :
    Redirects oldPath newPath s (s.redirectPendingDirtyPath w oldPath newPath) := by
  obtain ⟨hmap, hd, htimer, hgens, hrev, hres, hchan⟩ := rename_frame s oldPath newPath
  have hqueued : ∀ p, Queued s p → Queued (s.rename oldPath newPath) p := by
    intro p
    unfold Queued Fits
    rw [hmap, hgens]
    exact id
  generalize hren : s.rename oldPath newPath = renamed at *
  -- the state between the two halves of the redirect
  obtain ⟨half, hhalf⟩ : ∃ half, redirectQueued renamed w oldPath newPath = half := ⟨_, rfl⟩
  have hspec := redirectQueued_spec renamed w oldPath newPath
  rw [hhalf] at hspec
  have hhal : half.drain = s.drain := by
    rcases hspec with ⟨rfl, -⟩ | hreq
    · exact hd
    · exact hreq.drain.trans hd
  have hfields : half.owed = renamed.owed ∧ half.outcomes = renamed.outcomes ∧
      half.changes = s.changes ∧ half.markdownIngestGenerations = s.markdownIngestGenerations ∧
      half.markdownDiskRevisions = s.markdownDiskRevisions ∧ half.resolutions = s.resolutions := by
    rcases hspec with ⟨rfl, -⟩ | hreq
    · exact ⟨rfl, rfl, hchan, hgens, hrev, hres⟩
    exact ⟨hreq.owed, hreq.outcomes, hreq.changes.trans hchan,
      hreq.generations.trans hgens, hreq.revisions.trans hrev,
      hreq.resolutions.trans hres⟩
  have hhalfQueued : ∀ p, p ≠ oldPath → Queued s p → Queued half p := by
    intro p hne hq
    rcases hspec with ⟨rfl, -⟩ | hreq
    · exact hqueued p hq
    · exact hreq.queued p (queued_delete hne (hqueued p hq))
  have hhalfMoved : s.resolutions newPath = none → Queued s oldPath → Queued half newPath := by
    rintro hn ⟨entry, hget, -⟩
    rcases hspec with ⟨-, hg⟩ | hreq
    · rw [hmap, hget] at hg
      cases hg
    · exact hreq.anew ((congrFun hres newPath).trans hn)
  have hhalfTimer : half.markdownDrainTimer = true ∨
      half.dirtyMarkdownPaths = s.dirtyMarkdownPaths ∧
        half.markdownDrainTimer = s.markdownDrainTimer := by
    rcases hspec with ⟨rfl, -⟩ | hreq
    · exact .inr ⟨hmap, htimer⟩
    · exact .inl hreq.timer
  obtain ⟨ho, hout, hchan', hgens', hrev', hres'⟩ := hfields
  have hstays (hot : ∀ drain active, s.drain = some drain →
      drain.phase.active = some active → active.path ≠ oldPath) :
      Redirects oldPath newPath s half := by
    refine ⟨hren ▸ ho, hren ▸ hout, hchan', hgens', hrev',
      hres', hhalfQueued, ?_, .inl ⟨hhal, hot⟩, hhalfTimer⟩
    rintro hn (hq | ⟨drain, active, hs, hact, hp⟩)
    · exact hhalfMoved hn hq
    · exact absurd hp (hot drain active hs hact)
  have heq : s.redirectPendingDirtyPath w oldPath newPath =
      redirectActive half w oldPath newPath := by
    rw [← hhalf, ← hren]
    rfl
  rw [heq]
  unfold redirectActive
  cases hs : half.drain with
  | none =>
    refine hstays ?_
    intro drain active hd'
    rw [← hhal, hs] at hd'
    cases hd'
  | some drain =>
    dsimp only
    have hsDr : s.drain = some drain := hhal.symm.trans hs
    cases hact : drain.phase.active with
    | none =>
      refine hstays ?_
      intro drain' active hd' hact'
      rw [hsDr] at hd'
      cases hd'
      rw [hact] at hact'
      cases hact'
    | some active =>
      dsimp only
      split
      · next hp =>
        have hreq : Requeues newPath
            { half with drain := some { drain with phase := drain.phase.redirect newPath } }
            (mergeDirtyEntryIntoPath
              { half with drain := some { drain with phase := drain.phase.redirect newPath } } w
              newPath { active.entry with
                generation := some (half.markdownIngestGenerations newPath) }) :=
          requeues_mergeInto _ w rfl
        refine ⟨hren ▸ hreq.owed.trans ho, hren ▸ hreq.outcomes.trans hout,
          hreq.changes.trans hchan', hreq.generations.trans hgens',
          hreq.revisions.trans hrev', hreq.resolutions.trans hres', ?_, ?_,
          .inr ⟨drain, active, hsDr, hact, hp, hreq.drain⟩, .inl hreq.timer⟩
        · exact fun p hne hq => hreq.queued p (hhalfQueued p hne hq)
        · exact fun hn _ => hreq.anew ((congrFun hres' newPath).trans hn)
      · next hp =>
        refine hstays ?_
        intro drain' active' hd' hact'
        rw [hsDr] at hd'
        cases hd'
        rw [hact] at hact'
        cases hact'
        exact hp

/-- A rename loses nothing, unless its old path waits in the batch only. -/
theorem NothingLost.redirect (h : NothingLost s) (w : DirtyWorld π)
    (hqueued : Waiting s oldPath → Queued s oldPath) :
    NothingLost (s.redirectPendingDirtyPath w oldPath newPath) := by
  have hspec := redirects s w oldPath newPath
  generalize s.redirectPendingDirtyPath w oldPath newPath = s' at hspec
  -- what is owed under the new name because of the rename is queued there
  have hm : ∀ m, (m, oldPath) ∈ s.owed → s.resolutions newPath = none → Queued s' newPath := by
    intro m ho hn
    refine hspec.moved hn ?_
    rcases h.accounted m oldPath ho with hold | hwait |
      ⟨drain, active, hd, hact, hp, -⟩
    · exact .inl hold
    · exact .inl (hqueued hwait)
    · exact .inr ⟨drain, active, hd, hact, hp⟩
  constructor
  · intro m p hmem
    rw [hspec.owed] at hmem
    obtain ⟨⟨hold, rfl⟩ | ⟨hold, hne⟩, hn⟩ := mem_rename hmem
    · exact .inl (hm m hold (hn rfl))
    rcases h.accounted m p hold with hq | ⟨drain, hd, entry, he, hfits⟩ |
      ⟨drain, active, hd, hact, hp, hs, hgen, hcov⟩
    · exact .inl (hspec.queued p hne hq)
    · refine .inr (.inl ?_)
      have hfits' : Fits s' p entry := by
        unfold Fits
        rw [hspec.generations]
        exact hfits
      rcases hspec.drain with ⟨hsa, -⟩ | ⟨drain', active', hd', hact', hp', hred⟩
      · exact ⟨drain, hsa.trans hd, entry, he, hfits'⟩
      rw [hd] at hd'
      cases hd'
      exact ⟨_, hred, entry, he, hfits'⟩
    rcases hspec.drain with ⟨hsa, -⟩ | ⟨drain', active', hd', hact', hp', hred⟩
    · refine .inr (.inr ⟨drain, active, hsa.trans hd, hact, hp, hs, ?_,
        hcov⟩)
      rw [hspec.generations]
      exact hgen
    rw [hd] at hd'
    cases hd'
    rw [hact] at hact'
    cases hact'
    exact absurd (hp.symm.trans hp') hne
  · intro m p hmem
    rw [hspec.owed] at hmem
    rw [hspec.resolutions]
    obtain ⟨⟨-, rfl⟩ | ⟨hold, -⟩, hn⟩ := mem_rename hmem
    · exact hn rfl
    · exact h.unresolved m p hold
  · intro drain active hd hact hs hrev m hmem
    rw [hspec.owed] at hmem
    rw [hspec.revisions] at hrev
    rcases hspec.drain with ⟨hsa, hot⟩ | ⟨drain', active', hd', hact', -, hred⟩
    · rw [hsa] at hd
      obtain ⟨⟨hold, heq⟩ | ⟨hold, hne⟩, hn⟩ := mem_rename hmem
      · rw [heq]
        exact hm m hold (hn heq)
      · exact hspec.queued _ hne (h.renewed drain active hd hact hs hrev m hold)
    rw [hred] at hd
    cases hd
    have hg := redirect_active newPath hact'
    rw [hact] at hg
    cases hg
    cases hs
  · intro hsz
    rcases hspec.timer with htimer | ⟨hmap, htimer⟩
    · exact .inl htimer
    rw [hmap] at hsz
    rw [htimer]
    refine (h.kept hsz).imp_right ?_
    intro hso
    rcases hspec.drain with ⟨hsa, -⟩ | ⟨drain', active', -, -, -, hred⟩
    · rw [hsa]
      exact hso
    rw [hred]
    rfl
  have hr := h.recorded.rename oldPath newPath
  intro m hlt
  rw [hspec.changes] at hlt
  rw [hspec.owed, hspec.outcomes]
  exact hr m (by rwa [(rename_frame s oldPath newPath).2.2.2.2.2.2])

end Redirect

section Drain

variable {batch : List (π × MarkdownDirtyEntry)}

theorem queued_congr (hmap : s'.dirtyMarkdownPaths = s.dirtyMarkdownPaths)
    (hgens : s'.markdownIngestGenerations = s.markdownIngestGenerations) {p : π}
    (h : Queued s p) : Queued s' p := by
  unfold Queued Fits at *
  rwa [hmap, hgens]

variable {phase : DrainPhase π}

/-- The drain goes on, with a shorter ledger or another ingest. -/
theorem NothingLost.proceed (h : NothingLost s)
    (ho : ∀ m p, (m, p) ∈ s'.owed → (m, p) ∈ s.owed) (hr : Recorded s')
    (hmap : s'.dirtyMarkdownPaths = s.dirtyMarkdownPaths) (hd : s'.drain = some ⟨batch, phase⟩)
    (hgens : s'.markdownIngestGenerations = s.markdownIngestGenerations)
    (hres : s'.resolutions = s.resolutions)
    (hacc : ∀ m p, (m, p) ∈ s'.owed → Waiting s p ∨ Working s m p →
      Queued s' p ∨ Waiting s' p ∨ Working s' m p)
    (hren : ∀ active, phase.active = some active → active.redirectedTo = none →
      active.diskRevision ≠ s'.markdownDiskRevisions active.path →
        ∀ m, (m, active.path) ∈ s'.owed → Queued s' active.path) : NothingLost s' := by
  constructor
  · intro m p hmem
    rcases h.accounted m p (ho m p hmem) with hq | hbusy
    · exact .inl (queued_congr hmap hgens hq)
    · exact hacc m p hmem hbusy
  · intro m p hmem
    rw [hres]
    exact h.unresolved m p (ho m p hmem)
  · intro drain active hs hact hst hrev m hmem
    rw [hd] at hs
    cases hs
    exact hren active hact hst hrev m hmem
  · intro _
    rw [hd]
    exact .inr rfl
  · exact hr

theorem NothingLost.process (h : NothingLost s) (w : DirtyWorld π) {path : π}
    {entry : MarkdownDirtyEntry} (hd : s.drain = some ⟨(path, entry) :: batch, .between⟩) :
    NothingLost (s.processDirtyMarkdownPath w path entry batch) := by
  have hwor : ∀ m p, ¬ Working s m p := by
    rintro m p ⟨drain, active, hs, hact, -⟩
    rw [hd] at hs
    cases hs
    cases hact
  have hwait : ∀ p, Waiting s p → p = path ∧ Fits s path entry ∨
      ∃ entry', (p, entry') ∈ batch ∧ Fits s p entry' := by
    rintro p ⟨drain, hs, entry', hmem, hfits⟩
    rw [hd] at hs
    cases hs
    rcases mem_cons.mp hmem with heq | hl
    · cases heq
      exact .inl ⟨rfl, hfits⟩
    · exact .inr ⟨entry', hl, hfits⟩
  unfold processDirtyMarkdownPath
  split
  · next hcan =>
    refine h.proceed (fun _ _ hmem => hmem) h.recorded rfl rfl rfl rfl ?_ (fun _ hact => by
      cases hact)
    rintro m p ho (hwaits | hworks)
    · rcases hwait p hwaits with ⟨rfl, hfits⟩ | ⟨entry', hmem, hfits⟩
      · rcases hcan with hres | hst
        · rw [h.unresolved m p ho] at hres
          cases hres
        cases hgen : entry.generation with rw [hgen] at hst
        | none => cases hst
        | some generation =>
          simp only [any_some, decide_eq_true_eq, ne_eq] at hst
          exact absurd (hfits generation hgen) hst
      · exact .inr (.inl ⟨_, rfl, entry', hmem, hfits⟩)
    · exact absurd hworks (hwor m p)
  · next hfr =>
    have hgen : (s.beginActiveMarkdownIngest path entry).generation =
        s.markdownIngestGenerations path := by
      simp only [not_or, Bool.not_eq_true] at hfr
      cases hs : entry.generation with
      | none => simp [beginActiveMarkdownIngest, hs]
      | some generation => simpa [beginActiveMarkdownIngest, hs] using hfr.2
    have hg : s.shouldAbortActiveMarkdownIngest (s.beginActiveMarkdownIngest path entry) =
        false := by
      simp only [not_or, Bool.not_eq_true] at hfr
      simp only [shouldAbortActiveMarkdownIngest, hgen]
      simp [beginActiveMarkdownIngest, hfr.1]
    rw [if_neg (by simp [hg])]
    split
    · have hset : ∀ m p, (m, p) ∈ (s.settle (s.owedAt path) path .gone).owed →
          (m, p) ∈ s.owed ∧ ¬ (m ∈ s.owedAt path ∧ p = path) :=
        fun m p => of_mem_settle s (s.owedAt path) path .gone
      refine h.proceed (fun m p hmem => (hset m p hmem).1) (h.recorded.settle _ _ .gone) rfl rfl
        rfl rfl ?_ (fun _ hact => by cases hact)
      rintro m p ho (hwaits | hworks)
      · obtain ⟨hold, hnot⟩ := hset m p ho
        rcases hwait p hwaits with ⟨rfl, -⟩ | ⟨entry', hmem, hfits⟩
        · exact absurd ⟨mem_owedAt.mpr hold, rfl⟩ hnot
        · exact .inr (.inl ⟨_, rfl, entry', hmem, hfits⟩)
      · exact absurd hworks (hwor m p)
    refine h.proceed (fun _ _ hmem => hmem) h.recorded rfl rfl rfl rfl ?_ ?_
    · rintro m p ho (hwaits | hworks)
      · rcases hwait p hwaits with ⟨rfl, -⟩ | ⟨entry', hmem, hfits⟩
        · exact .inr (.inr ⟨_, _, rfl, rfl, rfl, rfl, hgen, mem_owedAt.mpr ho⟩)
        · exact .inr (.inl ⟨_, rfl, entry', hmem, hfits⟩)
      · exact absurd hworks (hwor m p)
    · intro active hact _ hrev
      cases hact
      exact absurd rfl hrev

/-- A drain without a batch or an ingest has nothing to lose. -/
theorem NothingLost.endDrain (h : NothingLost s)
    (hidle : ∀ m p, (m, p) ∈ s.owed → ¬ Waiting s p ∧ ¬ Working s m p) :
    NothingLost s.endMarkdownDrain := by
  have he : ∀ timer, (0 < s.dirtyMarkdownPaths.size → timer = true) →
      NothingLost { s with drain := none, markdownDrainTimer := timer } := by
    intro timer htimer
    constructor
    · intro m p hmem
      rcases h.accounted m p hmem with hq | hwaits | hworks
      · exact .inl hq
      · exact absurd hwaits (hidle m p hmem).1
      · exact absurd hworks (hidle m p hmem).2
    · exact h.unresolved
    · intro drain active hd
      cases hd
    · exact fun hs => .inl (htimer hs)
    · exact h.recorded
  unfold endMarkdownDrain
  dsimp only
  split
  · exact he true (fun _ => rfl)
  · next hem => exact he s.markdownDrainTimer (fun hs => absurd hs hem)

theorem NothingLost.continue (h : NothingLost s) (w : DirtyWorld π) :
    NothingLost (s.continueDrain w) := by
  unfold continueDrain
  split
  · next path entry batch hd => exact h.process w hd
  · next hd =>
    refine h.endDrain ?_
    intro m p _
    constructor
    · rintro ⟨drain, hs, entry, hmem, -⟩
      rw [hd] at hs
      cases hs
      cases hmem
    rintro ⟨drain, active, hs, hact, -⟩
    rw [hd] at hs
    cases hs
    cases hact
  · exact h

omit [DecidableEq π] in
theorem deferredEntry_generation (w : DirtyWorld π) (p : π) (entry : MarkdownDirtyEntry) :
    (deferredEntry w p entry).generation = entry.generation := by
  unfold deferredEntry
  split <;> rfl

/-- The entries that a drain leaves in the map and those that it takes are all there were. -/
theorem NothingLost.drain (h : NothingLost s) (w : DirtyWorld π) (hidle : s.drain = none) :
    NothingLost ({ s with markdownDrainTimer := false }.drainDirtyMarkdownPaths w) := by
  obtain ⟨deferred, hdef⟩ : ∃ deferred,
      s.dirtyMarkdownPaths.mapValues (deferredEntry w) = deferred := ⟨_, rfl⟩
  obtain ⟨batch, hb⟩ : ∃ batch, (deferred.entries.filter fun entry =>
      entry.2.notBeforeMs.all (· ≤ w.now)) = batch := ⟨_, rfl⟩
  have htaken : NothingLost { s with
      markdownDrainTimer := false
      dirtyMarkdownPaths := (batch.map Prod.fst).foldl OrderedMap.delete deferred
      drain := some ⟨batch, .between⟩ } := by
    constructor
    · intro m p hmem
      rcases h.accounted m p hmem with ⟨entry, hget, hfits⟩ | ⟨drain, hs, -⟩ |
        ⟨drain, active, hs, -⟩
      · have hget' : deferred.get? p = some (deferredEntry w p entry) := by
          rw [← hdef, get?_mapValues, hget]
          rfl
        have hfits' : Fits s p (deferredEntry w p entry) := by
          unfold Fits
          rw [deferredEntry_generation]
          exact hfits
        by_cases htaken : p ∈ batch.map Prod.fst
        · obtain ⟨⟨p', entry'⟩, hmem', rfl⟩ := mem_map.mp htaken
          have he : (p', entry') ∈ deferred.entries := by
            rw [← hb] at hmem'
            exact (mem_filter.mp hmem').1
          have hsa := some.inj ((get?_eq_some.mpr he).symm.trans hget')
          exact .inr (.inl ⟨_, rfl, entry', hmem', hsa ▸ hfits'⟩)
        · refine .inl ⟨_, ?_, hfits'⟩
          rw [get?_foldl_delete, if_neg htaken]
          exact hget'
      · rw [hidle] at hs
        cases hs
      rw [hidle] at hs
      cases hs
    · exact h.unresolved
    · intro drain active hs hact
      cases hs
      cases hact
    · exact fun _ => .inr rfl
    · exact h.recorded
  unfold drainDirtyMarkdownPaths
  dsimp only
  rw [hdef, hb]
  split
  · exact htaken
  · exact htaken.continue w

theorem NothingLost.timerFires (h : NothingLost s) (w : DirtyWorld π) :
    NothingLost (s.timerFires w) := by
  have hkick : NothingLost ({ s with markdownDrainTimer := false }.kickMarkdownDrain w) := by
    unfold kickMarkdownDrain
    split
    · next hs => exact ⟨h.accounted, h.unresolved, h.renewed, fun _ => .inr hs, h.recorded⟩
    · next hn => exact h.drain w (by simpa using hn)
  unfold DirtyQueue.timerFires
  split
  · exact h
  dsimp only
  split
  · exact ⟨h.accounted, h.unresolved, h.renewed, fun _ => .inl rfl, h.recorded⟩
  · exact hkick

variable {active : ActiveMarkdownIngest π}

/-- An ingest that ends with all its changes settled leaves only others owed. -/
theorem NothingLost.settleIngest (h : NothingLost s)
    (hact : ∀ drain active', s.drain = some drain → drain.phase.active = some active' →
      active' = active) (outcome : ChangeOutcome π) :
    NothingLost (s.settleIngest active outcome) ∧
      ∀ m p, (m, p) ∈ (s.settleIngest active outcome).owed →
        ¬ Working (s.settleIngest active outcome) m p := by
  unfold DirtyQueue.settleIngest
  split
  · next hred =>
    refine ⟨h, ?_⟩
    rintro m p - ⟨drain, active', hd, hph, -, hs, -⟩
    rw [hact drain active' hd hph] at hs
    rw [hs] at hred
    cases hred
  have hset : ∀ m p, (m, p) ∈ (s.settle active.covers active.path outcome).owed →
      (m, p) ∈ s.owed ∧ ¬ (m ∈ active.covers ∧ p = active.path) :=
    fun m p => of_mem_settle s active.covers active.path outcome
  refine ⟨h.fewer (fun m p hmem => ⟨(hset m p hmem).1, trivial⟩) (h.recorded.settle _ _ _)
    (fun _ _ => rfl) (Nat.le_refl _) rfl rfl (fun _ _ => rfl) rfl (fun _ _ hn => hn), ?_⟩
  rintro m p hmem ⟨drain, active', hd, hph, hp, -, -, hcov⟩
  have hsa := hact drain active' hd hph
  subst hsa
  exact (hset m p hmem).2 ⟨hcov, hp.symm⟩

/-- The drain goes back to its batch once nothing is owed to its ingest. -/
theorem NothingLost.between (h : NothingLost s) (hd : s.drain = some ⟨batch, phase⟩)
    (hidle : ∀ m p, (m, p) ∈ s.owed → Working s m p → Queued s p) :
    NothingLost { s with drain := some ⟨batch, .between⟩ } := by
  refine h.proceed (fun _ _ hmem => hmem) h.recorded rfl rfl rfl rfl ?_
    (fun _ hact => by cases hact)
  rintro m p ho (⟨drain, hs, entry, hmem, hfits⟩ | hworks)
  · rw [hd] at hs
    cases hs
    exact .inr (.inl ⟨_, rfl, entry, hmem, hfits⟩)
  · exact .inl (hidle m p ho hworks)

omit [DecidableEq π] in
theorem active_eq (active : ActiveMarkdownIngest π)
    (hd : s.drain = some ⟨batch, phase⟩) (hph : phase.active = some active) :
    ∀ drain active', s.drain = some drain → drain.phase.active = some active' →
      active' = active := by
  intro drain active' hs hact
  rw [hd] at hs
  cases hs
  exact (some.inj (hph.symm.trans hact)).symm

theorem settleIngest_drain (s : DirtyQueue π) (active : ActiveMarkdownIngest π)
    (outcome : ChangeOutcome π) : (s.settleIngest active outcome).drain = s.drain := by
  unfold settleIngest
  split <;> rfl

/-- After the answer the write was our own, an event that has come since is queued, or all changes
of the file go to the ingest. -/
theorem NothingLost.suppressed (h : NothingLost s) (w : DirtyWorld π) (suppressed : Bool)
    (hp : suppressed = false → ∀ batch active, s.drain = some ⟨batch, .suppressing active⟩ →
      active.entry.reason = .create → w.isPendingRenameTarget active.path = false) :
    NothingLost (s.suppressionAnswered w suppressed) := by
  unfold suppressionAnswered
  split
  · next batch active hd =>
    have hact := active_eq active hd rfl
    split
    · obtain ⟨hset, hidle⟩ := h.settleIngest hact .suppressed
      refine hset.between ((settleIngest_drain s active .suppressed).trans hd) ?_
      exact fun m p hmem hworks => absurd hworks (hidle m p hmem)
    · next hext =>
      rw [Bool.not_eq_true] at hext
      split
      · next hskip =>
        rw [hp hext batch active hd hskip.1] at hskip
        cases hskip.2
      split
      · next habort =>
        refine h.between hd ?_
        rintro m p hmem ⟨drain, active', hso, hph, hpa, hs, hgen, -⟩
        have hsa := hact drain active' hso hph
        subst hsa
        subst hpa
        simp only [shouldAbortActiveMarkdownIngest, hs, h.unresolved m _ hmem, hgen,
          isSome_none, Bool.false_or, ne_eq, not_true_eq_false, decide_false,
          decide_not, Bool.not_eq_true', decide_eq_false_iff_not] at habort
        exact h.renewed drain active' hso hph hs habort m hmem
      refine h.proceed (fun _ _ hmem => hmem) h.recorded rfl rfl rfl rfl ?_ ?_
      · rintro m p ho (⟨drain, hso, entry, hmem, hfits⟩ |
          ⟨drain, active', hso, hph, hpa, hs, hgen, -⟩)
        · rw [hd] at hso
          cases hso
          exact .inr (.inl ⟨_, rfl, entry, hmem, hfits⟩)
        have hsa := hact drain active' hso hph
        subst hsa
        refine .inr (.inr ⟨_, _, rfl, rfl, hpa, hs, hgen, ?_⟩)
        exact mem_owedAt.mpr (hpa ▸ ho)
      · intro active' hph hs hrev m hmem
        cases hph
        exact h.renewed _ active hd rfl hs hrev m hmem
  · exact h

/-- The path of an unstable read is queued again. -/
theorem NothingLost.requeued (h : NothingLost s) (w : DirtyWorld π) (entry : MarkdownDirtyEntry)
    (hn : s.resolutions q = none) : NothingLost (s.requeueUnstableMarkdownIngest w q entry) := by
  unfold requeueUnstableMarkdownIngest
  dsimp only
  split
  · exact h
  refine (requeues_queueDirty s w _ _ _ _ _ hn).nothingLost h.recorded ?_ h.unresolved ?_
  · exact fun m p hmem => .inr (h.accounted m p hmem)
  exact fun drain active hd hact hs hrev m hmem =>
    .inr (h.renewed drain active hd hact hs hrev m hmem)

theorem requeue_drain (s : DirtyQueue π) (w : DirtyWorld π) (entry : MarkdownDirtyEntry)
    (hn : s.resolutions q = none) :
    (s.requeueUnstableMarkdownIngest w q entry).drain = s.drain := by
  unfold requeueUnstableMarkdownIngest
  dsimp only
  split
  · rfl
  · exact (requeues_queueDirty s w _ _ _ _ _ hn).drain

theorem NothingLost.ingested (h : NothingLost s) (w : DirtyWorld π) (unstable : Bool) :
    NothingLost (s.ingestEnded w unstable) := by
  unfold ingestEnded
  split
  · next batch active hd =>
    have hreq : NothingLost (if unstable && !s.shouldAbortActiveMarkdownIngest active then
        s.requeueUnstableMarkdownIngest w active.path active.entry else s) ∧
        (if unstable && !s.shouldAbortActiveMarkdownIngest active then
          s.requeueUnstableMarkdownIngest w active.path active.entry else s).drain = s.drain := by
      split
      · next huns =>
        have hn : s.resolutions active.path = none := by
          simp only [shouldAbortActiveMarkdownIngest, Bool.and_eq_true, Bool.not_eq_true',
            Bool.or_eq_false_iff] at huns
          simpa using huns.2.1.1.2
        exact ⟨h.requeued w active.entry hn, requeue_drain s w active.entry hn⟩
      · exact ⟨h, rfl⟩
    generalize (if unstable && !s.shouldAbortActiveMarkdownIngest active then
      s.requeueUnstableMarkdownIngest w active.path active.entry else s) = t at hreq ⊢
    obtain ⟨hnot, hs⟩ := hreq
    have hd' := hs.trans hd
    obtain ⟨hset, hidle⟩ := hnot.settleIngest (active_eq active hd' rfl)
      (.handed active.path)
    refine hset.between ((settleIngest_drain t active (.handed active.path)).trans hd') ?_
    exact fun m p hmem hworks => absurd hworks (hidle m p hmem)
  · exact h

/-- A rejection takes the batch with it. -/
theorem NothingLost.rejected (h : NothingLost s)
    (hl : ∀ drain, s.drain = some drain →
      drain.batch = [] ∧ ∃ active, drain.phase = .syncing active) :
    NothingLost s.drainRejected := by
  unfold drainRejected
  split
  · next hd =>
    obtain ⟨-, active, hph⟩ := hl _ hd
    cases hph
  · next batch active hd =>
    obtain ⟨hset, hidle⟩ := h.settleIngest (active_eq active hd rfl) (.handed active.path)
    refine hset.endDrain ?_
    intro m p hmem
    refine ⟨?_, hidle m p hmem⟩
    rintro ⟨drain, hs, entry, he, -⟩
    rw [settleIngest_drain, hd] at hs
    cases hs
    have hem := (hl _ hd).1
    rw [hem] at he
    cases he
  · exact h

end Drain

end Kaos.Runtime.DirtyQueue
