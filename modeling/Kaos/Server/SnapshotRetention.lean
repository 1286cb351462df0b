import Kaos.Server.SnapshotSafety

/-! Which snapshots the rolling retention keeps. -/
namespace Kaos.Server

open Kaos.Lib List

structure RetentionPolicy where
  keepDays : ℕ
  keepWeekly : ℕ
  keepMonthly : ℕ

/-- A stored index whose creation time is the text of a time. -/
structure StoredSnapshot extends SnapshotIndex where
  created : ℕ
  createdAt_eq : createdAt = toISOString created
  inRange : created ≤ MAX_DATE_MS

/-- `getUTCDay` -/
def utcDay (ms : ℤ) : ℤ := (ms / MS_PER_DAY + 4) % 7

/-- `Math.ceil` of a quotient. -/
def ceilDiv (a b : ℤ) : ℤ := -((-a) / b)

/-- The number of the week in its year, counted from the first of January. -/
def roughWeek (ms : ℕ) : ℤ :=
  let jan1 := utcMonthStart (civilFromDays (ms / MS_PER_DAY)).1 1
  let dayOfYear := ceilDiv (ms - jan1) MS_PER_DAY
  ceilDiv (dayOfYear + utcDay jan1) 7

def roughWeekKey (ms : ℕ) : JsString :=
  padded 1 (civilFromDays (ms / MS_PER_DAY)).1 ++ js "-W" ++ padded 2 (roughWeek ms).toNat

section Cutoffs

variable (policy : RetentionPolicy) (now : ℕ)

def daysCutoff : ℤ := now - policy.keepDays * MS_PER_DAY

def weeklyCutoff : ℤ := now - (policy.keepDays + policy.keepWeekly * 7) * MS_PER_DAY

def snapshotMonthlyCutoff : ℤ :=
  now - (policy.keepDays + policy.keepWeekly * 7 + policy.keepMonthly * 30) * MS_PER_DAY

def inWeeklyWindow (s : StoredSnapshot) : Bool :=
  s.created < daysCutoff policy now ∧ weeklyCutoff policy now ≤ s.created

def inMonthlyWindow (s : StoredSnapshot) : Bool :=
  s.created < weeklyCutoff policy now ∧ snapshotMonthlyCutoff policy now ≤ s.created

end Cutoffs

def weekOf (s : StoredSnapshot) : JsString := roughWeekKey s.created

def monthOf (s : StoredSnapshot) : JsString := s.createdAt.take 7

/-- The loop that keeps the first snapshot of each period of a window. -/
def keepFirstPer (inWindow : StoredSnapshot → Bool) (period : StoredSnapshot → JsString) :
    List JsString → List StoredSnapshot → List JsString
  | _, [] => []
  | seen, s :: rest =>
    if inWindow s ∧ period s ∉ seen then
      s.snapshotId :: keepFirstPer inWindow period (period s :: seen) rest
    else keepFirstPer inWindow period seen rest

/-- What is kept whatever the other snapshots are. -/
def keptAlone (policy : RetentionPolicy) (now : ℕ) (pruneLegacy : Bool) (s : StoredSnapshot) :
    Bool :=
  s.pinned = some true ∨ (¬ pruneLegacy ∧ s.reason = none) ∨ s.reason.any (· ≠ .daily) ∨
    daysCutoff policy now ≤ s.created

/-- The ids in `keepSet` when all loops are done. -/
def retentionKeepSet (policy : RetentionPolicy) (now : ℕ) (pruneLegacy : Bool)
    (snapshots : List StoredSnapshot) : List JsString :=
  (snapshots.head?.map (·.snapshotId)).toList ++
    (snapshots.filter (keptAlone policy now pruneLegacy)).map (·.snapshotId) ++
    keepFirstPer (inWeeklyWindow policy now) weekOf [] snapshots ++
    keepFirstPer (inMonthlyWindow policy now) monthOf [] snapshots

structure Retention where
  keep : List StoredSnapshot
  prune : List StoredSnapshot

def selectRetention (policy : RetentionPolicy) (now : ℕ) (pruneLegacy : Bool)
    (snapshots : List StoredSnapshot) : Retention :=
  let keepSet := retentionKeepSet policy now pruneLegacy snapshots
  ⟨snapshots.filter (·.snapshotId ∈ keepSet), snapshots.filter (·.snapshotId ∉ keepSet)⟩

section Select

variable {policy : RetentionPolicy} {now : ℕ} {pruneLegacy : Bool}
  {snapshots : List StoredSnapshot} {s : StoredSnapshot}
  {inWindow : StoredSnapshot → Bool} {period : StoredSnapshot → JsString} {seen : List JsString}

theorem mem_keep_iff : s ∈ (selectRetention policy now pruneLegacy snapshots).keep ↔
    s ∈ snapshots ∧ s.snapshotId ∈ retentionKeepSet policy now pruneLegacy snapshots := by
  simp [selectRetention]

theorem mem_retentionKeepSet {id : JsString} :
    id ∈ retentionKeepSet policy now pruneLegacy snapshots ↔
      snapshots.head?.map (·.snapshotId) = some id ∨
      (∃ s ∈ snapshots, keptAlone policy now pruneLegacy s = true ∧ s.snapshotId = id) ∨
      id ∈ keepFirstPer (inWeeklyWindow policy now) weekOf [] snapshots ∨
      id ∈ keepFirstPer (inMonthlyWindow policy now) monthOf [] snapshots := by
  simp only [retentionKeepSet, mem_append, Option.mem_toList, mem_map,
    mem_filter, and_assoc, or_assoc]

/-- The loop finds the same when only snapshots that it passes over are left out. -/
theorem keepFirstPer_filter {p : StoredSnapshot → Bool}
    (hp : ∀ s ∈ snapshots, s.snapshotId ∈ keepFirstPer inWindow period seen snapshots →
      p s = true) :
    keepFirstPer inWindow period seen (snapshots.filter p) =
      keepFirstPer inWindow period seen snapshots := by
  induction snapshots generalizing seen with
  | nil => rfl
  | cons s rest ih =>
    by_cases hf : inWindow s ∧ period s ∉ seen
    · have hk : keepFirstPer inWindow period seen (s :: rest) =
          s.snapshotId :: keepFirstPer inWindow period (period s :: seen) rest := if_pos hf
      have hps : p s = true := hp s mem_cons_self (hk ▸ mem_cons_self)
      rw [filter_cons_of_pos hps, hk, keepFirstPer, if_pos hf, ih]
      intro r hr hid
      exact hp r (mem_cons_of_mem _ hr) (hk ▸ mem_cons_of_mem _ hid)
    have hpas : keepFirstPer inWindow period seen (s :: rest) =
        keepFirstPer inWindow period seen rest := if_neg hf
    have hrs := ih fun r hr hid => hp r (mem_cons_of_mem _ hr) (hpas ▸ hid)
    by_cases hps : p s = true
    · rw [filter_cons_of_pos hps, keepFirstPer, if_neg hf, hrs, hpas]
    · rw [filter_cons_of_neg hps, hrs, hpas]

/-- Whatever is kept would be kept again. -/
theorem retentionKeepSet_keep {id : JsString}
    (hid : id ∈ retentionKeepSet policy now pruneLegacy snapshots) :
    id ∈ retentionKeepSet policy now pruneLegacy
      (selectRetention policy now pruneLegacy snapshots).keep := by
  have hkeep : (selectRetention policy now pruneLegacy snapshots).keep = snapshots.filter
      (fun s => s.snapshotId ∈ retentionKeepSet policy now pruneLegacy snapshots) := rfl
  rw [mem_retentionKeepSet] at hid ⊢
  rcases hid with hhead | ⟨s, hs, ha, rfl⟩ | hweek | hm
  · left
    cases snapshots with
    | nil => cases hhead
    | cons first rest =>
      have hf : first.snapshotId ∈ retentionKeepSet policy now pruneLegacy (first :: rest) :=
        mem_retentionKeepSet.mpr (.inl rfl)
      rw [hkeep, filter_cons_of_pos (by simpa using hf)]
      exact hhead
  · exact .inr (.inl ⟨s, mem_keep_iff.mpr ⟨hs, mem_retentionKeepSet.mpr
      (.inr (.inl ⟨s, hs, ha, rfl⟩))⟩, ha, rfl⟩)
  · right; right; left
    rw [hkeep, keepFirstPer_filter]
    · exact hweek
    intro s hs hmem
    exact decide_eq_true (mem_retentionKeepSet.mpr (.inr (.inr (.inl hmem))))
  right; right; right
  rw [hkeep, keepFirstPer_filter]
  · exact hm
  intro s hs hmem
  exact decide_eq_true (mem_retentionKeepSet.mpr (.inr (.inr (.inr hmem))))

/-- A second run at the same time prunes nothing. -/
theorem prune_keep : (selectRetention policy now pruneLegacy
    (selectRetention policy now pruneLegacy snapshots).keep).prune = [] := by
  refine filter_eq_nil_iff.mpr ?_
  intro s hs hpruned
  have hid := (mem_keep_iff.mp hs).2
  exact (of_decide_eq_true hpruned) (retentionKeepSet_keep hid)

/-- For each snapshot of a window one of its period is kept that is not older. -/
theorem keepFirstPer_covers
    (hnewest : snapshots.Pairwise fun newer older => older.created ≤ newer.created)
    (hs : s ∈ snapshots) (hwin : inWindow s = true) (hse : period s ∉ seen) :
    ∃ r ∈ snapshots, inWindow r = true ∧ period r = period s ∧ s.created ≤ r.created ∧
      r.snapshotId ∈ keepFirstPer inWindow period seen snapshots := by
  induction snapshots generalizing seen with
  | nil => cases hs
  | cons first rest ih =>
    obtain ⟨hf, hrs⟩ := pairwise_cons.mp hnewest
    by_cases htaken : inWindow first = true ∧ period first ∉ seen
    · have hk : keepFirstPer inWindow period seen (first :: rest) =
          first.snapshotId :: keepFirstPer inWindow period (period first :: seen) rest :=
        if_pos htaken
      by_cases hper : period first = period s
      · refine ⟨first, mem_cons_self, htaken.1, hper, ?_, hk ▸ mem_cons_self⟩
        rcases mem_cons.mp hs with rfl | hs
        · exact le_rfl
        · exact hf s hs
      rcases mem_cons.mp hs with rfl | hs
      · exact (hper rfl).elim
      have hnew : period s ∉ period first :: seen := by
        intro hmem
        rcases mem_cons.mp hmem with heq | hmem
        · exact hper heq.symm
        · exact hse hmem
      obtain ⟨r, hr, hrwin, hrper, hle, hid⟩ := ih hrs hs hnew
      exact ⟨r, mem_cons_of_mem _ hr, hrwin, hrper, hle, hk ▸ mem_cons_of_mem _ hid⟩
    have hpas : keepFirstPer inWindow period seen (first :: rest) =
        keepFirstPer inWindow period seen rest := if_neg htaken
    rcases mem_cons.mp hs with rfl | hs
    · exact (htaken ⟨hwin, hse⟩).elim
    obtain ⟨r, hr, hrwin, hrper, hle, hid⟩ := ih hrs hs hse
    exact ⟨r, mem_cons_of_mem _ hr, hrwin, hrper, hle, hpas ▸ hid⟩

end Select

end Kaos.Server
