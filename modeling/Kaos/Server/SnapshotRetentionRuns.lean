import Kaos.Lib.Run
import Kaos.Server.SnapshotRetention

/-! However often retention runs, a pruned snapshot leaves a later one within 38 days. -/
namespace Kaos.Server

open Kaos.Lib List

section Calendar

variable {s t : ℕ}

/-- The first millisecond of the year 10000, whose text has a sign and six digits. -/
def YEAR_10000_MS : ℕ := 253402300800000

/-- The parts of a date, with the bounds that make them unique. -/
theorem civilFromDays_parts (days : ℕ) : ∃ era year inYear fromMarch : ℕ,
    year < 400 ∧ inYear ≤ 365 ∧ fromMarch = (5 * inYear + 2) / 153 ∧
    days + 719468 = era * 146097 + (365 * year + year / 4 - year / 100) + inYear ∧
    (civilFromDays days).1 = year + era * 400 +
      (if (if fromMarch < 10 then fromMarch + 3 else fromMarch - 9) ≤ 2 then 1 else 0) ∧
    (civilFromDays days).2.1 = if fromMarch < 10 then fromMarch + 3 else fromMarch - 9 := by
  obtain ⟨day, hday⟩ : ∃ day, day = (days + 719468) % 146097 := ⟨_, rfl⟩
  have hlt : day < 146097 := hday ▸ Nat.mod_lt _ (by omega)
  obtain ⟨hyear, hle, hge⟩ := dayOfEra_eq hlt rfl
  refine ⟨(days + 719468) / 146097, _, _, _, hyear, Nat.sub_le_of_le_add hge, rfl, ?_, ?_, ?_⟩
  · omega
  · simp only [civilFromDays, ← hday]
  · simp only [civilFromDays, ← hday]

/-- Days of one month are at most thirty days apart. -/
theorem days_of_sameMonth {a b : ℕ} (hyear : (civilFromDays a).1 = (civilFromDays b).1)
    (hmo : (civilFromDays a).2.1 = (civilFromDays b).2.1) : b ≤ a + 30 := by
  obtain ⟨era, year, inYear, fromMarch, hlt, hle, hfrom, hdays, hy, hm⟩ := civilFromDays_parts a
  obtain ⟨era', year', inYear', fromMarch', hlt', hle', hfrom', hdays', hy', hm'⟩ :=
    civilFromDays_parts b
  have hs := fromMarch_injective (by omega) (by omega) (hm.symm.trans (hmo.trans hm'))
  rw [hy, hy', hs, Nat.add_right_cancel_iff] at hyear
  have hera : era = era' ∧ year = year' := by omega
  obtain ⟨rfl, rfl⟩ := hera
  omega

theorem civilYear_lt (h : t < YEAR_10000_MS) : (civilFromDays (t / MS_PER_DAY)).1 ≤ 9999 := by
  have hdays : t / MS_PER_DAY < 2932897 := by
    change t < 253402300800000 at h
    change t / 86400000 < 2932897
    omega
  obtain ⟨era, year, inYear, fromMarch, hlt, hle, hfrom, hparts, hy, -⟩ :=
    civilFromDays_parts (t / MS_PER_DAY)
  rw [hy]
  split_ifs <;> omega

/-- `createdAt.slice(0, 7)` is year and month up to the year 9999. -/
theorem monthText_eq (h : t < YEAR_10000_MS) : (toISOString t).take 7 =
    padded 4 (civilFromDays (t / MS_PER_DAY)).1 ++ js "-" ++
      padded 2 (civilFromDays (t / MS_PER_DAY)).2.1 := by
  have hmax : t ≤ MAX_DATE_MS := by
    change t < 253402300800000 at h
    change t ≤ 8640000000000000
    omega
  have hyear := civilYear_lt h
  obtain ⟨-, hm, -⟩ := civilFromDays_bounds (Nat.div_le_div_right hmax)
  have htake : (toISOString t).take 7 = (today t).take 7 := by
    rw [today, take_take]
    rfl
  have hdash : (js "-").length = 1 := rfl
  rw [htake, today_eq hmax hyear, append_assoc _ (js "-") (padded 2 _)]
  refine take_left' ?_
  rw [length_append, length_append, hdash, length_padded hm,
    length_padded (by omega : (civilFromDays (t / MS_PER_DAY)).1 < 10 ^ 4)]

/-- Times of one month are less than 31 days apart. -/
theorem lt_of_sameMonth (hs : s < YEAR_10000_MS) (ht : t < YEAR_10000_MS)
    (h : (toISOString s).take 7 = (toISOString t).take 7) : t < s + 31 * MS_PER_DAY := by
  rw [monthText_eq hs, monthText_eq ht] at h
  have hb : ∀ {r : ℕ}, r < YEAR_10000_MS → (civilFromDays (r / MS_PER_DAY)).2.1 < 10 ^ 2 := by
    intro r hr
    have hmax : r ≤ MAX_DATE_MS := by
      change r < 253402300800000 at hr
      change r ≤ 8640000000000000
      omega
    exact (civilFromDays_bounds (Nat.div_le_div_right hmax)).2.1
  obtain ⟨hyear, hm⟩ := append_padded_inj (hb hs) (hb ht) h
  have hdays := days_of_sameMonth (padded_injective (append_cancel_right hyear)) hm
  change t / 86400000 ≤ s / 86400000 + 30 at hdays
  change t < s + 31 * 86400000
  omega

/-- The first of January of the year of a day is not after it. -/
theorem yearStart_le (t : ℕ) : utcMonthStart (civilFromDays (t / MS_PER_DAY)).1 1 ≤ t := by
  obtain ⟨era, year, inYear, fromMarch, hlt, hle, hfrom, hparts, hy, -⟩ :=
    civilFromDays_parts (t / MS_PER_DAY)
  generalize (civilFromDays (t / MS_PER_DAY)).1 = civilYear at hy ⊢
  change t / 86400000 + 719468 = _ at hparts
  have hera : 4 ≤ era := by omega
  have hquot : ((civilYear : ℤ) * 12 + (1 - 1) - 2) / 12 = civilYear - 1 := by omega
  have hrem : ((civilYear : ℤ) * 12 + (1 - 1) - 2) % 12 = 10 := by omega
  simp only [utcMonthStart, hquot, hrem]
  have hdays : ((civilYear : ℤ) - 1) / 400 * 146097 + (((civilYear : ℤ) - 1) % 400 * 365 +
      ((civilYear : ℤ) - 1) % 400 / 4 - ((civilYear : ℤ) - 1) % 400 / 100 +
      (153 * 10 + 2) / 5) - 719468 ≤ (t / 86400000 : ℕ) := by
    by_cases hjan : (if fromMarch < 10 then fromMarch + 3 else fromMarch - 9) ≤ 2
    · rw [if_pos hjan] at hy
      have hlate : 10 ≤ fromMarch := by
        by_contra hearly
        rw [if_pos (by omega)] at hjan
        omega
      have hdiv : ((civilYear : ℤ) - 1) / 400 = era := by omega
      have hmod : ((civilYear : ℤ) - 1) % 400 = year := by omega
      rw [hdiv, hmod]
      omega
    rw [if_neg hjan] at hy
    by_cases hf : year = 0
    · have hdiv : ((civilYear : ℤ) - 1) / 400 = era - 1 := by omega
      have hmod : ((civilYear : ℤ) - 1) % 400 = 399 := by omega
      rw [hdiv, hmod]
      omega
    have hdiv : ((civilYear : ℤ) - 1) / 400 = era := by omega
    have hmod : ((civilYear : ℤ) - 1) % 400 = year - 1 := by omega
    rw [hdiv, hmod]
    omega
  change _ * (86400000 : ℤ) ≤ t
  omega

theorem ceilDiv_spec {a b : ℤ} (hb : 0 < b) : a ≤ ceilDiv a b * b ∧ ceilDiv a b * b < a + b := by
  have hle := Int.ediv_mul_le (-a) hb.ne'
  have hlt := Int.lt_ediv_add_one_mul_self (-a) hb
  rw [Int.add_mul, one_mul] at hlt
  rw [ceilDiv, Int.neg_mul]
  constructor <;> omega

/-- No week has a number below zero. -/
theorem roughWeek_nonneg (t : ℕ) : 0 ≤ roughWeek t := by
  have hst := yearStart_le t
  simp only [roughWeek]
  generalize utcMonthStart (civilFromDays (t / MS_PER_DAY)).1 1 = jan1 at hst ⊢
  have hday := (ceilDiv_spec (a := t - jan1) (b := MS_PER_DAY) (by decide)).1
  have hweekday : 0 ≤ utcDay jan1 := Int.emod_nonneg _ (by decide)
  change _ ≤ _ * (86400000 : ℤ) at hday
  have hweek := (ceilDiv_spec (a := ceilDiv (t - jan1) MS_PER_DAY + utcDay jan1) (b := 7)
    (by decide)).1
  omega

/-- The year of a week key ends at its first dash. -/
theorem roughWeekKey_inj (h : roughWeekKey s = roughWeekKey t) :
    (civilFromDays (s / MS_PER_DAY)).1 = (civilFromDays (t / MS_PER_DAY)).1 ∧
      roughWeek s = roughWeek t := by
  have hsp : ∀ r, (roughWeekKey r).takeWhile (· ≠ 45) =
        padded 1 (civilFromDays (r / MS_PER_DAY)).1 ∧
      (roughWeekKey r).dropWhile (· ≠ 45) = js "-W" ++ padded 2 (roughWeek r).toNat := by
    intro r
    have hdig : ∀ c ∈ padded 1 (civilFromDays (r / MS_PER_DAY)).1,
        decide (c ≠ (45 : UInt16)) = true := by
      intro c hc
      refine decide_eq_true fun hdash => ?_
      rw [hdash] at hc
      exact absurd (mem_padded hc).1 (by decide)
    have hdash : js "-W" = 45 :: [87] := rfl
    rw [roughWeekKey, append_assoc]
    constructor
    · rw [takeWhile_append_of_pos hdig, hdash, cons_append,
        takeWhile_cons_of_neg (by decide), append_nil]
    · rw [dropWhile_append_of_pos hdig, hdash, cons_append, dropWhile_cons_of_neg (by decide)]
  obtain ⟨hyearS, hweekS⟩ := hsp s
  obtain ⟨hyearT, hweekT⟩ := hsp t
  rw [h] at hyearS hweekS
  have hweek := padded_injective (append_cancel_left (hweekS.symm.trans hweekT))
  refine ⟨padded_injective (hyearS.symm.trans hyearT), ?_⟩
  have hs := roughWeek_nonneg s
  have ht := roughWeek_nonneg t
  omega

/-- Times of one rough week are less than seven days apart. -/
theorem lt_of_sameWeek (h : roughWeekKey s = roughWeekKey t) : t < s + 7 * MS_PER_DAY := by
  obtain ⟨hyear, hweek⟩ := roughWeekKey_inj h
  simp only [roughWeek, hyear] at hweek
  generalize utcMonthStart (civilFromDays (t / MS_PER_DAY)).1 1 = jan1 at hweek
  have hdayS := ceilDiv_spec (a := s - jan1) (b := MS_PER_DAY) (by decide)
  have hdayT := ceilDiv_spec (a := t - jan1) (b := MS_PER_DAY) (by decide)
  have hweekS := ceilDiv_spec (a := ceilDiv (s - jan1) MS_PER_DAY + utcDay jan1) (b := 7)
    (by decide)
  have hweekT := ceilDiv_spec (a := ceilDiv (t - jan1) MS_PER_DAY + utcDay jan1) (b := 7)
    (by decide)
  have hms : ((MS_PER_DAY : ℕ) : ℤ) = 86400000 := rfl
  rw [hms] at hdayS hdayT hweekS hweekT hweek
  change t < s + 7 * 86400000
  omega

end Calendar

section Runs

variable {policy : RetentionPolicy} {state state' : RetentionState} {x y : StoredSnapshot}

/-- What a room has stored, all that it ever stored, and the times of the last events. -/
structure RetentionState where
  stored : List StoredSnapshot := []
  ever : List StoredSnapshot := []
  clock : ℕ := 0
  lastRun : Option ℕ := none

/-- A run sees the stored snapshots, the newest first. -/
inductive RetentionStep (policy : RetentionPolicy) : RetentionState → RetentionState → Prop
  | create {state : RetentionState} (s : StoredSnapshot) (hclock : state.clock ≤ s.created) :
      RetentionStep policy state
        { state with stored := s :: state.stored, ever := s :: state.ever, clock := s.created }
  | run {state : RetentionState} (now : ℕ) (pruneLegacy : Bool) (snapshots : List StoredSnapshot)
      (hclock : state.clock ≤ now) (hperm : snapshots.Perm state.stored)
      (hnewest : snapshots.Pairwise fun newer older => older.created ≤ newer.created) :
      RetentionStep policy state
        { state with
          stored := (selectRetention policy now pruneLegacy snapshots).keep
          clock := now
          lastRun := some now }

/-- The states of all runs from an empty room. -/
inductive RetentionReachable (policy : RetentionPolicy) : RetentionState → Prop
  | start : RetentionReachable policy {}
  | step {state state' : RetentionState} (hreach : RetentionReachable policy state)
      (hstep : RetentionStep policy state state') : RetentionReachable policy state'

/-- A stored snapshot stands for an older one: as the newest of its week, or, past the weekly
window, as the newest of the month of such a one. -/
def HandedTo (policy : RetentionPolicy) (state : RetentionState) (x y : StoredSnapshot) : Prop :=
  x.created ≤ y.created ∧
    (weekOf y = weekOf x ∨ ∃ w ∈ state.ever, weekOf w = weekOf x ∧ monthOf y = monthOf w ∧
      ∃ now, state.lastRun = some now ∧ y.created < weeklyCutoff policy now)

/-- The last run did not find the snapshot too old. -/
def NotExpired (policy : RetentionPolicy) (state : RetentionState) (x : StoredSnapshot) : Prop :=
  ∀ now, state.lastRun = some now → snapshotMonthlyCutoff policy now ≤ x.created

structure RetentionSound (policy : RetentionPolicy) (state : RetentionState) : Prop where
  stored_ever : ∀ s ∈ state.stored, s ∈ state.ever
  lastRun_le : ∀ now, state.lastRun = some now → now ≤ state.clock
  covered : ∀ x ∈ state.ever, NotExpired policy state x →
    ∃ y ∈ state.stored, HandedTo policy state x y

theorem weeklyCutoff_mono {s t : ℕ} (h : s ≤ t) : weeklyCutoff policy s ≤ weeklyCutoff policy t := by
  rw [weeklyCutoff, weeklyCutoff]
  omega

theorem snapshotMonthlyCutoff_mono {s t : ℕ} (h : s ≤ t) :
    snapshotMonthlyCutoff policy s ≤ snapshotMonthlyCutoff policy t := by
  rw [snapshotMonthlyCutoff, snapshotMonthlyCutoff]
  omega

/-- What a run keeps of a snapshot that is not expired: itself, or a newer one of its week or, if
it is past the weekly window, of its month. -/
theorem kept_for {now : ℕ} (pruneLegacy : Bool) {snapshots : List StoredSnapshot}
    (hnew : snapshots.Pairwise fun newer older => older.created ≤ newer.created)
    (hy : y ∈ snapshots) (hage : snapshotMonthlyCutoff policy now ≤ y.created) :
    ∃ z ∈ (selectRetention policy now pruneLegacy snapshots).keep, y.created ≤ z.created ∧
      (z = y ∧ weeklyCutoff policy now ≤ y.created ∨
        weekOf z = weekOf y ∧ weeklyCutoff policy now ≤ y.created ∨
        monthOf z = monthOf y ∧ z.created < weeklyCutoff policy now) := by
  by_cases hm : (y.created : ℤ) < weeklyCutoff policy now
  · have hwin : inMonthlyWindow policy now y = true := by
      simp [inMonthlyWindow, hm, hage]
    obtain ⟨z, hz, hzwin, hper, hle, hid⟩ := keepFirstPer_covers hnew hy hwin not_mem_nil
    have hzlt : (z.created : ℤ) < weeklyCutoff policy now := by
      simp only [inMonthlyWindow, decide_eq_true_eq] at hzwin
      exact hzwin.1
    exact ⟨z, mem_keep_iff.mpr ⟨hz, mem_retentionKeepSet.mpr (.inr (.inr (.inr hid)))⟩, hle,
      .inr (.inr ⟨hper, hzlt⟩)⟩
  have hweekly : weeklyCutoff policy now ≤ y.created := not_lt.mp hm
  by_cases hweek : (y.created : ℤ) < daysCutoff policy now
  · have hwin : inWeeklyWindow policy now y = true := by
      simp [inWeeklyWindow, hweek, hweekly]
    obtain ⟨z, hz, -, hper, hle, hid⟩ := keepFirstPer_covers hnew hy hwin not_mem_nil
    exact ⟨z, mem_keep_iff.mpr ⟨hz, mem_retentionKeepSet.mpr (.inr (.inr (.inl hid)))⟩, hle,
      .inr (.inl ⟨hper, hweekly⟩)⟩
  have ha : keptAlone policy now pruneLegacy y = true := by
    simp [keptAlone, not_lt.mp hweek]
  exact ⟨y, mem_keep_iff.mpr ⟨hy, mem_retentionKeepSet.mpr
    (.inr (.inl ⟨y, hy, ha, rfl⟩))⟩, le_rfl, .inl ⟨rfl, hweekly⟩⟩

/-- A run hands each snapshot over to one that stands for it. -/
theorem handedTo_run {now : ℕ} {pruneLegacy : Bool} {snapshots : List StoredSnapshot}
    (hs : RetentionSound policy state) (hclock : state.clock ≤ now)
    (hperm : snapshots.Perm state.stored)
    (hnew : snapshots.Pairwise fun newer older => older.created ≤ newer.created)
    (hx : x ∈ state.ever) (hage : snapshotMonthlyCutoff policy now ≤ x.created) :
    ∃ z ∈ (selectRetention policy now pruneLegacy snapshots).keep,
      HandedTo policy { state with
        stored := (selectRetention policy now pruneLegacy snapshots).keep
        clock := now
        lastRun := some now } x z := by
  have hold : NotExpired policy state x := by
    intro last hl
    exact (snapshotMonthlyCutoff_mono ((hs.lastRun_le last hl).trans hclock)).trans hage
  obtain ⟨y, hy, hxy, hstands⟩ := hs.covered x hx hold
  have hyage : snapshotMonthlyCutoff policy now ≤ y.created := by omega
  obtain ⟨z, hz, hyz, hcase⟩ := kept_for pruneLegacy hnew (hperm.mem_iff.mpr hy) hyage
  refine ⟨z, hz, hxy.trans hyz, ?_⟩
  rcases hstands with hweek | ⟨w, hw, hweek, hm, last, hl, hlt⟩
  · rcases hcase with ⟨rfl, -⟩ | ⟨hper, -⟩ | ⟨hper, hzlt⟩
    · exact .inl hweek
    · exact .inl (hper.trans hweek)
    · exact .inr ⟨y, hs.stored_ever y hy, hweek, hper, now, rfl, hzlt⟩
  have hpast : (y.created : ℤ) < weeklyCutoff policy now :=
    hlt.trans_le (weeklyCutoff_mono ((hs.lastRun_le last hl).trans hclock))
  rcases hcase with ⟨-, hweekly⟩ | ⟨-, hweekly⟩ | ⟨hper, hzlt⟩
  · omega
  · omega
  · exact .inr ⟨w, hw, hweek, hper.trans hm, now, rfl, hzlt⟩

theorem RetentionSound.step (hsd : RetentionSound policy state)
    (hst : RetentionStep policy state state') : RetentionSound policy state' := by
  cases hst with
  | create s hclock =>
    constructor
    · intro r hr
      rcases mem_cons.mp hr with rfl | hr
      · exact mem_cons_self
      · exact mem_cons_of_mem _ (hsd.stored_ever r hr)
    · intro now hnow
      exact (hsd.lastRun_le now hnow).trans hclock
    intro x hx hage
    rcases mem_cons.mp hx with rfl | hx
    · exact ⟨x, mem_cons_self, le_rfl, .inl rfl⟩
    obtain ⟨y, hy, hxy, hstands⟩ := hsd.covered x hx hage
    refine ⟨y, mem_cons_of_mem _ hy, hxy, ?_⟩
    rcases hstands with hweek | ⟨w, hw, hrs⟩
    · exact .inl hweek
    · exact .inr ⟨w, mem_cons_of_mem _ hw, hrs⟩
  | run now pruneLegacy snapshots hclock hperm hnew =>
    refine ⟨?_, ?_, ?_⟩
    · intro s hs
      exact hsd.stored_ever s (hperm.mem_iff.mp (mem_keep_iff.mp hs).1)
    · intro last hl
      exact (Option.some.inj hl).ge
    intro x hx hage
    exact handedTo_run hsd hclock hperm hnew hx (hage now rfl)

theorem RetentionSound.reachable (h : RetentionReachable policy state) :
    RetentionSound policy state := by
  induction h with
  | start =>
    refine ⟨?_, ?_, ?_⟩
    · intro s hs
      cases hs
    · intro now hnow
      cases hnow
    intro x hx
    cases hx
  | step _ hst ih => exact ih.step hst

/-- Who stands for a snapshot was made less than a week and a month after it. -/
theorem HandedTo.lt (hs : RetentionSound policy state)
    (hyears : ∀ s ∈ state.ever, s.created < YEAR_10000_MS) (hy : y ∈ state.stored)
    (h : HandedTo policy state x y) : y.created < x.created + 38 * MS_PER_DAY := by
  obtain ⟨-, hweek | ⟨w, hw, hweek, hm, -⟩⟩ := h
  · have hlt := lt_of_sameWeek hweek.symm
    omega
  have hwlt := lt_of_sameWeek hweek.symm
  rw [monthOf, monthOf, y.createdAt_eq, w.createdAt_eq] at hm
  have hylt := lt_of_sameMonth (hyears w hw) (hyears y (hs.stored_ever y hy)) hm.symm
  omega

/-- What one run does: its input falls into two parts, the newest and all that is pinned, not
daily or without a reason is kept, and a second run at once prunes nothing. -/
structure KeepsProtected (policy : RetentionPolicy) (now : ℕ) (pruneLegacy : Bool)
    (snapshots : List StoredSnapshot) : Prop where
  partition : ((selectRetention policy now pruneLegacy snapshots).keep ++
    (selectRetention policy now pruneLegacy snapshots).prune).Perm snapshots
  disjoint : ∀ s ∈ (selectRetention policy now pruneLegacy snapshots).keep,
    s ∉ (selectRetention policy now pruneLegacy snapshots).prune
  newest : ∀ s, snapshots.head? = some s →
    s ∈ (selectRetention policy now pruneLegacy snapshots).keep
  protected_kept : ∀ s ∈ snapshots, s.pinned = some true ∨ (∃ r, s.reason = some r ∧ r ≠ .daily) ∨
      (s.reason = none ∧ pruneLegacy = false) →
    s ∈ (selectRetention policy now pruneLegacy snapshots).keep
  again : (selectRetention policy now pruneLegacy
    (selectRetention policy now pruneLegacy snapshots).keep).prune = []

theorem keepsProtected (policy : RetentionPolicy) (now : ℕ) (pruneLegacy : Bool)
    (snapshots : List StoredSnapshot) : KeepsProtected policy now pruneLegacy snapshots where
  partition := by
    simp only [selectRetention, decide_not]
    exact filter_append_perm _ snapshots
  disjoint := by
    intro s hs hpruned
    simp only [selectRetention, mem_filter, decide_eq_true_eq] at hs hpruned
    exact hpruned.2 hs.2
  newest := by
    intro s hs
    refine mem_keep_iff.mpr ⟨mem_of_head? hs, mem_retentionKeepSet.mpr (.inl ?_)⟩
    rw [hs, Option.map_some]
  protected_kept := by
    intro s hs hh
    refine mem_keep_iff.mpr ⟨hs, mem_retentionKeepSet.mpr (.inr (.inl ⟨s, hs, ?_, rfl⟩))⟩
    rcases hh with hpin | ⟨r, hreason, hne⟩ | ⟨hreason, hleg⟩
    · simp [keptAlone, hpin]
    · simp [keptAlone, hreason, hne]
    · simp [keptAlone, hreason, hleg]
  again := prune_keep

/-- Retention keeps what is protected at each run, and over all runs leaves no gap of a week and
a month between a snapshot that is not expired and one that is stored, up to the year 9999. -/
theorem retention_leaves_no_gap (policy : RetentionPolicy) :
    (∀ now pruneLegacy snapshots, KeepsProtected policy now pruneLegacy snapshots) ∧
    (∀ state, RetentionReachable policy state → (∀ s ∈ state.ever, s.created < YEAR_10000_MS) →
      ∀ s ∈ state.ever, NotExpired policy state s →
        ∃ t ∈ state.stored, s.created ≤ t.created ∧ t.created < s.created + 38 * MS_PER_DAY) := by
  refine ⟨keepsProtected policy, ?_⟩
  intro state hreach hyears s hs hage
  have hsd := RetentionSound.reachable hreach
  obtain ⟨t, ht, hstands⟩ := hsd.covered s hs hage
  exact ⟨t, ht, hstands.1, hstands.lt hsd hyears ht⟩

/-- A daily snapshot of a time. -/
def dailySnapshot (created : ℕ) (h : created ≤ MAX_DATE_MS) : StoredSnapshot where
  snapshotId := generateSnapshotId created fun _ => 0
  vaultId := js "vault"
  createdAt := toISOString created
  day := today created
  schemaVersion := none
  markdownFileCount := 0
  blobFileCount := 0
  crdtSizeBytes := 0
  crdtRawSizeBytes := 0
  referencedBlobHashes := []
  triggeredBy := none
  fullUpdateHash := none
  structureHash := none
  pinned := some false
  reason := some .daily
  created
  createdAt_eq := rfl
  inRange := h

/-- The first of February, the first of October and the last of December of the year 10000. -/
def februarySnapshot : StoredSnapshot := dailySnapshot 253404979200000 (by decide)

def octoberSnapshot : StoredSnapshot := dailySnapshot 253425974400000 (by decide)

def decemberSnapshot : StoredSnapshot := dailySnapshot 253433836800000 (by decide)

def yearPolicy : RetentionPolicy where
  keepDays := 1
  keepWeekly := 1
  keepMonthly := 12

/-- In the year 10000 the text of the month is that of the year, so that February is lost. -/
theorem year_10000_leaves_gap :
    ¬ ∀ (policy : RetentionPolicy) (state : RetentionState), RetentionReachable policy state →
      ∀ s ∈ state.ever, NotExpired policy state s →
        ∃ t ∈ state.stored, s.created ≤ t.created ∧ t.created < s.created + 38 * MS_PER_DAY := by
  intro h
  have hreach : RetentionReachable yearPolicy
      { stored := (selectRetention yearPolicy 253433836800000 false
          [decemberSnapshot, octoberSnapshot, februarySnapshot]).keep
        ever := [decemberSnapshot, octoberSnapshot, februarySnapshot]
        clock := 253433836800000
        lastRun := some 253433836800000 } := by
    refine .step (.step (.step (.step .start (.create februarySnapshot (Nat.zero_le _)))
      (.create octoberSnapshot ?_)) (.create decemberSnapshot ?_))
      (.run 253433836800000 false _ le_rfl (List.Perm.refl _) ?_)
    · exact Nat.le_of_ble_eq_true rfl
    · exact Nat.le_of_ble_eq_true rfl
    refine .cons ?_ (.cons ?_ (List.pairwise_singleton _ _)) <;>
      simp [februarySnapshot, octoberSnapshot, decemberSnapshot, dailySnapshot]
  have hgap : (selectRetention yearPolicy 253433836800000 false
      [decemberSnapshot, octoberSnapshot, februarySnapshot]).keep.all (fun t =>
        ¬ (februarySnapshot.created ≤ t.created ∧
          t.created < februarySnapshot.created + 38 * MS_PER_DAY)) = true := by
    decide
  have hage : NotExpired yearPolicy
      { stored := (selectRetention yearPolicy 253433836800000 false
          [decemberSnapshot, octoberSnapshot, februarySnapshot]).keep
        ever := [decemberSnapshot, octoberSnapshot, februarySnapshot]
        clock := 253433836800000
        lastRun := some 253433836800000 } februarySnapshot := by
    intro now hnow
    obtain rfl : 253433836800000 = now := Option.some.inj hnow
    decide
  obtain ⟨t, ht, hnear⟩ := h yearPolicy _ hreach februarySnapshot (by simp) hage
  exact of_decide_eq_true (List.all_eq_true.mp hgap t ht) hnear

end Runs

end Kaos.Server
