import Kaos.Sync.FlushWriteSafety

/-! Runs of the disk mirror's writes. -/
namespace Kaos.Sync

open Kaos.Lib Option

section Step

variable {blocks : Option JsString → JsString → Bool} {contentHash : JsString → JsString}
  {p : MirrorPath} {flush flush' : Flush} {creating : Prop} {point : FlushPoint}
  {after : MirrorPath × FlushProgress} {run : FlushRun} {grant : ℕ}

variable (blocks) in
/-- Where the code has come to at last, after its retries. -/
theorem proceed_follows (run : FlushRun) (h : WriteFollows contentHash p flush creating after) :
    ∃ path progress, WriteFollows contentHash p flush creating (path, progress) ∧
      ((∃ flush' point, progress = .await flush' point ∧
          run.proceed blocks after = { run with path, call := some (flush', point) }) ∨
        ∃ result, progress = .ended result ∧ run.proceed blocks after =
          { run with path, call := none, results := run.results ++ [result] }) := by
  obtain ⟨path, progress⟩ := after
  cases progress with
  | await flush' point => exact ⟨path, _, h, .inl ⟨flush', point, rfl, rfl⟩⟩
  | ended result => exact ⟨path, _, h, .inr ⟨result, rfl, rfl⟩⟩
  | retry flush' =>
    have hn : WriteFollows contentHash path flush' False
        (attempts blocks flush'.attemptsLeft path flush') := follows_attempts _
    have hf : WriteFollows contentHash p flush creating
        (attempts blocks flush'.attemptsLeft path flush') :=
      hn.since ⟨h.target, h.content, h.baseline, h.authorization, h.retry flush' rfl, False.elim⟩
    have hretry : ∀ flush'', (attempts blocks flush'.attemptsLeft path flush').2 ≠
        .retry flush'' := fun _ => attempts_ne_retry _
    simp only [FlushRun.proceed]
    generalize attempts blocks flush'.attemptsLeft path flush' = last at hf hretry
    obtain ⟨path', progress⟩ := last
    cases progress with
    | await flush'' point => exact ⟨path', _, hf, .inl ⟨flush'', point, rfl, rfl⟩⟩
    | ended result => exact ⟨path', _, hf, .inr ⟨result, rfl, rfl⟩⟩
    | retry flush'' => exact absurd rfl (hretry flush'')

variable (contentHash) in
/-- The settlement keeps all of the path but its baseline, and reports what its checks let pass. -/
theorem afterSettled_spec (p : MirrorPath) (flush : Flush) (kind : SettleKind) (file : ℕ)
    (isCurrent : Bool) : ∃ path result,
      afterSettled contentHash p flush kind file isCurrent = (path, .ended result) ∧
      path.target = p.target ∧ path.content = p.content ∧
      path.remoteCreateAuthorization = p.remoteCreateAuthorization ∧
      ∀ content hash, result.settledContent = some (content, hash) →
        isCurrent = true ∧ content = flush.content ∧ hash = contentHash content := by
  unfold afterSettled
  split
  · next stopped hfe =>
    refine ⟨_, _, rfl, rfl, rfl, rfl, fun content hash hset => ?_⟩
    rw [settledContent_firstFence (by simp) hfe] at hset
    cases hset
  · next hfe =>
    have hcur := stops_eq_false hfe _ List.mem_cons_self
    refine ⟨_, _, rfl, by split <;> rfl, by split <;> rfl, by split <;> rfl,
      fun content hash hset => ⟨by simpa using hcur, ?_⟩⟩
    cases kind with
    | updated | created | unchanged =>
      obtain ⟨rfl, rfl⟩ := Prod.mk.inj (some_inj.mp hset)
      exact ⟨rfl, rfl⟩

/-- Where a call comes to that goes on: it has just got the lock, or has had it. Once its creation
is done no create authority is left. -/
structure FlushGoesOn (contentHash : JsString → JsString) (run : FlushRun) (flush : Flush)
    (path : MirrorPath) (progress : FlushProgress) : Prop where
  follows : WriteFollows contentHash run.path flush
    (∃ point, run.call = some (flush, point) ∧ point.Creates) (path, progress)
  origin : run.call = none ∧ flush.expectedDiskSnapshot = flush.options.expectedDiskContent ∨
    ∃ point, run.call = some (flush, point)
  completes : ∀ file, run.call = some (flush, .create (some file)) →
    path.remoteCreateAuthorization = none ∧
      ∀ flush' point, progress = .await flush' point → ¬ point.Creates

/-- How a run can move. -/
inductive FlushMoves (contentHash : JsString → JsString) (run : FlushRun) :
    FlushEvent → FlushRun → Prop
  | outside (path : MirrorPath) : FlushMoves contentHash run (.outside path) (run.outside path)
  | grants : FlushMoves contentHash run .authorizeRemoteCreate
      { run with
        path := { run.path with
          remoteCreateAuthorization := some ⟨run.grants, run.path.now + remoteCreateAuthorizationMs⟩ }
        grants := run.grants + 1 }
  | rests (event : FlushEvent) (queue : List (Bool × DiskWriteOptions))
      (results : List DiskWriteResult)
      (unsettled : results = run.results ∨
        ∃ result, result.settledContent = none ∧ results = run.results ++ [result]) :
      FlushMoves contentHash run event { run with queue, results }
  | performs (flush : Flush) (point : FlushPoint) (created : ℕ) (stripsBom : Bool)
      (revision : DiskFileRevision) (call : run.call = some (flush, point)) :
      FlushMoves contentHash run (.perform created stripsBom revision)
        { run with
          path := (performPoint run.path flush created stripsBom revision point).1
          call := some (flush, (performPoint run.path flush created stripsBom revision point).2) }
  | awaits (event : FlushEvent) (queue : List (Bool × DiskWriteOptions)) (flush : Flush)
      (path : MirrorPath) (flush' : Flush) (point : FlushPoint)
      (goes : FlushGoesOn contentHash run flush path (.await flush' point)) :
      FlushMoves contentHash run event { run with queue, path, call := some (flush', point) }
  | ends (event : FlushEvent) (queue : List (Bool × DiskWriteOptions)) (flush : Flush)
      (path : MirrorPath) (result : DiskWriteResult)
      (goes : FlushGoesOn contentHash run flush path (.ended result)) :
      FlushMoves contentHash run event
        { run with queue, path, call := none, results := run.results ++ [result] }
  | reads (flush : Flush) (kind : SettleKind) (file : ℕ) (expected : Option DiskFileRevision)
      (actual : JsString) (isCurrent : Bool)
      (call : run.call = some (flush, .readback kind file expected (some actual)))
      (current : isCurrent = true → run.path.isExactDiskFileCurrent file = true ∧
        actual = flush.content ∧ run.path.ytext = some (flush.ytext, flush.content)) :
      FlushMoves contentHash run .resume
        { run with call := some (flush, .settled kind file isCurrent) }
  | settles (flush : Flush) (kind : SettleKind) (file : ℕ) (isCurrent : Bool) (path : MirrorPath)
      (result : DiskWriteResult) (call : run.call = some (flush, .settled kind file isCurrent))
      (target : path.target = run.path.target) (content : path.content = run.path.content)
      (authorization :
        path.remoteCreateAuthorization = run.path.remoteCreateAuthorization)
      (reports : ∀ content hash, result.settledContent = some (content, hash) →
        isCurrent = true ∧ content = flush.content ∧ hash = contentHash content) :
      FlushMoves contentHash run .resume
        { run with path, call := none, results := run.results ++ [result] }

variable (blocks contentHash) in
/-- Every event moves the run in one of these ways. -/
theorem next_flushMoves (hground : ∀ flush point, run.call = some (flush, point) → point.Creates →
      MayCreate run.path flush.options) (event : FlushEvent) :
    FlushMoves contentHash run event (flushNext blocks contentHash run event) := by
  have hrests : ∀ event, FlushMoves contentHash run event run :=
    fun event => .rests event run.queue run.results (.inl rfl)
  have hproc : ∀ event queue flush after, WriteFollows contentHash run.path flush
        (∃ point, run.call = some (flush, point) ∧ point.Creates) after →
      (run.call = none ∧ flush.expectedDiskSnapshot = flush.options.expectedDiskContent ∨
        ∃ point, run.call = some (flush, point)) →
      (∀ file, run.call ≠ some (flush, .create (some file))) →
      FlushMoves contentHash run event ({ run with queue }.proceed blocks after) := by
    intro event queue flush after hf ho hnot
    obtain ⟨path, progress, hl, hcase⟩ := proceed_follows blocks { run with queue } hf
    have hon : FlushGoesOn contentHash run flush path progress :=
      ⟨hl, ho, fun file hc => absurd hc (hnot file)⟩
    rcases hcase with ⟨flush', point, rfl, heq⟩ | ⟨result, rfl, heq⟩ <;> rw [heq]
    · exact .awaits event queue flush path flush' point hon
    · exact .ends event queue flush path result hon
  cases event with simp only [flushNext]
  | outside path => exact .outside path
  | authorizeRemoteCreate => exact .grants
  | flushWrite force options =>
    simp only [FlushRun.flushWrite]
    split
    · exact .rests _ _ _ (.inr ⟨_, rfl, rfl⟩)
    split
    · exact .rests _ _ _ (.inr ⟨_, rfl, rfl⟩)
    · exact .rests _ _ _ (.inl rfl)
  | start =>
    split
    · next force options queue hc hqueue =>
      refine hproc _ _ _ _ follows_flushWriteUnlocked (.inl ⟨hc, rfl⟩) fun file hca => ?_
      cases hc.symm.trans hca
    · exact hrests _
  | perform created stripsBom revision =>
    split
    · next flush point hc => exact .performs flush point created stripsBom revision hc
    · exact hrests _
  | reject =>
    split
    · next flush point hc =>
      split
      · next after ha =>
        refine hproc _ run.queue flush after (follows_rejectPoint ha) (.inr ⟨point, hc⟩)
          fun file hca => ?_
        cases hc.symm.trans hca
        cases ha
      · exact hrests _
    · exact hrests _
  | resume =>
    split
    · next flush point hc =>
      split
      · next after ha =>
        have hcreating : (∃ point', run.call = some (flush, point') ∧ point'.Creates) =
            point.Creates := by
          simp [hc]
        have hgoes : (∀ kind file revision got, point ≠ .readback kind file revision got) →
            (∀ kind file isCurrent, point ≠ .settled kind file isCurrent) →
            WriteFollows contentHash run.path flush
              (∃ point', run.call = some (flush, point') ∧ point'.Creates) after := by
          intro hr hset
          rw [hcreating]
          exact follows_resumePoint (hground flush point hc) hr hset ha
        cases point with
        | readback kind file expected got =>
          obtain ⟨actual, rfl, rfl⟩ := map_eq_some_iff.mp ha
          refine .reads flush kind file expected actual _ hc fun hcur => ?_
          simp only [Bool.and_eq_true, decide_eq_true_eq] at hcur
          exact ⟨hcur.1.1.1.1, hcur.1.1.2, hcur.1.2⟩
        | settled kind file isCurrent =>
          obtain rfl := some_inj.mp ha
          obtain ⟨path, result, heq, htgt, hco, haut, hrep⟩ :=
            afterSettled_spec contentHash run.path flush kind file isCurrent
          rw [heq]
          exact .settles flush kind file isCurrent path result hc htgt hco haut hrep
        | create made =>
          have hf := hgoes nofun nofun
          obtain ⟨file, rfl, rfl⟩ := map_eq_some_iff.mp ha
          have hon : FlushGoesOn contentHash run flush run.path.deleteAuthorization
              (afterCreate run.path flush file).2 := by
            refine ⟨hf, .inr ⟨_, hc⟩, fun _ _ => ⟨rfl, fun flush' point hawait => ?_⟩⟩
            unfold afterCreate at hawait
            split at hawait <;> cases hawait
            exact id
          unfold afterCreate at hon ⊢
          split at hon
          · next hs =>
            rw [if_pos hs]
            exact .ends _ run.queue flush _ _ hon
          · next hs =>
            rw [if_neg hs]
            exact .awaits _ run.queue flush _ _ _ hon
        | _ =>
          refine hproc _ run.queue flush after (hgoes nofun nofun) (.inr ⟨_, hc⟩) fun file hca => ?_
          cases hc.symm.trans hca
      · exact hrests _
    · exact hrests _

/-- What an await's operation leaves: only a write changes a text, only a creation the target. -/
theorem performPoint_cases (p : MirrorPath) (flush : Flush) (point : FlushPoint) (created : ℕ)
    (stripsBom : Bool) (revision : DiskFileRevision) :
    ((performPoint p flush created stripsBom revision point).1 = p ∧
      ((performPoint p flush created stripsBom revision point).2.Creates →
        (performPoint p flush created stripsBom revision point).2 = point)) ∨
    (∃ file content, point = .process file none ∧
      processCallback p flush file (p.content file) = .ok content ∧
      performPoint p flush created stripsBom revision point =
        ({ p with
          content := Function.update p.content file content
          stat := Function.update p.stat file revision }, .process file (some (.ok ())))) ∨
    (point = .create none ∧ p.target = none ∧
      performPoint p flush created stripsBom revision point =
        ({ p with
          target := some (.file created)
          content := Function.update p.content created flush.content
          stat := Function.update p.stat created revision }, .create (some created))) := by
  cases point with
  | read file got | raceRead file got | readback kind file expected got =>
    cases got with
    | none => exact .inl ⟨rfl, False.elim⟩
    | some got => exact .inl ⟨rfl, fun _ => rfl⟩
  | process file done =>
    cases done with
    | some done => exact .inl ⟨rfl, fun _ => rfl⟩
    | none =>
      cases hcal : processCallback p flush file (p.content file) with
      | ok content =>
        refine .inr (.inl ⟨file, content, rfl, hcal, ?_⟩)
        simp only [performPoint, hcal]
      | error reason =>
        simp only [performPoint, hcal]
        exact .inl ⟨trivial, False.elim⟩
  | create made =>
    cases made with
    | some made => exact .inl ⟨rfl, fun _ => rfl⟩
    | none =>
      cases htgt : p.target with
      | none =>
        refine .inr (.inr ⟨rfl, rfl, ?_⟩)
        simp only [performPoint, htgt, isSome_none, Bool.false_eq_true, if_false]
      | some target =>
        simp only [performPoint, htgt, isSome_some, if_true]
        exact .inl ⟨trivial, fun _ => trivial⟩
  | _ => exact .inl ⟨rfl, fun _ => rfl⟩

section

variable {created : ℕ} {stripsBom : Bool} {revision : DiskFileRevision} {kind : SettleKind}
  {file : ℕ}

theorem performPoint_readback {expected : Option DiskFileRevision} {actual : JsString}
    (h : (performPoint p flush created stripsBom revision point).2 =
      .readback kind file expected (some actual)) :
    point = .readback kind file expected (some actual) ∨
      point = .readback kind file expected none ∧
        vaultRead stripsBom (p.content file) = actual := by
  cases point with
  | readback kind' file' expected' got =>
    cases got with
    | none =>
      obtain ⟨rfl, rfl, rfl, hact⟩ := FlushPoint.readback.inj h
      exact .inr ⟨rfl, some_inj.mp hact⟩
    | some got => exact .inl h
  | read file' got | raceRead file' got => cases got <;> cases h
  | process file' done =>
    cases done with
    | some done => cases h
    | none =>
      simp only [performPoint] at h
      split at h <;> cases h
  | create made =>
    cases made with
    | some made => cases h
    | none =>
      simp only [performPoint] at h
      split at h <;> cases h
  | _ => cases h

theorem performPoint_settled {isCurrent : Bool}
    (h : (performPoint p flush created stripsBom revision point).2 =
      .settled kind file isCurrent) : point = .settled kind file isCurrent := by
  cases point with
  | settled kind' file' isCurrent' => exact h
  | readback kind' file' expected got | read file' got | raceRead file' got => cases got <;> cases h
  | process file' done =>
    cases done with
    | some done => cases h
    | none =>
      simp only [performPoint] at h
      split at h <;> cases h
  | create made =>
    cases made with
    | some made => cases h
    | none =>
      simp only [performPoint] at h
      split at h <;> cases h
  | _ => cases h

end

theorem performPoint_authorization (created : ℕ) (stripsBom : Bool) (revision : DiskFileRevision) :
    (performPoint p flush created stripsBom revision point).1.remoteCreateAuthorization =
      p.remoteCreateAuthorization := by
  rcases performPoint_cases _ _ _ created stripsBom revision with h | ⟨file, content, -, -, h⟩ |
    ⟨-, -, h⟩
  · rw [h.1]
  · rw [h]
  · rw [h]

/-- A call that is still between its check and the creation has come no further. -/
theorem performPoint_creates {created : ℕ} {stripsBom : Bool} {revision : DiskFileRevision}
    (h : (performPoint p flush created stripsBom revision point).2.Creates) :
    point.Creates ∧ (performPoint p flush created stripsBom revision point).1 = p := by
  rcases performPoint_cases p flush point created stripsBom revision with hsa |
    ⟨file, content, -, -, hw⟩ | ⟨-, -, hmade⟩
  · exact ⟨hsa.2 h ▸ h, hsa.1⟩
  · rw [hw] at h
    exact h.elim
  · rw [hmade] at h
    exact h.elim

/-- The grant has led to a creation: it is still being completed, or the grant is held no more. -/
def Used (grant : ℕ) (run : FlushRun) : Prop :=
  grant < run.grants ∧
    ((∃ flush file, run.call = some (flush, .create (some file)) ∧ flush.authority = some grant) ∨
      (∀ authorization, run.path.remoteCreateAuthorization = some authorization →
        authorization.grant ≠ grant) ∧
      ∀ flush point, run.call = some (flush, point) → point.Creates → flush.authority ≠ some grant)

/-- A used grant stays used. -/
theorem used_next (h : Used grant run) (event : FlushEvent)
    (hground : ∀ flush point, run.call = some (flush, point) → point.Creates →
      MayCreate run.path flush.options) :
    Used grant (flushNext blocks contentHash run event) := by
  obtain ⟨hlt, hused⟩ := h
  have hgoes : ∀ flush path progress, FlushGoesOn contentHash run flush path progress →
      (∀ authorization, path.remoteCreateAuthorization = some authorization →
        authorization.grant ≠ grant) ∧
      ∀ flush' point, progress = .await flush' point → point.Creates →
        flush'.authority ≠ some grant := by
    intro flush path progress hgo
    rcases hused with ⟨flush', file, hcr, -⟩ | ⟨hfr, hcs⟩
    · -- the creation is being completed
      rcases hgo.origin with ⟨hno, -⟩ | ⟨point, hc⟩
      · cases hno.symm.trans hcr
      obtain ⟨rfl, rfl⟩ := Prod.mk.inj (some_inj.mp (hc.symm.trans hcr))
      obtain ⟨hn, hnot⟩ := hgo.completes file hcr
      refine ⟨fun authorization hs => ?_, fun flush' point heq hcreates => ?_⟩
      · cases hn.symm.trans hs
      · exact absurd hcreates (hnot flush' point heq)
    constructor
    · intro authorization hs
      rcases hgo.follows.authorization with hsa | hn
      · exact hfr authorization (hsa ▸ hs)
      · cases hn.symm.trans hs
    intro flush' point heq hc hgrant
    rcases ((hgo.follows.await flush' point heq).2.2 hc).2 with ⟨⟨point', hca, hwas⟩, hsa⟩ | ht
    · exact hcs flush point' hca hwas (hsa ▸ hgrant)
    obtain ⟨authorization, hs, hequal⟩ := ht grant hgrant
    exact hfr authorization hs hequal
  have hmoves := next_flushMoves blocks contentHash hground event
  generalize flushNext blocks contentHash run event = run' at hmoves ⊢
  cases hmoves with
  | outside path =>
    refine ⟨hlt, hused.imp_right ?_⟩
    rintro ⟨hfr, hca⟩
    refine ⟨?_, hca⟩
    intro authorization hs
    exact hfr authorization (filter_eq_some_iff.mp hs).1
  | grants =>
    refine ⟨Nat.lt_succ_of_lt hlt, hused.imp_right ?_⟩
    rintro ⟨-, hca⟩
    refine ⟨?_, hca⟩
    rintro authorization ⟨⟩
    exact hlt.ne'
  | rests _ queue results _ => exact ⟨hlt, hused⟩
  | performs flush point created stripsBom revision hca =>
    rcases hused with ⟨flush', file, hcr, hgrant⟩ | ⟨hfr, hcs⟩
    · obtain ⟨rfl, rfl⟩ := Prod.mk.inj (some_inj.mp (hca.symm.trans hcr))
      exact ⟨hlt, .inl ⟨flush, file, rfl, hgrant⟩⟩
    refine ⟨hlt, .inr ⟨?_, ?_⟩⟩
    · rw [performPoint_authorization]
      exact hfr
    rintro _ _ ⟨⟩ hc
    exact hcs flush point hca (performPoint_creates hc).1
  | awaits _ queue flush path flush' point hgo =>
    obtain ⟨hfr, hcs⟩ := hgoes flush path _ hgo
    refine ⟨hlt, .inr ⟨hfr, ?_⟩⟩
    rintro _ _ ⟨⟩
    exact hcs flush' point rfl
  | ends _ queue flush path result hgo =>
    refine ⟨hlt, .inr ⟨(hgoes flush path _ hgo).1, ?_⟩⟩
    rintro _ _ ⟨⟩
  | reads flush kind file expected actual isCurrent hca =>
    rcases hused with ⟨flush', file', hcr, -⟩ | ⟨hfr, -⟩
    · cases hca.symm.trans hcr
    refine ⟨hlt, .inr ⟨hfr, ?_⟩⟩
    rintro _ _ ⟨⟩ hc
    exact hc.elim
  | settles flush kind file isCurrent path result hca htgt hco haut =>
    rcases hused with ⟨flush', file', hcr, -⟩ | ⟨hfr, -⟩
    · cases hca.symm.trans hcr
    refine ⟨hlt, .inr ⟨haut ▸ hfr, ?_⟩⟩
    rintro _ _ ⟨⟩

end Step

section Run

variable {blocksFrontmatter blocks : Option JsString → JsString → Bool}
  {contentHash : JsString → JsString}
  {path : MirrorPath} {events : List FlushEvent} {n m : ℕ} {options : DiskWriteOptions}
  {snapshot content : JsString} {file ytext : ℕ}

theorem AccountedFor.mono (h : AccountedFor blocks contentHash path events n options snapshot)
    (hle : n ≤ m) : AccountedFor blocks contentHash path events m options snapshot := by
  rcases h with hexp | ⟨k, hk, hb⟩
  · exact .inl hexp
  · exact .inr ⟨k, hk.trans hle, hb⟩

theorem ReadBack.mono (h : ReadBack blocks contentHash path events n file content)
    (hle : n ≤ m) : ReadBack blocks contentHash path events m file content := by
  obtain ⟨k, hk, hr⟩ := h
  exact ⟨k, hk.trans_le hle, hr⟩

theorem SettledBefore.mono (h : SettledBefore blocks contentHash path events n ytext content)
    (hle : n ≤ m) : SettledBefore blocks contentHash path events m ytext content := by
  obtain ⟨k, hk, hset⟩ := h
  exact ⟨k, hk.trans_le hle, hset⟩

variable (blocksFrontmatter contentHash path events) in
/-- What is known of the call that has the lock. -/
structure FlushSound (n : ℕ) (run : FlushRun) : Prop where
  snapshot : ∀ flush point, run.call = some (flush, point) → ∀ snapshot,
    flush.expectedDiskSnapshot = some snapshot →
      AccountedFor blocksFrontmatter contentHash path events n flush.options snapshot
  ground : ∀ flush point, run.call = some (flush, point) → point.Creates →
    MayCreate run.path flush.options
  read : ∀ flush kind file revision actual,
    run.call = some (flush, .readback kind file revision (some actual)) →
      ReadBack blocksFrontmatter contentHash path events n file actual
  settled : ∀ flush kind file, run.call = some (flush, .settled kind file true) →
    SettledBefore blocksFrontmatter contentHash path events n flush.ytext flush.content
  held : ∀ authorization, run.path.remoteCreateAuthorization = some authorization →
    authorization.grant < run.grants
  granted : ∀ flush point, run.call = some (flush, point) → point.Creates →
    ∀ grant, flush.authority = some grant → grant < run.grants

variable {run : FlushRun}

theorem FlushSound.mono (h : FlushSound blocks contentHash path events n run) (hle : n ≤ m) :
    FlushSound blocks contentHash path events m run where
  snapshot := fun flush point hc snapshot hs =>
    (h.snapshot flush point hc snapshot hs).mono hle
  ground := h.ground
  read := fun flush kind file revision actual hc =>
    (h.read flush kind file revision actual hc).mono hle
  settled := fun flush kind file hc => (h.settled flush kind file hc).mono hle
  held := h.held
  granted := h.granted

/-- Nothing has to be known of a call that has ended. -/
theorem flushSound_ended {path' : MirrorPath} {queue : List (Bool × DiskWriteOptions)}
    {results : List DiskWriteResult}
    (hl : ∀ authorization, path'.remoteCreateAuthorization = some authorization →
      authorization.grant < run.grants) :
    FlushSound blocks contentHash path events n
      { run with queue, path := path', call := none, results } := by
  refine ⟨?_, ?_, ?_, ?_, hl, ?_⟩
  · rintro _ _ ⟨⟩
  · rintro _ _ ⟨⟩
  · rintro _ _ _ _ _ ⟨⟩
  · rintro _ _ _ ⟨⟩
  · rintro _ _ ⟨⟩

variable {flush flush' : Flush} {path' : MirrorPath} {progress : FlushProgress} {point : FlushPoint}

theorem FlushGoesOn.held (hgo : FlushGoesOn contentHash run flush path' progress)
    (h : FlushSound blocks contentHash path events n run) :
    ∀ authorization, path'.remoteCreateAuthorization = some authorization →
      authorization.grant < run.grants := by
  intro authorization hs
  rcases hgo.follows.authorization with hsa | hn
  · exact h.held authorization (hsa ▸ hs)
  · cases hn.symm.trans hs

/-- What is known of a call stays known where the code goes on. -/
theorem FlushGoesOn.sound {queue : List (Bool × DiskWriteOptions)}
    (hgo : FlushGoesOn contentHash run flush path' (.await flush' point))
    (h : FlushSound blocks contentHash path events n run)
    (hpa : run.path = (flushAt blocks contentHash path events n).path) :
    FlushSound blocks contentHash path events n
      { run with queue, path := path', call := some (flush', point) } := by
  obtain ⟨⟨hopt, hcar⟩, hbeg, hc⟩ := hgo.follows.await flush' point rfl
  refine ⟨?_, ?_, ?_, ?_, hgo.held h, ?_⟩
  · rintro _ _ ⟨⟩ snapshot hs
    rw [hopt]
    rcases hcar with hsa | ⟨taken, htaken, hb⟩
    · rw [hsa] at hs
      rcases hgo.origin with ⟨-, heq⟩ | ⟨point', hca⟩
      · exact .inl (heq ▸ hs)
      · exact h.snapshot flush point' hca snapshot hs
    obtain rfl := some_inj.mp (htaken.symm.trans hs)
    exact .inr ⟨n, le_rfl, hpa ▸ hb⟩
  · rintro _ _ ⟨⟩ hp
    exact (hc hp).1
  · rintro _ _ _ _ _ ⟨⟩
    exact hbeg.elim
  · rintro _ _ _ ⟨⟩
    exact hbeg.elim
  rintro _ _ ⟨⟩ hp grant hgrant
  rcases (hc hp).2 with ⟨⟨point', hca, hwas⟩, hsa⟩ | ht
  · exact h.granted flush point' hca hwas grant (hsa ▸ hgrant)
  obtain ⟨authorization, hs, rfl⟩ := ht grant hgrant
  exact h.held authorization hs

variable {p : MirrorPath} {grant : ℕ}

theorem mayCreate_authorized
    (h : p.remoteCreateAuthorization = some ⟨grant, p.now + remoteCreateAuthorizationMs⟩) :
    MayCreate p options := by
  refine .inr (.inr ?_)
  simp [MirrorPath.liveAuthorization, remoteCreateAuthorizationMs, h]

variable {event : FlushEvent}

/-- What is known of a call whose await's operation is done. -/
theorem FlushSound.performs {created : ℕ} {stripsBom : Bool} {revision : DiskFileRevision}
    (h : FlushSound blocks contentHash path events n (flushAt blocks contentHash path events n))
    (hev : events[n]? = some (.perform created stripsBom revision))
    (hrun : flushAt blocks contentHash path events n = run)
    (hc : run.call = some (flush, point)) :
    FlushSound blocks contentHash path events (n + 1)
      { run with
        path := (performPoint run.path flush created stripsBom revision point).1
        call := some (flush, (performPoint run.path flush created stripsBom revision point).2) } := by
  have hs := h.mono (Nat.le_succ n)
  rw [hrun] at h hs
  constructor
  · rintro _ _ ⟨⟩
    exact hs.snapshot flush point hc
  · rintro _ _ ⟨⟩ hp
    obtain ⟨hwas, hpa⟩ := performPoint_creates hp
    rw [hpa]
    exact h.ground flush point hc hwas
  · rintro _ kind file expected actual hnow
    obtain ⟨rfl, hp⟩ := Prod.mk.inj (some_inj.mp hnow)
    rcases performPoint_readback hp with rfl | ⟨rfl, hact⟩
    · exact hs.read _ kind file expected actual hc
    exact ⟨n, Nat.lt_succ_self n, _, kind, expected, created, stripsBom, revision,
      hrun ▸ hc, hev, hrun ▸ hact⟩
  · rintro _ kind file hnow
    obtain ⟨rfl, hp⟩ := Prod.mk.inj (some_inj.mp hnow)
    rw [performPoint_settled hp] at hc
    exact hs.settled _ kind file hc
  · rw [performPoint_authorization]
    exact h.held
  rintro _ _ ⟨⟩ hp
  exact h.granted flush point hc (performPoint_creates hp).1

/-- What is known of the call is known after any event that keeps the ground of a creation. -/
theorem flushSound_next
    (h : FlushSound blocks contentHash path events n (flushAt blocks contentHash path events n))
    (hev : events[n]? = some event)
    (hk : KeepsCreateGround (flushAt blocks contentHash path events n) event) :
    FlushSound blocks contentHash path events (n + 1)
      (flushNext blocks contentHash (flushAt blocks contentHash path events n) event) := by
  have hs := h.mono (Nat.le_succ n)
  have hmoves := next_flushMoves blocks contentHash h.ground event
  generalize hrun' : flushNext blocks contentHash (flushAt blocks contentHash path events n)
    event = run' at hmoves ⊢
  clear hrun'
  generalize hrun : flushAt blocks contentHash path events n = run at *
  cases hmoves with
  | outside outsidePath =>
    refine ⟨hs.snapshot, ?_, hs.read, hs.settled, ?_, hs.granted⟩
    · intro flush point hc hcrs
      exact hk flush point hc hcrs (h.ground flush point hc hcrs)
    intro authorization hheld
    exact h.held authorization (filter_eq_some_iff.mp hheld).1
  | grants =>
    refine ⟨hs.snapshot, ?_, hs.read, hs.settled, ?_, ?_⟩
    · intro flush point hc hcrs
      exact mayCreate_authorized rfl
    · rintro authorization ⟨⟩
      exact Nat.lt_succ_self _
    intro flush point hc hcrs grant hgrant
    exact Nat.lt_succ_of_lt (h.granted flush point hc hcrs grant hgrant)
  | rests _ queue results _ =>
    exact ⟨hs.snapshot, hs.ground, hs.read, hs.settled, hs.held, hs.granted⟩
  | performs flush point created stripsBom revision hc =>
    exact (hrun ▸ h).performs hev hrun hc
  | awaits _ queue flush path' flush' point hgo =>
    exact (hgo.sound h (hrun ▸ rfl)).mono (Nat.le_succ n)
  | ends _ queue flush path' result hgo =>
    exact flushSound_ended (hgo.held h)
  | reads flush kind file expected actual isCurrent hc hcur =>
    refine ⟨?_, ?_, ?_, ?_, h.held, ?_⟩
    · rintro _ _ ⟨⟩
      exact hs.snapshot _ _ hc
    · rintro _ _ ⟨⟩ hp
      exact hp.elim
    · rintro _ _ _ _ _ ⟨⟩
    · rintro _ kind' file' hnow
      obtain ⟨rfl, hp⟩ := Prod.mk.inj (some_inj.mp hnow)
      obtain ⟨rfl, rfl, rfl⟩ := FlushPoint.settled.inj hp
      obtain ⟨hexact, hact, hytext⟩ := hcur rfl
      refine ⟨n, Nat.lt_succ_self n, file, ?_, ?_, ?_⟩
      · rw [← hact]
        exact h.read _ kind file expected actual hc
      · rw [hrun]
        exact of_decide_eq_true hexact
      rw [hrun]
      exact hytext
    rintro _ _ ⟨⟩ hp
    exact hp.elim
  | settles flush kind file isCurrent path' result hc htgt hco haut =>
    exact flushSound_ended (haut ▸ h.held)

theorem flushAt_succ (hev : events[n]? = some event) :
    flushAt blocks contentHash path events (n + 1) =
      flushNext blocks contentHash
        (flushAt blocks contentHash path events n) event :=
  stateAt_succ hev

/-- What is known of the call is known all along a run that keeps the ground of its creations. -/
theorem flushSound_run
    (hk : ∀ n event, events[n]? = some event →
      KeepsCreateGround (flushAt blocks contentHash path events n) event) (n : ℕ) :
    FlushSound blocks contentHash path events n
      (flushAt blocks contentHash path events n) := by
  induction n with
  | zero =>
    constructor
    · rintro _ _ ⟨⟩
    · rintro _ _ ⟨⟩
    · rintro _ _ _ _ _ ⟨⟩
    · rintro _ _ _ ⟨⟩
    · rintro _ ⟨⟩
    · rintro _ _ ⟨⟩
  | succ n ih =>
    cases hev : events[n]? with
    | none =>
      have hstay : flushAt blocks contentHash path events (n + 1) =
          flushAt blocks contentHash path events n := stateAt_succ_none hev
      rw [hstay]
      exact ih.mono (Nat.le_succ n)
    | some event =>
      rw [flushAt_succ hev]
      exact flushSound_next ih hev (hk n event hev)

theorem used_run (hs : ∀ n, FlushSound blocks contentHash path events n
      (flushAt blocks contentHash path events n))
    (hused : Used grant (flushAt blocks contentHash path events n)) (hle : n ≤ m) :
    Used grant (flushAt blocks contentHash path events m) := by
  induction m, hle using Nat.le_induction with
  | base => exact hused
  | succ m _ ih =>
    cases hev : events[m]? with
    | none =>
      have hstay : flushAt blocks contentHash path events (m + 1) =
          flushAt blocks contentHash path events m := stateAt_succ_none hev
      rw [hstay]
      exact ih
    | some event =>
      rw [flushAt_succ hev]
      exact used_next ih event (hs m).ground

/-- A creation is the operation of an await. -/
theorem createsFile_call (h : CreatesFile blocks contentHash path events n) :
    ∃ flush created, (flushAt blocks contentHash path events n).call =
        some (flush, .create none) ∧
      (flushAt blocks contentHash path events (n + 1)).call = some (flush, .create (some created)) ∧
      (flushAt blocks contentHash path events (n + 1)).grants =
        (flushAt blocks contentHash path events n).grants := by
  obtain ⟨created, stripsBom, revision, file, hev, hmiss, ht⟩ := h
  rw [flushAt_succ hev] at ht ⊢
  generalize flushAt blocks contentHash path events n = run at hmiss ht ⊢
  cases hc : run.call with
  | none =>
    simp only [flushNext, hc] at ht
    cases hmiss.symm.trans ht
  | some call =>
    obtain ⟨flush, point⟩ := call
    simp only [flushNext, hc] at ht ⊢
    rcases performPoint_cases run.path flush point created stripsBom revision with hs |
      ⟨written, content, -, -, hw⟩ | ⟨rfl, -, hmade⟩
    · rw [hs.1] at ht
      cases hmiss.symm.trans ht
    · rw [hw] at ht
      cases hmiss.symm.trans ht
    rw [hmade]
    exact ⟨flush, created, rfl, rfl, trivial⟩

/-- What the callback lets through. -/
theorem processCallback_ok {flush : Flush} {latest written : JsString}
    (h : processCallback p flush file latest = .ok written) :
    written = flush.content ∧ p.target = some (.file file) ∧
      (∃ snapshot, flush.expectedDiskSnapshot = some snapshot ∧
        rawContentMatchesVaultReadSnapshot latest snapshot = true) ∧
      p.ytext.map Prod.snd = some flush.content ∧ p.deleteActive = false ∧
      ∀ episodeId, p.preservedUnresolved = some episodeId →
        flush.options.expectedPreservedUnresolvedEpisodeId = some episodeId := by
  unfold processCallback at h
  split at h
  · cases h
  · next hbloc =>
    split at h
    · cases h
    · next hexact =>
      split at h
      · cases h
      split at h
      · cases h
      split at h
      · cases h
      · next hmat =>
        split at h
        · cases h
        · next hytext =>
          split at h
          · cases h
          · next hd =>
            split at h
            · cases h
            split at h
            · cases h
            cases h
            refine ⟨rfl, ?_, ?_, by simpa using hytext, by simpa using hd, ?_⟩
            · simpa [MirrorPath.isExactDiskFileCurrent] using hexact
            · simpa [any_eq_true] using hmat
            intro episodeId hepis
            simpa [MirrorPath.isPreservedUnresolvedWriteBlocked, hepis] using hbloc

/-- Between the operations of the awaits the vault stays as it is. -/
theorem untouched_next (hground : ∀ flush point, run.call = some (flush, point) → point.Creates →
      MayCreate run.path flush.options) (hout : ∀ p, event ≠ .outside p)
    (hper : ∀ created stripsBom revision, event ≠ .perform created stripsBom revision) :
    (flushNext blocks contentHash run event).path.target = run.path.target ∧
      (flushNext blocks contentHash run event).path.content = run.path.content := by
  have hmoves := next_flushMoves blocks contentHash hground event
  generalize flushNext blocks contentHash run event = run' at hmoves ⊢
  cases hmoves with
  | outside p => exact absurd rfl (hout p)
  | performs _ _ created stripsBom revision _ => exact absurd rfl (hper created stripsBom revision)
  | grants | rests | reads => exact ⟨rfl, rfl⟩
  | awaits _ _ _ _ _ _ hgo | ends _ _ _ _ _ hgo => exact ⟨hgo.follows.target, hgo.follows.content⟩
  | settles _ _ _ _ _ _ _ htgt hco => exact ⟨htgt, hco⟩

/-- A result that reports a text as settled is that of a settlement whose checks have passed. -/
theorem settled_next {result : DiskWriteResult} {hash : JsString}
    (hground : ∀ flush point, run.call = some (flush, point) → point.Creates →
      MayCreate run.path flush.options)
    (hres : (flushNext blocks contentHash run event).results = run.results ++ [result])
    (hset : result.settledContent = some (content, hash)) :
    ∃ flush kind file, run.call = some (flush, .settled kind file true) ∧
      content = flush.content ∧ hash = contentHash content := by
  have hn : run.results ≠ run.results ++ [result] := by
    intro h
    simpa using congrArg List.length h
  have hlast : ∀ other, run.results ++ [other] = run.results ++ [result] →
      other.settledContent = some (content, hash) := by
    intro other heq
    obtain rfl : other = result := by simpa using heq
    exact hset
  have hmoves := next_flushMoves blocks contentHash hground event
  generalize flushNext blocks contentHash run event = run' at hmoves hres
  cases hmoves with
  | outside | grants | performs | awaits | reads => exact absurd hres hn
  | rests _ _ results huns =>
    rcases huns with rfl | ⟨other, hother, rfl⟩
    · exact absurd hres hn
    · cases hother.symm.trans (hlast other hres)
  | ends _ _ _ _ other hgo => cases (hgo.follows.ended other rfl).symm.trans (hlast other hres)
  | settles flush kind file isCurrent _ other hc _ _ _ hrep =>
    obtain ⟨rfl, rfl, hhash⟩ := hrep content hash (hlast other hres)
    exact ⟨flush, kind, file, hc, rfl, hhash⟩

/-- As long as a creation keeps its ground, no write destroys bytes it did not account for: the
bytes that are replaced, the files that are created and the texts that are reported as settled. -/
theorem flush_write_accounts_for_bytes
    (hkeeps : ∀ n event, events[n]? = some event →
      KeepsCreateGround (flushAt blocksFrontmatter contentHash path events n) event) :
    AccountsForBytes blocksFrontmatter contentHash path events := by
  have hs := flushSound_run hkeeps
  constructor
  · intro n event hev hout hper
    rw [flushAt_succ hev]
    exact untouched_next (hs n).ground hout hper
  · intro n created stripsBom revision file hev htgt hch
    rw [flushAt_succ hev] at hch ⊢
    have hs := hs n
    generalize hrun : flushAt blocksFrontmatter contentHash path events n = run at *
    cases hc : run.call with
    | none =>
      simp only [flushNext, hc] at hch
      exact absurd rfl hch
    | some call =>
      obtain ⟨flush, point⟩ := call
      simp only [flushNext, hc] at hch ⊢
      rcases performPoint_cases run.path flush point created stripsBom revision with hsa |
        ⟨written, content, rfl, hcal, hwrit⟩ | ⟨-, hmis, -⟩
      · rw [hsa.1] at hch
        exact absurd rfl hch
      · rw [hwrit] at hch ⊢
        have hf : file = written := by
          by_contra hne
          exact hch (Function.update_of_ne hne _ _)
        subst hf
        obtain ⟨rfl, hexact, ⟨snapshot, hso, hmat⟩, hytext, hd, hepis⟩ := processCallback_ok hcal
        refine ⟨hexact, flush, _, rfl, ⟨snapshot, hmat, ?_⟩, ?_, hd, hepis⟩
        · exact hs.snapshot flush _ hc snapshot hso
        rw [hytext]
        simp only [Function.update_self]
      · exact absurd hmis htgt
  · intro n hcrs
    obtain ⟨flush, created, hc, -⟩ := createsFile_call hcrs
    exact ⟨flush, _, hc, (hs n).ground flush _ hc trivial⟩
  · have hear : ∀ n m grant flush flush' point',
        CreatesFile blocksFrontmatter contentHash path events n →
        CreatesFile blocksFrontmatter contentHash path events m →
        (∃ point, (flushAt blocksFrontmatter contentHash path events n).call =
          some (flush, point)) →
        (flushAt blocksFrontmatter contentHash path events m).call = some (flush', point') →
        flush.authority = some grant → flush'.authority = some grant → ¬ n < m := by
      rintro n m grant flush flush' point' hn hm ⟨point, hc⟩ hc' hgrant hgrant' hlt
      obtain ⟨creator, created, hcreator, hcr, hgrants⟩ := createsFile_call hn
      obtain ⟨rfl, rfl⟩ := Prod.mk.inj (some_inj.mp (hc.symm.trans hcreator))
      have hused : Used grant (flushAt blocksFrontmatter contentHash path events (n + 1)) := by
        refine ⟨?_, .inl ⟨flush, created, hcr, hgrant⟩⟩
        rw [hgrants]
        exact (hs n).granted flush _ hc trivial grant hgrant
      obtain ⟨other, made, ho, -⟩ := createsFile_call hm
      obtain ⟨rfl, rfl⟩ := Prod.mk.inj (some_inj.mp (hc'.symm.trans ho))
      rcases (used_run hs hused hlt).2 with ⟨_, _, hmade, -⟩ | ⟨-, hfr⟩
      · cases hc'.symm.trans hmade
      · exact hfr flush' _ hc' trivial hgrant'
    intro n m grant flush point flush' point' hn hm hc hc' hgrant hgrant'
    have hnot := hear n m grant flush flush' point' hn hm ⟨point, hc⟩ hc' hgrant hgrant'
    have hnot' := hear m n grant flush' flush point hm hn ⟨point', hc'⟩ hc hgrant' hgrant
    omega
  intro n result content hash hres hset
  cases hev : events[n]? with
  | none =>
    have hstay : flushAt blocksFrontmatter contentHash path events (n + 1) =
        flushAt blocksFrontmatter contentHash path events n := stateAt_succ_none hev
    rw [hstay] at hres
    simpa using congrArg List.length hres
  | some event =>
    rw [flushAt_succ hev] at hres
    obtain ⟨flush, kind, file, hc, rfl, rfl⟩ := settled_next (hs n).ground hres hset
    exact ⟨rfl, flush.ytext, (hs n).settled flush kind file hc⟩

end Run

section Example

/-- A document without a file. -/
def unwrittenPath : MirrorPath where
  ytext := some (0, [1])

/-- Without a baseline the missing file is created. -/
theorem flush_write_accounts_for_bytes_create :
    AccountsForBytes (fun _ _ => false) id unwrittenPath
        [.flushWrite false {}, .start, .resume, .perform 0 false ⟨0, 0, 1⟩] ∧
      CreatesFile (fun _ _ => false) id unwrittenPath
        [.flushWrite false {}, .start, .resume, .perform 0 false ⟨0, 0, 1⟩] 3 := by
  refine ⟨flush_write_accounts_for_bytes ?_, 0, false, ⟨0, 0, 1⟩, 0, rfl, rfl, rfl⟩
  intro n event hev
  have hmem := List.mem_of_getElem? hev
  simp only [List.mem_cons, List.not_mem_nil, or_false] at hmem
  rcases hmem with rfl | rfl | rfl | rfl <;> trivial

/-- A baseline that is recorded once the creation has been let through does not stop it. -/
theorem baseline_is_not_rechecked :
    ¬ ∀ (path : MirrorPath) (events : List FlushEvent),
      AccountsForBytes (fun _ _ => false) id path events := by
  intro h
  have hc : CreatesFile (fun _ _ => false) id unwrittenPath
      [.flushWrite false {}, .start, .outside { unwrittenPath with baseline := some [2] },
        .resume, .perform 0 false ⟨0, 0, 1⟩] 4 :=
    ⟨0, false, ⟨0, 0, 1⟩, 0, rfl, rfl, rfl⟩
  obtain ⟨flush, point, hca, hground⟩ := (h _ _).created 4 hc
  obtain ⟨rfl, -⟩ := Prod.mk.inj (some_inj.mp hca)
  rcases hground with hallowed | hbas | haut
  · cases hallowed
  · cases hbas
  · cases haut

end Example

end Kaos.Sync
