import Kaos.Sync.BlobDownloadNoClobber
import Kaos.Sync.BlobDownloadTargets

/-! In any run the latest remote reference of an attachment path stays queued until it is settled,
or something is on record. -/
namespace Kaos.Sync

open Kaos.Lib BlobDownloads List Option

variable {sha : List UInt8 → JsString} {s s' : BlobDownloads} {i : ℕ}
  {a : DownloadAttempt} {result : DownloadResult} {phase : DownloadPhase} {w : DownloadWorld}

section Runs

variable {event : RefUpdateEvent}

/-- Until it is answered, the path's reference is queued, and one attempt at most works on it. -/
structure Tracks (sha : List UInt8 → JsString) (s : BlobDownloads) : Prop
    extends s.Serving where
  queue : ∀ id, s.queued = some id → s.world.isSyncable = true ∧
    ∃ item, s.items[id]? = some item ∧ LeadsOn s.world s.generation item
  idle : s.queued = none → s.Answers sha
  generations : ∀ a ∈ s.attempts, a.generation = s.generation
  active : ∀ (i : ℕ) (a : DownloadAttempt), s.attempts[i]? = some a → a.phase.isOver = false →
    s.queued = some a.item ∧ KnowsPath sha s.world a.phase
  alone : ∀ (i j : ℕ) (a b : DownloadAttempt), s.attempts[i]? = some a →
    s.attempts[j]? = some b → a.phase.isOver = false → b.phase.isOver = false → i = j

theorem Tracks.hasItem (h : Tracks sha s) (ha : s.attempts[i]? = some a)
    (hact : a.phase.isOver = false) : HasItem s a := by
  obtain ⟨hq, -⟩ := h.active i a ha hact
  obtain ⟨hsyn, item, hi, hleads⟩ := h.queue a.item hq
  exact ⟨h.toServing, hq, hsyn, h.generations a (mem_of_getElem? ha), item, hi, hleads⟩

/-- An attempt that is alone goes on. -/
theorem tracks_of_fine {attempts : List DownloadAttempt} {generation : ℕ}
    (hgens : ∀ b ∈ attempts, b.generation = generation)
    (hgen : a.generation = generation)
    (ho : ∀ (j : ℕ) (b : DownloadAttempt), attempts[j]? = some b → b.phase.isOver = false → j = i)
    (hfine : Fine sha attempts generation i a s') :
    Persists s' ∨ Tracks sha s' := by
  have hmem : ∀ phase, ∀ b ∈ attempts.set i { a with phase }, b.generation = generation := by
    intro phase b hb
    rcases mem_or_eq_of_mem_set hb with hb | rfl
    · exact hgens b hb
    · exact hgen
  -- whoever still works is the attempt itself
  have hs : ∀ {phase : DownloadPhase} {j : ℕ} {b : DownloadAttempt},
      (attempts.set i { a with phase })[j]? = some b → b.phase.isOver = false →
      j = i ∧ b = { a with phase } := by
    intro phase j b hb hact
    by_cases hj : i = j
    · subst hj
      rw [getElem?_set] at hb
      simp only [if_true] at hb
      split at hb
      · cases hb
        exact ⟨rfl, rfl⟩
      · cases hb
    · rw [getElem?_set_ne hj] at hb
      exact absurd (ho j b hb hact).symm hj
  cases hfine with
  | persists h => exact .inl h
  | ready phase hatts hsa hi hknows =>
    refine .inr ⟨hi.toServing, ?_, ?_, ?_, ?_, ?_⟩
    · intro id hid
      rw [hi.queued] at hid
      cases hid
      exact ⟨hi.syncable, hi.item⟩
    · intro hn
      rw [hi.queued] at hn
      cases hn
    · intro b hb
      rw [hatts] at hb
      exact (hmem phase b hb).trans hsa.symm
    · intro j b hb hact
      rw [hatts] at hb
      obtain ⟨-, rfl⟩ := hs hb hact
      exact ⟨hi.queued, hknows hact⟩
    intro j k b c hb hc hact hact'
    rw [hatts] at hb hc
    exact (hs hb hact).1.trans (hs hc hact').1.symm
  | answers phase hatts hsa hser hov hq ha =>
    have hnob : ∀ {j : ℕ} {b : DownloadAttempt}, s'.attempts[j]? = some b →
        b.phase.isOver ≠ false := by
      intro j b hb hact
      rw [hatts] at hb
      obtain ⟨-, rfl⟩ := hs hb hact
      rw [hov] at hact
      cases hact
    refine .inr ⟨hser, ?_, fun _ => ha, ?_, ?_, ?_⟩
    · intro id hid
      rw [hq] at hid
      cases hid
    · intro b hb
      rw [hatts] at hb
      exact (hmem phase b hb).trans hsa.symm
    · intro j b hb hact
      exact absurd hact (hnob hb)
    intro j k b c hb _ hact
    exact absurd hact (hnob hb)

theorem Tracks.fine (h : Tracks sha s) (ha : s.attempts[i]? = some a)
    (hact : a.phase.isOver = false) (hfine : Fine sha s.attempts s.generation i a s') :
    Persists s' ∨ Tracks sha s' :=
  tracks_of_fine h.generations (h.generations a (mem_of_getElem? ha))
    (fun j b hb hact' => h.alone j i b a hb ha hact' hact) hfine

/-- An attempt that is over ends; its item may be changed on the way. -/
theorem Tracks.endOver (h : Tracks sha s) (ha : s.attempts[i]? = some a)
    {f : DownloadItem → DownloadItem}
    (hf : ∀ item, s.items[a.item]? = some item → LeadsOn s.world s.generation item →
      LeadsOn s.world s.generation (f item)) :
    Tracks sha ((s.modifyItem a.item f).endAttempt i a) := by
  have ho : ∀ {j : ℕ} {b : DownloadAttempt},
      (s.attempts.set i { a with phase := .done })[j]? = some b → b.phase.isOver = false →
      s.attempts[j]? = some b := by
    intro j b hb hact
    by_cases hj : i = j
    · subst hj
      rw [List.getElem?_set_self (List.getElem?_eq_some_iff.mp ha).1] at hb
      cases hb
      cases hact
    rw [getElem?_set_ne hj] at hb
    exact hb
  refine ⟨⟨h.downloadGateOpen, h.destroyed, h.attentionAcceptInFlight⟩, ?_, h.idle, ?_, ?_, ?_⟩
  · intro id hid
    obtain ⟨hsyn, item, hi, hleads⟩ := h.queue id hid
    refine ⟨hsyn, ?_⟩
    change ∃ item, (s.items.modify a.item f)[id]? = some item ∧ _
    by_cases hid' : a.item = id
    · subst hid'
      rw [getElem?_modify_eq, hi]
      exact ⟨f item, rfl, hf item hi hleads⟩
    rw [getElem?_modify_ne _ _ hid']
    exact ⟨item, hi, hleads⟩
  · intro b hb
    rcases mem_or_eq_of_mem_set hb with hb | rfl
    · exact h.generations b hb
    · exact h.generations a (mem_of_getElem? ha)
  · intro j b hb hact
    exact h.active j b (ho hb hact) hact
  intro j k b c hb hc hact hact'
  exact h.alone j k b c (ho hb hact) (ho hc hact') hact hact'

theorem modifyItem_id (s : BlobDownloads) (id : ℕ) : s.modifyItem id (fun item => item) = s := by
  have hitems : s.items.modify id (fun item => item) = s.items := by
    refine ext_getElem? fun j => ?_
    rw [getElem?_modify]
    cases s.items[j]? with
    | none => rfl
    | some item => simp
  simp only [modifyItem, hitems]

section

variable (h : Tracks sha s)
include h

/-- An attempt that is over may still fail. -/
theorem Tracks.resumeOver (ha : s.attempts[i]? = some a) (ho : a.phase.isOver = true) :
    Persists (s.resumeAttempt i a result sha) ∨ Tracks sha (s.resumeAttempt i a result sha) := by
  have hend : Tracks sha (s.endAttempt i a) := by
    have hs := h.endOver ha (f := fun item => item) (fun _ _ h => h)
    rw [modifyItem_id] at hs
    exact hs
  cases hph : a.phase with
  | aborting after stage =>
    rw [hph] at ho
    cases after with
    | ended =>
      simp only [resumeAttempt, hph]
      split
      · have hcur := isTransferCurrent_of_serving h.toServing
          (h.generations a (mem_of_getElem? ha))
        cases hi : s.items[a.item]? with
        | none =>
          unfold fail
          rw [hcur, hi]
          exact .inr hend
        | some item =>
          rcases @fail_cases _ i _ result _ hcur hi with ⟨f, hf, heq⟩ | hper
          · rw [heq]
            refine .inr (h.endOver ha ?_)
            intro item' hi' hleads
            rw [hi] at hi'
            cases hi'
            exact hf hleads
          · exact .inl hper
      · exact .inr hend
    | _ => cases ho
  | done =>
    simp only [resumeAttempt, hph]
    exact .inr h
  | _ =>
    rw [hph] at ho
    cases ho

theorem Tracks.resume :
    Persists (s.next sha (.resume i result)) ∨ Tracks sha (s.next sha (.resume i result)) := by
  simp only [BlobDownloads.next]
  cases ha : s.attempts[i]? with
  | none => exact .inr h
  | some a =>
    cases hact : a.phase.isOver with
    | true => exact h.resumeOver ha hact
    | false =>
      exact h.fine ha hact (.resume ha (h.hasItem ha hact) (h.active i a ha hact).2)

theorem Tracks.read : Persists (s.next sha (.read i)) ∨ Tracks sha (s.next sha (.read i)) := by
  simp only [BlobDownloads.next]
  cases ha : s.attempts[i]? with
  | none => exact .inr h
  | some a =>
    dsimp only
    cases hact : a.phase.isOver with
    | true =>
      unfold sampleRead
      split
      · next hph =>
        rw [hph] at hact
        cases hact
      · next hph =>
        rw [hph] at hact
        cases hact
      · exact .inr h
    | false =>
      exact h.fine ha hact (.sampleRead ha (h.hasItem ha hact) (h.active i a ha hact).2)

theorem Tracks.call {file : ℕ} {stat : ℕ × ℕ} :
    Persists (s.next sha (.call i file stat)) ∨ Tracks sha (s.next sha (.call i file stat)) := by
  simp only [BlobDownloads.next]
  cases ha : s.attempts[i]? with
  | none => exact .inr h
  | some a =>
    dsimp only
    cases hact : a.phase.isOver with
    | true =>
      have hnot : s.applyCall i a file stat = s := by
        unfold applyCall
        split
        · next hph =>
          rw [hph] at hact
          cases hact
        · next hph =>
          rw [hph] at hact
          cases hact
        · next hph =>
          rw [hph] at hact
          cases hact
        · next hph =>
          rw [hph] at hact
          cases hact
        · rfl
      rw [hnot]
      exact .inr h
    | false =>
      exact h.fine ha hact (.applyCall ha (h.hasItem ha hact) (h.active i a ha hact).2)

/-- The drain takes an item when nobody works any more. -/
theorem Tracks.drain (hheard : (RefUpdateEvent.drain result).IsHeard s) :
    Persists (s.drain result) ∨ Tracks sha (s.drain result) := by
  unfold BlobDownloads.drain
  split
  · exact .inr h
  · next id hq =>
    split
    · exact .inr h
    · next item hi =>
      split
      · next hr =>
        simp only [Bool.and_eq_true, Bool.not_eq_true'] at hr
        have ho : ∀ a ∈ s.attempts, a.phase.isOver = true := by
          refine hheard ?_
          rw [hq, any_some, hi, any_some, hr.1.2]
          rfl
        obtain ⟨hsyn, item', hi', hleads⟩ := h.queue id hq
        rw [hi] at hi'
        cases hi'
        have hhas : HasItem ((s.modifyItem id fun item =>
            { item with isProcessing := true }).start id item) (item.startAttempt id) :=
          ⟨⟨h.downloadGateOpen, h.destroyed, h.attentionAcceptInFlight⟩, hq, hsyn,
            hleads.generation_eq, _, getElem?_modifyItem _ hi,
            ⟨hleads.heads.rerun, hleads.heads.target⟩, fun h => (by cases h),
            hleads.generation_eq⟩
        refine @tracks_of_fine _ _ _ (item.startAttempt id) _ _ ?_ hleads.generation_eq ?_
          (Fine.process hhas)
        · intro b hb
          rcases mem_append.mp hb with hb | hb
          · exact h.generations b hb
          rw [mem_singleton.mp hb]
          exact hleads.generation_eq
        intro j b hb hact
        rcases getElem?_append_one hb with hb | ⟨-, rfl⟩
        · rw [ho b (mem_of_getElem? hb)] at hact
          cases hact
        · cases hact
      · exact .inr h

end

/-- What an attempt knows is not about the reference, unless it records something. -/
theorem KnowsPath.update {w' : DownloadWorld} (h : KnowsPath sha w phase) (hfile : w'.file = w.file)
    (hdisk : w'.disk = w.disk) (hstage : w'.stage = w.stage)
    (hsettle : w'.settledRef = w.settledRef)
    (hrecording : phase.recording = none ∨ w'.live = w.live) : KnowsPath sha w' phase := by
  have hhash : ∀ {hash}, w.HasHash sha hash → w'.HasHash sha hash := by
    rintro hash ⟨file, data, hf, hd, heq⟩
    exact ⟨file, data, hfile.trans hf, by rw [hdisk, hd], heq⟩
  refine ⟨?_, fun source snapshot hr => hhash (h.returned source snapshot hr), ?_, ?_, ?_⟩
  · intro source purpose data hh
    rw [hdisk]
    exact h.held source purpose data hh
  · intro hkps
    rw [hstage]
    exact h.stage hkps
  · intro ref href
    rw [hsettle]
    exact ⟨hhash (h.settled ref href).1, (h.settled ref href).2⟩
  intro ref sourceVersion href
  rcases hrecording with hn | hl
  · rw [hn] at href
    cases href
  have hk := h.recording ref sourceVersion href
  simp only [BlobPathWorld.getBlobRef, BlobPathWorld.getBlobSourceVersion, hl] at hk ⊢
  exact hk

/-- The queue after an update of the reference. -/
theorem Tracks.enqueue (h : Tracks sha s) {ref : BlobRef} {s₁ : BlobDownloads}
    (hitems : s₁.items = s.items) (hatts : s₁.attempts = s.attempts)
    (hgen : s₁.generation = s.generation) (hq : s₁.queued = s.queued)
    (hser : s₁.Serving) (hsyn : s₁.world.isSyncable = true)
    (href : s₁.world.getAuthoritativeDownloadRef = some ref)
    (hleg : (s₁.world.attention.any (·.reason = .legacyMissingBlob)) = false)
    (hf : s₁.world.file = s.world.file) (hd : s₁.world.disk = s.world.disk)
    (hs : s₁.world.stage = s.world.stage) (hset : s₁.world.settledRef = s.world.settledRef)
    (hrec : ∀ a ∈ s.attempts, a.phase.isOver = false → a.phase.recording = none)
    (acceptableLocalHashes : List JsString) :
    Tracks sha (s₁.enqueueDownload ref.hash acceptableLocalHashes) := by
  have hact : ∀ {world : DownloadWorld}, world = s₁.world → ∀ (i : ℕ) (a : DownloadAttempt),
      s₁.attempts[i]? = some a → a.phase.isOver = false →
      s₁.queued = some a.item ∧ KnowsPath sha world a.phase := by
    rintro world rfl i a ha hact
    rw [hatts] at ha
    obtain ⟨hi, hknows⟩ := h.active i a ha hact
    exact ⟨hq.trans hi, hknows.update hf hd hs hset (.inl (hrec a (mem_of_getElem? ha) hact))⟩
  have hstamps : ∀ a ∈ s₁.attempts, a.generation = s₁.generation := by
    rw [hatts, hgen]
    exact h.generations
  have hal : ∀ (i j : ℕ) (a b : DownloadAttempt), s₁.attempts[i]? = some a →
      s₁.attempts[j]? = some b → a.phase.isOver = false → b.phase.isOver = false → i = j := by
    rw [hatts]
    exact h.alone
  have hserves : ∀ {s₂ : BlobDownloads}, s₂.world = s₁.world → s₂.Serving := by
    intro s₂ hworld
    exact ⟨hworld ▸ hser.downloadGateOpen, hworld ▸ hser.destroyed,
      hworld ▸ hser.attentionAcceptInFlight⟩
  unfold enqueueDownload
  rw [hsyn, hser.attentionAcceptInFlight, hleg, href]
  simp only [Bool.not_true, Bool.or_false, Bool.false_eq_true, if_false, any_some,
    decide_true, if_true]
  have htgt : ∀ hashes, DownloadTarget.Is
      ⟨ref.hash, blobRefFingerprint (some ref), hashes⟩ ref := fun _ => ⟨rfl, .inr rfl⟩
  split
  · next id hid =>
    obtain ⟨-, item, hi, hleads⟩ := h.queue id (hq.symm.trans hid)
    rw [← hitems] at hi
    refine ⟨hserves rfl, ?_, ?_, hstamps, hact rfl, hal⟩
    · intro id' hid'
      have hsa : id = id' := some.inj (hid.symm.trans hid')
      subst hsa
      refine ⟨hsyn, _, getElem?_modifyItem _ hi, ?_⟩
      split
      · next hproc =>
        refine ⟨⟨rfl, fun ref' href' => ?_⟩, fun hp => ?_, ?_⟩
        · change s₁.world.getAuthoritativeDownloadRef = some ref' at href'
          rw [href] at href'
          cases href'
          exact htgt _
        · change item.isProcessing = false at hp
          rw [hproc] at hp
          cases hp
        · exact hleads.generation_eq.trans hgen.symm
      · next hproc =>
        have hnx := hleads.pending (Bool.not_eq_true _ ▸ hproc)
        refine ⟨⟨hleads.heads.rerun, fun ref' href' => ?_⟩, fun _ => hnx, rfl⟩
        change s₁.world.getAuthoritativeDownloadRef = some ref' at href'
        rw [href] at href'
        cases href'
        rw [hnx]
        exact htgt _
    · intro hn
      exact absurd (hid.symm.trans hn) (by simp)
  · next hn =>
    refine ⟨hserves rfl, ?_, ?_, hstamps, ?_, hal⟩
    · intro id hid
      cases hid
      refine ⟨hsyn, _, getElem?_concat_length, ⟨rfl, fun ref' href' => ?_⟩, fun _ => rfl, rfl⟩
      change s₁.world.getAuthoritativeDownloadRef = some ref' at href'
      rw [href] at href'
      cases href'
      exact htgt _
    · nofun
    intro i a ha ho
    obtain ⟨hi, -⟩ := hact rfl i a ha ho
    rw [hn] at hi
    cases hi

/-- Nobody works, the queue is emptied, and the path is answered. -/
theorem Tracks.dropped (h : Tracks sha s) (hatts : s'.attempts = s.attempts)
    (hgen : s'.generation = s.generation) (hq : s'.queued = none)
    (hser : s'.Serving) (hans : s'.Answers sha)
    (ho : ∀ a ∈ s.attempts, a.phase.isOver = true) : Tracks sha s' := by
  have hnob : ∀ (i : ℕ) (a : DownloadAttempt), s'.attempts[i]? = some a →
      a.phase.isOver ≠ false := by
    intro i a ha hact
    rw [hatts] at ha
    rw [ho a (mem_of_getElem? ha)] at hact
    cases hact
  refine ⟨hser, ?_, fun _ => hans, ?_, ?_, ?_⟩
  · intro id hid
    rw [hq] at hid
    cases hid
  · rw [hatts, hgen]
    exact h.generations
  · intro i a ha hact
    exact absurd hact (hnob i a ha)
  intro i _ a _ ha _ hact
  exact absurd hact (hnob i a ha)

theorem resolveRemoteDelete_eq (s : BlobDownloads) : ∃ attention,
    s.resolveRemoteDelete = s.withWorld { s.world with attention } := by
  unfold resolveRemoteDelete
  split
  · exact ⟨none, rfl⟩
  · exact ⟨s.world.attention, rfl⟩

theorem Tracks.update (h : Tracks sha s) {ref : BlobRef}
    {sourceVersion : Option JsString} {tombstone : Option BlobTombstone}
    {isCausal artifactIsFile : Bool}
    (hheard :
      (RefUpdateEvent.update ref sourceVersion tombstone isCausal artifactIsFile).IsHeard s) :
    Persists (s.observeBlobRef ref sourceVersion tombstone isCausal artifactIsFile) ∨
      Tracks sha
        (s.observeBlobRef ref sourceVersion tombstone isCausal artifactIsFile) := by
  have hser : ∀ {attention : Option BlobAttentionEntry},
      ((s.withBlobRef ref sourceVersion tombstone).withWorld
        { (s.withBlobRef ref sourceVersion tombstone).world with attention }).Serving :=
    ⟨h.downloadGateOpen, h.destroyed, h.attentionAcceptInFlight⟩
  unfold observeBlobRef
  dsimp only
  split
  · next hout =>
    have hout : s.world.isSyncable = false := by
      rw [Bool.not_eq_true'] at hout
      exact hout
    have hn : s.queued = none := by
      cases hq : s.queued with
      | none => rfl
      | some id =>
        rw [(h.queue id hq).1] at hout
        cases hout
    refine .inr (h.dropped rfl rfl rfl ⟨h.downloadGateOpen, h.destroyed,
      h.attentionAcceptInFlight⟩ ?_ ?_)
    · intro ref' hin
      exact absurd (hout.symm.trans hin) Bool.false_ne_true
    intro a ha
    by_contra hact
    obtain ⟨i, ha⟩ := getElem?_of_mem ha
    have hi := (h.active i a ha (Bool.not_eq_true _ ▸ hact)).1
    rw [hn] at hi
    cases hi
  · next hin =>
    rw [Bool.not_eq_true', Bool.not_eq_false] at hin
    obtain ⟨attention, heq⟩ := resolveRemoteDelete_eq (s.withBlobRef ref sourceVersion tombstone)
    rw [heq]
    unfold scheduleDownload
    split
    · next hsg =>
      obtain ⟨stage, hs, hk⟩ := (Option.any_eq_true ..).mp hsg
      rcases hheard with ho | ⟨hsup, -⟩
      · exact .inr (h.dropped rfl rfl rfl ⟨h.downloadGateOpen, h.destroyed,
          h.attentionAcceptInFlight⟩ (answers_of_stage (congrArg Option.isSome hs)) ho)
      rw [Bool.not_eq_true'] at hk
      exact absurd (hk.symm.trans (hsup stage hs)) Bool.false_ne_true
    split
    · next hleg =>
      obtain ⟨entry, he, hreason⟩ := (Option.any_eq_true ..).mp hleg
      exact .inl (.inr ⟨entry, he, by rw [of_decide_eq_true hreason]; rfl⟩)
    · next hleg =>
      split
      · next hcon =>
        obtain ⟨entry, he, hreason⟩ := (Option.any_eq_true ..).mp hcon
        simp only [Bool.and_eq_true, decide_eq_true_eq] at hreason
        exact .inl (.inr ⟨entry, he, by rw [hreason.1.1.1.1]; rfl⟩)
      split
      · next hout =>
        rw [Bool.not_eq_true'] at hout
        exact absurd (hout.symm.trans hin) Bool.false_ne_true
      refine .inr (@Tracks.enqueue sha s h ref
        ((s.withBlobRef ref sourceVersion tombstone).withWorld
          { (s.withBlobRef ref sourceVersion tombstone).world with attention })
        rfl rfl rfl rfl hser hin rfl (Bool.eq_false_iff.mpr hleg) rfl rfl rfl rfl
        ?_ _)
      intro a ha hact
      rcases hheard with ho | ⟨-, hrec⟩
      · rw [ho a ha] at hact
        cases hact
      · exact hrec a ha

theorem Tracks.around (h : Tracks sha s) {w : DownloadWorld} (hl : w.live = s.world.live)
    (hsyn : w.isSyncable = s.world.isSyncable) (hf : w.file = s.world.file)
    (hd : w.disk = s.world.disk) (hsg : w.stage = s.world.stage)
    (hset : w.settledRef = s.world.settledRef) (hatt : w.attention = s.world.attention)
    (hser : (s.withWorld w).Serving) : Tracks sha (s.withWorld w) := by
  have href : w.getAuthoritativeDownloadRef = s.world.getAuthoritativeDownloadRef := by
    rw [getAuthoritativeDownloadRef_eq, getAuthoritativeDownloadRef_eq, hl]
  refine ⟨hser, ?_, ?_, h.generations, ?_, h.alone⟩
  · intro id hid
    obtain ⟨hin, item, hi, hleads⟩ := h.queue id hid
    refine ⟨hsyn.trans hin, item, hi, ⟨hleads.heads.rerun, fun ref hs => ?_⟩,
      hleads.pending, hleads.generation_eq⟩
    exact hleads.heads.target ref (href.symm.trans hs)
  · intro hn ref hin hs
    have hans := h.idle hn ref (hsyn.symm.trans hin) (href.symm.trans hs)
    simp only [DownloadWorld.HasTarget, BlobDownloads.RecordsDisagreement,
      BlobPathWorld.getSettledRef, withWorld, hf, hd, hsg, hset,
      hatt] at hans ⊢
    exact hans
  · intro i a ha hact
    obtain ⟨hi, hknows⟩ := h.active i a ha hact
    exact ⟨hi, hknows.update hf hd hsg hset (.inr hl)⟩

/-- A record that stays is kept by every event. -/
theorem persists_next (h : Persists s) : Persists (s.nextUpdate sha event) := by
  have hk : ∀ {s' : BlobDownloads}, s.permanentFailures ≤ s'.permanentFailures →
      (s'.world.attention = s.world.attention ∨ ∃ entry, s'.world.attention = some entry ∧
        entry.reason = .remoteDownloadLocalConflict) → Persists s' := by
    intro s' hfail hatt
    rcases h with hc | ⟨entry, he, hreason⟩
    · exact .inl (Nat.lt_of_lt_of_le hc hfail)
    rcases hatt with hs | ⟨entry', he', hreason'⟩
    · exact .inr ⟨entry, hs.trans he, hreason⟩
    · exact .inr ⟨entry', he', by rw [hreason']; rfl⟩
  have hn : ∀ event : DownloadEvent, (∀ w, event ≠ .world w) → event ≠ .destroy →
      Persists (s.next sha event) := by
    intro event hworld hdes
    have hmoves := next_moves sha s event
    generalize s.next sha event = s' at hmoves ⊢
    cases hmoves with
    | quiet h => exact hk h.failures (.inl (h.attention hworld hdes))
    | starts h heff =>
      exact hk (h.failures.ge.trans heff.failures) (by rw [← h.world]; exact heff.attention)
    | calls _ hef => exact hk hef.keeps.2.2.1.ge (.inl hef.keeps.2.2.2)
    | goes _ _ heff => exact hk heff.failures heff.attention
  cases event with
  | update ref sourceVersion tombstone isCausal artifactIsFile =>
    -- only an entry about a remote delete is resolved
    have hres : ∀ {s₁ : BlobDownloads}, s₁.permanentFailures = s.permanentFailures →
        s₁.world.attention = s.world.attention → Persists s₁.resolveRemoteDelete := by
      intro s₁ hfail hatt
      unfold resolveRemoteDelete
      split
      · next hany =>
        obtain ⟨entry, he, hd⟩ := (Option.any_eq_true ..).mp hany
        rcases h with hc | ⟨entry', he', hreason⟩
        · exact .inl (hfail ▸ hc)
        rw [hatt, he'] at he
        cases he
        exact absurd (hreason.symm.trans hd) Bool.false_ne_true
      · exact hk hfail.ge (.inl hatt)
    have hstays : ∀ {s₁ s₂ : BlobDownloads}, Stays s₁ s₂ → Persists s₁ → Persists s₂ := by
      intro s₁ s₂ hstays hper
      rcases hper with hc | ⟨entry, he, hreason⟩
      · exact .inl (Nat.lt_of_lt_of_le hc hstays.failures)
      · exact .inr ⟨entry, by rw [hstays.world, he], hreason⟩
    simp only [nextUpdate, observeBlobRef]
    split
    · exact hk (Nat.le_refl _) (.inl rfl)
    refine hstays ?_ (@hres (s.withBlobRef ref sourceVersion tombstone) rfl rfl)
    unfold scheduleDownload
    split
    · exact (keeps_dropQueued _).toStays
    split
    · exact (keeps_dropQueued _).toStays
    split
    · exact (keeps_dropQueued _).toStays
    split
    · exact (keeps_dropQueued _).toStays
    · exact stays_enqueue ..
  | around => exact hk (Nat.le_refl _) (.inl rfl)
  | drain result =>
    simp only [nextUpdate]
    exact hn (.drain result) (fun _ h => nomatch h) nofun
  | read i =>
    simp only [nextUpdate]
    exact hn (.read i) (fun _ h => nomatch h) nofun
  | call i file stat =>
    simp only [nextUpdate]
    exact hn (.call i file stat) (fun _ h => nomatch h) nofun
  | resume i result =>
    simp only [nextUpdate]
    exact hn (.resume i result) (fun _ h => nomatch h) nofun

theorem tracks_next (h : Tracks sha s) (hheard : event.IsHeard s) :
    Persists (s.nextUpdate sha event) ∨ Tracks sha (s.nextUpdate sha event) := by
  cases event with
  | update ref sourceVersion tombstone isCausal artifactIsFile => exact h.update hheard
  | around => exact .inr (h.around rfl rfl rfl rfl rfl rfl rfl ⟨h.downloadGateOpen, h.destroyed,
      h.attentionAcceptInFlight⟩)
  | drain result => exact h.drain hheard
  | read i => exact h.read
  | call i file stat => exact h.call
  | resume i result => exact h.resume

variable {events : List RefUpdateEvent}

theorem tracks_at (hser : BlobDownloads.Serving { world := w })
    (hans : BlobDownloads.Answers sha { world := w })
    (hheard : ∀ (m : ℕ) (event : RefUpdateEvent), events[m]? = some event →
      event.IsHeard (updatesAt sha w events m)) (n : ℕ) :
    Persists (updatesAt sha w events n) ∨ Tracks sha (updatesAt sha w events n) := by
  induction n with
  | zero =>
    refine .inr ⟨hser, (fun _ h => by cases h), fun _ => hans, (fun _ h => by cases h), ?_,
      ?_⟩
    · intro i a ha
      cases ha
    intro i j a b ha
    cases ha
  | succ n ih =>
    rcases stateAt_step (nextUpdate sha) { world := w } events n with
      ⟨-, heq⟩ | ⟨event, hev, heq⟩
    · rw [updatesAt, heq]
      exact ih
    rw [updatesAt, heq]
    rcases ih with hper | htracks
    · exact .inl (persists_next hper)
    · exact tracks_next htracks (hheard n event hev)

end Runs

/-- The latest reference is not lost: once nothing is queued or in flight, the path has it, or
something is on record, provided that every update could be heard. -/
theorem latest_target_never_lost (sha : List UInt8 → JsString) (w : DownloadWorld)
    (hserving : BlobDownloads.Serving { world := w })
    (hanswers : BlobDownloads.Answers sha { world := w }) (events : List RefUpdateEvent)
    (hheard : ∀ (m : ℕ) (event : RefUpdateEvent), events[m]? = some event →
      event.IsHeard (updatesAt sha w events m)) (n : ℕ)
    (hidle : (updatesAt sha w events n).IsIdle) :
    (updatesAt sha w events n).Answers sha := by
  rcases tracks_at hserving hanswers hheard n with (hc | ⟨entry, he, -⟩) | htracks
  · exact fun _ _ _ => .inr (.inr (.inr (.inl hc)))
  · exact fun _ _ _ => .inr (.inl (congrArg Option.isSome he))
  · exact htracks.idle hidle.1

/-- A path with nothing at it and nothing on record. -/
def vacantAttachment : DownloadWorld :=
  { advancedAttachment with
    live := none, file := none, disk := fun _ => none, settledRef := none
    settledSourceVersion := none }

/-- A reference comes, is downloaded, created, read and settled. -/
def settledEvents : List RefUpdateEvent :=
  [.update { hash := firstByteDigest [49], size := 1 } (some [49]) none true false, .drain {},
    .resume 0 { data := [49] }, .resume 0 {}, .resume 0 { stageId := [49] }, .call 0 5 (1, 1),
    .resume 0 {}, .read 0, .resume 0 {}, .resume 0 {}, .resume 0 {}, .resume 0 {}, .resume 0 {}]

theorem settled_target_not_lost :
    (updatesAt firstByteDigest vacantAttachment settledEvents 13).Answers firstByteDigest := by
  refine latest_target_never_lost firstByteDigest vacantAttachment ⟨rfl, rfl, rfl⟩
    (answers_of_absent rfl) settledEvents ?_ 13
    ⟨by decide, all_eq_true.mp (by decide)⟩
  intro m event hev
  rcases m with - | - | m
  · cases hev
    exact .inl (fun _ ha => by cases ha)
  · cases hev
    exact fun _ _ ha => by cases ha
  have hmem : event ∈ settledEvents.drop 2 := mem_of_getElem? (i := m) hev
  simp only [settledEvents, List.drop, mem_cons, not_mem_nil, or_false] at hmem
  rcases hmem with rfl | rfl | rfl | rfl | rfl | rfl | rfl | rfl | rfl | rfl | rfl <;> trivial

/-- The reference is followed by another one while the path's folder is created. -/
def supersededEvents : List RefUpdateEvent :=
  [.update { hash := firstByteDigest [49], size := 1 } (some [49]) none true false, .drain {},
    .resume 0 { data := [49] }, .resume 0 {}, .resume 0 { stageId := [49] },
    .update { hash := firstByteDigest [50], size := 1 } (some [50]) none true false,
    .resume 0 {}, .resume 0 {}]

/-- The second reference is neither downloaded nor on record. -/
theorem update_under_stage_lost : ¬ ∀ (sha : List UInt8 → JsString)
    (w : DownloadWorld), BlobDownloads.Serving { world := w } →
    BlobDownloads.Answers sha { world := w } →
    ∀ (events : List RefUpdateEvent) (n : ℕ), (updatesAt sha w events n).IsIdle →
      (updatesAt sha w events n).Answers sha := by
  intro h
  have hidle : (updatesAt firstByteDigest { vacantAttachment with parentMissing := true }
      supersededEvents 8).IsIdle := by
    exact ⟨by decide, all_eq_true.mp (by decide)⟩
  have hans := h firstByteDigest { vacantAttachment with parentMissing := true }
    ⟨rfl, rfl, rfl⟩ (answers_of_absent rfl) supersededEvents 8 hidle
    { hash := firstByteDigest [50], size := 1 } rfl (by decide)
  rcases hans with ⟨⟨file, data, hf, -⟩, -⟩ | hatt | hsg | hc | ⟨hs, -⟩
  · cases hf
  · exact absurd hatt (by decide)
  · exact absurd hsg (by decide)
  · exact absurd hc (by decide)
  · exact absurd hs (by decide)

end Kaos.Sync
