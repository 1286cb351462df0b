import Kaos.Lib.WorkQueue
import Kaos.Sync.BlobDownloadNoClobber

/-! A fence of a path ends the transfers that were under way there. -/
namespace Kaos.Sync

open Kaos.Lib BlobDownloads List WorkQueue

variable {sha : List UInt8 → JsString}

/-- An attempt keeps its item. -/
theorem map_set_same {α β : Type} {l : List α} {f : α → β} {i : ℕ} {a b : α}
    (ha : l[i]? = some a) (hb : f b = f a) : (l.set i b).map f = l.map f := by
  obtain ⟨hi, rfl⟩ := List.getElem?_eq_some_iff.mp ha
  rw [List.map_set, hb]
  have hi' : i < (l.map f).length := by rwa [List.length_map]
  rw [← getElem_map f (h := hi'), set_getElem_self]

section Uploads

variable {s s' : BlobUploads} {i : ℕ} {a : UploadAttempt} {event : UploadEvent}

def BlobUploads.workQueue (s : BlobUploads) : WorkQueue :=
  ⟨s.items.length, s.queued, s.attempts.map (·.item)⟩

theorem Effect.grows (ha : s.attempts[i]? = some a) (h : Effect sha s s' i a) :
    s.workQueue.Grows s'.workQueue := by
  obtain ⟨phase, hatts, -⟩ := h.attempts
  refine .of_owners h.length.ge ?_ ?_
  · intro id hid
    rcases h.queued with hs | hn
    · exact .inl (hs.symm.trans hid)
    · cases hn.symm.trans hid
  change s'.attempts.map _ = s.attempts.map _
  rw [hatts]
  exact map_set_same ha rfl

theorem enqueue_grows (s : BlobUploads) (resolution : Option BlobKeepLocalUploadResolution)
    (allowAttentionAdmission : Bool) :
    s.workQueue.Grows (s.enqueueUpload resolution allowAttentionAdmission).workQueue := by
  have hmod : ∀ id f, s.workQueue.length ≤ (s.items.modify id f).length := by
    intro id f
    rw [length_modify]
    exact Nat.le_refl _
  unfold BlobUploads.enqueueUpload
  split
  · exact .refl _
  split
  · split
    · split
      · exact .of_owners (hmod _ _) (fun _ h => .inl h) rfl
      · exact .refl _
    · exact .refl _
  split
  · exact .refl _
  split
  · exact .of_owners (hmod _ _) (fun _ h => .inl h) rfl
  · exact .of_push length_append rfl rfl

theorem uploads_grow (s : BlobUploads) (event : UploadEvent) :
    s.workQueue.Grows (s.next sha event).workQueue := by
  have hn : ∀ {s' : BlobUploads}, s'.items = s.items → s'.queued = none →
      s'.attempts = s.attempts → s.workQueue.Grows s'.workQueue := by
    intro s' hitems hq hatts
    refine .of_owners (congrArg List.length hitems).ge ?_ (congrArg (List.map _) hatts)
    intro id hid
    cases hq.symm.trans hid
  cases event with
  | world w => exact .refl _
  | enqueue resolution allowAttentionAdmission => exact enqueue_grows ..
  | importUpload item =>
    simp only [BlobUploads.next, BlobUploads.importUpload]
    split
    · exact .refl _
    · exact .of_push length_append rfl rfl
  | fence | delete | destroy => exact hn rfl rfl rfl
  | drain result =>
    simp only [BlobUploads.next]
    rcases drain_spec sha s result with heq | ⟨id, item, hid, hit, -, hef⟩
    · rw [heq]
      exact .refl _
    have hlt := (List.getElem?_eq_some_iff.mp hit).1
    refine .trans ?_ (hef.grows getElem?_concat_length)
    refine ⟨(length_modify ..).ge, fun _ h => .inl h, ?_, ?_⟩
    · change s.attempts.map _ <+: (s.attempts ++ _).map _
      rw [map_append]
      exact prefix_append _ _
    intro id' hid'
    change id' ∈ (s.attempts ++ [_]).map _ at hid'
    rw [map_append, mem_append] at hid'
    rcases hid' with hold | hnew
    · exact .inl hold
    right
    rw [mem_singleton.mp hnew]
    exact hlt.trans_eq (length_modify ..).symm
  | read j =>
    simp only [BlobUploads.next]
    split
    · next a ha =>
      unfold BlobUploads.sampleRead
      split
      · exact .of_owners (Nat.le_refl _) (fun _ h => .inl h) (map_set_same ha rfl)
      · exact .of_owners (Nat.le_refl _) (fun _ h => .inl h) (map_set_same ha rfl)
      · exact .refl _
    · exact .refl _
  | resume j result =>
    simp only [BlobUploads.next]
    split
    · next a ha =>
      rcases resume_spec ha with hef | ⟨s', hef, heq⟩
      · exact hef.grows ha
      rw [heq]
      exact (hef.grows ha).trans (enqueue_grows ..)
    · exact .refl _

variable {w : BlobPathWorld} {events : List UploadEvent}

theorem uploads_grow_at (w : BlobPathWorld) (events : List UploadEvent) (n : ℕ) :
    (uploadsAt sha w events n).workQueue.Grows
      (uploadsAt sha w events (n + 1)).workQueue := by
  rcases stateAt_step (BlobUploads.next sha) { world := w } events n with
    ⟨-, heq⟩ | ⟨event, -, heq⟩
  · change uploadsAt sha w events (n + 1) = uploadsAt sha w events n at heq
    rw [heq]
    exact .refl _
  change uploadsAt sha w events (n + 1) = (uploadsAt sha w events n).next sha event at heq
  rw [heq]
  exact uploads_grow _ event

theorem uploads_owned (w : BlobPathWorld) (events : List UploadEvent) (n : ℕ) :
    (uploadsAt sha w events n).workQueue.Owned := by
  refine WorkQueue.Owned.grows ?_ (grows_of_le (uploads_grow_at w events) (Nat.zero_le n))
  exact nofun

section Fence

variable {m n : ℕ} (hfence : events[m]? = some .fence) (hmn : m < n)
  (hi : i < (uploadsAt sha w events m).attempts.length)
include hfence hmn hi

/-- After a fence no attempt that was there before it is current. -/
theorem upload_not_current (ha : (uploadsAt sha w events n).attempts[i]? = some a) :
    (uploadsAt sha w events n).isUploadAttemptCurrent a = false := by
  by_contra hc
  simp only [BlobUploads.isUploadAttemptCurrent, Bool.not_eq_false, Bool.and_eq_true,
    decide_eq_true_eq] at hc
  have hgrows := grows_of_le (@uploads_grow_at sha w events) (Nat.succ_le_of_lt hmn)
  have hf : uploadsAt sha w events (m + 1) =
      (uploadsAt sha w events m).fenceTransfersForPath := stateAt_succ hfence
  have ho : (uploadsAt sha w events n).workQueue.owners[i]? = some a.item := by
    change (List.map _ _)[i]? = _
    rw [getElem?_map, ha]
    rfl
  refine (hgrows.owner_not_queued (uploads_owned w events (m + 1)) ?_ ?_ ho).2 hc.1.2
  · rw [hf]
    rfl
  change i < (List.map _ (uploadsAt sha w events (m + 1)).attempts).length
  rw [hf, length_map]
  exact hi

/-- After a fence no attempt that was there before it publishes a reference. -/
theorem upload_fenced (ref : BlobRef) : (uploadsAt sha w events (n + 1)).published ≠
    (uploadsAt sha w events n).published ++ [(i, ref)] := by
  intro hpub
  rcases stateAt_step (BlobUploads.next sha) { world := w } events n with
    ⟨-, heq⟩ | ⟨event, -, heq⟩
  · change uploadsAt sha w events (n + 1) = uploadsAt sha w events n at heq
    rw [heq] at hpub
    exact absurd (self_eq_append_right.mp hpub) (cons_ne_nil _ _)
  change uploadsAt sha w events (n + 1) = (uploadsAt sha w events n).next sha event at heq
  rw [heq] at hpub
  have hch : ((uploadsAt sha w events n).next sha event).published ≠
      (uploadsAt sha w events n).published := by
    intro hs
    exact absurd (self_eq_append_right.mp (hs.symm.trans hpub)) (cons_ne_nil _ _)
  obtain ⟨j, result, a, stage, data, ref', -, ha, hpublishes⟩ := next_published hch
  have hl := append_cancel_left (hpub.symm.trans hpublishes.published)
  cases hl
  cases (upload_not_current hfence hmn hi ha).symm.trans hpublishes.attempt

end Fence

/-- What has been accepted has been published. -/
def HasPublished (s : BlobUploads) : Prop :=
  ∀ (i : ℕ) (a : UploadAttempt), s.attempts[i]? = some a → a.phase.isAccepted = true →
    ∃ ref, (i, ref) ∈ s.published

theorem HasPublished.effect (h : HasPublished s) (ha : s.attempts[i]? = some a)
    (heff : Effect sha s s' i a) : HasPublished s' := by
  have hmem : ∀ {j ref}, (j, ref) ∈ s.published → (j, ref) ∈ s'.published := by
    intro j ref hold
    rcases heff.published with hs | ⟨_, _, _, hpub⟩
    · rwa [hs]
    · rw [hpub.published]
      exact mem_append_left _ hold
  obtain ⟨phase, hset, hg⟩ := heff.attempts
  intro j b hb hacc
  rw [hset] at hb
  rcases getElem?_set_cases hb with ⟨-, hold⟩ | ⟨rfl, rfl⟩
  · exact (h j b hold hacc).imp fun ref => hmem
  rcases hg.accepted hacc with hbef | hch
  · exact (h _ a ha hbef).imp fun ref => hmem
  obtain ⟨_, _, ref, hpub⟩ := heff.published.resolve_left hch
  exact ⟨ref, hpub.published ▸ mem_append_right _ (mem_singleton_self _)⟩

theorem HasPublished.next (h : HasPublished s) (event : UploadEvent) :
    HasPublished (s.next sha event) := by
  have hkeep : ∀ {s' : BlobUploads}, s'.attempts = s.attempts ∧ s'.published = s.published →
      HasPublished s' := by
    rintro s' ⟨hatts, hpub⟩
    rw [HasPublished, hatts, hpub]
    exact h
  cases event with
  | world w | fence | delete | destroy => exact h
  | enqueue resolution allowAttentionAdmission =>
    exact hkeep ⟨(enqueue_attempts ..).1, (enqueue_attempts ..).2.1⟩
  | importUpload item => exact hkeep (import_attempts ..)
  | drain result =>
    simp only [BlobUploads.next]
    rcases drain_spec sha s result with heq | ⟨id, item, -, -, -, hef⟩
    · rwa [heq]
    refine .effect ?_ getElem?_concat_length hef
    intro j b hb hacc
    rcases getElem?_append_one hb with hold | ⟨-, rfl⟩
    · exact h j b hold hacc
    · cases hacc
  | read j =>
    simp only [BlobUploads.next]
    split
    · next a ha =>
      unfold BlobUploads.sampleRead
      split
      all_goals
        intro k b hb hacc
        first
        | exact h k b hb hacc
        | rcases getElem?_set_cases hb with ⟨-, hold⟩ | ⟨rfl, rfl⟩
          · exact h k b hold hacc
          · cases hacc
    · exact h
  | resume j result =>
    simp only [BlobUploads.next]
    split
    · next a ha =>
      rcases resume_spec ha with hef | ⟨s', hef, heq⟩
      · exact h.effect ha hef
      rw [heq, HasPublished, (enqueue_attempts ..).1, (enqueue_attempts ..).2.1]
      exact h.effect ha hef
    · exact h

theorem published_at (w : BlobPathWorld) (events : List UploadEvent) (n : ℕ) :
    HasPublished (uploadsAt sha w events n) := by
  refine stateAt_invariant (P := HasPublished) ?_ (fun s event h => h.next event) n
  intro i a ha
  cases ha

/-- What an attempt that was there before a fence has published, it had published before. -/
theorem published_before {m n : ℕ} {ref : BlobRef} (hfence : events[m]? = some .fence)
    (hi : i < (uploadsAt sha w events m).attempts.length) (hmn : m ≤ n)
    (href : (i, ref) ∈ (uploadsAt sha w events n).published) :
    (i, ref) ∈ (uploadsAt sha w events m).published := by
  induction hmn with
  | refl => exact href
  | @step n hmn ih =>
    rcases stateAt_step (BlobUploads.next sha) { world := w } events n with
      ⟨-, heq⟩ | ⟨event, hev, heq⟩
    · change uploadsAt sha w events (n + 1) = uploadsAt sha w events n at heq
      rw [Nat.succ_eq_add_one, heq] at href
      exact ih href
    change uploadsAt sha w events (n + 1) = (uploadsAt sha w events n).next sha event at heq
    rw [Nat.succ_eq_add_one, heq] at href
    by_cases hch : ((uploadsAt sha w events n).next sha event).published =
        (uploadsAt sha w events n).published
    · exact ih (hch ▸ href)
    obtain ⟨j, result, a, _, _, ref', rfl, ha, hpub⟩ := next_published hch
    rw [hpub.published, mem_append, mem_singleton] at href
    rcases href with hold | hnew
    · exact ih hold
    cases hnew
    rcases Nat.eq_or_lt_of_le hmn with rfl | hlt
    · cases hfence.symm.trans hev
    cases (upload_not_current hfence hlt hi ha).symm.trans hpub.attempt

/-- The end of an await settles something only for a current attempt, or for one that has
published. -/
theorem resume_settles (ha : s.attempts[i]? = some a) (result : AwaitResult) :
    (s.resumeAttempt i a result sha).world.settlement = s.world.settlement ∨
      s.isUploadAttemptCurrent a = true ∨ a.phase.isAccepted = true := by
  rcases (resume_spec ha : Effect sha s (s.resumeAttempt i a result sha) i a ∨ _) with hef | ⟨s', hef, heq⟩
  · exact hef.settles
  rw [heq]
  rw [(enqueue_attempts s' none false).2.2]
  exact hef.settles

/-- After a fence no attempt that was there before it settles anything, unless it had published. -/
theorem upload_fenced_settles_nothing {m n : ℕ} {result : AwaitResult}
    (hfence : events[m]? = some .fence) (hmn : m < n)
    (hi : i < (uploadsAt sha w events m).attempts.length)
    (hunp : ∀ ref, (i, ref) ∉ (uploadsAt sha w events m).published)
    (hres : events[n]? = some (.resume i result)) :
    (uploadsAt sha w events (n + 1)).world.settlement =
      (uploadsAt sha w events n).world.settlement := by
  have heq : uploadsAt sha w events (n + 1) =
      (uploadsAt sha w events n).next sha (.resume i result) := stateAt_succ hres
  rw [heq]
  cases ha : (uploadsAt sha w events n).attempts[i]? with simp only [BlobUploads.next, ha]
  | some a =>
    rcases resume_settles ha result with hs | hc | hacc
    · exact hs
    · cases (upload_not_current hfence hmn hi ha).symm.trans hc
    obtain ⟨ref, href⟩ := published_at w events n i a ha hacc
    exact absurd (published_before hfence hi hmn.le href) (hunp ref)

end Uploads

section Downloads

variable {s s' : BlobDownloads} {i : ℕ} {a : DownloadAttempt} {event : DownloadEvent}

def BlobDownloads.workQueue (s : BlobDownloads) : WorkQueue :=
  ⟨s.items.length, s.queued, s.attempts.map (·.item)⟩

theorem KeepsQueue.grows (h : KeepsQueue s s')
    (hatts : s'.attempts.map (·.item) = s.attempts.map (·.item)) :
    s.workQueue.Grows s'.workQueue := by
  refine .of_owners h.length.ge ?_ hatts
  intro id hid
  rcases h.queued with hs | hn
  · exact .inl (hs.symm.trans hid)
  · cases hn.symm.trans hid

theorem Effects.grows (ha : s.attempts[i]? = some a)
    (h : Effects sha s s' event i a) : s.workQueue.Grows s'.workQueue := by
  obtain ⟨phase, hatts, -⟩ := h.attempts
  refine h.queue.grows ?_
  rw [hatts]
  exact map_set_same ha rfl

/-- An event keeps the stamps of the items, or stamps the queued one or a new one. -/
def Stamps (s s' : BlobDownloads) : Prop :=
  ∀ (id : ℕ) (item' : DownloadItem), s'.items[id]? = some item' →
    (∃ item, s.items[id]? = some item ∧ item'.generation = item.generation) ∨
    item'.generation = s.generation ∧ (s.queued = some id ∨ s.items.length ≤ id)

variable {item : DownloadItem}

theorem stamps_push (hit : item.generation = s.generation)
    (hitems : s'.items = s.items ++ [item]) : Stamps s s' := by
  intro id item' h
  rw [hitems] at h
  rcases getElem?_append_one h with hold | ⟨rfl, rfl⟩
  · exact .inl ⟨item', hold, rfl⟩
  · exact .inr ⟨hit, .inr (Nat.le_refl _)⟩

theorem KeepsQueue.toStamps (h : KeepsQueue s s') : Stamps s s' :=
  fun id item' hi' => .inl (h.stamps id item' hi')

theorem enqueueDownload_queue (s : BlobDownloads) (hash : JsString)
    (acceptableLocalHashes : List JsString) :
    s.workQueue.Grows (s.enqueueDownload hash acceptableLocalHashes).workQueue ∧
      Stamps s (s.enqueueDownload hash acceptableLocalHashes) ∧
      (s.enqueueDownload hash acceptableLocalHashes).generation = s.generation := by
  unfold enqueueDownload
  split
  · exact ⟨.refl _, (KeepsQueue.refl s).toStamps, rfl⟩
  dsimp only
  split
  · next id hid =>
    refine ⟨.of_owners (length_modify ..).ge (fun _ h => .inl h) rfl, ?_, rfl⟩
    intro other item' h
    obtain ⟨item, hit, heq⟩ := Option.map_eq_some_iff.mp ((getElem?_modify ..).symm.trans h)
    rw [← heq]
    split
    · next ho =>
      split
      · exact .inl ⟨item, hit, rfl⟩
      · exact .inr ⟨rfl, .inl (by rw [hid, ho])⟩
    · exact .inl ⟨item, hit, rfl⟩
  · exact ⟨.of_push length_append rfl rfl, stamps_push rfl rfl, rfl⟩

/-- What an event does to the queue. -/
theorem downloads_queue (s : BlobDownloads) (event : DownloadEvent) :
    s.workQueue.Grows (s.next sha event).workQueue ∧
      Stamps s (s.next sha event) ∧
      (event ≠ .destroy → s.generation ≤ (s.next sha event).generation) := by
  have hk : ∀ {s' : BlobDownloads}, KeepsQueue s s' →
      s'.attempts.map (·.item) = s.attempts.map (·.item) →
      s.workQueue.Grows s'.workQueue ∧ Stamps s s' ∧
        (event ≠ .destroy → s.generation ≤ s'.generation) :=
    fun h hatts => ⟨h.grows hatts, h.toStamps, fun _ => h.generation⟩
  have hrefl : s.workQueue.Grows s.workQueue ∧ Stamps s s ∧
      (event ≠ .destroy → s.generation ≤ s.generation) := hk (.refl s) rfl
  have heff : ∀ {s' : BlobDownloads} {j : ℕ} {b : DownloadAttempt},
      s.attempts[j]? = some b → Effects sha s s' event j b →
      s.workQueue.Grows s'.workQueue ∧ Stamps s s' ∧
        (event ≠ .destroy → s.generation ≤ s'.generation) :=
    fun hb h => ⟨h.grows hb, h.queue.toStamps, fun _ => h.queue.generation⟩
  cases event with
  | world w => exact hk (keepsQueue_of_items rfl (Nat.le_refl _) (.inl rfl)) rfl
  | fence => exact hk (keepsQueue_of_items rfl (Nat.le_succ _) (.inr rfl)) rfl
  | delete => exact hk (keepsQueue_of_items rfl (Nat.le_refl _) (.inr rfl)) rfl
  | destroy =>
    refine ⟨.of_owners (Nat.le_refl _) nofun rfl, ?_, fun h => absurd rfl h⟩
    exact fun id item h => .inl ⟨item, h, rfl⟩
  | enqueue hash acceptableLocalHashes =>
    obtain ⟨hgrows, hstamps, hgen⟩ := enqueueDownload_queue s hash acceptableLocalHashes
    exact ⟨hgrows, hstamps, fun _ => hgen.ge⟩
  | importDownload item =>
    simp only [BlobDownloads.next]
    split
    · exact hrefl
    · exact ⟨.of_push length_append rfl rfl, stamps_push rfl rfl, fun _ => Nat.le_refl _⟩
  | drain result =>
    simp only [BlobDownloads.next]
    rcases download_drain_spec sha s result with heq | ⟨s₀, b, hstarts, hs⟩
    · rw [heq]
      exact hrefl
    have hb : s₀.attempts[s.attempts.length]? = some b := by
      rw [hstarts.attempts]
      exact getElem?_concat_length
    have hboth := hstarts.queue.trans hs.queue
    refine ⟨.trans ?_ (hs.grows hb), hboth.toStamps, fun _ => hboth.generation⟩
    refine ⟨hstarts.queue.length.ge, ?_, ?_, ?_⟩
    · intro id hid
      rcases hstarts.queue.queued with hsa | hn
      · exact .inl (hsa.symm.trans hid)
      · cases hn.symm.trans hid
    · change s.attempts.map _ <+: s₀.attempts.map _
      rw [hstarts.attempts, map_append]
      exact prefix_append _ _
    intro id hid
    change id ∈ s₀.attempts.map _ at hid
    rw [hstarts.attempts, map_append, mem_append] at hid
    rcases hid with hold | hnew
    · exact .inl hold
    right
    rw [mem_singleton.mp hnew]
    exact hstarts.item.trans_eq hstarts.queue.length.symm
  | read j =>
    cases hb : s.attempts[j]? with simp only [BlobDownloads.next, hb]
    | none => exact hrefl
    | some b => exact heff hb (sampleRead_spec hb)
  | call j file stat =>
    cases hb : s.attempts[j]? with simp only [BlobDownloads.next, hb]
    | none => exact hrefl
    | some b =>
      have hef : CallEffect s j b file (s.applyCall j b file stat) := applyCall_spec
      obtain ⟨phase, hset, -⟩ := @CallEffect.attempts sha _ _ _ _ _ stat hef hb
      refine hk hef.keeps.1 ?_
      rw [hset]
      exact map_set_same hb rfl
  | resume j result =>
    cases hb : s.attempts[j]? with simp only [BlobDownloads.next, hb]
    | none => exact hrefl
    | some b => exact heff hb (download_resume_spec hb rfl)

variable {w : DownloadWorld} {events : List DownloadEvent}

theorem downloads_queue_at (sha : List UInt8 → JsString) (w : DownloadWorld)
    (events : List DownloadEvent) (n : ℕ) :
    (downloadsAt sha w events n).workQueue.Grows
        (downloadsAt sha w events (n + 1)).workQueue ∧
      Stamps (downloadsAt sha w events n)
        (downloadsAt sha w events (n + 1)) ∧
      (events[n]? ≠ some .destroy → (downloadsAt sha w events n).generation ≤
        (downloadsAt sha w events (n + 1)).generation) := by
  rcases stateAt_step (next sha) { world := w } events n with
    ⟨-, heq⟩ | ⟨event, hev, heq⟩
  · change downloadsAt sha w events (n + 1) = downloadsAt sha w events n
      at heq
    rw [heq]
    exact ⟨.refl _, (KeepsQueue.refl _).toStamps, fun _ => Nat.le_refl _⟩
  change downloadsAt sha w events (n + 1) = (downloadsAt sha w events n).next sha event at heq
  rw [heq, hev]
  obtain ⟨hgrows, hstamps, hgen⟩ := @downloads_queue sha (downloadsAt sha w events n) event
  refine ⟨hgrows, hstamps, fun h => hgen ?_⟩
  rintro rfl
  exact h rfl

theorem downloads_grow_at (w : DownloadWorld) (events : List DownloadEvent) (n : ℕ) :
    (downloadsAt sha w events n).workQueue.Grows
      (downloadsAt sha w events (n + 1)).workQueue :=
  (downloads_queue_at sha w events n).1

theorem downloads_owned (w : DownloadWorld) (events : List DownloadEvent) (n : ℕ) :
    (downloadsAt sha w events n).workQueue.Owned := by
  refine WorkQueue.Owned.grows ?_ (grows_of_le (downloads_grow_at w events) (Nat.zero_le n))
  exact nofun

theorem generation_le {m n : ℕ} (hmn : m ≤ n) (h : ∀ k < n, events[k]? ≠ some .destroy) :
    (downloadsAt sha w events m).generation ≤ (downloadsAt sha w events n).generation := by
  induction hmn with
  | refl => exact Nat.le_refl _
  | step _ ih =>
    refine (ih fun k hk => h k (Nat.lt_succ_of_lt hk)).trans ?_
    exact (downloads_queue_at sha w events _).2.2 (h _ (Nat.lt_succ_self _))

/-- No item is stamped with a generation that is yet to come. -/
theorem stamp_le {n : ℕ} (h : ∀ k < n, events[k]? ≠ some .destroy) {id : ℕ}
    (hit : (downloadsAt sha w events n).items[id]? = some item) :
    item.generation ≤ (downloadsAt sha w events n).generation := by
  induction n generalizing item with
  | zero => cases hit
  | succ n ih =>
    have hle : (downloadsAt sha w events n).generation ≤
        (downloadsAt sha w events (n + 1)).generation := generation_le (Nat.le_succ n) h
    rcases (downloads_queue_at sha w events n).2.1 id item hit with
      ⟨old, hold, hstamp⟩ | ⟨hstamp, -⟩
    · rw [hstamp]
      exact (ih (fun k hk => h k (Nat.lt_succ_of_lt hk)) hold).trans hle
    rw [hstamp]
    exact hle

/-- Items that were there when the queue was emptied keep their stamps. -/
theorem stamp_of_emptied {m n : ℕ} (hmn : m ≤ n)
    (hn : (downloadsAt sha w events m).queued = none) {id : ℕ}
    (hid : id < (downloadsAt sha w events m).items.length)
    (hit : (downloadsAt sha w events n).items[id]? = some item) :
    ∃ old, (downloadsAt sha w events m).items[id]? = some old ∧
      item.generation = old.generation := by
  induction hmn generalizing item with
  | refl => exact ⟨item, hit, rfl⟩
  | @step n hmn ih =>
    have hgrows := grows_of_le (@downloads_grow_at sha w events) hmn
    rcases (downloads_queue_at sha w events n).2.1 id item hit with
      ⟨before, hb, hstamp⟩ | ⟨-, hq | hnew⟩
    · obtain ⟨old, hold, hs⟩ := ih hb
      exact ⟨old, hold, hstamp.trans hs⟩
    · exact absurd hq (hgrows.not_queued hn hid)
    · exact absurd (hid.trans_le hgrows.length) (Nat.not_lt.mpr hnew)

/-- A manager that has been destroyed stays so. -/
def StaysDestroyed (sha : List UInt8 → JsString) (w : DownloadWorld)
    (events : List DownloadEvent) : Prop :=
  ∀ k n, k < n → events[k]? = some .destroy → (downloadsAt sha w events n).world.destroyed = true

section

variable (hdestroyed : StaysDestroyed sha w events) {m n : ℕ}
  (hfence : events[m]? = some .fence) (hmn : m < n)
  (hi : i < (downloadsAt sha w events m).attempts.length)
include hdestroyed hfence hmn hi

/-- After a fence no attempt that was there before it may transfer its item. -/
theorem download_fenced (ha : (downloadsAt sha w events n).attempts[i]? = some a) :
    ¬ HasCurrentItem (downloadsAt sha w events n) a := by
  rintro ⟨item, hit, hcur⟩
  simp only [isTransferCurrent, Bool.and_eq_true, Bool.not_eq_true', decide_eq_true_eq] at hcur
  obtain ⟨⟨halive, -⟩, hgen⟩ := hcur
  have hnot : ∀ k < n, events[k]? ≠ some .destroy := by
    intro k hk hdes
    rw [hdestroyed k n hk hdes] at halive
    cases halive
  have hf : downloadsAt sha w events (m + 1) =
      { downloadsAt sha w events m with
        generation := (downloadsAt sha w events m).generation + 1
        queued := none } := stateAt_succ hfence
  have hn : (downloadsAt sha w events (m + 1)).queued = none := by
    rw [hf]
  have hsucc : m + 1 ≤ n := hmn
  have hgrows := grows_of_le (@downloads_grow_at sha w events) hsucc
  have ho : (downloadsAt sha w events n).workQueue.owners[i]? = some a.item := by
    change (List.map _ _)[i]? = _
    rw [getElem?_map, ha]
    rfl
  have hlen : i < (downloadsAt sha w events (m + 1)).workQueue.owners.length := by
    change i < (List.map _ (downloadsAt sha w events (m + 1)).attempts).length
    rw [hf, length_map]
    exact hi
  have hid : a.item < (downloadsAt sha w events (m + 1)).items.length :=
    (hgrows.owner_not_queued (downloads_owned w events (m + 1)) hn hlen ho).1
  obtain ⟨old, hold, hstamp⟩ := stamp_of_emptied hsucc hn hid hit
  rw [hf] at hold
  have hb : old.generation ≤ (downloadsAt sha w events m).generation :=
    stamp_le (fun k hk => hnot k (hk.trans hmn)) hold
  have hl : (downloadsAt sha w events (m + 1)).generation ≤
      (downloadsAt sha w events n).generation := generation_le hsucc hnot
  rw [hf] at hl
  dsimp only at hl
  omega

/-- After a fence no attempt that was there before it settles anything. -/
theorem download_fenced_settles_nothing {result : DownloadResult}
    (hres : events[n]? = some (.resume i result)) :
    SamePath (downloadsAt sha w events n).world
      (downloadsAt sha w events (n + 1)).world := by
  have heq : downloadsAt sha w events (n + 1) =
      (downloadsAt sha w events n).next sha (.resume i result) :=
    stateAt_succ hres
  rw [heq]
  cases ha : (downloadsAt sha w events n).attempts[i]? with
  | none =>
    simp only [BlobDownloads.next, ha]
    exact .refl _
  | some a =>
    simp only [BlobDownloads.next, ha]
    have heff := @download_resume_spec sha _ i a result (.resume i result) ha rfl
    exact heff.settled.resolve_right (download_fenced hdestroyed hfence hmn hi ha)

end

end Downloads

section Retirement

variable {s : BlobDownloads} {i : ℕ} {a a' : DownloadAttempt} {event : DownloadEvent}
  {source : UploadSource} {prior : Option CleanPrior} {generation backupPath : ℕ}

/-- A replica that came too late is on its way to a backup path. -/
inductive Retires (source : UploadSource) (prior : Option CleanPrior)
    (generation backupPath : ℕ) : DownloadPhase → Prop
  | pending (download : StagedDownload) : Retires source prior generation backupPath
      (.reading source (.backup download (.retire prior generation backupPath)) .pending)
  | sampled (download : StagedDownload) (data : List UInt8) :
      Retires source prior generation backupPath (.reading source
        (.backup download (.retire prior generation backupPath)) (.sampled (some data)))
  | hashing (download : StagedDownload) (data : List UInt8) :
      Retires source prior generation backupPath
        (.reading source (.backup download (.retire prior generation backupPath)) (.hashing data))
  | moving (download : StagedDownload) : Retires source prior generation backupPath
      (.moving download source (.retire prior generation backupPath))

/-- How the retirement of a replica ends: it is at the backup path, and a predecessor comes back; or
the vault has failed, the file is not what it was, or another fence has come. -/
inductive RetirementEnds (sha : List UInt8 → JsString) (s : BlobDownloads)
    (event : DownloadEvent) (i : ℕ) (a a' : DownloadAttempt) (source : UploadSource)
    (prior : Option CleanPrior) (generation backupPath : ℕ) : Prop
  | moved (owns : s.world.backupOwnsFile backupPath source.file = true)
    (restores : ∀ restored, prior = some restored → s.world.isVacant = true →
      s.world.backupOwnsFile restored.backupPath restored.source.file = true →
      ∃ download, a'.phase = .restoreReading download restored .superseded none)
  | unmoved (phase : ∃ download, a.phase =
      .moving download source (.retire prior generation backupPath))
    (owns : s.world.backupOwnsFile backupPath source.file = false)
  | unreadable (bytes : s.world.disk source.file = none)
  | rejected (result : DownloadResult) (event : event = .resume i result)
    (rejected : result.rejected = true)
  | throws (result : DownloadResult) (event : event = .resume i result)
    (throws : result.dispatchFails = true)
  | changed (identity : s.world.isIdentityCurrent source = false)
  | fenced (fence : s.generation ≠ generation)
  | otherBytes (data : List UInt8) (held : ∃ download, a.phase.held =
      some (source, .backup download (.retire prior generation backupPath), data))
    (hash : sha data ≠ a.attemptHash)

/-- An attempt goes on only when one of its own awaits does. -/
theorem next_other (ha : s.attempts[i]? = some a) (hr : event ≠ .read i)
    (hc : ∀ file stat, event ≠ .call i file stat)
    (hres : ∀ result, event ≠ .resume i result) :
    (s.next sha event).attempts[i]? = some a := by
  have hmoves := next_moves sha s event
  generalize s.next sha event = s' at hmoves ⊢
  cases hmoves with
  | quiet h => rw [h.attempts, ha]
  | starts h heff =>
    obtain ⟨phase, hset, -⟩ := heff.attempts
    have hi := (List.getElem?_eq_some_iff.mp ha).1
    rw [hset, h.attempts, getElem?_set_ne (by omega), getElem?_append_left hi, ha]
  | @calls j file stat b hb hef =>
    obtain ⟨phase, hset, -⟩ := @CallEffect.attempts sha _ _ _ _ _ stat hef hb
    rw [hset, getElem?_set_ne (fun h => hc file stat (by rw [h])), ha]
  | @goes _ j b hown hb heff =>
    have hj : j ≠ i := by
      rintro rfl
      rcases hown with h | ⟨result, h⟩
      · exact hr h
      · exact hres result h
    obtain ⟨phase, hset, -⟩ := heff.attempts
    rw [hset, getElem?_set_ne hj, ha]

/-- What an attempt has become: it is as it was, or one of its own awaits has gone on. -/
theorem next_own (ha : s.attempts[i]? = some a)
    (ha' : (s.next sha event).attempts[i]? = some a') :
    a' = a ∨ event = .read i ∧ (s.sampleRead i a).attempts[i]? = some a' ∨
      (∃ file stat, event = .call i file stat ∧
        (s.applyCall i a file stat).attempts[i]? = some a') ∨
      ∃ result, event = .resume i result ∧
        (s.resumeAttempt i a result sha).attempts[i]? = some a' := by
  by_cases hr : event = .read i
  · subst hr
    simp only [BlobDownloads.next, ha] at ha'
    exact .inr (.inl ⟨rfl, ha'⟩)
  by_cases hc : ∃ file stat, event = .call i file stat
  · obtain ⟨file, stat, rfl⟩ := hc
    simp only [BlobDownloads.next, ha] at ha'
    exact .inr (.inr (.inl ⟨file, stat, rfl, ha'⟩))
  by_cases hres : ∃ result, event = .resume i result
  · obtain ⟨result, rfl⟩ := hres
    simp only [BlobDownloads.next, ha] at ha'
    exact .inr (.inr (.inr ⟨result, rfl, ha'⟩))
  left
  rw [next_other ha hr (fun file stat h => hc ⟨file, stat, h⟩)
    (fun result h => hres ⟨result, h⟩)] at ha'
  exact (Option.some.inj ha').symm

variable {result : DownloadResult}

/-- The end of an await of a retirement. -/
theorem retires_resume (ha : s.attempts[i]? = some a)
    (hret : Retires source prior generation backupPath a.phase)
    (ha' : (s.resumeAttempt i a result sha).attempts[i]? = some a') :
    Retires source prior generation backupPath a'.phase ∨
      RetirementEnds sha s (.resume i result) i a a' source prior generation backupPath := by
  have hlt := (List.getElem?_eq_some_iff.mp ha).1
  have hs : ∀ {phase : DownloadPhase}, (s.enter i a phase).attempts[i]? = some a' →
      a'.phase = phase := by
    intro phase h
    rw [enter, List.getElem?_set_self hlt] at h
    cases h
    rfl
  generalize hph : a.phase = phase at hret
  cases hret with simp only [resumeAttempt, hph, ExactRead.resume] at ha'
  | pending download =>
    rw [hs ha']
    exact .inl (.pending download)
  | sampled download data =>
    rw [hs ha']
    split
    · exact .inl (.hashing download data)
    · next hch => exact .inr (.changed (Bool.eq_false_of_not_eq_true hch))
  | hashing download data =>
    cases hrej : result.rejected with
    | true => exact .inr (.rejected result rfl hrej)
    | false =>
      cases hcur : s.world.isReadCurrent source
          (.backup download (.retire prior generation backupPath)) with
      | false => exact .inr (.changed hcur)
      | true =>
        simp only [hrej, hcur, Bool.false_eq_true, if_false, if_true] at ha'
        split at ha'
        · rw [hs ha']
          exact .inl (.moving download)
        · next href =>
          right
          by_cases hthr : result.dispatchFails = true
          · exact .throws result rfl hthr
          by_cases hgen : s.generation = generation
          · refine .otherBytes data ⟨download, by rw [hph]; rfl⟩ ?_
            intro hh
            simp only [canBackup, hgen, hh, decide_true,
              Bool.and_true, Bool.true_and, Bool.not_eq_true', Bool.not_eq_false] at href
            exact hthr href
          · exact .fenced hgen
  | moving download =>
    cases howns : s.world.backupOwnsFile backupPath source.file with
    | false => exact .inr (.unmoved ⟨download, hph⟩ howns)
    | true =>
      refine .inr (.moved howns ?_)
      rintro restored rfl hvac hres
      simp only [BackupPurpose.backupPath, howns, if_true, afterBackup, hvac,
        restoreRemoteOverwriteBackup, hres, Bool.and_self] at ha'
      exact ⟨download, hs ha'⟩

/-- A retirement goes on, or it ends. -/
theorem retires_step (ha : s.attempts[i]? = some a)
    (hret : Retires source prior generation backupPath a.phase)
    (ha' : (s.next sha event).attempts[i]? = some a') :
    Retires source prior generation backupPath a'.phase ∨
      RetirementEnds sha s event i a a' source prior generation backupPath := by
  have hlt := (List.getElem?_eq_some_iff.mp ha).1
  have hstays : s.attempts[i]? = some a' → Retires source prior generation backupPath a'.phase := by
    intro h
    cases ha.symm.trans h
    exact hret
  rcases next_own ha ha' with rfl | ⟨rfl, hown⟩ | ⟨file, stat, rfl, hown⟩ | ⟨result, rfl, hown⟩
  · exact .inl hret
  · generalize hph : a.phase = phase at hret
    cases hret with simp only [sampleRead, hph] at hown
    | pending download =>
      rw [enter, List.getElem?_set_self hlt] at hown
      cases hown
      cases hd : s.world.disk source.file with
      | none => exact .inr (.unreadable hd)
      | some data => exact .inl (.sampled download data)
    | sampled | hashing | moving => exact .inl (hstays hown)
  · generalize hph : a.phase = phase at hret
    cases hret with simp only [applyCall, hph] at hown
    | moving download => split at hown <;> exact .inl (hstays hown)
    | pending | sampled | hashing => exact .inl (hstays hown)
  · exact retires_resume ha hret hown

variable {w : DownloadWorld} {events : List DownloadEvent}

/-- How the retirement of a file that attempt `i` has created comes to its end before event `n`, if
its bytes were found to be the attempt's own at event `p`, too late. -/
inductive Retirement (sha : List UInt8 → JsString) (w : DownloadWorld)
    (events : List DownloadEvent) (p n i file : ℕ) (prior : Option CleanPrior)
    (candidates : List ℕ) : Prop
  | noPath (h : (downloadsAt sha w events p).world.nextAvailableBlobLocalBackupPath
      candidates = none)
  | gone (h : (downloadsAt sha w events p).world.isIdentityCurrent
      ⟨file, (downloadsAt sha w events p).world.stat file⟩ = false)
  | ended (backupPath q : ℕ) (event : DownloadEvent) (b b' : DownloadAttempt)
    (fresh : (downloadsAt sha w events p).world.backup backupPath = none)
    (order : p < q ∧ q < n) (event_eq : events[q]? = some event)
    (before : (downloadsAt sha w events q).attempts[i]? = some b)
    (after : (downloadsAt sha w events (q + 1)).attempts[i]? = some b')
    (ends : RetirementEnds sha (downloadsAt sha w events q) event i b b'
      ⟨file, (downloadsAt sha w events p).world.stat file⟩ prior
      (downloadsAt sha w events p).generation backupPath)

theorem attempt_before {m n : ℕ} (hmn : m ≤ n)
    (hi : i < (downloadsAt sha w events m).attempts.length) :
    i < (downloadsAt sha w events n).attempts.length := by
  have hgrows := grows_of_le (@downloads_grow_at sha w events) hmn
  have hle : (List.map DownloadAttempt.item _).length ≤ (List.map DownloadAttempt.item _).length :=
    hgrows.owners.length_le
  rw [length_map, length_map] at hle
  exact hi.trans_le hle

/-- What holds of an attempt goes on to hold from event to event until a step ends it. -/
theorem attempt_run {P : DownloadAttempt → Prop}
    {E : BlobDownloads → DownloadEvent → DownloadAttempt → DownloadAttempt → Prop}
    (hs : ∀ {s : BlobDownloads} {event : DownloadEvent} {b b' : DownloadAttempt},
      s.attempts[i]? = some b → P b → (s.next sha event).attempts[i]? = some b' →
      P b' ∨ E s event b b')
    {t n : ℕ} (htn : t ≤ n) (ha : (downloadsAt sha w events t).attempts[i]? = some a) (hP : P a)
    (ha' : (downloadsAt sha w events n).attempts[i]? = some a') :
    P a' ∨ ∃ q event b b', t ≤ q ∧ q < n ∧ events[q]? = some event ∧
      (downloadsAt sha w events q).attempts[i]? = some b ∧
      (downloadsAt sha w events (q + 1)).attempts[i]? = some b' ∧
      E (downloadsAt sha w events q) event b b' := by
  induction htn generalizing a' with
  | refl =>
    cases ha.symm.trans ha'
    exact .inl hP
  | @step n htn ih =>
    have hi := attempt_before htn (List.getElem?_eq_some_iff.mp ha).1
    obtain ⟨b, hb⟩ : ∃ b, (downloadsAt sha w events n).attempts[i]? = some b :=
      ⟨_, getElem?_eq_getElem hi⟩
    rcases ih hb with hg | ⟨q, event, c, c', htq, hqn, hr⟩
    · rcases stateAt_step (next sha) { world := w } events n with
        ⟨-, heq⟩ | ⟨event, hev, heq⟩
      · change downloadsAt sha w events (n + 1) = downloadsAt sha w events n
          at heq
        rw [Nat.succ_eq_add_one, heq, hb] at ha'
        cases ha'
        exact .inl hg
      change downloadsAt sha w events (n + 1) = (downloadsAt sha w events n).next sha event at heq
      have hn := ha'
      rw [Nat.succ_eq_add_one, heq] at hn
      rcases hs hb hg hn with hg' | hends
      · exact .inl hg'
      · exact .inr ⟨n, event, b, a', htn, Nat.lt_succ_self n, hev, hb, ha', hends⟩
    · exact .inr ⟨q, event, c, c', htq, Nat.lt_succ_of_lt hqn, hr⟩

theorem not_over_of_retires (h : Retires source prior generation backupPath a.phase) :
    a.phase.isOver = false := by
  generalize a.phase = phase at h
  cases h <;> rfl

/-- A created file whose attempt has been fenced is retired. -/
theorem created_retires {p n : ℕ} {download : StagedDownload}
    {snapshot : ExactSnapshot} (hev : events[p]? = some (.resume i result))
    (ha : (downloadsAt sha w events p).attempts[i]? = some a)
    (hph : a.phase = .reading source (.created download prior) (.returned snapshot))
    (hh : snapshot.hash = a.attemptHash)
    (hf : ¬ HasCurrentItem (downloadsAt sha w events p) a) (hpn : p < n)
    (ha' : (downloadsAt sha w events n).attempts[i]? = some a') (ho : a'.phase.isOver = true) :
    Retirement sha w events p n i source.file prior result.candidates := by
  have hs : (downloadsAt sha w events p).isDownloadStageAuthoritative a
      download.stage = false := by
    by_contra h
    exact hf (currentItem_of_attempt (attempt_of_stage (Bool.eq_true_of_not_eq_false h)))
  have heq : downloadsAt sha w events (p + 1) =
      (downloadsAt sha w events p).next sha (.resume i result) :=
    stateAt_succ hev
  have hlt := (List.getElem?_eq_some_iff.mp ha).1
  cases hp : (downloadsAt sha w events p).world.nextAvailableBlobLocalBackupPath
      result.candidates with
  | none => exact .noPath hp
  | some backupPath =>
    cases hiden : (downloadsAt sha w events p).world.isIdentityCurrent
        ⟨source.file, (downloadsAt sha w events p).world.stat source.file⟩ with
    | false => exact .gone hiden
    | true =>
      have hr : (downloadsAt sha w events p).world.isReadCurrent
          ⟨source.file, (downloadsAt sha w events p).world.stat source.file⟩
          (.backup download (.retire prior (downloadsAt sha w events p).generation
            backupPath)) = true := hiden
      have hstarts : (downloadsAt sha w events (p + 1)).attempts[i]? =
          some { a with phase := (.reading
            ⟨source.file, (downloadsAt sha w events p).world.stat source.file⟩
            (.backup download (.retire prior (downloadsAt sha w events p).generation
              backupPath)) .pending) } := by
        rw [heq]
        simp only [BlobDownloads.next, ha, resumeAttempt, hph, ExactRead.resume,
          BlobDownloads.afterRead, Option.map_some, hh, if_true, hs, Bool.false_eq_true,
          if_false, hp, startRead, hr, enter]
        exact List.getElem?_set_self hlt
      rcases attempt_run (P := fun b => Retires _ _ _ _ b.phase) retires_step
        (Nat.succ_le_of_lt hpn) hstarts (.pending download) ha' with
        hg | ⟨q, event, b, b', hpq, hqn, hq, hb, hb', hends⟩
      · rw [not_over_of_retires hg] at ho
        cases ho
      · exact .ended backupPath q event b b' (nextBackup_vacant hp) ⟨hpq, hqn⟩ hq hb hb' hends

variable {file : ℕ} {download : StagedDownload}

/-- A create has put the file at the path: its promise is awaited, or the file is read. -/
inductive Creates (download : StagedDownload) (prior : Option CleanPrior) (file : ℕ) :
    DownloadPhase → Prop
  | creating : Creates download prior file (.creating download prior (some file))
  | reading (stat : ℕ × ℕ) (read : ExactRead) :
      Creates download prior file (.reading ⟨file, stat⟩ (.created download prior) read)

theorem not_over_of_creates (h : Creates download prior file a.phase) : a.phase.isOver = false := by
  generalize a.phase = phase at h
  cases h <;> rfl

/-- What comes of a created file: the create is rejected all the same, the file is not read as it
was created, or it is. -/
inductive CreationEnds (result : DownloadResult) (b : DownloadAttempt) (download : StagedDownload)
    (prior : Option CleanPrior) (file : ℕ) : Prop
  | rejected (phase : b.phase = .creating download prior (some file))
    (rejected : result.rejected = true)
  | unread (stat : ℕ × ℕ) (read : ExactRead)
    (phase : b.phase = .reading ⟨file, stat⟩ (.created download prior) read)
    (differs : read = .stale ∨ read = .threw ∨
      ∃ snapshot, read = .returned snapshot ∧ snapshot.hash ≠ b.attemptHash)
  | verified (stat : ℕ × ℕ) (snapshot : ExactSnapshot)
    (phase : b.phase = .reading ⟨file, stat⟩ (.created download prior) (.returned snapshot))
    (hash : snapshot.hash = b.attemptHash)

theorem creates_step (ha : s.attempts[i]? = some a) (hc : Creates download prior file a.phase)
    (ha' : (s.next sha event).attempts[i]? = some a') : Creates download prior file a'.phase ∨
      ∃ result, event = .resume i result ∧ CreationEnds result a download prior file := by
  have hlt := (List.getElem?_eq_some_iff.mp ha).1
  have hs : ∀ {phase : DownloadPhase}, (s.enter i a phase).attempts[i]? = some a' →
      a'.phase = phase := by
    intro phase h
    rw [enter, List.getElem?_set_self hlt] at h
    cases h
    rfl
  have hstays : s.attempts[i]? = some a' → Creates download prior file a'.phase := by
    intro h
    cases ha.symm.trans h
    exact hc
  rcases next_own ha ha' with rfl | ⟨rfl, hown⟩ | ⟨file, stat, rfl, hown⟩ | ⟨result, rfl, hown⟩
  · exact .inl hc
  · left
    generalize hph : a.phase = phase at hc
    cases hc with simp only [sampleRead, hph] at hown
    | creating => exact hstays hown
    | reading stat read =>
      cases read with
      | pending =>
        rw [hs hown]
        exact .reading ..
      | _ => exact hstays hown
  · left
    generalize hph : a.phase = phase at hc
    cases hc <;> simp only [applyCall, hph] at hown <;> exact hstays hown
  generalize hph : a.phase = phase at hc
  cases hc with simp only [resumeAttempt, hph] at hown
  | creating =>
    cases hrej : result.rejected with
    | true => exact .inr ⟨result, rfl, .rejected hph hrej⟩
    | false =>
      simp only [hrej, Bool.not_false, Option.filter_some, if_true] at hown
      left
      rw [hs hown]
      exact .reading ..
  | reading stat read =>
    have hrg : ∀ read', (s.enter i a
        (.reading ⟨file, stat⟩ (.created download prior) read')).attempts[i]? = some a' →
        Creates download prior file a'.phase := by
      intro read' h
      rw [hs h]
      exact .reading stat read'
    cases read with
    | stale => exact .inr ⟨result, rfl, .unread stat _ hph (.inl rfl)⟩
    | threw => exact .inr ⟨result, rfl, .unread stat _ hph (.inr (.inl rfl))⟩
    | returned snapshot =>
      right
      by_cases hh : snapshot.hash = a.attemptHash
      · exact ⟨result, rfl, .verified stat snapshot hph hh⟩
      · exact ⟨result, rfl, .unread stat _ hph (.inr (.inr ⟨snapshot, rfl, hh⟩))⟩
    | pending => exact .inl (hrg _ hown)
    | sampled data =>
      cases data with
      | none | some => exact .inl (hrg _ hown)
    | hashing data =>
      left
      cases hr : ExactRead.resume _ result.rejected (.hashing data) with rw [hr] at hown
      | waits | verified => exact hrg _ hown
      | threw | returned =>
        simp only [ExactRead.resume] at hr
        split at hr
        · cases hr
        split at hr <;> cases hr

/-- What comes of the file that an attempt fenced at event `m` has created: if it is found to be
the attempt's own after the fence, the file is retired. -/
theorem created_ends {c m n : ℕ} (hfence : events[m]? = some .fence)
    (hf : ∀ k b, m < k → (downloadsAt sha w events k).attempts[i]? = some b →
      ¬ HasCurrentItem (downloadsAt sha w events k) b)
    (hcn : c ≤ n) (ha : (downloadsAt sha w events c).attempts[i]? = some a)
    (hph : a.phase = .creating download prior (some file))
    (ha' : (downloadsAt sha w events n).attempts[i]? = some a') (ho : a'.phase.isOver = true) :
    ∃ p result b, c ≤ p ∧ p < n ∧ events[p]? = some (.resume i result) ∧
      (downloadsAt sha w events p).attempts[i]? = some b ∧
      CreationEnds result b download prior file ∧
      (∀ stat snapshot,
        b.phase = .reading ⟨file, stat⟩ (.created download prior) (.returned snapshot) →
        snapshot.hash = b.attemptHash →
        p < m ∨ m < p ∧ Retirement sha w events p n i file prior result.candidates) := by
  have hc : Creates download prior file a.phase := hph ▸ .creating
  rcases attempt_run (P := fun b => Creates download prior file b.phase) (E := fun _ event b _ =>
      ∃ result, event = .resume i result ∧ CreationEnds result b download prior file)
      creates_step hcn ha hc ha' with
    hg | ⟨p, _, b, b', hcp, hpn, hev, hb, -, result, rfl, hcr⟩
  · rw [not_over_of_creates hg] at ho
    cases ho
  refine ⟨p, result, b, hcp, hpn, hev, hb, hcr, ?_⟩
  intro stat snapshot hr hh
  rcases Nat.lt_trichotomy p m with hpm | rfl | hmp
  · exact .inl hpm
  · cases hfence.symm.trans hev
  · exact .inr ⟨hmp, created_retires hev hb hr hh (hf p b hmp hb) hpn ha' ho⟩

end Retirement

/-- What a fence at event `m` does to an upload attempt that was there before it. -/
structure FencesUpload (sha : List UInt8 → JsString) (w : BlobPathWorld)
    (events : List UploadEvent) (m i : ℕ) : Prop where
  publishes : ∀ n ref, m < n → (uploadsAt sha w events (n + 1)).published ≠
    (uploadsAt sha w events n).published ++ [(i, ref)]
  settles : ∀ n result, m < n →
    (∀ ref, (i, ref) ∉ (uploadsAt sha w events m).published) →
    events[n]? = some (.resume i result) →
    (uploadsAt sha w events (n + 1)).world.settledRef =
        (uploadsAt sha w events n).world.settledRef ∧
      (uploadsAt sha w events (n + 1)).world.settledSourceVersion =
        (uploadsAt sha w events n).world.settledSourceVersion

/-- What a fence at event `m` does to a download attempt that was there before it. -/
structure FencesDownload (sha : List UInt8 → JsString) (w : DownloadWorld)
    (events : List DownloadEvent) (m i : ℕ) : Prop where
  settles : ∀ n result, m < n → events[n]? = some (.resume i result) →
    SamePath (downloadsAt sha w events n).world
      (downloadsAt sha w events (n + 1)).world
  retires : ∀ p n result a a' source download prior snapshot, m < p → p < n →
    events[p]? = some (.resume i result) →
    (downloadsAt sha w events p).attempts[i]? = some a →
    a.phase = .reading source (.created download prior) (.returned snapshot) →
    snapshot.hash = a.attemptHash →
    (downloadsAt sha w events n).attempts[i]? = some a' → a'.phase.isOver = true →
    Retirement sha w events p n i source.file prior result.candidates
  creates : ∀ c n a a' download prior file, c ≤ n →
    (downloadsAt sha w events c).attempts[i]? = some a →
    a.phase = .creating download prior (some file) →
    (downloadsAt sha w events n).attempts[i]? = some a' → a'.phase.isOver = true →
    ∃ p result b, c ≤ p ∧ p < n ∧ events[p]? = some (.resume i result) ∧
      (downloadsAt sha w events p).attempts[i]? = some b ∧
      CreationEnds result b download prior file ∧
      ∀ stat snapshot,
        b.phase = .reading ⟨file, stat⟩ (.created download prior) (.returned snapshot) →
        snapshot.hash = b.attemptHash → p < m ∨ m < p ∧
          Retirement sha w events p n i file prior result.candidates

/-- After a fence the uploads that were under way publish nothing, and the downloads settle nothing
and retire the files that they have created. -/
theorem fence_retires_transfers (sha : List UInt8 → JsString) :
    (∀ w events m i, events[m]? = some .fence →
      i < (uploadsAt sha w events m).attempts.length →
      FencesUpload sha w events m i) ∧
    ∀ w events m i, StaysDestroyed sha w events → events[m]? = some .fence →
      i < (downloadsAt sha w events m).attempts.length →
      FencesDownload sha w events m i := by
  constructor
  · intro w events m i hfence hi
    refine ⟨fun n ref hmn => upload_fenced hfence hmn hi ref, ?_⟩
    intro n result hmn hunp hres
    have hs := upload_fenced_settles_nothing hfence hmn hi hunp hres
    exact Prod.mk.inj hs
  intro w events m i hdestroyed hfence hi
  refine ⟨fun n result hmn hres => ?_, ?_, ?_⟩
  · exact download_fenced_settles_nothing hdestroyed hfence hmn hi hres
  · intro p n result a a' source download prior snapshot hmp hpn hev ha hph hh ha' ho
    exact created_retires hev ha hph hh (download_fenced hdestroyed hfence hmp hi ha) hpn
      ha' ho
  intro c n a a' download prior file hcn ha hph ha' ho
  refine created_ends hfence ?_ hcn ha hph ha' ho
  intro k b hmk hb
  exact download_fenced hdestroyed hfence hmk hi hb

/-- The upload that has published settles its reference, though a fence has come in between. -/
theorem fenced_upload_settles :
    (newAttachmentEvents ++ [.fence, .resume 0 {}])[11]? = some .fence ∧
      (uploadsAt (List.map UInt8.toUInt16) newAttachment
        (newAttachmentEvents ++ [.fence, .resume 0 {}]) 11).attempts.length = 1 ∧
      (uploadsAt (List.map UInt8.toUInt16) newAttachment
        (newAttachmentEvents ++ [.fence, .resume 0 {}]) 12).world.settledRef = none ∧
      (uploadsAt (List.map UInt8.toUInt16) newAttachment
        (newAttachmentEvents ++ [.fence, .resume 0 {}]) 13).world.settledRef =
          some { hash := [1, 2], size := 2 } := by
  refine ⟨rfl, ?_, ?_, ?_⟩ <;> decide

end Kaos.Sync
