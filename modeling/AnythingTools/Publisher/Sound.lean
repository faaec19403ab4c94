import AnythingTools.Publisher.Memory

namespace Publisher
open JobItems
set_option autoImplicit true

/-- What no run changes of a detail. -/
def Detail.entry (d : Detail) : Article × Bool := (d.article, d.isTop10)

/-- What the status of an article says has happened. -/
def Backed (cfg : Config) (p : Article × Bool) (log : List Sent) : PublishStatus → Prop
  | .publishedBriefing => Delivered cfg .briefing p.1 log
  | .publishedArchive =>
    Delivered cfg .archive p.1 log ∧ (p.2 = true → Delivered cfg .briefing p.1 log)
  | .skipped => isValid p.1 = false ∧ p.1.ulid ≠ ""
  | _ => True

theorem Backed.mono (h : Backed cfg p log status) (hs : log ⊆ log') :
    Backed cfg p log' status := by
  cases status with
  | publishedBriefing => exact Delivered.mono h hs
  | publishedArchive => exact ⟨h.1.mono hs, fun htop => (h.2 htop).mono hs⟩
  | skipped => exact h
  | _ => trivial

/-- The statuses are true, and a progress counter of the jobs counts messages of the translation
that is cached. -/
structure Sound (cfg : Config) (jobs : List String) (roster : List (Article × Bool))
    (found translated : String → Option Translation) (db : Db) (log : List Sent) : Prop where
  same : db.batch.details.map Detail.entry = roster
  backed : ∀ d ∈ db.batch.details, Backed cfg d.entry log d.publishStatus
  counted : ∀ jobId ∈ jobs, ∀ channel, ∀ p ∈ roster,
    0 < chunksSent db.items jobId channel p.1.ulid →
      ∃ t, translated p.1.ulid = some t ∧ cached db.items p.1.ulid = some t ∧
        FirstSent cfg channel p.1 t (chunksSent db.items jobId channel p.1.ulid) log
  memory : Memory found translated db.items

section
variable {cfg : Config} {jobs : List String} {roster : List (Article × Bool)}
  {found translated : String → Option Translation} {db : Db} {log : List Sent}
  {details : List Detail}

theorem Sound.mono (h : Sound cfg jobs roster found translated db log) (hs : log ⊆ log') :
    Sound cfg jobs roster found translated db log' where
  same := h.same
  backed d hd := (h.backed d hd).mono hs
  counted jobId hj channel p hp hpos := by
    obtain ⟨t, ht, hc, hf⟩ := h.counted jobId hj channel p hp hpos
    exact ⟨t, ht, hc, hf.mono hs⟩
  memory := h.memory

/-- Between two runs the cache is what the next one finds and works with. -/
theorem Sound.restart (h : Sound cfg jobs roster found translated db log) :
    Sound cfg jobs roster (cached db.items) (cached db.items) db log where
  same := h.same
  backed := h.backed
  counted jobId hj channel p hp hpos := by
    obtain ⟨t, _, hc, hf⟩ := h.counted jobId hj channel p hp hpos
    exact ⟨t, hc, hc, hf⟩
  memory := memory_found h.memory.kept

theorem sound_setBatchStatus (h : Sound cfg jobs roster found translated db log)
    (status : BatchStatus) :
    Sound cfg jobs roster found translated (db.commit (.setBatchStatus status)) log where
  same := h.same
  backed := h.backed
  counted := h.counted
  memory := h.memory

/-- The statuses that a statement sets are true as well. -/
theorem backed_details (h : ∀ d ∈ details, Backed cfg d.entry log d.publishStatus)
    (hentry : ∀ d, (Write.onDetail d w).entry = d.entry)
    (hb : ∀ d ∈ details, Backed cfg d.entry log d.publishStatus →
      Backed cfg d.entry log (w.onDetail d).publishStatus) :
    ∀ d ∈ details.map fun d => w.onDetail d, Backed cfg d.entry log d.publishStatus := by
  intro d' hd'
  obtain ⟨d, hmem, he⟩ := List.mem_map.1 hd'
  rw [← he, hentry]
  exact hb d hmem (h d hmem)

theorem entry_setDetail (d : Detail) :
    ((Write.setDetail ulid status texts).onDetail d).entry = d.entry := by
  rw [Write.onDetail]
  split
  next => rfl
  next => rfl

theorem backed_setDetail (h : ∀ d ∈ details, Backed cfg d.entry log d.publishStatus)
    (texts : Option Translation)
    (hb : ∀ d ∈ details, d.ulid = ulid → Backed cfg d.entry log status) :
    ∀ d ∈ details.map fun d => (Write.setDetail ulid status texts).onDetail d,
      Backed cfg d.entry log d.publishStatus := by
  apply backed_details h entry_setDetail
  intro d hd hold
  rw [Write.onDetail]
  split
  next hu => exact hb d hd hu
  next => exact hold

theorem same_onDetails (h : details.map Detail.entry = roster)
    (hentry : ∀ d, (Write.onDetail d w).entry = d.entry) :
    (details.map fun d => w.onDetail d).map Detail.entry = roster := by
  rw [List.map_map, ← h]
  exact List.map_congr_left fun d _ => hentry d

theorem sound_setDetail (h : Sound cfg jobs roster found translated db log)
    (texts : Option Translation)
    (hb : ∀ d ∈ db.batch.details, d.ulid = ulid → Backed cfg d.entry log status) :
    Sound cfg jobs roster found translated (db.commit (.setDetail ulid status texts)) log where
  same := by
    rw [details_commit]
    exact same_onDetails h.same entry_setDetail
  backed := by
    rw [details_commit]
    exact backed_setDetail h.backed texts hb
  counted := h.counted
  memory := h.memory

/-- A row of `job_items` that is added counts nothing. -/
theorem sound_add (h : Sound cfg jobs roster found translated db log) (jobId : String)
    (m : Metadata) (now : String) :
    Sound cfg jobs roster found translated (db.commit (.item (.add jobId m now))) log where
  same := h.same
  backed := h.backed
  counted jobId' hj channel p hp hpos := by
    change 0 < chunksSent (commit db.items (.add jobId m now)) jobId' channel p.1.ulid at hpos
    change ∃ t, _ ∧ cached (commit db.items (.add jobId m now)) p.1.ulid = some t ∧
      FirstSent cfg channel p.1 t
        (chunksSent (commit db.items (.add jobId m now)) jobId' channel p.1.ulid) log
    rw [chunksSent_add] at hpos ⊢
    rw [cached_add]
    exact h.counted jobId' hj channel p hp hpos
  memory := memory_add h.memory jobId m now

/-- An update of a delivery leaves the counter, or brings it to what it says. -/
theorem chunksSent_update_cases (items : List (Item Output)) (status : ItemStatus)
    (output : Output) (now : String) (hm : itemKey m = (.text (Channel.step channel), .text ulid))
    (jobId jobId' : String) (channel' : Channel) (ulid' : String) :
    chunksSent (commit items (.update jobId m status output now)) jobId' channel' ulid' =
        chunksSent items jobId' channel' ulid' ∨
      jobId' = jobId ∧ channel' = channel ∧ ulid' = ulid ∧
        chunksSent (commit items (.update jobId m status output now)) jobId' channel' ulid' =
          outputCount (some output) := by
  by_cases he : jobId' = jobId ∧ channel'.step = channel.step ∧ ulid' = ulid
  · obtain ⟨hj, hc, hu⟩ := he
    have hchannel : channel' = channel := by
      revert hc
      cases channel' <;> cases channel <;> decide
    rw [hj, hchannel, hu]
    cases hrow : progressRow items jobId channel.step ulid with
    | some i => exact .inr ⟨rfl, rfl, rfl, chunksSent_update_self items status output now hm
        (by rw [hrow]; rfl)⟩
    | none =>
      left
      rw [chunksSent_eq, chunksSent_eq, progressRow_update, hrow, Option.map_none]
  · exact .inl (chunksSent_update_ne items status output now hm he)

/-- The progress of a delivery. -/
theorem sound_update_progress (h : Sound cfg jobs roster found translated db log)
    (hm : itemKey m = (.text (Channel.step channel), .text p.1.ulid))
    (huniq : ∀ p' ∈ roster, p'.1.ulid = p.1.ulid → p' = p)
    (ht : translated p.1.ulid = some t) (hc : cached db.items p.1.ulid = some t)
    (hf : FirstSent cfg channel p.1 t n log) (jobId : String) (status : ItemStatus)
    (now : String) :
    Sound cfg jobs roster found translated
      (db.commit (.item (.update jobId m status (.chunksSent n) now))) log where
  same := h.same
  backed := h.backed
  counted jobId' hj channel' p' hp' hpos := by
    change 0 < chunksSent (commit db.items (.update jobId m status (.chunksSent n) now)) jobId'
      channel' p'.1.ulid at hpos
    change ∃ t, _ ∧ cached (commit db.items (.update jobId m status (.chunksSent n) now))
      p'.1.ulid = some t ∧ FirstSent cfg channel' p'.1 t (chunksSent
        (commit db.items (.update jobId m status (.chunksSent n) now)) jobId' channel' p'.1.ulid) log
    rw [cached_update_ne hm db.items jobId status (.chunksSent n) now fun hne =>
      channel_step_ne channel hne.1.symm]
    rcases chunksSent_update_cases db.items status (.chunksSent n) now hm jobId jobId' channel'
      p'.1.ulid with he | ⟨_, hch, hu, he⟩
    · rw [he] at hpos ⊢
      exact h.counted jobId' hj channel' p' hp' hpos
    · rw [he, huniq p' hp' hu, hch]
      exact ⟨t, ht, hc, hf⟩
  memory := memory_update_ne h.memory hm (channel_step_ne channel) jobId status _ now

end

/-! ### Before the delivery -/

section
variable {cfg : Config} {env : Env} {args : Args} {jobs : List String}
  {roster : List (Article × Bool)} {w : World}

/-- The statuses are true, and the counters as the run has found them. -/
structure Unmoved (cfg : Config) (roster : List (Article × Bool)) (w : World) (db : Db)
    (log : List Sent) : Prop where
  same : db.batch.details.map Detail.entry = roster
  backed : ∀ d ∈ db.batch.details, Backed cfg d.entry log d.publishStatus
  counted : ∀ jobId channel ulid,
    chunksSent db.items jobId channel ulid = chunksSent w.db.items jobId channel ulid

/-- However much of the reset is committed. -/
theorem unmoved_loaded (hsame : w.db.batch.details.map Detail.entry = roster)
    (hb : ∀ d ∈ w.db.batch.details, Backed cfg d.entry w.log d.publishStatus) (es : List Effect)
    (he : queued es = queued (resetEffects args)) (n : Nat) :
    Unmoved cfg roster w (view w.db es n) w.log := by
  have hcounted : ∀ jobId channel ulid, chunksSent (view w.db es n).items jobId channel ulid =
      chunksSent w.db.items jobId channel ulid := by
    intro jobId channel ulid
    rw [items_loaded args w.db es he n]
  rcases details_loaded args w.db es he n with hd | ⟨hd, _⟩
  · exact ⟨hd ▸ hsame, hd ▸ hb, hcounted⟩
  · refine ⟨?_, ?_, hcounted⟩
    · rw [hd]
      exact same_onDetails hsame fun _ => rfl
    · rw [hd]
      exact backed_details hb (fun _ => rfl) fun _ _ _ => trivial

theorem unmoved_quiet (hq : write.Quiet skipped articles)
    (huniq : ∀ p ∈ roster, ∀ p' ∈ roster, p'.1.ulid = p.1.ulid → p' = p)
    (hskip : ∀ d ∈ skipped, d.entry ∈ roster ∧ isValid d.article = false)
    (h : Unmoved cfg roster w db log) : Unmoved cfg roster w (db.commit write) log := by
  have hcounted : ∀ jobId channel ulid, chunksSent (db.commit write).items jobId channel ulid =
      chunksSent w.db.items jobId channel ulid := fun jobId channel ulid =>
    (chunksSent_quiet hq db jobId channel ulid).trans (h.counted jobId channel ulid)
  cases hq with
  | skip hd hu =>
    refine ⟨?_, ?_, hcounted⟩
    · rw [details_commit]
      exact same_onDetails h.same entry_setDetail
    · rw [details_commit]
      apply backed_setDetail h.backed
      intro d' hd' he
      rw [huniq _ (hskip _ hd).1 d'.entry (h.same ▸ List.mem_map_of_mem hd') he]
      exact ⟨(hskip _ hd).2, hu⟩
  | translate hd hs =>
    refine ⟨?_, ?_, hcounted⟩
    · rw [details_commit]
      exact same_onDetails h.same entry_setDetail
    · rw [details_commit]
      apply backed_setDetail h.backed
      intro d' _ _
      rcases hs with hs | hs
      · rw [hs]
        trivial
      · rw [hs]
        trivial
  | add => exact ⟨h.same, h.backed, hcounted⟩
  | update => exact ⟨h.same, h.backed, hcounted⟩

/-- With the counters as they were and the cache still there, all is sound. -/
theorem Unmoved.sound (h : Sound cfg jobs roster (cached w.db.items) (cached w.db.items) w.db w.log)
    (hu : Unmoved cfg roster w db log) (hm : Memory (cached w.db.items) translated db.items)
    (hs : w.log ⊆ log) :
    Sound cfg jobs roster (cached w.db.items) translated db log where
  same := hu.same
  backed := hu.backed
  counted jobId hj channel p hp hpos := by
    rw [hu.counted] at hpos ⊢
    obtain ⟨t, _, hc, hf⟩ := h.counted jobId hj channel p hp hpos
    have hstill := hm.still p.1.ulid t hc
    exact ⟨t, hm.known p.1.ulid t hstill, hstill, hf.mono hs⟩
  memory := hm

end

end Publisher
