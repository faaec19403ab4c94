import AnythingTools.Scraper.Turn

namespace Scraper
open Relational Relational.Database Sync Articles JobItems
set_option autoImplicit true

/-- What the database says of a link when the run starts. -/
def Scrape.known (x : Scrape) (link : String) : ItemStatus × LocalMeta := x.db.known x.jobId link

/-- The item of the link is gone on with. -/
def Scrape.unfinished (x : Scrape) (link : String) : Bool :=
  proceeds (x.known link).1 (x.known link).2

/-- The article that the turn hands over comes late, or has an embedding and a URL that is stored
already. -/
def Scrape.aborts (x : Scrape) (t : Turn) : Bool :=
  x.unfinished t.link && (yields t.answers (x.known t.link).2 && t.found) &&
    (t.late || t.embedded && x.db.stored t.link)

/-- The turn of the link comes before the run is ended, and goes on with the item. -/
def Scrape.Reaches (x : Scrape) (ts : List Turn) (link : String) : Prop :=
  ∃ ts₁ t ts₂, ts = ts₁ ++ t :: ts₂ ∧ t.link = link ∧ x.unfinished link = true ∧
    ∀ t' ∈ ts₁, x.aborts t' = false

theorem Scrape.reaches_concat (x : Scrape) (ts : List Turn) (t : Turn) (link : String) :
    x.Reaches (ts ++ [t]) link ↔ x.Reaches ts link ∨ t.link = link ∧ x.unfinished link = true ∧
      ∀ t' ∈ ts, x.aborts t' = false := by
  apply Iff.intro
  · rintro ⟨ts₁, t', ts₂, he, hrest⟩
    rcases List.eq_nil_or_concat ts₂ with rfl | ⟨ts₂, t₂, rfl⟩
    · obtain ⟨rfl, rfl⟩ := List.append_singleton_inj.1 he
      exact .inr hrest
    · rw [List.concat_eq_append, ← List.cons_append, ← List.append_assoc] at he
      obtain ⟨rfl, _⟩ := List.append_singleton_inj.1 he
      exact .inl ⟨ts₁, t', ts₂, rfl, hrest⟩
  · rintro (⟨ts₁, t', ts₂, rfl, hrest⟩ | hlast)
    · refine ⟨ts₁, t', ts₂ ++ [t], ?_, hrest⟩
      rw [List.append_assoc, List.cons_append]
    · exact ⟨ts, t, [], rfl, hlast⟩

/-- No one cancels the job at the turn. -/
def Turn.Goes (t : Turn) : Prop := t.stopped = false ∧ t.answers.Goes

instance (t : Turn) : Decidable t.Goes := inferInstanceAs (Decidable (_ ∧ _))

section
variable {x : Scrape} {s s' : Progress} {t : Turn} {ts : List Turn}

/-- Where no one has stopped it, a turn does what is known of the link. -/
theorem turn_eq (ha : s.aborted = false) (hc : s.cancelled = false) (hstop : t.stopped = false)
    (hk : (x.view s t.itemLag).known x.jobId t.link = x.known t.link) :
    x.turn s t = if x.unfinished t.link then x.attempt s t (x.known t.link).2 else some s := by
  rw [Scrape.turn, ha, if_neg Bool.false_ne_true, hc, hstop, Bool.or_false, if_neg Bool.false_ne_true]
  dsimp only
  rw [hk]
  rfl

theorem turn_aborted (ha : s.aborted = true) : x.turn s t = some s := by
  rw [Scrape.turn, if_pos ha]

theorem about_of_plain {ws : List Write} (h : ∀ w ∈ ws, Plain x.jobId t.link w) :
    ∀ w ∈ ws, About x.jobId t.link w := fun w hw => .plain (h w hw)

theorem Plainly.about (h : Plainly x s t s') :
    ∃ ws, s'.queued = s.queued ++ ws ∧ ∀ w ∈ ws, About x.jobId t.link w := by
  obtain ⟨ws, hq, hws⟩ := h.queued
  exact ⟨ws, hq, about_of_plain hws⟩

theorem HandsOver.about (h : HandsOver x s t q u s') :
    ∃ ws, s'.queued = s.queued ++ ws ∧ ∀ w ∈ ws, About x.jobId t.link w := by
  obtain ⟨ws, hq, hws⟩ := h.before
  obtain ⟨info, jobs, hq', hjobs⟩ := h.queued
  obtain ⟨_, hnew⟩ := h.new
  refine ⟨ws ++ .article t.committedAt u (x.updateItem t .completed info) :: jobs, ?_, ?_⟩
  · rw [hq', hq, List.append_assoc]
  · intro w hw
    rcases List.mem_append.1 hw with hw | hw
    · exact about_of_plain hws w hw
    · rcases List.mem_cons.1 hw with rfl | hw
      · exact .article (itemKey_makeMetadata ..) hnew.url
      · obtain ⟨status, rfl⟩ := hjobs w hw
        exact .plain .job

/-- What a turn writes is about its link. -/
theorem attempt_about (h : x.attempt s t info = some s') (ha : s.aborted = false) :
    ∃ ws, s'.queued = s.queued ++ ws ∧ ∀ w ∈ ws, About x.jobId t.link w := by
  rcases attempt_cases h ha with ⟨_, hplain⟩ | ⟨_, q, u, hover⟩
  · exact hplain.about
  · exact hover.about

/-- So it is with every turn. -/
theorem turn_about (h : x.turn s t = some s') :
    ∃ ws, s'.queued = s.queued ++ ws ∧ ∀ w ∈ ws, About x.jobId t.link w := by
  have hnone : ∃ ws, s.queued = s.queued ++ ws ∧ ∀ w ∈ ws, About x.jobId t.link w :=
    ⟨[], (List.append_nil _).symm, fun _ hw => (List.not_mem_nil hw).elim⟩
  rw [Scrape.turn] at h
  split at h
  next =>
    cases h
    exact hnone
  next ha =>
    split at h
    next =>
      cases h
      exact hnone
    next =>
      dsimp only at h
      split at h
      next => exact attempt_about h (eq_false_of_ne_true ha)
      next =>
        cases h
        exact hnone

/-- A run writes items for its links, and then what its turns write. -/
theorem run_writes (h : x.run ts = some s) : ∃ ws, s.queued = x.preflight ++ ws ∧
    ∀ w ∈ ws, ∃ t ∈ ts, About x.jobId t.link w := by
  induction ts using List.reverseRecOn generalizing s with
  | nil =>
    cases h
    exact ⟨[], (List.append_nil _).symm, fun _ hw => (List.not_mem_nil hw).elim⟩
  | append_singleton ts t ih =>
    obtain ⟨s₁, h₁, hturn⟩ := Machine.run_concat_some h
    obtain ⟨ws, hq, hws⟩ := ih h₁
    obtain ⟨ws', hq', hws'⟩ := turn_about hturn
    refine ⟨ws ++ ws', ?_, ?_⟩
    · rw [hq', hq, List.append_assoc]
    · intro w hw
      rcases List.mem_append.1 hw with hw | hw
      · obtain ⟨t', ht', ha⟩ := hws w hw
        exact ⟨t', List.mem_append_left _ ht', ha⟩
      · exact ⟨t, List.mem_append_right _ (List.mem_singleton_self _), hws' w hw⟩

theorem mem_preflight (hw : w ∈ x.preflight) :
    ∃ link ∈ x.links, w = .item (.add x.jobId (Scrape.metadata x.now link) x.now) := by
  obtain ⟨link, hl, rfl⟩ := List.mem_map.1 hw
  exact ⟨link, hl, rfl⟩

/-- A run over different links, which no one cancels. -/
structure Resumed (x : Scrape) (ts : List Turn) : Prop where
  shelf : Shelf x.db.store.db
  digest : ∀ y, x.env.digest y ≠ ""
  apart : (ts.map Turn.link).Nodup
  few : ts.length ≤ x.links.length
  goes : ∀ t ∈ ts, t.Goes

/-- How such a run stands after its first turns. -/
structure Standing (x : Scrape) (ts : List Turn) (s : Progress) : Prop where
  cancelled : s.cancelled = false
  nav : s.navFailures ≤ ts.length
  aborted : s.aborted = true ↔ ∃ t ∈ ts, x.aborts t = true
  attempted : ∀ link, link ∈ s.attempted ↔ x.Reaches ts link

theorem Resumed.init (h : Resumed x (ts ++ [t])) : Resumed x ts := by
  obtain ⟨hS, hd, hapart, hfew, hgoes⟩ := h
  refine ⟨hS, hd, ?_, ?_, fun t ht => hgoes t (List.mem_append_left _ ht)⟩
  · rw [List.map_append] at hapart
    exact hapart.of_append_left
  · rw [List.length_append] at hfew
    exact Nat.le_of_add_right_le hfew

/-- The writes before a turn are about other links. -/
theorem Resumed.foreign (hr : Resumed x (ts ++ [t])) (hrun : x.run ts = some s) :
    ∀ w ∈ s.queued, Foreign x.jobId t.link w := by
  intro w hw
  obtain ⟨ws, hq, hws⟩ := run_writes hrun
  rw [hq] at hw
  rcases List.mem_append.1 hw with hw | hw
  · obtain ⟨link, _, rfl⟩ := mem_preflight hw
    exact .inr ⟨_, _, rfl⟩
  · obtain ⟨t', ht', ha⟩ := hws w hw
    refine .inl ⟨t'.link, ?_, ha⟩
    have hapart := hr.apart
    rw [List.map_append, List.map_singleton, List.nodup_append] at hapart
    exact hapart.2.2 t'.link (List.mem_map_of_mem ht') t.link (List.mem_singleton_self _)

/-- At its turn a link is as it was when the run started. -/
theorem Resumed.view (hr : Resumed x (ts ++ [t])) (hrun : x.run ts = some s) (lag : Nat) :
    (x.view s lag).known x.jobId t.link = x.known t.link :=
  known_foreign x.env fun w hw => hr.foreign hrun w (List.mem_of_mem_take hw)

theorem store_plains {db : Db} {ws : List Write} (e : Env)
    (h : ∀ w ∈ ws, Plain jobId link w) : (db.commitAll e ws).store = db.store := by
  induction ws generalizing db with
  | nil => rfl
  | cons w ws ih =>
    refine (ih fun w hw => h w (List.mem_cons_of_mem _ hw)).trans ?_
    exact store_plain e (h w List.mem_cons_self)

/-- The store that an article comes to has its URL when the run started with it. -/
theorem HandsOver.stored (h : HandsOver x s t q u s') (hS : Shelf x.db.store.db)
    (hf : ∀ w ∈ s.queued, Foreign x.jobId t.link w) :
    (x.db.commitAll x.env q).stored t.link = x.db.stored t.link := by
  obtain ⟨ws, hq, hws⟩ := h.before
  rw [hq, commitAll_append, Db.stored, Db.articles, store_plains x.env hws, ← Db.articles,
    ← Db.stored, stored_foreign x.env hS hf]

theorem NewArticle.vector_none {read : List Row} (h : NewArticle read t u) :
    u.vector = none ↔ t.embedded = false := by
  obtain ⟨v, _, hvector, _⟩ := h.rowid
  rw [hvector, Turn.embedded]
  cases t.embedding with
  | none => simp
  | some bs => cases hb : validateEmbeddingBytes bs <;> simp [hb]

/-- When a turn that hands an article over ends the run. -/
theorem HandsOver.aborted_iff (h : HandsOver x s t q u s') (hS : Shelf x.db.store.db)
    (hd : ∀ y, x.env.digest y ≠ "") (hf : ∀ w ∈ s.queued, Foreign x.jobId t.link w) :
    s'.aborted = true ↔ (t.late || t.embedded && x.db.stored t.link) = true := by
  obtain ⟨_, hnew⟩ := h.new
  have hshelf := shelf_commitAll x.env hS q
  rw [h.aborted, accepted_iff hshelf x.env h.unborn (hnew.admitted _) (hd _), hnew.vector_none,
    Bool.or_eq_true, Bool.and_eq_true, ← h.stored hS hf, stored_iff, Upsert.UrlStored, hnew.url,
    Classical.not_imp, Bool.not_eq_false]
  exact or_congr_right and_comm


theorem standing_begun (x : Scrape) : Standing x [] x.begun := by
  refine ⟨rfl, Nat.le_refl 0, iff_of_false Bool.false_ne_true ?_, ?_⟩
  · rintro ⟨t, ht, _⟩
    cases ht
  · refine fun link => iff_of_false List.not_mem_nil ?_
    rintro ⟨ts₁, t, ts₂, he, _⟩
    cases ts₁ <;> cases he

theorem Standing.concat (h : Standing x ts s) (hr : Resumed x (ts ++ [t]))
    (hrun : x.run ts = some s) (hturn : x.turn s t = some s') : Standing x (ts ++ [t]) s' := by
  have hlast : t ∈ ts ++ [t] := List.mem_append_right _ (List.mem_singleton_self _)
  obtain ⟨hstop, hgoes⟩ := hr.goes t hlast
  have hexists : (∃ t' ∈ ts ++ [t], x.aborts t' = true) ↔
      (∃ t' ∈ ts, x.aborts t' = true) ∨ x.aborts t = true := by
    simp only [List.mem_append, List.mem_singleton, or_and_right, exists_or, exists_eq_left]
  have hsame (hs : s' = s) (hdone : s.aborted = true ∨ x.unfinished t.link = false) :
      Standing x (ts ++ [t]) s' := by
    have hno : s.aborted = false → x.aborts t = false := by
      intro ha
      rcases hdone with hd | hd
      · rw [ha] at hd
        cases hd
      · rw [Scrape.aborts, hd, Bool.false_and, Bool.false_and]
    subst hs
    refine ⟨h.cancelled, h.nav.trans ?_, ?_, ?_⟩
    · rw [List.length_append]
      exact Nat.le_add_right _ _
    · rw [hexists, h.aborted]
      refine ⟨.inl, ?_⟩
      rintro (hold | hnew)
      · exact hold
      · rw [← h.aborted]
        by_contra hna
        rw [Bool.not_eq_true] at hna
        rw [hno hna] at hnew
        cases hnew
    · intro link
      rw [h.attempted, x.reaches_concat]
      refine ⟨.inl, ?_⟩
      rintro (hold | ⟨rfl, hu, hall⟩)
      · exact hold
      · rcases hdone with hd | hd
        · obtain ⟨t', ht', ha⟩ := h.aborted.1 hd
          rw [hall t' ht'] at ha
          cases ha
        · rw [hd] at hu
          cases hu
  cases ha : s.aborted with
  | true =>
    rw [turn_aborted ha] at hturn
    exact hsame (Option.some.inj hturn).symm (.inl ha)
  | false =>
    rw [turn_eq ha h.cancelled hstop (hr.view hrun _)] at hturn
    split at hturn
    next hu =>
      have haborts : x.aborts t = ((yields t.answers (x.known t.link).2 && t.found) &&
          (t.late || t.embedded && x.db.stored t.link)) := by
        rw [Scrape.aborts, hu, Bool.true_and]
      obtain ⟨hattempted, hcancelled, hnav⟩ := attempt_control hturn
      have hnone : ∀ t' ∈ ts, x.aborts t' = false := by
        intro t' ht'
        rw [← Bool.not_eq_true]
        exact fun hab => Bool.false_ne_true (ha.symm.trans (h.aborted.2 ⟨t', ht', hab⟩))
      have hends : s'.aborted = true ↔ x.aborts t = true := by
        rw [haborts]
        rcases attempt_cases hturn ha with ⟨hy, hplain⟩ | ⟨hy, q, u, hover⟩
        · rw [hy, Bool.false_and]
          have hfew := hr.few
          rw [List.length_append, List.length_singleton] at hfew
          have hlimit : s.navFailures + 1 < x.maxNavFailures := by
            have hn := h.nav
            rw [Scrape.maxNavFailures, if_neg]
            · omega
            · intro hnil
              rw [hnil] at hfew
              cases hfew
          rw [hplain.aborted ha hlimit]
        · rw [hy, Bool.true_and]
          exact hover.aborted_iff hr.shelf hr.digest (hr.foreign hrun)
      refine ⟨(hcancelled hgoes).trans h.cancelled, ?_, ?_, ?_⟩
      · rw [List.length_append]
        exact hnav.trans (Nat.succ_le_succ h.nav)
      · rw [hexists, hends]
        refine ⟨.inr, ?_⟩
        rintro (⟨t', ht', hab⟩ | hab)
        · rw [hnone t' ht'] at hab
          cases hab
        · exact hab
      · intro link
        rw [hattempted, List.mem_append, List.mem_singleton, h.attempted, x.reaches_concat]
        refine or_congr_right ⟨?_, fun hl => hl.1.symm⟩
        rintro rfl
        exact ⟨rfl, hu, hnone⟩
    next hu => exact hsame (Option.some.inj hturn).symm (.inr (eq_false_of_ne_true hu))

/-- How a run stands is what its items and answers make of it. -/
theorem standing_run (hr : Resumed x ts) (h : x.run ts = some s) : Standing x ts s := by
  induction ts using List.reverseRecOn generalizing s with
  | nil =>
    cases h
    exact standing_begun x
  | append_singleton ts t ih =>
    obtain ⟨s₁, h₁, hturn⟩ := Machine.run_concat_some h
    exact (ih hr.init h₁).concat hr h₁ hturn

end

end Scraper
