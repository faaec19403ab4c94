import AnythingTools.Scraper.Loop

namespace Scraper
open Relational Relational.Database Sync Articles JobItems
set_option autoImplicit true

structure ResumeDetails where
  jobId : String
  targetSite : String
  jobStatus : String
  completed : Nat
  pending : Nat
  failed : Nat

structure ResumeReport where
  toolName : String := "scraper"
  resumable : Bool
  itemsCompleted : Nat
  itemsPending : Nat
  message : String
  details : Option ResumeDetails := none

def minPendingUrls : Nat := 1

/-- The statuses of a job that is not resumed. -/
def closedStatuses : List String := ["COMPLETED", "ABANDONED", "SKIPPED"]

def refusal (message : String) : ResumeReport :=
  { resumable := false, itemsCompleted := 0, itemsPending := 0, message }

def Db.count (db : Db) (jobId : String) (status : ItemStatus) : Nat :=
  (db.scrapeItems jobId).countP fun i => decide (i.status = status)

/-- `ResumeHandler.check_resume_state`. -/
def checkResumeState (db : Db) (jobId : String) (targetSite : Option String) : ResumeReport :=
  match targetSite.filter (· ≠ "") with
  | none => refusal "Cannot resume: No target_site in original job arguments."
  | some targetSite =>
    match db.job with
    | none => refusal "Cannot resume: Job not found."
    | some jobStatus =>
      if jobStatus ∈ closedStatuses then refusal s!"Cannot resume: Job already {jobStatus}."
      else
        let completed := db.count jobId .completed
        let failed := db.count jobId .failed
        let pending := db.count jobId .pending
        let itemsPending := pending + failed
        { resumable := decide (minPendingUrls ≤ itemsPending) || decide (completed = 0)
          itemsCompleted := completed
          itemsPending
          message := s!"Scraper ready for resumption on {targetSite}. {completed} completed, {itemsPending} pending."
          details := some { jobId, targetSite, jobStatus, completed, pending, failed } }

/-- The flags of an item. -/
def flags (i : Item LocalMeta) : LocalMeta := i.outputData.getD {}

/-- The loop goes on with the item. -/
def Unfinished (i : Item LocalMeta) : Prop := proceeds i.status (flags i) = true

instance (i : Item LocalMeta) : Decidable (Unfinished i) := inferInstanceAs (Decidable (_ = true))

/-- The items of a job as the scraper makes them: each has a link, and no two have the same. -/
structure Linked (jobId : String) (items : List (Item LocalMeta)) : Prop where
  apart : OnePerKey items
  linked : ∀ i ∈ items, i.jobId = jobId → jsonExtract i.itemMetadata "step" = .text "scrape" →
    ∃ url, url ≠ "" ∧ jsonExtract i.itemMetadata "ulid" = .text url

/-! ### The links of the items -/

section
variable {db : Db} {jobId : String} {i : Item LocalMeta}

theorem mem_scrapeItems : i ∈ db.scrapeItems jobId ↔ i ∈ db.items ∧ i.jobId = jobId ∧
    jsonExtract i.itemMetadata "step" = .text "scrape" := by
  rw [Db.scrapeItems, List.mem_filter, decide_eq_true_eq]

theorem itemUrl_iff : itemUrl i = some url ↔ url ≠ "" ∧
    jsonExtract i.itemMetadata "ulid" = .text url := by
  rw [itemUrl]
  split
  next s hs =>
    rw [hs]
    split
    next he => simp [he]
    next he =>
      rw [Option.some.injEq, Value.text.injEq]
      exact ⟨fun h => ⟨h ▸ he, h⟩, And.right⟩
  next hs => exact iff_of_false nofun fun h => hs url h.2

theorem Linked.url (h : Linked jobId db.items) (hi : i ∈ db.scrapeItems jobId) :
    ∃ link, itemUrl i = some link := by
  obtain ⟨hm, hj, hs⟩ := mem_scrapeItems.1 hi
  obtain ⟨link, hne, hu⟩ := h.linked i hm hj hs
  exact ⟨link, itemUrl_iff.2 ⟨hne, hu⟩⟩

theorem isOf_of_url (hi : i ∈ db.scrapeItems jobId) (hu : itemUrl i = some link) :
    i.isOf jobId "scrape" link = true := by
  obtain ⟨_, hj, hs⟩ := mem_scrapeItems.1 hi
  exact isOf_iff.2 ⟨hj, Prod.ext hs (itemUrl_iff.1 hu).2⟩

/-- Items of one key are one. -/
theorem eq_of_isOf {items : List (Item LocalMeta)} (h : OnePerKey items) (hi : i ∈ items)
    (hi' : i' ∈ items) (hof : i.isOf jobId "scrape" link = true)
    (hof' : i'.isOf jobId "scrape" link = true) : i = i' := by
  by_contra hne
  have hsame {a b : Item LocalMeta} (ha : a.isOf jobId "scrape" link = true)
      (hb : b.isOf jobId "scrape" link = true) : b.sameAs a.jobId a.itemMetadata = true := by
    rw [sameAs_isOf (isOf_iff.1 ha).2, (isOf_iff.1 ha).1]
    exact hb
  have hsymm : Std.Symm fun a b : Item LocalMeta => ¬ b.sameAs a.jobId a.itemMetadata = true := by
    constructor
    intro a b hab hba
    apply hab
    rw [sameAs_iff] at hba ⊢
    rw [← hba.2.1]
    exact ⟨hba.1.symm, rfl, hba.2.1 ▸ hba.2.2⟩
  exact h.forall hi hi' hne (hsame hof hof')

/-- The row of an item's link is the item. -/
theorem Linked.item (h : Linked jobId db.items) (hi : i ∈ db.scrapeItems jobId)
    (hu : itemUrl i = some link) : db.item jobId link = some i := by
  have hof := isOf_of_url hi hu
  have hm := (mem_scrapeItems.1 hi).1
  cases hf : db.item jobId link with
  | none => exact absurd hof (List.find?_eq_none.1 hf i hm)
  | some i' => rw [eq_of_isOf h.apart hm (List.mem_of_find?_eq_some hf) hof (isOf_itemRow hf)]

/-- The links of some of the items differ. -/
theorem Linked.nodup (h : Linked jobId db.items) (p : Item LocalMeta → Bool) :
    (((db.scrapeItems jobId).filter p).filterMap itemUrl).Nodup := by
  rw [List.Nodup, List.pairwise_filterMap]
  have hsub : ((db.scrapeItems jobId).filter p).Sublist db.items :=
    List.filter_sublist.trans List.filter_sublist
  apply (h.apart.sublist hsub).imp_of_mem
  intro a b ha hb hne link hl link' hl' he
  subst he
  have hoa := isOf_of_url (List.mem_of_mem_filter ha) hl
  have hob := isOf_of_url (List.mem_of_mem_filter hb) hl'
  apply hne
  rw [sameAs_isOf (isOf_iff.1 hoa).2, (isOf_iff.1 hoa).1]
  exact hob

end

section
variable {x : Scrape} {ts : List Turn} {s : Progress}

/-- Some item has failed. -/
def Scrape.AnyFailed (x : Scrape) : Prop :=
  ∃ i ∈ x.db.scrapeItems x.jobId, i.status = .failed

instance (x : Scrape) : Decidable x.AnyFailed :=
  inferInstanceAs (Decidable (∃ i ∈ x.db.scrapeItems x.jobId, i.status = .failed))

/-- The links of a job with items, in some order. -/
theorem links_perm (h : Linked x.jobId x.db.items) (hi : i ∈ x.db.scrapeItems x.jobId)
    (hstarts : x.starts = true) :
    ∃ p : Item LocalMeta → Bool, x.links.Perm (((x.db.scrapeItems x.jobId).filter p).filterMap
      itemUrl) ∧ ∀ i, p i = true ↔ (x.AnyFailed → i.status = .failed) := by
  have hne : x.db.scrapeItems x.jobId ≠ [] := List.ne_nil_of_mem hi
  rw [Scrape.links, if_pos hstarts]
  dsimp only
  by_cases hany : x.AnyFailed
  · refine ⟨fun i => decide (i.status = .failed), ?_, fun i => ?_⟩
    · have hnodup := h.nodup fun i => decide (i.status = .failed)
      rw [if_pos, hnodup.dedup]
      · exact x.listed _
      · obtain ⟨i', hi', hs⟩ := hany
        obtain ⟨link, hl⟩ := h.url hi'
        exact List.ne_nil_of_mem
          (List.mem_filterMap.2 ⟨i', List.mem_filter.2 ⟨hi', decide_eq_true hs⟩, hl⟩)
    · rw [decide_eq_true_eq]
      exact ⟨fun hs _ => hs, fun hs => hs hany⟩
  · refine ⟨fun _ => true, ?_, fun i => iff_of_true rfl fun ha => absurd ha hany⟩
    rw [List.filter_true, if_neg, if_pos hne]
    · exact x.listed _
    · rw [ne_eq, not_not, List.filterMap_eq_nil_iff]
      intro i' hi'
      obtain ⟨hm, hs⟩ := List.mem_filter.1 hi'
      exact absurd ⟨i', hm, of_decide_eq_true hs⟩ hany

theorem mem_links (h : Linked x.jobId x.db.items) (hi : i ∈ x.db.scrapeItems x.jobId) :
    link ∈ x.links ↔ x.starts = true ∧ ∃ i ∈ x.db.scrapeItems x.jobId, itemUrl i = some link ∧
      (x.AnyFailed → i.status = .failed) := by
  by_cases hstarts : x.starts = true
  · obtain ⟨p, hperm, hp⟩ := links_perm h hi hstarts
    rw [hperm.mem_iff, List.mem_filterMap]
    simp only [List.mem_filter, hp, hstarts, true_and]
    exact ⟨fun ⟨i, ⟨hm, hs⟩, hu⟩ => ⟨i, hm, hu, hs⟩, fun ⟨i, hm, hu, hs⟩ => ⟨i, ⟨hm, hs⟩, hu⟩⟩
  · refine iff_of_false ?_ fun hs => hstarts hs.1
    rw [Scrape.links, if_neg hstarts]
    exact List.not_mem_nil

/-- The links of a job without items are new ones. -/
theorem links_new (h : x.db.scrapeItems x.jobId = []) : x.links =
    if x.starts then
      if x.compared then x.extracted.filter (fun link => !x.db.stored link) else x.extracted
    else [] := by
  rw [Scrape.links, h]
  rfl

theorem links_nodup (h : Linked x.jobId x.db.items) : x.links.Nodup := by
  by_cases hi : ∃ i, i ∈ x.db.scrapeItems x.jobId
  · obtain ⟨i, hi⟩ := hi
    by_cases hstarts : x.starts = true
    · obtain ⟨p, hperm, -⟩ := links_perm h hi hstarts
      exact hperm.nodup_iff.2 (h.nodup p)
    · rw [Scrape.links, if_neg hstarts]
      exact List.nodup_nil
  · rw [links_new (List.eq_nil_iff_forall_not_mem.2 (not_exists.1 hi))]
    split
    · split
      · exact x.apart.filter _
      · exact x.apart
    · exact List.nodup_nil

/-- A run over its links. -/
theorem resumed_of_links (hS : Shelf x.db.store.db) (hd : ∀ y, x.env.digest y ≠ "")
    (h : Linked x.jobId x.db.items) (hts : ts.map Turn.link = x.links)
    (hgoes : ∀ t ∈ ts, t.Goes) : Resumed x ts := by
  refine ⟨hS, hd, ?_, ?_, hgoes⟩
  · rw [hts]
    exact links_nodup h
  · rw [← hts, List.length_map]

/-! ### Resuming a job -/

/-- Every item that is not finished is attempted. -/
def AttemptsAll (x : Scrape) (s : Progress) : Prop :=
  ∀ i ∈ x.db.scrapeItems x.jobId, Unfinished i → ∃ link, itemUrl i = some link ∧ link ∈ s.attempted

/-- Some item is not finished. -/
def Scrape.Pending (x : Scrape) : Prop := ∃ i ∈ x.db.scrapeItems x.jobId, Unfinished i

def Reported (x : Scrape) : Prop :=
  x.Pending → (checkResumeState x.db x.jobId x.target).resumable = true

/-- The site of the job is known and the job is open; when an item has failed, only failed ones are
unfinished; an item is counted as pending or none as completed; and no receipt ends the run before
an unfinished item. -/
structure Resumable (x : Scrape) (ts : List Turn) : Prop where
  target : ∃ site ∈ x.target, site ≠ "" ∧ site ∈ x.targets
  job : ∃ status ∈ x.db.job, status ∉ closedStatuses
  failed : x.AnyFailed → ∀ i ∈ x.db.scrapeItems x.jobId, Unfinished i → i.status = .failed
  counted : (∃ i ∈ x.db.scrapeItems x.jobId, i.status = .pending ∨ i.status = .failed) ∨
    ∀ i ∈ x.db.scrapeItems x.jobId, i.status ≠ .completed
  receipts : ts.Pairwise fun t t' => x.aborts t = true → x.unfinished t'.link = false

/-- What the handler reports resumable. -/
theorem resumable_iff (db : Db) (jobId : String) (targetSite : Option String) :
    (checkResumeState db jobId targetSite).resumable = true ↔
      (∃ site ∈ targetSite, site ≠ "") ∧ (∃ status ∈ db.job, status ∉ closedStatuses) ∧
        ((∃ i ∈ db.scrapeItems jobId, i.status = .pending ∨ i.status = .failed) ∨
          ∀ i ∈ db.scrapeItems jobId, i.status ≠ .completed) := by
  have hpos (status : ItemStatus) : 0 < db.count jobId status ↔
      ∃ i ∈ db.scrapeItems jobId, i.status = status := by
    rw [Db.count, List.countP_pos_iff]
    simp only [decide_eq_true_eq]
  have hzero : db.count jobId .completed = 0 ↔
      ∀ i ∈ db.scrapeItems jobId, i.status ≠ .completed := by
    rw [Db.count, List.countP_eq_zero]
    simp only [decide_eq_true_eq, ne_eq]
  have hpending : minPendingUrls ≤ db.count jobId .pending + db.count jobId .failed ↔
      ∃ i ∈ db.scrapeItems jobId, i.status = .pending ∨ i.status = .failed := by
    rw [minPendingUrls, Nat.one_le_iff_ne_zero, ← Nat.pos_iff_ne_zero, Nat.add_pos_iff_pos_or_pos,
      hpos, hpos, ← exists_or]
    simp only [and_or_left]
  rw [checkResumeState]
  cases hsite : targetSite.filter (· ≠ "") with
  | none =>
    refine iff_of_false Bool.false_ne_true ?_
    rintro ⟨⟨site, hs, hne⟩, _⟩
    rw [Option.filter_eq_none_iff] at hsite
    exact hsite site hs (decide_eq_true hne)
  | some site =>
    obtain ⟨hs, hne⟩ := Option.filter_eq_some_iff.1 hsite
    have htarget : ∃ site ∈ targetSite, site ≠ "" := ⟨site, hs, of_decide_eq_true hne⟩
    rw [and_iff_right htarget]
    cases hjob : db.job with
    | none =>
      refine iff_of_false Bool.false_ne_true ?_
      rintro ⟨⟨status, hj, _⟩, _⟩
      cases hj
    | some status =>
      dsimp only
      have hopen : (∃ st ∈ some status, st ∉ closedStatuses) ↔ status ∉ closedStatuses := by
        simp only [Option.mem_some_iff, exists_eq_left']
      rw [hopen]
      split
      next hc => exact iff_of_false Bool.false_ne_true fun h => h.1 hc
      next hc =>
        rw [and_iff_right hc, Bool.or_eq_true, decide_eq_true_eq, decide_eq_true_eq, hpending, hzero]

/-- The run comes to every unfinished item when no receipt ends it before one. -/
theorem reaches_iff (hapart : (ts.map Turn.link).Nodup) :
    (∀ t ∈ ts, x.unfinished t.link = true → x.Reaches ts t.link) ↔
      ts.Pairwise fun t t' => x.aborts t = true → x.unfinished t'.link = false := by
  induction ts using List.reverseRecOn with
  | nil => exact iff_of_true (fun t ht => (List.not_mem_nil ht).elim) List.Pairwise.nil
  | append_singleton ts t ih =>
    rw [List.map_append, List.map_singleton, List.nodup_append] at hapart
    obtain ⟨hts, -, hne⟩ := hapart
    have hother {t'} (ht' : t' ∈ ts) : t'.link ≠ t.link :=
      hne t'.link (List.mem_map_of_mem ht') t.link (List.mem_singleton_self _)
    have hold {t'} (ht' : t' ∈ ts) : x.Reaches (ts ++ [t]) t'.link ↔ x.Reaches ts t'.link := by
      rw [x.reaches_concat]
      exact or_iff_left fun hl => hother ht' hl.1.symm
    have hlast (hu : x.unfinished t.link = true) :
        x.Reaches (ts ++ [t]) t.link ↔ ∀ t' ∈ ts, x.aborts t' = false := by
      rw [x.reaches_concat, or_iff_right]
      · exact ⟨fun hl => hl.2.2, fun hall => ⟨rfl, hu, hall⟩⟩
      · rintro ⟨ts₁, t', ts₂, rfl, hl, -⟩
        exact hother (List.mem_append_right _ List.mem_cons_self) hl
    rw [List.pairwise_append, ← ih hts, List.forall_mem_append]
    simp only [List.forall_mem_singleton, List.pairwise_singleton, true_and]
    refine and_congr (forall₂_congr fun t' ht' => imp_congr_right fun _ => hold ht') ?_
    constructor
    · intro h t' ht' hab
      by_contra hu
      rw [Bool.not_eq_false] at hu
      rw [(hlast hu).1 (h hu) t' ht'] at hab
      cases hab
    · intro h hu
      refine (hlast hu).2 fun t' ht' => ?_
      by_contra hab
      rw [Bool.not_eq_false] at hab
      rw [h t' ht' hab] at hu
      cases hu

/-- What the item of a link of the run is. -/
theorem unfinished_iff (h : Linked x.jobId x.db.items) (hi : i ∈ x.db.scrapeItems x.jobId)
    (hu : itemUrl i = some link) : x.unfinished link = true ↔ Unfinished i := by
  rw [Scrape.unfinished, Scrape.known, Db.known, h.item hi hu]
  exact Iff.rfl

/-- A run that no one cancels attempts every unfinished item, and the handler reports the job, exactly
when nothing is unfinished or all of the job can be resumed. -/
theorem resumes_iff (hS : Shelf x.db.store.db) (hd : ∀ y, x.env.digest y ≠ "")
    (h : Linked x.jobId x.db.items) (hstopped : x.stopped = false)
    (hts : ts.map Turn.link = x.links) (hgoes : ∀ t ∈ ts, t.Goes) (hrun : x.run ts = some s) :
    AttemptsAll x s ∧ Reported x ↔ (x.Pending → Resumable x ts) := by
  by_cases hpending : x.Pending
  swap
  · exact iff_of_true ⟨fun i hi hu => absurd ⟨i, hi, hu⟩ hpending, fun hp => absurd hp hpending⟩
      fun hp => absurd hp hpending
  obtain ⟨i₀, hi₀, hu₀⟩ := hpending
  have hpending : x.Pending := ⟨i₀, hi₀, hu₀⟩
  have hresumed := resumed_of_links hS hd h hts hgoes
  have hattempted := (standing_run hresumed hrun).attempted
  have hturn {link} : link ∈ x.links ↔ ∃ t ∈ ts, t.link = link := by
    rw [← hts, List.mem_map]
  have hreached {link} (hr : x.Reaches ts link) : link ∈ x.links := by
    obtain ⟨ts₁, t, ts₂, rfl, hl, -⟩ := hr
    exact hturn.2 ⟨t, List.mem_append_right _ List.mem_cons_self, hl⟩
  rw [Reported, resumable_iff]
  constructor
  · rintro ⟨hall, hreported⟩ -
    obtain ⟨⟨site, hsite, hne⟩, hjob, hcounted⟩ := hreported hpending
    have hlinks {i} (hi : i ∈ x.db.scrapeItems x.jobId) (hu : Unfinished i) :
        ∃ link, itemUrl i = some link ∧ x.Reaches ts link := by
      obtain ⟨link, hl, ha⟩ := hall i hi hu
      exact ⟨link, hl, (hattempted link).1 ha⟩
    refine ⟨?_, hjob, ?_, hcounted, ?_⟩
    · obtain ⟨link, -, hr⟩ := hlinks hi₀ hu₀
      have hstarts := ((mem_links h hi₀).1 (hreached hr)).1
      rw [Scrape.starts, Bool.and_eq_true, Option.mem_def.1 hsite, Option.any_some,
        decide_eq_true_eq] at hstarts
      exact ⟨site, hsite, hne, hstarts.1⟩
    · intro hany i hi hu
      obtain ⟨link, hl, hr⟩ := hlinks hi hu
      obtain ⟨-, i', hi', hl', hfailed⟩ := (mem_links h hi₀).1 (hreached hr)
      have hsame := (h.item hi hl).symm.trans (h.item hi' hl')
      rw [Option.some.inj hsame]
      exact hfailed hany
    · rw [← reaches_iff hresumed.apart]
      intro t ht hu
      obtain ⟨-, i, hi, hl, -⟩ := (mem_links h hi₀).1 (hturn.2 ⟨t, ht, rfl⟩)
      obtain ⟨link, hl', hr⟩ := hlinks hi ((unfinished_iff h hi hl).1 hu)
      rw [hl] at hl'
      rwa [Option.some.inj hl']
  · intro hresumable
    obtain ⟨⟨site, hsite, hne, htargets⟩, hjob, hfailed, hcounted, hreceipts⟩ :=
      hresumable hpending
    have hstarts : x.starts = true := by
      rw [Scrape.starts, Option.mem_def.1 hsite, Option.any_some, hstopped, Bool.not_false,
        Bool.and_true]
      exact decide_eq_true htargets
    refine ⟨?_, fun _ => ⟨⟨site, hsite, hne⟩, hjob, hcounted⟩⟩
    intro i hi hu
    obtain ⟨link, hl⟩ := h.url hi
    refine ⟨link, hl, (hattempted link).2 ?_⟩
    obtain ⟨t, ht, rfl⟩ := hturn.1
      ((mem_links h hi₀).2 ⟨hstarts, i, hi, hl, fun hany => hfailed hany i hi hu⟩)
    exact (reaches_iff hresumed.apart).2 hreceipts t ht ((unfinished_iff h hi hl).2 hu)

end

def scrapeItem (link : String) (status : ItemStatus) (info : Option LocalMeta := none) :
    Item LocalMeta where
  jobId := "job1"
  itemMetadata := Scrape.metadata "2024-05-01T10:00:00+00:00" link
  status := status
  outputData := info
  updatedAt := "2024-05-01 10:00:00"

def resumedScrape (items : List (Item LocalMeta)) : Scrape where
  env := hashEnv
  jobId := "job1"
  db := { items, store := bareStore, job := some "INTERRUPTED" }
  now := "2024-05-02T10:00:00+00:00"
  target := some "FT"
  targets := ["FT"]
  named := List.not_mem_nil
  apart := List.nodup_nil
  order := id
  listed := fun _ => .refl _

/-- A turn at which the page cannot be read. -/
def unreadable (link : String) : Turn where
  link := link
  answers := { page := false, replies := [] }
  ulid := "01HWTR3Q0G0000000000000001"
  embedding := none
  now := "2024-05-02T10:00:01+00:00"
  later := "2024-05-02T10:00:02+00:00"
  metadataJson := "\x7b\x7d"
  committedAt := "2024-05-02 10:00:03"

/-- An item that was running, one that is pending and one that is completed. -/
def interruptedItems : List (Item LocalMeta) :=
  [scrapeItem "https://example.org/a" .running (some { validationPassed := true }),
    scrapeItem "https://example.org/b" .pending, scrapeItem "https://example.org/c" .completed]

/-- An item that has failed and is to be retried, and one that is pending. -/
def partialItems : List (Item LocalMeta) :=
  [scrapeItem "https://example.org/a" .failed (some { retryable := true }),
    scrapeItem "https://example.org/b" .pending]

def interruptedTurns : List Turn :=
  [unreadable "https://example.org/a", unreadable "https://example.org/b",
    unreadable "https://example.org/c"]

theorem linked_scrapeItems {items : List (Item LocalMeta)} (h : OnePerKey items)
    (hall : ∀ i ∈ items, ∃ link status info, link ≠ "" ∧ i = scrapeItem link status info) :
    Linked "job1" items := by
  refine ⟨h, fun i hi _ _ => ?_⟩
  obtain ⟨link, status, info, hne, rfl⟩ := hall i hi
  have hkey : itemKey (scrapeItem link status info).itemMetadata = (.text "scrape", .text link) :=
    itemKey_makeMetadata ..
  exact ⟨link, hne, congrArg Prod.snd hkey⟩

/-- A job that was interrupted at an item is resumed at that one and at the pending one. -/
theorem interrupted_resumes :
    AttemptsAll (resumedScrape interruptedItems)
        (((resumedScrape interruptedItems).run interruptedTurns).getD { queued := [] }) ∧
      Reported (resumedScrape interruptedItems) := by
  have hlinked : Linked "job1" interruptedItems := by
    apply linked_scrapeItems (by decide +kernel)
    simp only [interruptedItems, List.forall_mem_cons]
    exact ⟨⟨_, _, _, by decide, rfl⟩, ⟨_, _, _, by decide, rfl⟩, ⟨_, _, _, by decide, rfl⟩, nofun⟩
  have hrun : ((resumedScrape interruptedItems).run interruptedTurns).isSome = true := by
    decide +kernel
  obtain ⟨s, hs⟩ := Option.isSome_iff_exists.1 hrun
  rw [hs, Option.getD_some]
  refine (resumes_iff shelf_bare hashEnv_digest hlinked rfl (by decide +kernel)
    (by decide +kernel) hs).2 fun _ => ?_
  constructor
  · exact ⟨"FT", rfl, by decide, by decide⟩
  · exact ⟨"INTERRUPTED", rfl, by decide⟩
  · decide +kernel
  · decide +kernel
  · decide +kernel

/-- Where an item has failed, one that is pending is passed over. -/
theorem partial_passes_over : ¬ ∀ (x : Scrape) (ts : List Turn) (s : Progress),
    Shelf x.db.store.db → (∀ y, x.env.digest y ≠ "") → Linked x.jobId x.db.items →
      x.stopped = false → ts.map Turn.link = x.links → (∀ t ∈ ts, t.Goes) → x.run ts = some s →
        AttemptsAll x s ∧ Reported x := by
  intro h
  have hlinked : Linked "job1" partialItems := by
    apply linked_scrapeItems (by decide +kernel)
    simp only [partialItems, List.forall_mem_cons]
    exact ⟨⟨_, _, _, by decide, rfl⟩, ⟨_, _, _, by decide, rfl⟩, nofun⟩
  have hrun : (((resumedScrape partialItems).run [unreadable "https://example.org/a"]).map
      Progress.attempted) = some ["https://example.org/a"] := by
    decide +kernel
  obtain ⟨s, hs, hattempted⟩ := Option.map_eq_some_iff.1 hrun
  obtain ⟨hall, -⟩ := h (resumedScrape partialItems) [unreadable "https://example.org/a"] s
    shelf_bare hashEnv_digest hlinked rfl (by decide +kernel) (by decide +kernel) hs
  have hmem : scrapeItem "https://example.org/b" .pending ∈
      (resumedScrape partialItems).db.scrapeItems "job1" := by
    rw [mem_scrapeItems]
    exact ⟨List.mem_cons_of_mem _ List.mem_cons_self, rfl, by decide +kernel⟩
  obtain ⟨link, hlink, ha⟩ := hall _ hmem (by decide +kernel)
  have hb : itemUrl (scrapeItem "https://example.org/b" .pending) = some "https://example.org/b" := by
    decide +kernel
  rw [hb, Option.some.injEq] at hlink
  rw [hattempted, ← hlink] at ha
  exact absurd ha (by decide)

end Scraper
