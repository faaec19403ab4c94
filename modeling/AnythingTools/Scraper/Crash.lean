import AnythingTools.Scraper.Completion
import AnythingTools.Scraper.Resume

namespace Scraper
open Relational Relational.Database Sync Articles JobItems
set_option autoImplicit true

/-! ### What a crash leaves -/

/-- The database when the process ends with so many of its writes committed. -/
def Scrape.crashed (x : Scrape) (s : Progress) (committed : Nat) : Db :=
  x.db.commitAll x.env (s.queued.take committed)

section
variable {x : Scrape} {s : Progress} {ts : List Turn} {link : String}

/-- Items that are added or updated under a link keep one for each link. -/
theorem linked_commit {items : List (Item LocalMeta)} {w : ItemWrite LocalMeta}
    (h : Linked jobId items)
    (hw : (∃ now, w = .add jobId m now) ∨ ∃ status info now, w = .update jobId m status info now)
    (hm : itemKey m = (.text "scrape", .text link)) (hne : link ≠ "") :
    Linked jobId (JobItems.commit items w) := by
  have hurl : ∃ url, url ≠ "" ∧ jsonExtract m "ulid" = .text url :=
    ⟨link, hne, congrArg Prod.snd hm⟩
  rcases hw with ⟨now, rfl⟩ | ⟨status, info, now, rfl⟩
  · refine ⟨onePerKey_commit h.apart trivial, ?_⟩
    intro i hi hj hs
    rw [JobItems.commit] at hi
    split at hi
    · exact h.linked i hi hj hs
    · rcases List.mem_append.1 hi with hi | hi
      · exact h.linked i hi hj hs
      · rw [List.mem_singleton.1 hi]
        exact hurl
  · refine ⟨onePerKey_commit h.apart trivial, ?_⟩
    intro i hi hj hs
    obtain ⟨i', hi', he⟩ := List.mem_map.1 hi
    by_cases hsame : i'.sameAs jobId m = true
    · rw [if_pos hsame] at he
      rw [← he]
      exact hurl
    · rw [if_neg hsame] at he
      rw [← he] at hj hs ⊢
      exact h.linked i' hi' hj hs

theorem linked_about (e : Env) {db : Db} (h : Linked jobId db.items) (hne : link ≠ "")
    (ha : About jobId link w) : Linked jobId (db.commit e w).items := by
  cases ha with
  | plain hp =>
    cases hp with
    | item hm hs => exact linked_commit h (.inr ⟨_, _, _, rfl⟩) hm hne
    | job => exact h
  | article hm hu =>
    rcases commit_article e db _ _ _ with he | ⟨store, _, he⟩
    · rw [he]
      exact h
    · rw [he]
      exact linked_commit h (.inr ⟨_, _, _, rfl⟩) hm hne

/-- No link is empty. -/
theorem named_links (h : Linked x.jobId x.db.items) (hl : link ∈ x.links) : link ≠ "" := by
  by_cases hi : ∃ i, i ∈ x.db.scrapeItems x.jobId
  · obtain ⟨i, hi⟩ := hi
    obtain ⟨_, i', _, hu, _⟩ := (mem_links h hi).1 hl
    exact (itemUrl_iff.1 hu).1
  · rw [links_new (List.eq_nil_iff_forall_not_mem.2 (not_exists.1 hi))] at hl
    have hmem : link ∈ x.extracted := by
      split at hl
      · split at hl
        · exact List.mem_of_mem_filter hl
        · exact hl
      · cases hl
    rintro rfl
    exact x.named hmem

/-- So do the writes of a run, as far as they are committed. -/
theorem linked_crashed (h : Linked x.jobId x.db.items) (hlinks : ∀ t ∈ ts, t.link ∈ x.links)
    (hrun : x.run ts = some s) (committed : Nat) :
    Linked x.jobId (x.crashed s committed).items := by
  have hall (db : Db) (ws : List Write) (hdb : Linked x.jobId db.items)
      (hws : ∀ w ∈ ws, ∃ link, link ≠ "" ∧ (About x.jobId link w ∨
        w = .item (.add x.jobId (Scrape.metadata x.now link) x.now))) :
      Linked x.jobId (db.commitAll x.env ws).items := by
    induction ws generalizing db with
    | nil => exact hdb
    | cons w ws ih =>
      refine ih (db.commit x.env w) ?_ fun w hw => hws w (List.mem_cons_of_mem _ hw)
      obtain ⟨link, hne, ha | rfl⟩ := hws w List.mem_cons_self
      · exact linked_about x.env hdb hne ha
      · exact linked_commit hdb (.inl ⟨_, rfl⟩) (itemKey_makeMetadata ..) hne
  apply hall x.db _ h
  intro w hw
  obtain ⟨ws, hq, hws⟩ := run_writes hrun
  have hqueued := List.mem_of_mem_take hw
  rw [hq] at hqueued
  rcases List.mem_append.1 hqueued with hw | hw
  · obtain ⟨link, hl, rfl⟩ := mem_preflight hw
    exact ⟨link, named_links h hl, .inr rfl⟩
  · obtain ⟨t, ht, ha⟩ := hws w hw
    exact ⟨t.link, named_links h (hlinks t ht), .inl ha⟩

/-! ### What a resumed run recovers -/

/-- The run goes on with the link, and its article is refused. -/
def Scrape.blocked (x : Scrape) (link : String) : Bool :=
  x.unfinished link && (!(x.known link).2.summarized && x.db.stored link)

/-- The run comes to the link before one that is blocked; the item is unfinished and has no summary
yet, and the URL is not stored. -/
def Scrape.Recovers (x : Scrape) (link : String) : Prop :=
  (∃ before after, x.links = before ++ link :: after ∧
    ∀ link' ∈ before, x.blocked link' = false) ∧ x.unfinished link = true ∧
      x.completes link = true

theorem aborts_succeed {t : Turn} (h : t.Succeeds) : x.aborts t = x.blocked t.link := by
  rw [Scrape.aborts, Scrape.blocked, h.found, h.late, h.embedded, Bool.and_true, Bool.false_or,
    Bool.true_and, Bool.and_assoc]
  cases hs : (x.known t.link).2.summarized with
  | true =>
    rw [yields_summarized _ hs]
    rfl
  | false =>
    rw [yields_succeed h.answers hs]
    rfl

theorem recovers_iff (hts : ts.map Turn.link = x.links) (hs : ∀ t ∈ ts, t.Succeeds) :
    x.Completes ts link ↔ x.Recovers link := by
  rw [Scrape.Completes, Scrape.Reaches, Scrape.Recovers, ← hts]
  constructor
  · rintro ⟨⟨ts₁, t, ts₂, rfl, rfl, hu, hall⟩, hc⟩
    refine ⟨⟨ts₁.map Turn.link, ts₂.map Turn.link, ?_, ?_⟩, hu, hc⟩
    · rw [List.map_append, List.map_cons]
    · intro link' hl
      obtain ⟨t', ht', rfl⟩ := List.mem_map.1 hl
      rw [← aborts_succeed (hs t' (List.mem_append_left _ ht'))]
      exact hall t' ht'
  · rintro ⟨⟨before, after, he, hall⟩, hu, hc⟩
    obtain ⟨ts₁, ts₂', rfl, rfl, he'⟩ := List.map_eq_append_iff.1 he
    obtain ⟨t, ts₂, rfl, rfl, rfl⟩ := List.map_eq_cons_iff.1 he'
    refine ⟨⟨ts₁, t, ts₂, rfl, rfl, hu, ?_⟩, hc⟩
    intro t' ht'
    rw [aborts_succeed (hs t' (List.mem_append_left _ ht'))]
    exact hall t'.link (List.mem_map_of_mem ht')

/-- The item of the link is completed, and its article is stored with the embedding. -/
def Db.Ended (db : Db) (jobId link : String) : Prop :=
  db.completed jobId link = true ∧ db.embedded link = true

instance (db : Db) (jobId link : String) : Decidable (db.Ended jobId link) :=
  inferInstanceAs (Decidable (_ ∧ _))

/-- After a crash, a resumed run in which every call succeeds leaves the articles that had ended
before and those that it recovers. -/
theorem crash_ends_iff {x' : Scrape} {s' : Progress} {ts' : List Turn}
    (hS : Shelf x.db.store.db) (h : Linked x.jobId x.db.items)
    (hlinks : ∀ t ∈ ts, t.link ∈ x.links) (hrun : x.run ts = some s)
    (hjob : x'.jobId = x.jobId) (hitems : x'.db.items = (x.crashed s committed).items)
    (hstore : x'.db.store = (x.crashed s committed).store) (hd : ∀ y, x'.env.digest y ≠ "")
    (hts : ts'.map Turn.link = x'.links) (hs : ∀ t ∈ ts', t.Succeeds)
    (hrun' : x'.run ts' = some s') :
    (x'.final s').Ended x.jobId link ↔ x'.db.Ended x.jobId link ∨ x'.Recovers link := by
  have hlinked := linked_crashed h hlinks hrun committed
  have hshelf : Shelf (x.crashed s committed).store.db := shelf_commitAll x.env hS _
  rw [← hitems, ← hjob] at hlinked
  rw [← hstore] at hshelf
  have hresumed := resumed_of_links hshelf hd hlinked hts fun t ht => (hs t ht).goes
  have hall : ∀ t ∈ ts', t.link ∈ x'.links := fun t ht => hts ▸ List.mem_map_of_mem ht
  have hfinishing := finishing_run hresumed hall hs hrun'
  rw [← hjob, Db.Ended, hfinishing.completed, hfinishing.embedded, recovers_iff hts hs, ← and_or_right]
  exact Iff.rfl

end

/-- A first run over one link. -/
def firstScrape : Scrape :=
  { resumedScrape [] with
    extracted := ["https://example.org/a"]
    named := by decide
    apart := by decide }

def zeroVector : List UInt8 := List.replicate (1024 * 4) 0

theorem valid_zeroVector : validateEmbeddingBytes zeroVector = true :=
  decide_eq_true List.length_replicate

/-- A turn at which every call succeeds. -/
def succeeding : Turn where
  link := "https://example.org/a"
  answers := { replies := [{ title := "Title", conclusion := "Conclusion", summary := .text "Text" }] }
  ulid := "01HWTR3Q0G0000000000000001"
  embedding := some zeroVector
  now := "2024-05-02T10:00:01+00:00"
  later := "2024-05-02T10:00:02+00:00"
  metadataJson := "\x7b\x7d"
  committedAt := "2024-05-02 10:00:03"

theorem embedded_succeeding : succeeding.embedded = true := by
  rw [Turn.embedded, succeeding, Option.any_some]
  exact valid_zeroVector

theorem succeeds_succeeding : succeeding.Succeeds where
  goes := by decide
  answers := ⟨rfl, rfl, .inl rfl, .inl rfl, _, _, rfl, by decide, by decide +kernel,
    by decide +kernel⟩
  embedded := embedded_succeeding
  found := by decide
  late := rfl

theorem linked_firstScrape : Linked firstScrape.jobId firstScrape.db.items :=
  ⟨List.Pairwise.nil, fun _ hi => (List.not_mem_nil hi).elim⟩

theorem links_firstScrape : ∀ t ∈ [succeeding], t.link ∈ firstScrape.links := by
  intro t ht
  rw [List.mem_singleton.1 ht]
  decide +kernel

/-- The first run, broken off with so many of its writes committed, is resumed. -/
def resumedAfter (committed : Nat) : Scrape :=
  resumedScrape (((firstScrape.run [succeeding]).map fun s =>
    (firstScrape.crashed s committed).items).getD [])

theorem run_firstScrape : ∃ s, firstScrape.run [succeeding] = some s :=
  Option.isSome_iff_exists.1 (by decide +kernel)

/-- As long as no article is committed. -/
theorem resumedAfter_db (hs : firstScrape.run [succeeding] = some s)
    (h : ((firstScrape.run [succeeding]).map fun s =>
      (s.queued.take committed).all Write.storeless) = some true) :
    (resumedAfter committed).db.items = (firstScrape.crashed s committed).items ∧
      (resumedAfter committed).db.store = (firstScrape.crashed s committed).store := by
  constructor
  · rw [resumedAfter, hs]
    rfl
  · rw [hs, Option.map_some, Option.some.injEq, List.all_eq_true] at h
    have hsame : (firstScrape.crashed s committed).store = bareStore :=
      store_storeless firstScrape.env h
    have hbare : (resumedAfter committed).db.store = bareStore := rfl
    rw [hbare, hsame]

theorem succeed_succeeding : ∀ t ∈ [succeeding], t.Succeeds := by
  intro t ht
  rw [List.mem_singleton.1 ht]
  exact succeeds_succeeding

/-- After a crash between the validation and the summary the article is recovered. -/
theorem validated_recovers : (((resumedAfter 3).run [succeeding]).map fun s' =>
    decide (((resumedAfter 3).final s').Ended "job1" "https://example.org/a")) = some true := by
  obtain ⟨s, hs⟩ := run_firstScrape
  have hrun' : ((resumedAfter 3).run [succeeding]).isSome = true := by decide +kernel
  obtain ⟨s', hs'⟩ := Option.isSome_iff_exists.1 hrun'
  obtain ⟨hitems, hstore⟩ := resumedAfter_db hs (by decide +kernel : ((firstScrape.run [succeeding]).map
    fun s => (s.queued.take 3).all Write.storeless) = some true)
  have hjob : (resumedAfter 3).jobId = firstScrape.jobId := rfl
  have hrecovers : (resumedAfter 3).Recovers "https://example.org/a" :=
    ⟨⟨[], [], by decide +kernel, fun _ h => (List.not_mem_nil h).elim⟩, by decide +kernel,
      by decide +kernel⟩
  refine Option.map_eq_some_iff.2 ⟨s', hs', decide_eq_true ?_⟩
  exact (crash_ends_iff shelf_bare linked_firstScrape links_firstScrape hs hjob hitems hstore
    hashEnv_digest (by decide +kernel) succeed_succeeding hs').2 (.inr hrecovers)

/-- After a crash between the summary and the article it is lost. -/
theorem summarized_lost : ¬ ∀ (x x' : Scrape) (ts ts' : List Turn) (s s' : Progress)
    (committed : Nat), Shelf x.db.store.db → Linked x.jobId x.db.items →
    (∀ t ∈ ts, t.link ∈ x.links) → x.run ts = some s → x'.jobId = x.jobId →
    x'.db.items = (x.crashed s committed).items → x'.db.store = (x.crashed s committed).store →
    (∀ y, x'.env.digest y ≠ "") → ts'.map Turn.link = x'.links → (∀ t ∈ ts', t.Succeeds) →
    x'.run ts' = some s' → ∀ t ∈ ts, (x'.final s').Ended x.jobId t.link := by
  intro h
  obtain ⟨s, hs⟩ := run_firstScrape
  have hrun' : ((resumedAfter 4).run [succeeding]).map (fun s' =>
      decide (((resumedAfter 4).final s').Ended "job1" "https://example.org/a")) = some false := by
    decide +kernel
  obtain ⟨s', hs', hnot⟩ := Option.map_eq_some_iff.1 hrun'
  obtain ⟨hitems, hstore⟩ := resumedAfter_db hs (by decide +kernel : ((firstScrape.run [succeeding]).map
    fun s => (s.queued.take 4).all Write.storeless) = some true)
  exact of_decide_eq_false hnot (h firstScrape (resumedAfter 4) [succeeding] [succeeding] s s' 4
    shelf_bare linked_firstScrape links_firstScrape hs rfl hitems hstore hashEnv_digest
    (by decide +kernel) succeed_succeeding hs' succeeding (List.mem_singleton_self _))

end Scraper
