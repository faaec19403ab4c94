import AnythingTools.Scraper.Loop

namespace Scraper
open Relational Relational.Database Sync Articles JobItems
set_option autoImplicit true

/-! ### Answers that let an article through -/

/-- The page is read, validated by the model or let through by a person, and summarised at the first
attempt. -/
structure Answers.Succeed (a : Answers) : Prop where
  page : a.page = true
  videoAudio : a.videoAudio = some false
  paywall : a.paywall = some none ∨ a.paywall = some (some .proceed) ∧ a.reload = true
  verdict : a.verdict = some .proceed ∨ (∃ display, a.verdict = some (.humanHelp display)) ∧
    a.stopped = false ∧ a.decision = .proceed ∧ a.reload = true
  reply : ∃ data replies, a.replies = data :: replies ∧ data.error ≠ "INSUFFICIENT_CONTENT" ∧
    strip data.title ≠ "" ∧ strip data.conclusion ≠ ""

/-- Every call outside succeeds, the embedding has its length, the random row ids are found, and the
receipt comes in time. -/
structure Turn.Succeeds (t : Turn) : Prop where
  goes : t.Goes
  answers : t.answers.Succeed
  embedded : t.embedded = true
  found : t.found = true
  late : t.late = false

section
variable {a : Answers} {p : Processed}

theorem andThen_none {f : Processed → Processed} (h : p.result = none) : p.andThen f = f p := by
  rw [Processed.andThen, h]

theorem checkPaywall_succeed (h : a.Succeed) (hp : p.result = none) :
    (checkPaywall a p).result = none := by
  rcases h.paywall with hpay | ⟨hpay, hreload⟩
  · rw [checkPaywall, hpay]
    exact hp
  · rw [checkPaywall, hpay]
    dsimp only
    rw [if_pos hreload]
    exact hp

theorem checkVerdict_succeed (h : a.Succeed) (hp : p.result = none) :
    (checkVerdict a p).result = none := by
  rw [checkVerdict]
  split
  · exact hp
  · rcases h.verdict with hv | ⟨⟨display, hv⟩, hstopped, hdecision, hreload⟩
    · rw [hv]
      exact hp
    · rw [hv]
      dsimp only
      rw [hstopped, hdecision, if_neg Bool.false_ne_true]
      dsimp only
      rw [if_pos hreload]
      exact hp

theorem strip_empty : strip "" = "" := by decide +kernel

theorem summarize_succeed (h : a.Succeed) : ∃ data, (summarize a p).result = some (.success data) ∧
    strip data.title ≠ "" ∧ strip data.conclusion ≠ "" := by
  obtain ⟨data, replies, hreplies, herror, htitle, hconclusion⟩ := h.reply
  have hfields : data.title ≠ "" ∧ data.conclusion ≠ "" := by
    constructor
    · intro he
      rw [he] at htitle
      exact htitle strip_empty
    · intro he
      rw [he] at hconclusion
      exact hconclusion strip_empty
  refine ⟨data, ?_, htitle, hconclusion⟩
  rw [summarize, hreplies, summarizeArticle, if_neg herror, if_pos hfields]
  rfl

/-- Such answers give an article to an item that has no summary yet. -/
theorem yields_succeed (h : a.Succeed) (hs : info.summarized = false) : yields a info = true := by
  have hchecked : (if info.validationPassed then ({ info } : Processed)
      else (checkVideoAudio a { info }).andThen (checkPaywall a)).result = none := by
    split
    · rfl
    · rw [checkVideoAudio, h.videoAudio]
      exact checkPaywall_succeed h rfl
  obtain ⟨data, hdata, htitle, hconclusion⟩ := summarize_succeed (p := checkVerdict a
    (if info.validationPassed then ({ info } : Processed)
      else (checkVideoAudio a { info }).andThen (checkPaywall a))) h
  have hresult : (processArticle a info).result = some (.success data) := by
    rw [processArticle, hs, if_neg Bool.false_ne_true, h.page, if_neg Bool.noConfusion]
    dsimp only
    rw [andThen_none hchecked, andThen_none (checkVerdict_succeed h hchecked)]
    exact hdata
  rw [yields, hresult, Option.map_some, parseArticleResult, if_neg (not_or.2 ⟨htitle, hconclusion⟩)]

end

/-! ### Completed and embedded -/

/-- The item of the link is completed. -/
def Db.completed (db : Db) (jobId link : String) : Bool :=
  (db.item jobId link).any fun i => decide (i.status = .completed)

/-- An article of the link is stored together with its embedding. -/
def Db.embedded (db : Db) (link : String) : Bool :=
  db.articles.any fun r => decide (r.get "url" = .text link) &&
    db.store.vec.any fun p => decide (p.1 = r.get "vec_rowid")

theorem embedded_iff {db : Db} : db.embedded link = true ↔
    ∃ k ∈ identities db.store.db, k.2.1 = .text link ∧ ∃ bs, (k.2.2, bs) ∈ db.store.vec := by
  rw [Db.embedded, List.any_eq_true]
  constructor
  · rintro ⟨r, hr, h⟩
    rw [Bool.and_eq_true, decide_eq_true_eq, List.any_eq_true] at h
    obtain ⟨hurl, ⟨v, bs⟩, hp, hv⟩ := h
    have hid : v = r.get "vec_rowid" := of_decide_eq_true hv
    exact ⟨_, List.mem_map_of_mem hr, hurl, bs, hid ▸ hp⟩
  · rintro ⟨k, hk, hurl, bs, hm⟩
    obtain ⟨r, hr, rfl⟩ := List.mem_map.1 hk
    refine ⟨r, hr, ?_⟩
    rw [Bool.and_eq_true, decide_eq_true_eq, List.any_eq_true]
    exact ⟨hurl, _, hm, decide_eq_true rfl⟩

section
variable {jobId link link' : String} {db : Db} {w : Write} {ws : List Write}

theorem completed_about (e : Env) (h : About jobId link' w) (hne : link ≠ link') :
    (db.commit e w).completed jobId link = db.completed jobId link := by
  rw [Db.completed, Db.completed, item_about e db h hne]

theorem completed_plain (e : Env) (h : Plain jobId link w) (hc : db.completed jobId link = false) :
    (db.commit e w).completed jobId link = false := by
  cases h with
  | item hm hs =>
    rw [Db.completed, Option.any_eq_false]
    intro i hi
    have hrow := (itemRow_update_self db.items _ _ _ hm).symm.trans hi
    obtain ⟨i', _, rfl⟩ := Option.map_eq_some_iff.1 hrow
    exact decide_eq_false hs
  | job => exact hc

/-- Writes that complete nothing leave what is completed and embedded. -/
theorem outcome_plains (e : Env) (h : ∀ w ∈ ws, Plain jobId link' w)
    (hc : db.completed jobId link' = false) :
    (∀ link, (db.commitAll e ws).completed jobId link = db.completed jobId link) ∧
      ∀ link, (db.commitAll e ws).embedded link = db.embedded link := by
  constructor
  · induction ws generalizing db with
    | nil => exact fun _ => rfl
    | cons w ws ih =>
      have hw := h w List.mem_cons_self
      have hfirst : ∀ link, (db.commit e w).completed jobId link = db.completed jobId link := by
        intro link
        by_cases hl : link = link'
        · rw [hl, completed_plain e hw hc, hc]
        · exact completed_about e (.plain hw) hl
      intro link
      rw [← hfirst link]
      exact ih (fun w hw => h w (List.mem_cons_of_mem _ hw)) ((hfirst link').trans hc) link
  · intro link
    rw [Db.embedded, Db.articles, store_plains e h]
    rfl

/-- A new article with an embedding, under a row id that no article has. -/
theorem embedded_new {items : List (Item LocalMeta)} {store : Store}
    (hids : identities store.db = identities db.store.db ++ [(key, .text link', .int v)])
    (hvec : store.vec = db.store.vec.filter (fun p => decide (p.1 ≠ .int v)) ++ [(.int v, bs)])
    (hfresh : ∀ k ∈ identities db.store.db, k.2.2 ≠ .int v) (link : String) :
    { db with items, store }.embedded link = true ↔ db.embedded link = true ∨ link = link' := by
  rw [embedded_iff, embedded_iff, hids, hvec]
  simp only [List.mem_append, List.mem_singleton, or_and_right, exists_or, exists_eq_left]
  refine or_congr ?_ ?_
  · refine exists_congr fun k => and_congr_right fun hk => and_congr_right fun _ => ?_
    have hne := hfresh k hk
    have hother (bs' : List UInt8) : ¬ (k.2.2, bs') = (.int v, bs) :=
      fun he => hne (congrArg Prod.fst he)
    simp only [hother, exists_false, or_false, List.mem_filter, decide_eq_true hne, and_true]
  · constructor
    · rintro ⟨he, -⟩
      exact (Value.text.inj he).symm
    · rintro rfl
      exact ⟨rfl, .inr ⟨bs, rfl⟩⟩

/-! ### The items of the links -/

theorem present_about (e : Env) (h : About jobId link' w) (hp : (db.item jobId link).isSome) :
    ((db.commit e w).item jobId link).isSome := by
  have hupdate (m : Metadata) (status : ItemStatus) (info : LocalMeta) (now : String) :
      (itemRow (JobItems.commit db.items (.update jobId m status info now)) jobId "scrape"
        link).isSome := by
    rw [itemRow_update, Option.isSome_map]
    exact hp
  cases h with
  | plain h =>
    cases h with
    | item hm hs => exact hupdate _ _ _ _
    | job => exact hp
  | article hm hu =>
    rcases commit_article e db _ _ _ with h | ⟨store, _, h⟩
    · rw [h]
      exact hp
    · rw [h]
      exact hupdate _ _ _ _

theorem present_add (e : Env) (m : Metadata) (now : String)
    (hp : (db.item jobId link).isSome) :
    ((db.commit e (.item (.add jobId m now))).item jobId link).isSome := by
  obtain ⟨i, hi⟩ := Option.isSome_iff_exists.1 hp
  have hrow := itemRow_add_of_some db.items jobId m now hi
  exact Option.isSome_iff_exists.2 ⟨i, hrow⟩

/-- An item that is added is there. -/
theorem present_added (e : Env) (now : String) (hm : itemKey m = (.text "scrape", .text link)) :
    ((db.commit e (.item (.add jobId m now))).item jobId link).isSome := by
  change (itemRow (JobItems.commit db.items (.add jobId m now)) jobId "scrape" link).isSome
  rw [JobItems.commit, itemRow, List.find?_isSome]
  split
  next hany =>
    obtain ⟨i, hi, hsame⟩ := List.any_eq_true.1 hany
    exact ⟨i, hi, (sameAs_isOf hm).symm.trans hsame⟩
  next =>
    exact ⟨_, List.mem_append_right _ (List.mem_singleton_self _), isOf_iff.2 ⟨rfl, hm⟩⟩

end

section
variable {x : Scrape} {s s' : Progress} {t : Turn} {ts : List Turn} {link : String}

theorem present_abouts (e : Env) {db : Db} (h : ∀ w ∈ ws, ∃ link, About jobId link w)
    (hp : (db.item jobId link).isSome) : ((db.commitAll e ws).item jobId link).isSome := by
  induction ws generalizing db with
  | nil => exact hp
  | cons w ws ih =>
    obtain ⟨link', ha⟩ := h w List.mem_cons_self
    exact ih (fun w hw => h w (List.mem_cons_of_mem _ hw)) (present_about e ha hp)

/-- Once the preflight is committed, every link has an item. -/
theorem present_preflight (x : Scrape) (hl : link ∈ x.links) :
    ((x.db.commitAll x.env x.preflight).item x.jobId link).isSome := by
  have hall (db : Db) (links : List String) (hl : link ∈ links ∨ (db.item x.jobId link).isSome) :
      ((db.commitAll x.env (links.map fun link =>
        .item (.add x.jobId (Scrape.metadata x.now link) x.now))).item x.jobId link).isSome := by
    induction links generalizing db with
    | nil => exact hl.resolve_left List.not_mem_nil
    | cons first links ih =>
      refine ih (db.commit x.env (.item (.add x.jobId (Scrape.metadata x.now first) x.now))) ?_
      rcases hl with hl | hp
      · rcases List.mem_cons.1 hl with rfl | hl
        · exact .inr (present_added x.env x.now (itemKey_makeMetadata ..))
        · exact .inl hl
      · exact .inr (present_add x.env _ _ hp)
  exact hall x.db x.links (.inl hl)

/-- The item of a link is there when an article comes to the writer. -/
theorem present_run (hrun : x.run ts = some s) (hl : link ∈ x.links)
    (hws : ∀ w ∈ ws, Plain x.jobId t.link w) :
    ((x.db.commitAll x.env (s.queued ++ ws)).item x.jobId link).isSome := by
  obtain ⟨ws₀, hq, hws₀⟩ := run_writes hrun
  rw [hq, List.append_assoc, commitAll_append]
  apply present_abouts x.env _ (present_preflight x hl)
  intro w hw
  rcases List.mem_append.1 hw with hw | hw
  · obtain ⟨t', _, ha⟩ := hws₀ w hw
    exact ⟨t'.link, ha⟩
  · exact ⟨t.link, .plain (hws w hw)⟩

/-! ### What is not yet committed -/

/-- A write that leaves the articles. -/
def Write.storeless : Write → Bool
  | .article _ _ _ => false
  | _ => true

theorem Plain.storeless (h : Plain jobId link w) : w.storeless = true := by
  cases h with
  | item hm hs => rfl
  | job => rfl

/-- No article is on its way that the run has not waited for. -/
def Progress.Settled (s : Progress) : Prop := ∀ w ∈ s.queued.drop s.waited, w.storeless = true

theorem store_storeless (e : Env) {db : Db} (h : ∀ w ∈ ws, w.storeless = true) :
    (db.commitAll e ws).store = db.store := by
  induction ws generalizing db with
  | nil => rfl
  | cons w ws ih =>
    refine (ih fun w hw => h w (List.mem_cons_of_mem _ hw)).trans ?_
    have hw := h w List.mem_cons_self
    cases w with
    | item w => rfl
    | job status => rfl
    | article now u completed => cases hw

theorem storeless_drop {ws₁ ws₂ : List Write} (h : ∀ w ∈ ws₁.drop n, w.storeless = true)
    (h' : ∀ w ∈ ws₂, Plain jobId link w) : ∀ w ∈ (ws₁ ++ ws₂).drop n, w.storeless = true := by
  intro w hw
  rw [List.drop_append, List.mem_append] at hw
  exact hw.elim (h w) fun hw => (h' w (List.mem_of_mem_drop hw)).storeless

/-- A read of the articles sees all of them. -/
theorem store_take (e : Env) (db : Db) (h : ∀ w ∈ q.drop n, Write.storeless w = true) (hle : n ≤ m) :
    (db.commitAll e (q.take m)).store = (db.commitAll e q).store := by
  have hsplit : q = q.take m ++ q.drop m := (List.take_append_drop m q).symm
  have hrest : ∀ w ∈ q.drop m, w.storeless = true :=
    fun w hw => h w (List.drop_subset_drop_left q hle hw)
  conv_rhs => rw [hsplit, commitAll_append, store_storeless e hrest]

theorem settled_turn (h : x.turn s t = some s') (hs : s.Settled) (ha : s'.aborted = false) :
    s'.Settled := by
  have hplain (hp : Plainly x s t s') : s'.Settled := by
    obtain ⟨ws, hq, hws⟩ := hp.queued
    rw [Progress.Settled, hq, hp.waited]
    exact storeless_drop hs hws
  rw [Scrape.turn] at h
  split at h
  next =>
    cases h
    exact hs
  next hrunning =>
    split at h
    next =>
      cases h
      exact hs
    next =>
      dsimp only at h
      split at h
      next =>
        rcases attempt_cases h (eq_false_of_ne_true hrunning) with ⟨_, hp⟩ | ⟨_, q, u, hover⟩
        · exact hplain hp
        · obtain ⟨info, jobs, hq, hjobs⟩ := hover.queued
          rw [Progress.Settled, hover.waited ha, hq, List.drop_append]
          intro w hw
          rw [List.drop_eq_nil_of_le (Nat.le_succ _), List.nil_append,
            Nat.add_sub_cancel_left, List.drop_succ_cons, List.drop_zero] at hw
          obtain ⟨status, rfl⟩ := hjobs w hw
          rfl
      next =>
        cases h
        exact hs

/-- The row id of an article that is handed over is no stored article's. -/
theorem HandsOver.fresh (h : HandsOver x s t q u s') (hs : s.Settled) (hv : u.vecRowid = .int v) :
    ∀ k ∈ identities (x.db.commitAll x.env q).store.db, k.2.2 ≠ .int v := by
  obtain ⟨ws, hq, hws⟩ := h.before
  obtain ⟨lag, hnew⟩ := h.new
  have hstore : (x.db.commitAll x.env (q.take (max s.waited lag))).articles =
      (x.db.commitAll x.env q).articles := by
    rw [Db.articles, Db.articles, store_take x.env x.db (n := s.waited) ?_ (Nat.le_max_left _ _)]
    rw [hq]
    exact storeless_drop hs hws
  obtain ⟨v', hv', _, hfree⟩ := hnew.rowid
  rw [hstore] at hfree
  rw [hv', Value.int.injEq] at hv
  rw [← hv]
  intro k hk hkv
  obtain ⟨r, hr, rfl⟩ := List.mem_map.1 hk
  obtain ⟨r', hr', hid⟩ := hfree r hr hkv
  have hunborn := h.unborn r' hr'
  rw [hnew.id] at hunborn
  exact hunborn hid

/-! ### The outcome of a run -/

/-- A link that is gone on with comes to an article: there is no summary yet, and its URL is not
stored. -/
def Scrape.completes (x : Scrape) (link : String) : Bool :=
  !(x.known link).2.summarized && !x.db.stored link

/-- What a turn adds to what is completed and embedded. -/
structure Adds (x : Scrape) (db db' : Db) (link : String) : Prop where
  completed : ∀ link', db'.completed x.jobId link' = true ↔
    db.completed x.jobId link' = true ∨ link' = link ∧ x.completes link = true
  embedded : ∀ link', db'.embedded link' = true ↔
    db.embedded link' = true ∨ link' = link ∧ x.completes link = true

theorem adds_plains {db : Db} (h : ∀ w ∈ ws, Plain x.jobId link w)
    (hc : db.completed x.jobId link = false) (hn : x.completes link = false) :
    Adds x db (db.commitAll x.env ws) link := by
  obtain ⟨hcompleted, hembedded⟩ := outcome_plains x.env h hc
  constructor
  · intro link'
    rw [hcompleted, or_iff_left]
    rw [hn]
    exact fun h => Bool.false_ne_true h.2
  · intro link'
    rw [hembedded, or_iff_left]
    rw [hn]
    exact fun h => Bool.false_ne_true h.2

theorem commitAll_jobs (e : Env) (db : Db) (h : ∀ w ∈ jobs, ∃ status, w = Write.job status) :
    (db.commitAll e jobs).items = db.items ∧ (db.commitAll e jobs).store = db.store := by
  induction jobs generalizing db with
  | nil => exact ⟨rfl, rfl⟩
  | cons w jobs ih =>
    obtain ⟨status, rfl⟩ := h w List.mem_cons_self
    exact ih (db.commit e (.job status)) fun w hw => h w (List.mem_cons_of_mem _ hw)

/-- The item is completed with its article. -/
theorem completed_article {db : Db} (store : Store) {w : ItemWrite LocalMeta}
    (hw : w = .update jobId m .completed info now) (hm : itemKey m = (.text "scrape", .text link))
    (hp : (db.item jobId link).isSome) (link' : String) :
    { db with items := JobItems.commit db.items w, store }.completed jobId link' = true ↔
      db.completed jobId link' = true ∨ link' = link := by
  rw [hw]
  by_cases hl : link' = link
  · rw [hl]
    refine iff_of_true ?_ (.inr rfl)
    obtain ⟨i, hi⟩ := Option.isSome_iff_exists.1 hp
    have hrow : itemRow (JobItems.commit db.items (.update jobId m .completed info now)) jobId
        "scrape" link = _ := itemRow_update_self db.items .completed info now hm
    change itemRow db.items jobId "scrape" link = some i at hi
    rw [Db.completed, Db.item, hrow, hi]
    rfl
  · have hother : ¬ (jobId = jobId ∧ "scrape" = "scrape" ∧ link' = link) := fun h => hl h.2.2
    have hrow : itemRow (JobItems.commit db.items (.update jobId m .completed info now)) jobId
        "scrape" link' = _ := itemRow_update_ne db.items .completed info now hm hother
    rw [or_iff_left hl, Db.completed, Db.item, hrow]
    rfl

/-- An article that is handed over adds its link when the URL is not stored. -/
theorem HandsOver.adds (h : HandsOver x s t q u s') (hr : Resumed x (ts ++ [t]))
    (hrun : x.run ts = some s) (hl : t.link ∈ x.links) (hs : t.Succeeds) (hset : s.Settled)
    (hsum : (x.known t.link).2.summarized = false)
    (hc : (x.final s).completed x.jobId t.link = false) :
    Adds x (x.final s) (x.final s') t.link := by
  obtain ⟨ws, hq, hws⟩ := h.before
  obtain ⟨info, jobs, hqueued, hjobs⟩ := h.queued
  obtain ⟨lag, hnew⟩ := h.new
  have haborted := h.aborted_iff hr.shelf hr.digest (hr.foreign hrun)
  rw [h.aborted, hs.late, hs.embedded, Bool.false_or, Bool.true_and,
    or_iff_right Bool.false_ne_true] at haborted
  obtain ⟨db, hdb⟩ : ∃ db, db = x.db.commitAll x.env q := ⟨_, rfl⟩
  have hbefore : db = (x.final s).commitAll x.env ws := by
    rw [hdb, hq, commitAll_append]
    rfl
  have hafter : x.final s' = (db.commit x.env
      (.article t.committedAt u (x.updateItem t .completed info))).commitAll x.env jobs := by
    rw [hdb, Scrape.final, hqueued, commitAll_append]
    rfl
  rw [hafter]
  cases hstored : x.db.stored t.link with
  | true =>
    have hrefused : ¬ ∃ store, (u.statements x.env).foldlM (Store.exec t.committedAt) db.store =
        .ok store := hdb ▸ haborted.2 hstored
    have hnone : x.completes t.link = false := by
      rw [Scrape.completes, hstored, Bool.not_true, Bool.and_false]
    have hsame : db.commit x.env (.article t.committedAt u (x.updateItem t .completed info)) = db := by
      rw [Db.commit]
      split
      next store hok => exact absurd ⟨store, hok⟩ hrefused
      next => rfl
    rw [hsame, hbefore, ← commitAll_append]
    refine adds_plains ?_ hc hnone
    intro w hw
    rcases List.mem_append.1 hw with hw | hw
    · exact hws w hw
    · obtain ⟨status, rfl⟩ := hjobs w hw
      exact .job
  | false =>
    have haccepted : ∃ store, (u.statements x.env).foldlM (Store.exec t.committedAt) db.store =
        .ok store := by
      by_contra hno
      rw [hdb] at hno
      rw [haborted.1 hno] at hstored
      cases hstored
    have hyes : x.completes t.link = true := by
      rw [Scrape.completes, hstored, hsum]
      rfl
    obtain ⟨store, hok⟩ := haccepted
    have hdone : db.commit x.env (.article t.committedAt u (x.updateItem t .completed info)) =
        { db with items := JobItems.commit db.items (x.updateItem t .completed info), store } := by
      rw [Db.commit, hok]
    obtain ⟨v, hv, hvector, -⟩ := hnew.rowid
    obtain ⟨bs, hbs⟩ : ∃ bs, t.embedding = some bs := by
      have hembedded := hs.embedded
      rw [Turn.embedded, Option.any_eq_true] at hembedded
      obtain ⟨bs, hbs, _⟩ := hembedded
      exact ⟨bs, hbs⟩
    rw [hs.embedded, if_pos rfl, hbs, Option.map_some] at hvector
    have hS : Shelf db.store.db := hdb ▸ shelf_commitAll x.env hr.shelf q
    obtain ⟨hids, hvec⟩ := stored_new hS x.env (hdb ▸ h.unborn) hvector hok
    rw [hnew.url] at hids
    have hfresh := h.fresh hset hv
    rw [← hdb] at hfresh
    have hp : (db.item x.jobId t.link).isSome := by
      rw [hdb, hq]
      exact present_run hrun hl hws
    obtain ⟨hcompleted, hembedded⟩ := outcome_plains x.env hws hc
    rw [← hbefore] at hcompleted hembedded
    obtain ⟨hitems, hstore⟩ := commitAll_jobs x.env { db with
      items := JobItems.commit db.items (x.updateItem t .completed info), store } hjobs
    rw [hdone]
    constructor
    · intro link'
      rw [← hcompleted, and_iff_left hyes,
        ← completed_article store rfl (itemKey_makeMetadata ..) hp, Db.completed, Db.item,
        hitems]
      rfl
    · intro link'
      rw [← hembedded, and_iff_left hyes, ← embedded_new hids hvec hfresh, Db.embedded, Db.articles,
        hstore]
      rfl

/-- What a turn adds that goes on with its link. -/
theorem adds_turn (hr : Resumed x (ts ++ [t])) (hrun : x.run ts = some s)
    (hturn : x.turn s t = some s') (hl : t.link ∈ x.links) (hs : t.Succeeds) (hset : s.Settled)
    (ha : s.aborted = false) (hcancelled : s.cancelled = false)
    (hu : x.unfinished t.link = true) (hc : (x.final s).completed x.jobId t.link = false) :
    Adds x (x.final s) (x.final s') t.link := by
  rw [turn_eq ha hcancelled hs.goes.1 (hr.view hrun _), if_pos hu] at hturn
  rcases attempt_cases hturn ha with ⟨hy, hplain⟩ | ⟨hy, q, u, hover⟩
  · have hsum : (x.known t.link).2.summarized = true := by
      by_contra hno
      rw [yields_succeed hs.answers (eq_false_of_ne_true hno), hs.found] at hy
      cases hy
    obtain ⟨ws, hq, hws⟩ := hplain.queued
    have hafter : x.final s' = (x.final s).commitAll x.env ws := by
      rw [Scrape.final, hq, commitAll_append]
      rfl
    rw [hafter]
    apply adds_plains hws hc
    rw [Scrape.completes, hsum, Bool.not_true, Bool.false_and]
  · have hsum : (x.known t.link).2.summarized = false := by
      by_contra hno
      rw [yields_summarized _ (Bool.not_eq_false _ ▸ hno), Bool.false_and] at hy
      cases hy
    exact hover.adds hr hrun hl hs hset hsum hc

/-- The run comes to the link, and its article is new. -/
def Scrape.Completes (x : Scrape) (ts : List Turn) (link : String) : Prop :=
  x.Reaches ts link ∧ x.completes link = true

/-- How a run stands whose turns succeed. -/
structure Finishing (x : Scrape) (ts : List Turn) (s : Progress) : Prop where
  standing : Standing x ts s
  settled : s.aborted = false → s.Settled
  completed : ∀ link, (x.final s).completed x.jobId link = true ↔
    x.db.completed x.jobId link = true ∨ x.Completes ts link
  embedded : ∀ link, (x.final s).embedded link = true ↔
    x.db.embedded link = true ∨ x.Completes ts link

theorem completed_known {db : Db} : db.completed jobId link = true ↔
    (db.known jobId link).1 = .completed := by
  rw [Db.completed, Db.known]
  cases db.item jobId link with
  | none => exact iff_of_false Bool.false_ne_true ItemStatus.noConfusion
  | some i => exact decide_eq_true_iff

theorem completes_nil (x : Scrape) (link : String) : ¬ x.Completes [] link := by
  rintro ⟨⟨ts₁, t, ts₂, he, _⟩, _⟩
  cases ts₁ <;> cases he

theorem finishing_begun (x : Scrape) : Finishing x [] x.begun := by
  refine ⟨standing_begun x, ?_, ?_, ?_⟩
  · intro _ w hw
    obtain ⟨link, _, rfl⟩ := mem_preflight (List.mem_of_mem_drop hw)
    rfl
  · intro link
    rw [or_iff_left (completes_nil x link), completed_known, completed_known, Scrape.final,
      known_foreign]
    intro w hw
    obtain ⟨link, _, rfl⟩ := mem_preflight hw
    exact .inr ⟨_, _, rfl⟩
  · intro link
    have hstore : (x.final x.begun).store = x.db.store := by
      apply store_storeless x.env
      intro w hw
      obtain ⟨link, _, rfl⟩ := mem_preflight hw
      rfl
    rw [or_iff_left (completes_nil x link), Db.embedded, Db.articles, hstore]
    rfl

theorem Finishing.concat (h : Finishing x ts s) (hr : Resumed x (ts ++ [t]))
    (hl : t.link ∈ x.links) (hs : t.Succeeds) (hrun : x.run ts = some s)
    (hturn : x.turn s t = some s') : Finishing x (ts ++ [t]) s' := by
  have hstanding := h.standing.concat hr hrun hturn
  have hnone : s.aborted = false ↔ ∀ t' ∈ ts, x.aborts t' = false := by
    rw [← Bool.not_eq_true, h.standing.aborted]
    simp only [not_exists, not_and, Bool.not_eq_true]
  -- The turn adds its link if the run has not ended and goes on with it.
  have hcompletes (link : String) : x.Completes (ts ++ [t]) link ↔ x.Completes ts link ∨
      link = t.link ∧ x.completes link = true ∧ s.aborted = false ∧ x.unfinished link = true := by
    rw [Scrape.Completes, x.reaches_concat, ← hnone, or_and_right]
    refine or_congr_right ⟨?_, ?_⟩
    · rintro ⟨⟨rfl, hu, ha⟩, hc⟩
      exact ⟨rfl, hc, ha, hu⟩
    · rintro ⟨rfl, hc, ha, hu⟩
      exact ⟨⟨rfl, hu, ha⟩, hc⟩
  have hsame (hs : s' = s) (hdone : s.aborted = true ∨ x.unfinished t.link = false) :
      Finishing x (ts ++ [t]) s' := by
    have hno (link : String) : x.Completes (ts ++ [t]) link ↔ x.Completes ts link := by
      rw [hcompletes, or_iff_left]
      rintro ⟨rfl, -, ha, hu⟩
      rcases hdone with hd | hd
      · rw [ha] at hd
        cases hd
      · rw [hu] at hd
        cases hd
    subst hs
    refine ⟨hstanding, h.settled, fun link => ?_, fun link => ?_⟩
    · rw [hno, h.completed]
    · rw [hno, h.embedded]
  cases ha : s.aborted with
  | true =>
    rw [turn_aborted ha] at hturn
    exact hsame (Option.some.inj hturn).symm (.inl ha)
  | false =>
    cases hu : x.unfinished t.link with
    | false =>
      rw [turn_eq ha h.standing.cancelled hs.goes.1 (hr.view hrun _), hu,
        if_neg Bool.false_ne_true] at hturn
      exact hsame (Option.some.inj hturn).symm (.inr hu)
    | true =>
      have hc : (x.final s).completed x.jobId t.link = false := by
        rw [← Bool.not_eq_true, completed_known, Scrape.final,
          known_foreign x.env (hr.foreign hrun)]
        intro hdone
        rw [Scrape.unfinished, Scrape.known, hdone] at hu
        cases hu
      have hset := h.settled ha
      obtain ⟨hcompleted, hembedded⟩ :=
        adds_turn hr hrun hturn hl hs hset ha h.standing.cancelled hu hc
      have hnew (link : String) : x.Completes (ts ++ [t]) link ↔ x.Completes ts link ∨
          link = t.link ∧ x.completes t.link = true := by
        rw [hcompletes]
        refine or_congr_right ⟨?_, ?_⟩
        · rintro ⟨rfl, hc, -, -⟩
          exact ⟨rfl, hc⟩
        · rintro ⟨rfl, hc⟩
          exact ⟨rfl, hc, ha, hu⟩
      refine ⟨hstanding, settled_turn hturn hset, fun link => ?_, fun link => ?_⟩
      · rw [hcompleted, h.completed, hnew, or_assoc]
      · rw [hembedded, h.embedded, hnew, or_assoc]

/-- A run whose turns succeed completes and embeds what it comes to as new. -/
theorem finishing_run (hr : Resumed x ts) (hl : ∀ t ∈ ts, t.link ∈ x.links)
    (hs : ∀ t ∈ ts, t.Succeeds) (h : x.run ts = some s) : Finishing x ts s := by
  induction ts using List.reverseRecOn generalizing s with
  | nil =>
    cases h
    exact finishing_begun x
  | append_singleton ts t ih =>
    obtain ⟨s₁, h₁, hturn⟩ := Machine.run_concat_some h
    have hlast : t ∈ ts ++ [t] := List.mem_append_right _ (List.mem_singleton_self _)
    have hbefore := ih hr.init (fun t ht => hl t (List.mem_append_left _ ht))
      (fun t ht => hs t (List.mem_append_left _ ht)) h₁
    exact hbefore.concat hr (hl t hlast) (hs t hlast) h₁ hturn

end

end Scraper
