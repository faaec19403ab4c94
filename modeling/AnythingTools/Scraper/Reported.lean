import AnythingTools.Scraper.Tool

namespace Scraper
open Relational Relational.Database JobItems Schemas
set_option autoImplicit true

/-! ### What a completed run hands over -/

def ToolWrite.isItem : ToolWrite → Bool
  | .item _ => true
  | _ => false

namespace ToolRun

theorem isItem_addItem (x : ToolRun) (step : String) :
    ∀ w ∈ x.addItem step, ToolWrite.isItem w = true := by
  intro w hw
  obtain ⟨j, -, rfl⟩ := List.mem_map.1 hw
  rfl

theorem isItem_updateItem (x : ToolRun) (step : String) (status : ItemStatus) (output : Output) :
    ∀ w ∈ x.updateItem step status output, ToolWrite.isItem w = true := by
  intro w hw
  obtain ⟨j, -, rfl⟩ := List.mem_map.1 hw
  rfl

/-- A run that is completed with a payload, and the batch among its writes. -/
structure Completes (x : ToolRun) (t : String) (results : Results) (c : Curated)
    (run : List ToolWrite × Outcome) (p : Payload) : Prop where
  top10 : p.top10 = c.top10
  rest : p.rest = restArticles results.valid c.top10
  targetSite : p.targetSite = t
  writes : ∃ before later, (∀ w ∈ before, ToolWrite.isItem w = true) ∧
    (∀ w ∈ later, ToolWrite.isItem w = true) ∧
    run.1 = before ++ x.broadcast t results.valid c.top10 ++ later

theorem Completes.after (h : Completes x t results c run p)
    (hws : ∀ w ∈ ws, ToolWrite.isItem w = true) : Completes x t results c (after ws run) p where
  top10 := h.top10
  rest := h.rest
  targetSite := h.targetSite
  writes := by
    obtain ⟨before, later, hbefore, hlater, he⟩ := h.writes
    refine ⟨ws ++ before, later, List.forall_mem_append.2 ⟨hws, hbefore⟩, hlater, ?_⟩
    rw [ToolRun.after, he, List.append_assoc, List.append_assoc, List.append_assoc]

theorem finalize_completes (h : (finalize x t results slim c artifacts).2 = .completed p) :
    Completes x t results c (x.finalize t results slim c artifacts) p := by
  rw [finalize] at h ⊢
  cases hs : enrichedSummary t x.batchId c.top10 (restArticles results.valid c.top10) with
  | none =>
    rw [hs] at h
    cases h
  | some summary =>
    rw [hs] at h
    dsimp only at h ⊢
    cases htel : x.telemetry 3 with
    | some e =>
      rw [htel] at h
      cases h
    | none =>
      rw [htel] at h
      cases h
      refine ⟨rfl, rfl, rfl, [], _, fun w hw => absurd hw List.not_mem_nil, ?_, rfl⟩
      intro w hw
      rw [ToolRun.after, List.append_nil, List.mem_append] at hw
      exact hw.elim (isItem_addItem x _ w) (isItem_updateItem x _ _ _ w)

theorem writeTop10_completes (h : (writeTop10 x t results slim c artifacts).2 = .completed p) :
    Completes x t results c (x.writeTop10 t results slim c artifacts) p := by
  rw [writeTop10] at h ⊢
  split at h
  next => cases h
  next h₂ =>
    rw [if_neg h₂]
    rw [ToolRun.after] at h
    dsimp only at h
    split at h
    next => cases h
    next h₃ =>
      split at h
      next => cases h
      next h₄ =>
        rw [if_neg h₃, if_neg h₄]
        refine (finalize_completes h).after (List.forall_mem_append.2 ⟨isItem_addItem x _, ?_⟩)
        split
        next => exact isItem_updateItem x _ _ _
        next => exact isItem_updateItem x _ _ _

theorem curate_completes (h : (curate x t results slim artifacts).2 = .completed p) :
    Completes x t results (curation x.budget x.replies x.client slim)
      (x.curate t results slim artifacts) p := by
  rw [curate] at h ⊢
  split at h
  next => cases h
  next h₁ =>
    rw [if_neg h₁]
    refine (writeTop10_completes h).after (List.forall_mem_append.2 ⟨isItem_addItem x _, ?_⟩)
    split
    next => exact fun w hw => absurd hw List.not_mem_nil
    next => exact isItem_updateItem x _ _ _

theorem slimList_completes (h : (slimList x t results artifacts).2 = .completed p) :
    Completes x t results
      (curation x.budget x.replies x.client (buildSlimList results.valid))
      (x.slimList t results artifacts) p := by
  rw [slimList] at h ⊢
  split at h
  next => cases h
  next h₀ =>
    rw [if_neg h₀]
    split at h
    next => cases h
    next =>
      exact (curate_completes h).after
        (List.forall_mem_append.2 ⟨isItem_addItem x _, isItem_updateItem x _ _ _⟩)

theorem extract_completes (h : (extract x t results).2 = .completed p) :
    Completes x t results
      (curation x.budget x.replies x.client (buildSlimList results.valid))
      (x.extract t results) p := by
  rw [extract] at h ⊢
  split at h
  next => cases h
  next =>
    rw [ToolRun.after] at h
    dsimp only at h
    split at h
    next => cases h
    next hvalid =>
      rw [if_neg hvalid]
      exact ((slimList_completes h).after (isItem_updateItem x _ _ _)).after (isItem_addItem x _)

theorem runInternal_completes (h : (runInternal x).2 = .completed p) : ∃ t results,
    x.scraped = .ok results ∧
      Completes x t (x.mergeCompletedArticles results)
        (curation x.budget x.replies x.client
          (buildSlimList (x.mergeCompletedArticles results).valid)) x.runInternal p := by
  rw [runInternal] at h ⊢
  split at h
  next => cases h
  next hdry =>
    rw [if_neg hdry]
    split at h
    next => cases h
    next t ht =>
      dsimp only at h ⊢
      split at h
      next => cases h
      next htarget =>
        rw [if_neg htarget]
        split at h
        next => cases h
        next =>
          split at h
          next => cases h
          next results hscraped => exact ⟨t, results, hscraped, extract_completes h⟩

end ToolRun

theorem mapM_otherLine {fs : List (Fields × Nat)}
    (h : ∀ p ∈ fs, (p.1.get "title" (some "Untitled")).isSome = true) :
    ∃ lines, fs.mapM otherLine = some lines := by
  induction fs with
  | nil => exact ⟨[], rfl⟩
  | cons p fs ih =>
    rw [List.forall_mem_cons] at h
    obtain ⟨title, ht⟩ := Option.isSome_iff_exists.1 h.1
    obtain ⟨lines, hlines⟩ := ih h.2
    rw [List.mapM_cons, hlines, otherLine, ht]
    exact ⟨_, rfl⟩

/-- A run that nobody stops is completed, if its articles have titles. -/
theorem completed_of_titled (x : ToolRun) (hdry : x.dryRun = false)
    (ht : x.targetSite.filter (fun t => decide (t ≠ "")) = some t) (hvalid : t ∈ x.validTargets)
    (htel : ∀ n, x.telemetry n = none) (hstop : ∀ n, x.stopped n = false)
    (hscraped : x.scraped = .ok results)
    (hsome : (x.mergeCompletedArticles results).valid.isEmpty = false)
    (htitled : ∀ f ∈ (x.mergeCompletedArticles results).valid, f.isArticle = true →
      (f.get "title" (some "Untitled")).isSome = true) :
    ∃ p, x.runInternal.2 = .completed p := by
  have hsummary (c : Curated) : ∃ summary, enrichedSummary t x.batchId c.top10
      (restArticles (x.mergeCompletedArticles results).valid c.top10) = some summary := by
    have hrest (p : Fields × Nat) (hp : p ∈ (restArticles
        (x.mergeCompletedArticles results).valid c.top10).zipIdx) :
        (p.1.get "title" (some "Untitled")).isSome = true := by
      have hmem := List.fst_mem_of_mem_zipIdx hp
      rw [restArticles, List.mem_filter, Bool.and_eq_true] at hmem
      exact htitled p.1 hmem.1 hmem.2.1
    obtain ⟨lines, hlines⟩ := mapM_otherLine hrest
    rw [enrichedSummary, hlines]
    exact ⟨_, rfl⟩
  obtain ⟨summary, hs⟩ := hsummary (curation x.budget x.replies x.client
    (buildSlimList (x.mergeCompletedArticles results).valid))
  rw [ToolRun.runInternal, hdry, if_neg Bool.false_ne_true, ht]
  dsimp only
  rw [if_neg (not_not_intro hvalid), htel, hscraped]
  dsimp only
  rw [ToolRun.extract, htel]
  dsimp only [ToolRun.after]
  rw [hsome, if_neg Bool.false_ne_true]
  dsimp only
  rw [ToolRun.slimList, hstop, if_neg Bool.false_ne_true, htel]
  dsimp only [ToolRun.after]
  rw [ToolRun.curate, hstop, if_neg Bool.false_ne_true]
  dsimp only [ToolRun.after]
  rw [ToolRun.writeTop10, hstop, if_neg Bool.false_ne_true, hstop, if_neg Bool.false_ne_true, hstop,
    if_neg Bool.false_ne_true]
  dsimp only [ToolRun.after]
  rw [ToolRun.finalize]
  dsimp only [ToolRun.after]
  rw [hs, htel]
  exact ⟨_, rfl⟩

/-! ### The ulids of the articles -/

theorem ulid_eq_some {f : Fields} : f.ulid = some u ↔ f.get "ulid" none = some u ∧ u ≠ "" := by
  rw [Fields.ulid, Option.filter_eq_some_iff, decide_eq_true_iff]

/-- A dictionary that has a ulid which is not empty. -/
def Fields.Named (f : Fields) : Prop := ∃ u, f.ulid = some u

theorem named_of_isArticle {f : Fields} (h : f.isArticle = true) : f.Named := by
  rw [Fields.isArticle, Bool.and_eq_true] at h
  exact Option.isSome_iff_exists.1 h.2

theorem Fields.Named.get {f : Fields} (h : f.Named) : f.get "ulid" none = f.ulid := by
  obtain ⟨u, hu⟩ := h
  rw [hu, (ulid_eq_some.1 hu).1]

theorem length_filterMap_ulid {fs : List Fields} (h : ∀ f ∈ fs, f.Named) :
    (fs.filterMap Fields.ulid).length = fs.length := by
  induction fs with
  | nil => rfl
  | cons f fs ih =>
    rw [List.forall_mem_cons] at h
    obtain ⟨u, hu⟩ := h.1
    rw [List.filterMap_cons_some hu, List.length_cons, List.length_cons, ih h.2]

/-- What the broadcast tables make of the dictionaries. -/
theorem filterMap_articleOf {fs : List Fields} (h : ∀ f ∈ fs, f.Named) :
    (fs.map ToolRun.articleOf).filterMap Broadcast.articleId = fs.filterMap Fields.ulid ∧
      (fs.map ToolRun.articleOf).map Broadcast.Article.ulid =
        (fs.filterMap Fields.ulid).map some := by
  induction fs with
  | nil => exact ⟨rfl, rfl⟩
  | cons f fs ih =>
    rw [List.forall_mem_cons] at h
    obtain ⟨u, hu⟩ := h.1
    obtain ⟨hids, hulids⟩ := ih h.2
    have hid : Broadcast.articleId (ToolRun.articleOf f) = some u := by
      change f.ulid.or _ = some u
      rw [hu, Option.some_or]
    rw [List.map_cons, List.filterMap_cons_some hid, List.filterMap_cons_some hu, hids,
      List.map_cons, hulids, List.map_cons]
    refine ⟨rfl, ?_⟩
    change f.get "ulid" none :: _ = _
    rw [(ulid_eq_some.1 hu).1]

theorem ulid_slimFields (f : Fields) : (slimFields f).ulid = f.ulid := by
  cases hu : f.ulid with
  | none =>
    change (Option.filter _ (f.ulid)) = none
    rw [hu]
    rfl
  | some u =>
    change (Option.filter _ (f.ulid)) = some u
    rw [hu, Option.filter_some, if_pos (decide_eq_true (ulid_eq_some.1 hu).2)]

theorem ulids_buildSlimList (valid : List Fields) :
    (buildSlimList valid).filterMap Fields.ulid =
        (valid.filter Fields.isArticle).filterMap Fields.ulid ∧
      ∀ f ∈ buildSlimList valid, f.Named := by
  constructor
  · rw [buildSlimList, List.filterMap_map]
    exact List.filterMap_congr fun f _ => ulid_slimFields f
  · intro f hf
    obtain ⟨g, hg, rfl⟩ := List.mem_map.1 hf
    obtain ⟨u, hu⟩ := named_of_isArticle (List.mem_filter.1 hg).2
    exact ⟨u, (ulid_slimFields g).trans hu⟩

/-! ### What is curated -/

/-- The curated articles have ulids of candidates, each once. -/
structure Chose (slim : List Fields) (c : Curated) : Prop where
  named : ∀ f ∈ c.top10, f.Named
  apart : (c.top10.filterMap Fields.ulid).Nodup
  drawn : c.top10.filterMap Fields.ulid ⊆ slim.filterMap Fields.ulid

theorem ulids_candidateFields {cs : List CurationCandidate} (h : ∀ c ∈ cs, c.ulid ≠ "") :
    (cs.map candidateFields).filterMap Fields.ulid = cs.map CurationCandidate.ulid ∧
      ∀ f ∈ cs.map candidateFields, f.Named := by
  have hulid (c : CurationCandidate) (hc : c ∈ cs) : (candidateFields c).ulid = some c.ulid :=
    ulid_eq_some.2 ⟨rfl, h c hc⟩
  constructor
  · rw [List.filterMap_map]
    exact (List.filterMap_congr hulid).trans (congrFun List.filterMap_eq_map' cs)
  · intro f hf
    obtain ⟨c, hc, rfl⟩ := List.mem_map.1 hf
    exact ⟨c.ulid, hulid c hc⟩

/-- Whatever the model answers, and also where the curator crashes. -/
theorem curation_chose (budget : Nat) (replies : Nat → Reply) (client : Bool) {slim : List Fields}
    (hnamed : ∀ f ∈ slim, f.Named) (hn : (slim.filterMap Fields.ulid).Nodup) :
    Chose slim (curation budget replies client slim) := by
  rw [curation]
  split
  next =>
    exact ⟨fun f hf => absurd hf List.not_mem_nil, List.nodup_nil, List.nil_subset _⟩
  next =>
    split
    next =>
      have hsub := (List.take_sublist 10 slim).filterMap Fields.ulid
      exact ⟨fun f hf => hnamed f (List.mem_of_mem_take hf), hn.sublist hsub, hsub.subset⟩
    next =>
      obtain ⟨l, hperm, hl⟩ := (pack_subperm budget (slim.filterMap assemble)).1
      have hsub : ((packedCandidates budget slim).candidates.map CurationCandidate.ulid).Nodup ∧
          (packedCandidates budget slim).candidates.map CurationCandidate.ulid ⊆
            slim.filterMap Fields.ulid := by
        have hmap := (hl.map CurationCandidate.ulid).trans (ulids_assemble slim)
        have hp := hperm.map CurationCandidate.ulid
        exact ⟨hp.nodup_iff.1 (hn.sublist hmap), fun u hu => hmap.subset (hp.mem_iff.2 hu)⟩
      obtain ⟨hchosen, -⟩ := curate_chosen budget replies slim hsub.1
      have hdrawn (u : String)
          (hu : u ∈ (curate budget replies slim).curatedList.map CurationCandidate.ulid) :
          u ∈ slim.filterMap Fields.ulid := by
        obtain ⟨c, hc, rfl⟩ := List.mem_map.1 hu
        exact hsub.2 (List.mem_map_of_mem (hchosen.drawn c hc))
      have hne : ∀ c ∈ (curate budget replies slim).curatedList, c.ulid ≠ "" := by
        intro c hc
        obtain ⟨f, -, hf⟩ := List.mem_filterMap.1 (hdrawn c.ulid (List.mem_map_of_mem hc))
        exact (ulid_eq_some.1 hf).2
      obtain ⟨hulids, hfields⟩ := ulids_candidateFields hne
      refine ⟨hfields, ?_, ?_⟩
      · rw [hulids]
        exact hchosen.apart
      · rw [hulids]
        exact hdrawn

/-- The other articles are those whose ulid is not among the curated ones. -/
theorem ulids_restArticles (valid : List Fields) {top10 : List Fields}
    (htop : ∀ f ∈ top10, f.Named) :
    (restArticles valid top10).filterMap Fields.ulid =
        ((valid.filter Fields.isArticle).filterMap Fields.ulid).filter
          (fun u => decide (u ∉ top10.filterMap Fields.ulid)) ∧
      ∀ f ∈ restArticles valid top10, f.Named := by
  have hcontains (f : Fields) (u : String) (hf : f.ulid = some u) :
      (top10.map fun t => t.get "ulid" none).contains (f.get "ulid" none) =
        decide (u ∈ top10.filterMap Fields.ulid) := by
    have hget : (top10.map fun t => t.get "ulid" none) = top10.map Fields.ulid :=
      List.map_congr_left fun t ht => (htop t ht).get
    rw [hget, Fields.Named.get ⟨u, hf⟩, hf, Bool.eq_iff_iff, List.contains_iff_mem,
      decide_eq_true_iff, List.mem_map, List.mem_filterMap]
  constructor
  · induction valid with
    | nil => rfl
    | cons f valid ih =>
      rw [restArticles] at ih ⊢
      by_cases hf : f.isArticle = true
      · obtain ⟨u, hu⟩ := named_of_isArticle hf
        rw [List.filter_cons, List.filter_cons_of_pos hf, List.filterMap_cons_some hu,
          List.filter_cons, hcontains f u hu, hf, Bool.true_and, ← ih]
        by_cases hin : u ∈ top10.filterMap Fields.ulid
        · rw [if_neg (by simp [hin]), if_neg (by simp [hin])]
        · rw [if_pos (by simp [hin]), if_pos (by simp [hin]), List.filterMap_cons_some hu]
      · rw [List.filter_cons_of_neg (by simp [hf]), List.filter_cons_of_neg hf]
        exact ih
  · intro f hf
    have hart := (List.mem_filter.1 hf).2
    rw [Bool.and_eq_true] at hart
    exact named_of_isArticle hart.1

/-! ### The batch of a run -/

theorem ToolDb.commitAll_append (s : ToolDb) (ws ws' : List ToolWrite) :
    s.commitAll (ws ++ ws') = (s.commitAll ws).commitAll ws' := List.foldl_append

/-- The items are apart from the other tables. -/
theorem db_commitAll_items (h : ∀ w ∈ ws, ToolWrite.isItem w = true) (s : ToolDb) :
    (s.commitAll ws).db = s.db := by
  induction ws generalizing s with
  | nil => rfl
  | cons w ws ih =>
    rw [List.forall_mem_cons] at h
    rw [ToolDb.commitAll, List.foldl_cons]
    cases w with
    | item w => exact ih h.2 _
    | createBatch now row => cases h.1
    | addDetails now batchId articles top10 => cases h.1

/-- The ulids of the articles of a run: those that it scraped, and those that an earlier run of its
job completed. -/
def ToolRun.reportable (x : ToolRun) (results : Results) : List String :=
  ((x.mergeCompletedArticles results).valid.filter Fields.isArticle).filterMap Fields.ulid

/-- The curated articles and the others are all articles, each once, the curated ones first. -/
theorem Chose.report (hchose : Chose (buildSlimList valid) c)
    (hn : ((valid.filter Fields.isArticle).filterMap Fields.ulid).Nodup) :
    (c.top10 ++ restArticles valid c.top10).filterMap Fields.ulid = c.top10.filterMap Fields.ulid ++
        ((valid.filter Fields.isArticle).filterMap Fields.ulid).filter
          (fun u => decide (u ∉ c.top10.filterMap Fields.ulid)) ∧
      ((c.top10 ++ restArticles valid c.top10).filterMap Fields.ulid).Perm
        ((valid.filter Fields.isArticle).filterMap Fields.ulid) := by
  have hdrawn := hchose.drawn
  rw [(ulids_buildSlimList valid).1] at hdrawn
  rw [List.filterMap_append, (ulids_restArticles valid hchose.named).1]
  refine ⟨rfl, (List.perm_ext_iff_of_nodup ?_ hn).2 fun u => ?_⟩
  · refine hchose.apart.append (hn.filter _) fun u hu hother => ?_
    exact of_decide_eq_true (List.mem_filter.1 hother).2 hu
  · rw [List.mem_append, List.mem_filter, decide_eq_true_iff]
    by_cases hu : u ∈ c.top10.filterMap Fields.ulid
    · exact iff_of_true (.inl hu) (hdrawn hu)
    · rw [or_iff_right hu, and_iff_left hu]

/-- As many articles are reported as there are. -/
theorem Chose.count (hchose : Chose (buildSlimList valid) c)
    (hn : ((valid.filter Fields.isArticle).filterMap Fields.ulid).Nodup) :
    (valid.filter Fields.isArticle).length =
      c.top10.length + (restArticles valid c.top10).length := by
  have hsuccess : ∀ f ∈ valid.filter Fields.isArticle, f.Named :=
    fun f hf => named_of_isArticle (List.mem_filter.1 hf).2
  have hall : ∀ f ∈ c.top10 ++ restArticles valid c.top10, f.Named :=
    List.forall_mem_append.2 ⟨hchose.named, (ulids_restArticles valid hchose.named).2⟩
  rw [← List.length_append, ← length_filterMap_ulid hsuccess, ← length_filterMap_ulid hall]
  exact (hchose.report hn).2.length_eq.symm

/-- The tables after a completed run: only its batch is written to them. -/
theorem ToolRun.Completes.db (h : Completes x t results c x.runInternal p) (s : ToolDb)
    (hcreate : Broadcast.createBroadcastBatch (x.now "broadcast") s.db
      (Broadcast.batchRow x.batchId t (results.valid.filter Fields.isArticle).length
        (c.top10.filterMap Fields.ulid).dedup.length x.jobId (x.now "broadcast")) = .ok db₁) :
    (s.commitAll x.runInternal.1).db =
      ((Broadcast.Op.addDetailsBulk x.batchId ((results.valid.filter Fields.isArticle).map
        ToolRun.articleOf) (c.top10.map ToolRun.articleOf)).write (x.now "broadcast")
          db₁).toOption.getD db₁ := by
  obtain ⟨before, later, hbefore, hlater, hwrites⟩ := h.writes
  rw [hwrites, ToolDb.commitAll_append, ToolDb.commitAll_append, db_commitAll_items hlater,
    ToolRun.broadcast, ToolDb.commitAll, List.foldl_cons, List.foldl_cons, List.foldl_nil]
  dsimp only [ToolDb.commit]
  rw [db_commitAll_items hbefore, hcreate]
  rfl

theorem getD_of_refused {r : Except SqlError Database} (h : ∀ db', r ≠ .ok db') (db : Database) :
    r.toOption.getD db = db := by
  cases r with
  | error e => rfl
  | ok db' => exact absurd rfl (h db')

/-- An article as it comes from the scraper. -/
def scrapedArticle (ulid title summary : String) : Fields := fun key =>
  if key = "status" then some (some "SUCCESS")
  else if key = "ulid" then some (some ulid)
  else if key = "title" then some (some title)
  else if key = "conclusion" then some (some "C")
  else if key = "summary" then some (some summary)
  else none

/-- Two articles and a page that failed; of the articles one is long enough to be curated. -/
def scrapeOfTwo : ToolRun where
  jobId := some "j1"
  batchId := "b1"
  targetSite := some "Site"
  validTargets := ["Site"]
  now _ := "2024-05-01T09:00:00+00:00"
  budget := 1000
  replies _ := .raised
  scraped := .ok
    { entries := [("https://example.org/1", scrapedArticle "a1" "T" "short"),
        ("https://example.org/2", fun key => if key = "status" then some (some "FAILED") else none),
        ("https://example.org/3",
          scrapedArticle "a2" "U" (String.ofList (List.replicate 600 's')))]
      internal := 2 }
  written _ := none

def storedTwo : ToolDb where
  items := []
  db :=
    { tables := (((∅ : Tables).insert "scraped_articles"
        { schema := scrapedArticles.schema
          rows := [[("id", .text "a1")], [("id", .text "a2")]] }).insert "broadcast_batches"
        { schema := broadcastBatches.schema, rows := [] }).insert "broadcast_details"
        { schema := broadcastDetails.schema, rows := [] }
      indexes := ∅ }

theorem ready_storedTwo : Broadcast.Ready storedTwo.db "b1" where
  details := ⟨_, rfl, rfl⟩
  batches := ⟨_, rfl, rfl⟩
  noDetail r hr := absurd hr List.not_mem_nil
  noBatch r hr := absurd hr List.not_mem_nil

theorem reportable_scrapeOfTwo (h : scrapeOfTwo.scraped = .ok results) :
    scrapeOfTwo.reportable results = ["a1", "a2"] := by
  cases h
  decide +kernel

end Scraper
