import AnythingTools.Broadcast.Writer
import AnythingTools.Publisher.Order
import AnythingTools.Relational.Numbered

namespace Broadcast
open Relational Relational.Database Schemas
set_option autoImplicit true

/-! ### A batch and its details -/

/-- The row that `create_broadcast_batch` inserts. -/
def batchRow (batchId targetSite : String) (articleCount top10Count : Nat)
    (sourceJobId : Option String) (now : String) : Row :=
  [("batch_id", .text batchId), ("target_site", .text targetSite),
    ("article_count", .int articleCount), ("top10_count", .int top10Count),
    ("status", .text "PENDING"), ("source_job_id", textOrNull sourceJobId),
    ("created_at", .text now), ("updated_at", .text now)]

/-- `create_broadcast_batch`: a plain `INSERT`. -/
def createBroadcastBatch (now : String) (db : Database) (r : Row) : Except SqlError Database :=
  match db.find "broadcast_batches" with
  | none => .error (.noSuchTable "broadcast_batches")
  | some T => (T.insert now r).map fun T' => db.update "broadcast_batches" fun _ => T'

/-! ### Reading a batch -/

def textOf : Value → Option String
  | .text s => some s
  | _ => none

def intOf : Value → Option Int
  | .int k => some k
  | _ => none

/-- The status that a text of the column stands for. -/
def publishStatusOf (text : Option String) : Publisher.PublishStatus :=
  match text with
  | some "TRANSLATING" => .translating
  | some "PUBLISHED_BRIEFING" => .publishedBriefing
  | some "PUBLISHED_ARCHIVE" => .publishedArchive
  | some "FAILED" => .failed
  | some "SKIPPED" => .skipped
  | _ => .pending

def translationOf (title : String) (r : Row) : Option Publisher.Translation :=
  if h : title ≠ "" then
    some
      { title
        summary := (textOf (r.get "translated_summary")).getD ""
        conclusion := (textOf (r.get "translated_conclusion")).getD ""
        titled := h }
  else none

/-- The columns of `scraped_articles` that a detail is joined with. -/
def articleOf (a : Row) : Publisher.Article where
  ulid := (textOf (a.get "id")).getD ""
  url := (textOf (a.get "url")).getD ""
  title := textOf (a.get "title")
  conclusion := textOf (a.get "conclusion")
  summary := textOf (a.get "summary")

/-- `JOIN scraped_articles sa ON bd.article_id = sa.id`, for one detail. -/
def joined (db : Database) (r : Row) : Option Publisher.Detail :=
  ((db.rows "scraped_articles").find? fun a =>
      decide (r.get "article_id" ≠ .null ∧ a.get "id" = r.get "article_id")).map fun a =>
    { detailId := ((intOf (r.get "detail_id")).getD 0).toNat
      article := articleOf a
      isTop10 := decide (r.get "is_top10" = .int 1)
      top10Rank := intOf (r.get "top10_rank")
      publishStatus := publishStatusOf (textOf (r.get "publish_status"))
      translated := (textOf (r.get "translated_title")).bind fun title => translationOf title r }

/-- The details of a batch that have their article. -/
def readDetails (db : Database) (batchId : String) : List Publisher.Detail :=
  ((db.rows "broadcast_details").filter (ofBatch batchId)).filterMap (joined db)

/-- `get_batch_articles`. -/
def getBatchArticles (db : Database) (batchId : String) : List Publisher.Detail :=
  Publisher.sorted (readDetails db batchId)

/-! ### What a bulk write leaves -/

/-- The cells of a detail as it is inserted. -/
structure IsDetail (batchId ulid : String) (rank : Option Nat) (r : Row) : Prop where
  batch : r.get "batch_id" = .text batchId
  article : r.get "article_id" = .text ulid
  isTop10 : r.get "is_top10" = .int (if rank.isSome then 1 else 0)
  top10Rank : r.get "top10_rank" = (rank.map fun n => Value.int n).getD .null
  status : r.get "publish_status" = .text "PENDING"
  untranslated : r.get "translated_title" = .null

/-- The row that the table makes of a detail. -/
def storedDetail (T : Table) (now batchId ulid : String) (rank : Option Nat) : Row :=
  T.assign (T.schema.fill now (detailRow batchId ulid rank.isSome rank now))

theorem storedDetail_cells {T : Table} (hs : T.schema = broadcastDetails.schema)
    (now batchId ulid : String) (rank : Option Nat) :
    (storedDetail T now batchId ulid rank).get "detail_id" = .int (T.nextRowid "detail_id") ∧
      IsDetail batchId ulid rank (storedDetail T now batchId ulid rank) := by
  have halias : T.schema.rowidAlias = some "detail_id" := by
    rw [hs]
    decide
  have hnull : (T.schema.fill now (detailRow batchId ulid rank.isSome rank now)).get "detail_id" =
      .null := by
    rw [hs]
    rfl
  have hcol : "detail_id" ∈
      (T.schema.fill now (detailRow batchId ulid rank.isSome rank now)).columns := by
    rw [hs, Schema.fill, Row.columns_build]
    decide
  obtain ⟨hid, hother⟩ := Table.assign_unnumbered halias hnull hcol
  have hcell (c : String) (hne : c ≠ "detail_id") : (storedDetail T now batchId ulid rank).get c =
      (broadcastDetails.schema.fill now (detailRow batchId ulid rank.isSome rank now)).get c := by
    rw [← hs]
    exact hother c hne
  refine ⟨hid, ?_, ?_, ?_, ?_, ?_, ?_⟩
  all_goals
    rw [hcell _ (by decide)]
    rfl

/-- The schema lets a detail in. -/
theorem storedDetail_admitted {T : Table} (hs : T.schema = broadcastDetails.schema)
    (now batchId ulid : String) (rank : Option Nat) :
    T.schema.admits (storedDetail T now batchId ulid rank) = true := by
  obtain ⟨hid, hcells⟩ := storedDetail_cells hs now batchId ulid rank
  have halias : T.schema.rowidAlias = some "detail_id" := by
    rw [hs]
    decide
  have hother (c : String) (hne : c ≠ "detail_id") : (storedDetail T now batchId ulid rank).get c =
      (broadcastDetails.schema.fill now (detailRow batchId ulid rank.isSome rank now)).get c := by
    rw [← hs]
    refine (Table.assign_unnumbered halias ?_ ?_).2 c hne
    · rw [hs]
      rfl
    · rw [hs, Schema.fill, Row.columns_build]
      decide
  rw [Schema.admits, Bool.and_eq_true, Schema.notNulls_iff, List.all_eq_true, hs]
  constructor
  · have hnames : broadcastDetails.schema.notNullNames =
        ["batch_id", "article_id", "is_top10", "publish_status", "content_hash", "created_at",
          "updated_at"] := by decide
    rw [hnames]
    simp only [List.forall_mem_cons, List.not_mem_nil, false_implies, implies_true, and_true]
    refine ⟨?_, ?_, ?_, ?_, ?_, ?_, ?_⟩
    all_goals
      rw [hother _ (by decide)]
      exact Value.noConfusion
  · intro k hk
    obtain rfl := List.mem_singleton.1 hk
    rw [Check.holds, hcells.status]
    decide

/-- No detail of the table is of the batch and one of the articles. -/
def NoDetail (rows : List Row) (batchId : String) (ulids : List String) : Prop :=
  ∀ r ∈ rows, ∀ ulid ∈ ulids, ofArticle batchId ulid r = false

theorem storedDetail_apart {T : Table} (hs : T.schema = broadcastDetails.schema)
    (hno : NoDetail T.rows batchId [ulid]) (now : String) (rank : Option Nat) :
    ∀ r ∈ T.rows, T.schema.conflicts (storedDetail T now batchId ulid rank) r = false := by
  intro r hr
  obtain ⟨hid, hcells⟩ := storedDetail_cells hs now batchId ulid rank
  have hkeys : T.schema.keys = [["detail_id"], ["batch_id", "article_id"]] := by
    rw [hs]
    decide
  rw [Bool.eq_false_iff, Ne, Schema.conflicts_iff, hkeys]
  simp only [List.mem_cons, List.not_mem_nil, or_false, exists_eq_or_imp, exists_eq_left,
    Row.sameKey_iff]
  rintro (hsame | hsame)
  · have he := (hsame "detail_id" rfl).2
    rw [hid] at he
    exact absurd (Table.lt_nextRowid hr he.symm) (Int.lt_irrefl _)
  · have hbatch := (hsame "batch_id" (.inl rfl)).2
    have harticle := (hsame "article_id" (.inr rfl)).2
    have hnot := hno r hr ulid List.mem_cons_self
    rw [hcells.batch] at hbatch
    rw [hcells.article] at harticle
    rw [ofArticle, ofBatch, ← hbatch, ← harticle, decide_eq_true rfl, decide_eq_true rfl] at hnot
    cases hnot

/-- The details that a bulk write appends, one for each id. -/
structure Appended (batchId : String) (rank : String → Option Nat) (db : Database)
    (ulids : List String) (db' : Database) (new : List Row) : Prop where
  schemas : SameSchemas db db'
  details : db'.rows "broadcast_details" = db.rows "broadcast_details" ++ new
  others : ∀ u, u ≠ "broadcast_details" → db'.rows u = db.rows u
  cells : List.Forall₂ (fun ulid r => IsDetail batchId ulid (rank ulid) r) ulids new
  numbered : Numbered "detail_id" new
  later : ∀ r ∈ new, ∀ r' ∈ db.rows "broadcast_details", ∀ k k' : Int,
    r.get "detail_id" = .int k → r'.get "detail_id" = .int k' → k' < k
  parents : ∀ ulid ∈ ulids, ∃ a ∈ db.rows "scraped_articles", a.get "id" = .text ulid

theorem Appended.nil (batchId : String) (rank : String → Option Nat) (db : Database) :
    Appended batchId rank db [] db [] where
  schemas := .refl db
  details := (List.append_nil _).symm
  others u hu := rfl
  cells := .nil
  numbered := ⟨fun r hr => absurd hr List.not_mem_nil, .nil⟩
  later r hr := absurd hr List.not_mem_nil
  parents ulid hu := absurd hu List.not_mem_nil

/-- One more detail. -/
theorem Appended.insert (h : Appended batchId rank db ulids db₁ new)
    (hT : db₁.find "broadcast_details" = some T) (hs : T.schema = broadcastDetails.schema)
    (hno : NoDetail T.rows batchId [ulid])
    (hins : insertDetail now db₁ (detailRow batchId ulid (rank ulid).isSome (rank ulid) now) =
      .ok db') :
    ∃ r, Appended batchId rank db (ulids ++ [ulid]) db' (new ++ [r]) := by
  obtain ⟨hid, hcells⟩ := storedDetail_cells hs now batchId ulid (rank ulid)
  obtain ⟨rfl, hparents⟩ := insertOrIgnore_appends hT
    (storedDetail_admitted hs now batchId ulid (rank ulid))
    (storedDetail_apart hs hno now (rank ulid)) hins
  have hrows : T.rows = db.rows "broadcast_details" ++ new := by
    rw [← h.details, rows_of_find hT]
  have hlater (r : Row) (hr : r ∈ T.rows) (k : Int) (hk : r.get "detail_id" = .int k) :
      k < T.nextRowid "detail_id" := Table.lt_nextRowid hr hk
  refine ⟨storedDetail T now batchId ulid (rank ulid), ?_, ?_, ?_, ?_, ?_, ?_, ?_⟩
  · exact h.schemas.trans (sameSchemas_append db₁ _ _)
  · rw [storedDetail, rows_append_self hT, h.details, List.append_assoc]
  · exact fun u hu => (rows_append_ne _ hu).trans (h.others u hu)
  · exact List.rel_append h.cells (.cons hcells .nil)
  · refine h.numbered.concat hid (Table.nextRowid_pos T _) fun r hr k hk => hlater r ?_ k hk
    rw [hrows]
    exact List.mem_append_right _ hr
  · intro r hr r' hr' k k' hk hk'
    rcases List.mem_append.1 hr with hr | hr
    · exact h.later r hr r' hr' k k' hk hk'
    · rw [List.mem_singleton.1 hr, hid, Value.int.injEq] at hk
      rw [← hk]
      refine hlater r' ?_ k' hk'
      rw [hrows]
      exact List.mem_append_left _ hr'
  · intro u hu
    rcases List.mem_append.1 hu with hu | hu
    · exact h.parents u hu
    · rw [List.mem_singleton.1 hu]
      rw [parentsPresent, List.all_eq_true] at hparents
      have hlink := hparents ⟨"article_id", "scraped_articles", "id"⟩ (by rw [hs]; decide)
      rw [Bool.or_eq_true, decide_eq_true_eq, List.any_eq_true] at hlink
      rcases hlink with hnull | ⟨a, ha, hlinks⟩
      · rw [← storedDetail, hcells.article] at hnull
        cases hnull
      · rw [rows_append_ne _ (by decide), h.others _ (by decide)] at ha
        refine ⟨a, ha, ?_⟩
        have he := (ForeignKey.links_iff.1 hlinks).2
        rw [← storedDetail, hcells.article] at he
        exact he.symm

/-- The articles of the details are among those that were written, if the batch had none. -/
theorem Appended.noDetail (h : Appended batchId rank db ulids db₁ new)
    (hno : NoDetail (db.rows "broadcast_details") batchId rest) (hd : ∀ u ∈ rest, u ∉ ulids) :
    NoDetail (db₁.rows "broadcast_details") batchId rest := by
  intro r hr u hu
  rw [h.details] at hr
  rcases List.mem_append.1 hr with hr | hr
  · exact hno r hr u hu
  · obtain ⟨i, hi, rfl⟩ := List.mem_iff_getElem.1 hr
    have hlen := h.cells.length_eq
    have hcells := h.cells.get (by omega) hi
    rw [ofArticle, Bool.and_eq_false_iff]
    refine .inr (decide_eq_false fun he => hd u hu ?_)
    rw [List.get_eq_getElem, List.get_eq_getElem] at hcells
    rw [hcells.article, Value.text.injEq] at he
    rw [← he]
    exact List.getElem_mem _

/-- The table of the details is there. -/
def HasDetails (db : Database) : Prop :=
  ∃ T, db.find "broadcast_details" = some T ∧ T.schema = broadcastDetails.schema

/-- Before the next article is written, it has no detail. -/
theorem Appended.next (h : Appended batchId rank db ulids db₁ new) (hS : HasDetails db)
    (hno : NoDetail (db.rows "broadcast_details") batchId (u :: rest))
    (hn : (ulids ++ u :: rest).Nodup) : ∃ T, db₁.find "broadcast_details" = some T ∧
      T.schema = broadcastDetails.schema ∧ NoDetail T.rows batchId [u] := by
  obtain ⟨T₀, hT₀, hs₀⟩ := hS
  obtain ⟨T, hT, hs⟩ := h.schemas.find hT₀
  refine ⟨T, hT, hs.trans hs₀, ?_⟩
  rw [← rows_of_find hT]
  refine h.noDetail (fun r hr v hv => hno r hr v ?_) fun v hv hmem => ?_
  · rw [List.mem_singleton.1 hv]
    exact List.mem_cons_self
  · rw [List.mem_singleton.1 hv] at hmem
    exact (List.nodup_append.1 hn).2.2 u hmem u List.mem_cons_self rfl

/-- A bulk write that the database accepts appends a detail for each article. -/
theorem Appended.insertAll (h : Appended batchId rank db ulids db₁ new) (hS : HasDetails db)
    (hno : NoDetail (db.rows "broadcast_details") batchId rest) (hn : (ulids ++ rest).Nodup)
    (hins : rest.foldlM (fun db u => insertDetail now db
      (detailRow batchId u (rank u).isSome (rank u) now)) db₁ = .ok db') :
    ∃ new', Appended batchId rank db (ulids ++ rest) db' new' := by
  induction rest generalizing ulids db₁ new with
  | nil =>
    cases hins
    rw [List.append_nil]
    exact ⟨new, h⟩
  | cons u rest ih =>
    obtain ⟨T, hT, hs, hnoT⟩ := h.next hS hno hn
    rw [List.foldlM_cons] at hins
    cases hfirst : insertDetail now db₁ (detailRow batchId u (rank u).isSome (rank u) now) with
    | error e =>
      rw [hfirst] at hins
      cases hins
    | ok db₂ =>
      obtain ⟨r, hr⟩ := h.insert hT hs hnoT hfirst
      have happ : ulids ++ [u] ++ rest = ulids ++ u :: rest := by
        rw [List.append_assoc]
        rfl
      rw [hfirst] at hins
      rw [← happ] at hn ⊢
      exact ih hr (fun r hr v hv => hno r hr v (List.mem_cons_of_mem u hv)) hn hins

/-- An article that is there can be written, if the batch is. -/
theorem Appended.accepts (h : Appended batchId rank db ulids db₁ new)
    (hT : db₁.find "broadcast_details" = some T) (hs : T.schema = broadcastDetails.schema)
    (hno : NoDetail T.rows batchId [u])
    (hbatch : ∃ b ∈ db.rows "broadcast_batches", b.get "batch_id" = .text batchId)
    (hparent : ∃ a ∈ db.rows "scraped_articles", a.get "id" = .text u) (now : String) :
    ∃ db', insertDetail now db₁ (detailRow batchId u (rank u).isSome (rank u) now) = .ok db' := by
  obtain ⟨-, hcells⟩ := storedDetail_cells hs now batchId u (rank u)
  have hany : ¬ T.rows.any (T.schema.conflicts (storedDetail T now batchId u (rank u))) = true := by
    rw [Bool.not_eq_true, List.any_eq_false]
    exact fun r hr => Bool.eq_false_iff.1 (storedDetail_apart hs hno now (rank u) r hr)
  have hpresent : (db₁.append "broadcast_details" (storedDetail T now batchId u (rank u))).parentsPresent
      T.schema (storedDetail T now batchId u (rank u)) = true := by
    obtain ⟨b, hb, hbid⟩ := hbatch
    obtain ⟨a, ha, haid⟩ := hparent
    rw [parentsPresent, List.all_eq_true, hs]
    change ∀ f ∈ [ForeignKey.mk "batch_id" "broadcast_batches" "batch_id",
      ForeignKey.mk "article_id" "scraped_articles" "id"], _
    simp only [List.forall_mem_cons, List.not_mem_nil, false_implies, implies_true, and_true,
      Bool.or_eq_true, List.any_eq_true, ForeignKey.links_iff, hcells.batch, hcells.article]
    refine ⟨.inr ⟨b, ?_, Value.noConfusion, hbid.symm⟩, .inr ⟨a, ?_, Value.noConfusion, haid.symm⟩⟩
    · rw [rows_append_ne _ (by decide), h.others _ (by decide)]
      exact hb
    · rw [rows_append_ne _ (by decide), h.others _ (by decide)]
      exact ha
  rw [insertDetail, insertOrIgnore, hT]
  dsimp only
  rw [← storedDetail, if_pos ⟨storedDetail_admitted hs now batchId u (rank u), hany⟩,
    if_pos hpresent]
  exact ⟨_, rfl⟩

theorem Appended.accepted (h : Appended batchId rank db ulids db₁ new) (hS : HasDetails db)
    (hno : NoDetail (db.rows "broadcast_details") batchId rest) (hn : (ulids ++ rest).Nodup)
    (hbatch : ∃ b ∈ db.rows "broadcast_batches", b.get "batch_id" = .text batchId)
    (hparents : ∀ u ∈ rest, ∃ a ∈ db.rows "scraped_articles", a.get "id" = .text u)
    (now : String) : ∃ db', rest.foldlM (fun db u => insertDetail now db
      (detailRow batchId u (rank u).isSome (rank u) now)) db₁ = .ok db' := by
  induction rest generalizing ulids db₁ new with
  | nil => exact ⟨db₁, rfl⟩
  | cons u rest ih =>
    rw [List.forall_mem_cons] at hparents
    obtain ⟨T, hT, hs, hnoT⟩ := h.next hS hno hn
    obtain ⟨db₂, hfirst⟩ := h.accepts hT hs hnoT hbatch hparents.1 now
    obtain ⟨r, hr⟩ := h.insert hT hs hnoT hfirst
    have happ : ulids ++ [u] ++ rest = ulids ++ u :: rest := by
      rw [List.append_assoc]
      rfl
    rw [← happ] at hn
    rw [List.foldlM_cons, hfirst]
    exact ih hr (fun r hr v hv => hno r hr v (List.mem_cons_of_mem u hv)) hn hparents.2

/-! ### What is read of it -/

/-- A detail as it is read right after it was inserted. -/
structure ReadAs (rank : String → Option Nat) (ulid : String) (d : Publisher.Detail) : Prop where
  named : d.ulid = ulid
  isTop10 : d.isTop10 = (rank ulid).isSome
  top10Rank : d.top10Rank = (rank ulid).map Int.ofNat
  status : d.publishStatus = .pending
  untranslated : d.translated = none

def detailNumber (r : Row) : Nat := ((intOf (r.get "detail_id")).getD 0).toNat

theorem joined_detail (hp : ∃ a ∈ db.rows "scraped_articles", a.get "id" = .text ulid)
    (h : IsDetail batchId ulid (rank ulid) r) :
    ∃ d, joined db r = some d ∧ ReadAs rank ulid d ∧ d.detailId = detailNumber r := by
  rw [joined]
  cases hfind : (db.rows "scraped_articles").find? fun a =>
      decide (r.get "article_id" ≠ .null ∧ a.get "id" = r.get "article_id") with
  | none =>
    obtain ⟨a, ha, hid⟩ := hp
    rw [List.find?_eq_none] at hfind
    exact absurd (decide_eq_true ⟨h.article ▸ Value.noConfusion, hid.trans h.article.symm⟩)
      (hfind a ha)
  | some a =>
    have hmatch : decide (r.get "article_id" ≠ .null ∧ a.get "id" = r.get "article_id") = true :=
      List.find?_some (p := fun a : Row =>
        decide (r.get "article_id" ≠ .null ∧ a.get "id" = r.get "article_id")) hfind
    have hid := (of_decide_eq_true hmatch).2
    rw [h.article] at hid
    refine ⟨_, rfl, ⟨?_, ?_, ?_, ?_, ?_⟩, rfl⟩
    · change (textOf (a.get "id")).getD "" = ulid
      rw [hid]
      rfl
    · change decide (r.get "is_top10" = .int 1) = (rank ulid).isSome
      rw [h.isTop10]
      cases rank ulid <;> rfl
    · change intOf (r.get "top10_rank") = _
      rw [h.top10Rank]
      cases rank ulid <;> rfl
    · change publishStatusOf (textOf (r.get "publish_status")) = .pending
      rw [h.status]
      rfl
    · change (textOf (r.get "translated_title")).bind _ = none
      rw [h.untranslated]
      rfl

theorem filterMap_joined (h : List.Forall₂ (fun ulid r => IsDetail batchId ulid (rank ulid) r) ulids new)
    (hp : ∀ ulid ∈ ulids, ∃ a ∈ db.rows "scraped_articles", a.get "id" = .text ulid) :
    List.Forall₂ (ReadAs rank) ulids (new.filterMap (joined db)) ∧
      (new.filterMap (joined db)).map Publisher.Detail.detailId = new.map detailNumber := by
  induction h with
  | nil => exact ⟨.nil, rfl⟩
  | cons hr _ ih =>
    rw [List.forall_mem_cons] at hp
    obtain ⟨d, hd, hread, hid⟩ := joined_detail hp.1 hr
    obtain ⟨hall, hids⟩ := ih hp.2
    rw [List.filterMap_cons_some hd]
    exact ⟨.cons hread hall, by rw [List.map_cons, List.map_cons, hids, hid]⟩

/-- The details of a new batch are read as they were written. -/
theorem readDetails_appended (h : Appended batchId rank db ulids db' new)
    (hno : ∀ r ∈ db.rows "broadcast_details", ofBatch batchId r = false) :
    List.Forall₂ (ReadAs rank) ulids (readDetails db' batchId) ∧
      (readDetails db' batchId).Pairwise fun d d' => d.detailId < d'.detailId := by
  have hold : (db.rows "broadcast_details").filter (ofBatch batchId) = [] := by
    rw [List.filter_eq_nil_iff]
    exact fun r hr => Bool.eq_false_iff.1 (hno r hr)
  have hnew : new.filter (ofBatch batchId) = new := by
    rw [List.filter_eq_self]
    intro r hr
    obtain ⟨i, hi, rfl⟩ := List.mem_iff_getElem.1 hr
    have hlen := h.cells.length_eq
    exact decide_eq_true (h.cells.get (by omega) hi).batch
  have hread : readDetails db' batchId = new.filterMap (joined db') := by
    rw [readDetails, h.details, List.filter_append, hold, hnew, List.nil_append]
  rw [hread]
  have hp (ulid : String) (hu : ulid ∈ ulids) :
      ∃ a ∈ db'.rows "scraped_articles", a.get "id" = .text ulid := by
    rw [h.others _ (by decide)]
    exact h.parents ulid hu
  obtain ⟨hall, hids⟩ := filterMap_joined h.cells hp
  refine ⟨hall, ?_⟩
  rw [← List.pairwise_map, hids, List.pairwise_map]
  refine h.numbered.2.imp_of_mem fun {r r'} hr hr' hlt => ?_
  obtain ⟨k, hk, hpos⟩ := h.numbered.1 r hr
  obtain ⟨k', hk', -⟩ := h.numbered.1 r' hr'
  rw [detailNumber, detailNumber, hk, hk']
  exact (Int.toNat_lt_toNat (hpos.trans (hlt k k' hk hk'))).2 (hlt k k' hk hk')

/-! ### The order in which it is listed -/

/-- Rows that stand for the strings of a list are given by a function of them. -/
theorem exists_map {P : String → β → Prop} [Inhabited β] (h : List.Forall₂ P ulids ds)
    (hn : ulids.Nodup) : ∃ f : String → β, ds = ulids.map f ∧ ∀ u ∈ ulids, P u (f u) := by
  induction h with
  | nil => exact ⟨fun _ => default, rfl, fun u hu => absurd hu List.not_mem_nil⟩
  | @cons u d us ds hd _ ih =>
    obtain ⟨hu, hn⟩ := List.nodup_cons.1 hn
    obtain ⟨f, hf, hall⟩ := ih hn
    have hother (v : String) (hv : v ∈ us) : Function.update f u d v = f v :=
      Function.update_of_ne (fun he => hu (by rw [← he]; exact hv)) d f
    refine ⟨Function.update f u d, ?_, List.forall_mem_cons.2 ⟨?_, ?_⟩⟩
    · rw [List.map_cons, Function.update_self, hf]
      exact congrArg _ (List.map_congr_left hother).symm
    · rw [Function.update_self]
      exact hd
    · intro v hv
      rw [hother v hv]
      exact hall v hv

/-- The rank of an article in a list without repetitions. -/
theorem top10Rank_eq {articles : List Article} {top : List String}
    (h : articles.map Article.ulid = top.map some) (hn : top.Nodup) (u : String) :
    top10Rank articles u = if u ∈ top then some (top.idxOf u) else none := by
  have hoffset (n : Nat) : ((articles.zipIdx n).filter fun p =>
      decide (p.1.ulid = some u)).getLast?.map Prod.snd =
        if u ∈ top then some (n + top.idxOf u) else none := by
    induction articles generalizing top n with
    | nil =>
      rw [List.map_nil, eq_comm, List.map_eq_nil_iff] at h
      subst h
      rfl
    | cons a articles ih =>
      obtain ⟨t, ts, rfl, ha, hts⟩ := List.map_eq_cons_iff.1 h.symm
      obtain ⟨ht, hts'⟩ := List.nodup_cons.1 hn
      have hrest := ih hts.symm hts' (n + 1)
      rw [List.zipIdx_cons]
      by_cases hu : u = t
      · subst hu
        have hkept : decide ((a, n).1.ulid = some u) = true := decide_eq_true ha.symm
        rw [if_neg ht, Option.map_eq_none_iff, List.getLast?_eq_none_iff] at hrest
        rw [List.filter_cons, if_pos hkept, hrest, if_pos List.mem_cons_self,
          List.idxOf_cons_self]
        rfl
      · have hdropped : ¬ decide ((a, n).1.ulid = some u) = true := by
          rw [decide_eq_true_iff]
          exact fun he => hu (Option.some_inj.1 (he.symm.trans ha.symm))
        rw [List.filter_cons, if_neg hdropped, hrest, List.idxOf_cons_ne _ (Ne.symm hu)]
        by_cases hmem : u ∈ ts
        · rw [if_pos hmem, if_pos (List.mem_cons_of_mem t hmem), Nat.add_right_comm, Nat.add_assoc]
        · rw [if_neg hmem, if_neg fun hc => (List.mem_cons.1 hc).elim hu hmem]
  rw [top10Rank, hoffset 0]
  simp only [Nat.zero_add]

/-- The ranked articles come first, in the order of their ranks, and then the others in the order in
which they were written. -/
theorem sorted_ranked {ds : List Publisher.Detail} {top : List String}
    (hall : List.Forall₂ (ReadAs rank) ulids ds)
    (hids : ds.Pairwise fun d d' => d.detailId < d'.detailId) (hn : ulids.Nodup)
    (htop : top.Nodup) (hsub : top ⊆ ulids)
    (hrank : ∀ u, rank u = if u ∈ top then some (top.idxOf u) else none) :
    (Publisher.sorted ds).map Publisher.Detail.ulid =
      top ++ ulids.filter fun u => decide (u ∉ top) := by
  have : Inhabited Publisher.Detail :=
    ⟨{ detailId := 0, article := { ulid := "", url := "", title := none }, isTop10 := false
       top10Rank := none }⟩
  obtain ⟨f, rfl, hf⟩ := exists_map hall hn
  rw [List.pairwise_map] at hids
  have hmem (u : String) : u ∈ top ++ ulids.filter (fun u => decide (u ∉ top)) ↔ u ∈ ulids := by
    rw [List.mem_append, List.mem_filter, decide_eq_true_iff]
    by_cases hu : u ∈ top
    · exact iff_of_true (.inl hu) (hsub hu)
    · rw [or_iff_right hu, and_iff_left hu]
  have hnodup : (top ++ ulids.filter fun u => decide (u ∉ top)).Nodup := by
    refine htop.append (hn.filter _) fun u hu hrest => ?_
    exact of_decide_eq_true (List.mem_filter.1 hrest).2 hu
  have hperm := (List.perm_ext_iff_of_nodup hnodup hn).2 hmem
  have hlisted : ((top ++ ulids.filter fun u => decide (u ∉ top)).map f).map
      Publisher.Detail.ulid = top ++ ulids.filter fun u => decide (u ∉ top) := by
    rw [List.map_map]
    exact (List.map_congr_left fun u hu => (hf u ((hmem u).1 hu)).named).trans (List.map_id _)
  have htop10 (u : String) (hu : u ∈ top) : (f u).isTop10 = true ∧
      (f u).top10Rank = some (top.idxOf u : Int) := by
    have hread := hf u (hsub hu)
    rw [hread.isTop10, hread.top10Rank, hrank, if_pos hu]
    exact ⟨rfl, rfl⟩
  have hother (u : String) (hu : u ∈ ulids) (hnot : u ∉ top) : (f u).isTop10 = false ∧
      (f u).top10Rank = none := by
    have hread := hf u hu
    rw [hread.isTop10, hread.top10Rank, hrank, if_neg hnot]
    exact ⟨rfl, rfl⟩
  have hnumbers : ((ulids.map f).map Publisher.Detail.detailId).Nodup := by
    rw [List.map_map, List.nodup_iff_pairwise_ne, List.pairwise_map]
    exact hids.imp fun h => Nat.ne_of_lt h
  have hpair : ((top ++ ulids.filter fun u => decide (u ∉ top)).map f).Pairwise
      fun a b => a.before b = true := by
    rw [List.pairwise_map, List.pairwise_append]
    refine ⟨?_, ?_, ?_⟩
    · rw [List.pairwise_iff_getElem]
      intro i j hi hj hlt
      obtain ⟨hti, hri⟩ := htop10 top[i] (List.getElem_mem hi)
      obtain ⟨htj, hrj⟩ := htop10 top[j] (List.getElem_mem hj)
      rw [Publisher.Detail.before, if_neg (by rw [hti, htj]; exact not_not_intro rfl), hri, hrj,
        htop.idxOf_getElem i hi, htop.idxOf_getElem j hj, if_pos (by simp; omega)]
      exact decide_eq_true (Int.ofNat_lt.2 hlt)
    · refine (hids.filter _).imp_of_mem fun {u v} hu hv hlt => ?_
      rw [List.mem_filter, decide_eq_true_iff] at hu hv
      obtain ⟨htu, hru⟩ := hother u hu.1 hu.2
      obtain ⟨htv, hrv⟩ := hother v hv.1 hv.2
      rw [Publisher.Detail.before, if_neg (by rw [htu, htv]; exact not_not_intro rfl),
        if_neg (by rw [hru, hrv]; exact not_not_intro rfl)]
      exact decide_eq_true (Nat.le_of_lt hlt)
    · intro u hu v hv
      rw [List.mem_filter, decide_eq_true_iff] at hv
      have htu := (htop10 u hu).1
      have htv := (hother v hv.1 hv.2).1
      rw [Publisher.Detail.before, if_pos (by rw [htu, htv]; exact Bool.noConfusion)]
      exact htu
  rw [Publisher.sorted_eq hnumbers (hperm.map f) hpair, hlisted]

/-- A batch that is written is listed with its top 10 first, in their order, and then its other
articles in the order in which they were handed over, all of them pending. -/
theorem listed_of_written {articles top10 : List Article} {top : List String}
    (hS : HasDetails db) (hno : ∀ r ∈ db.rows "broadcast_details", ofBatch batchId r = false)
    (hn : (articles.filterMap articleId).Nodup) (htop : top.Nodup)
    (hnamed : top10.map Article.ulid = top.map some)
    (hsub : top ⊆ articles.filterMap articleId)
    (h : (Op.addDetailsBulk batchId articles top10).write now db = .ok db') :
    (getBatchArticles db' batchId).map Publisher.Detail.ulid =
        top ++ (articles.filterMap articleId).filter (fun u => decide (u ∉ top)) ∧
      (∀ d ∈ getBatchArticles db' batchId, d.publishStatus = .pending ∧ d.translated = none) ∧
      ∀ u, u ≠ "broadcast_details" → db'.rows u = db.rows u := by
  have hnone : NoDetail (db.rows "broadcast_details") batchId (articles.filterMap articleId) := by
    intro r hr u _
    rw [ofArticle, hno r hr, Bool.false_and]
  obtain ⟨new, happ⟩ := (Appended.nil batchId (top10Rank top10) db).insertAll hS hnone hn h
  rw [List.nil_append] at happ
  obtain ⟨hall, hids⟩ := readDetails_appended happ hno
  refine ⟨sorted_ranked hall hids hn htop hsub (top10Rank_eq hnamed htop), fun d hd => ?_,
    happ.others⟩
  obtain ⟨i, hi, rfl⟩ := List.mem_iff_getElem.1 (Publisher.mem_sorted.1 hd)
  have hlen := hall.length_eq
  have hread := hall.get (by omega) hi
  exact ⟨hread.status, hread.untranslated⟩

/-! ### A new batch -/

/-- The tables of the broadcasts, with nothing of the batch. -/
structure Ready (db : Database) (batchId : String) : Prop where
  details : HasDetails db
  batches : ∃ T, db.find "broadcast_batches" = some T ∧ T.schema = broadcastBatches.schema
  noDetail : ∀ r ∈ db.rows "broadcast_details", ofBatch batchId r = false
  noBatch : ∀ r ∈ db.rows "broadcast_batches", ofBatch batchId r = false

/-- The cells of a batch as it is inserted. -/
structure IsBatch (batchId : String) (articleCount top10Count : Nat) (r : Row) : Prop where
  batch : r.get "batch_id" = .text batchId
  articleCount : r.get "article_count" = .int articleCount
  top10Count : r.get "top10_count" = .int top10Count
  status : r.get "status" = .text "PENDING"

/-- A batch with a new id is inserted. -/
theorem createBroadcastBatch_ok (h : Ready db batchId) (targetSite : String)
    (articleCount top10Count : Nat) (sourceJobId : Option String) (now : String) :
    ∃ db₁ r, createBroadcastBatch now db
        (batchRow batchId targetSite articleCount top10Count sourceJobId now) = .ok db₁ ∧
      db₁.rows "broadcast_batches" = db.rows "broadcast_batches" ++ [r] ∧
      IsBatch batchId articleCount top10Count r ∧
      (∀ u, u ≠ "broadcast_batches" → db₁.find u = db.find u) := by
  obtain ⟨T, hT, hs⟩ := h.batches
  have hnone : T.schema.rowidAlias = none := by
    rw [hs]
    decide
  have hcells : IsBatch batchId articleCount top10Count (broadcastBatches.schema.fill now
      (batchRow batchId targetSite articleCount top10Count sourceJobId now)) := ⟨rfl, rfl, rfl, rfl⟩
  have hadm : T.schema.admits (T.schema.fill now
      (batchRow batchId targetSite articleCount top10Count sourceJobId now)) = true := by
    rw [Schema.admits, Bool.and_eq_true, Schema.notNulls_iff, List.all_eq_true, hs]
    constructor
    · have hnames : broadcastBatches.schema.notNullNames =
          ["target_site", "article_count", "top10_count", "status", "content_hash", "created_at",
            "updated_at"] := by decide
      rw [hnames]
      simp only [List.forall_mem_cons, List.not_mem_nil, false_implies, implies_true, and_true]
      exact ⟨Value.noConfusion, Value.noConfusion, Value.noConfusion, Value.noConfusion,
        Value.noConfusion, Value.noConfusion, Value.noConfusion⟩
    · intro k hk
      obtain rfl := List.mem_singleton.1 hk
      rw [Check.holds, hcells.status]
      decide
  have hfree : ¬ T.rows.any (T.schema.conflicts (T.schema.fill now
      (batchRow batchId targetSite articleCount top10Count sourceJobId now))) = true := by
    rw [Bool.not_eq_true, List.any_eq_false]
    intro r hr hc
    have hkeys : T.schema.keys = [["batch_id"]] := by
      rw [hs]
      decide
    obtain ⟨k, hk, hsame⟩ := Schema.conflicts_iff.1 hc
    rw [hkeys] at hk
    obtain rfl := List.mem_singleton.1 hk
    have he := (Row.sameKey_iff.1 hsame "batch_id" List.mem_cons_self).2
    rw [hs, hcells.batch] at he
    have hnot := h.noBatch r (by rw [rows_of_find hT]; exact hr)
    rw [ofBatch, ← he, decide_eq_true rfl] at hnot
    cases hnot
  have hins : T.insert now (batchRow batchId targetSite articleCount top10Count sourceJobId now) =
      .ok { T with rows := T.rows ++ [broadcastBatches.schema.fill now
        (batchRow batchId targetSite articleCount top10Count sourceJobId now)] } := by
    rw [Table.insert, Table.assign_of_none hnone, ← hs]
    exact if_pos ⟨hadm, hfree⟩
  refine ⟨db.update "broadcast_batches" fun _ => { T with
      rows := T.rows ++ [broadcastBatches.schema.fill now
        (batchRow batchId targetSite articleCount top10Count sourceJobId now)] },
    broadcastBatches.schema.fill now
      (batchRow batchId targetSite articleCount top10Count sourceJobId now), ?_, ?_, hcells, ?_⟩
  · rw [createBroadcastBatch, hT]
    dsimp only
    rw [hins]
    rfl
  · rw [Database.rows, find_update_self, hT, rows_of_find hT]
    rfl
  · exact fun u hu => find_update_ne db _ hu

/-- A new batch with its articles. If all of these are stored, they are listed as they were ranked
and handed over, and else the batch has no details at all. -/
theorem new_batch_listed (h : Ready db batchId) {articles top10 : List Article} {top : List String}
    (targetSite : String) (sourceJobId : Option String) (articleCount top10Count : Nat)
    (hn : (articles.filterMap articleId).Nodup) (htop : top.Nodup)
    (hnamed : top10.map Article.ulid = top.map some)
    (hsub : top ⊆ articles.filterMap articleId) (now : String) :
    ∃ db₁ r, createBroadcastBatch now db
        (batchRow batchId targetSite articleCount top10Count sourceJobId now) = .ok db₁ ∧
      db₁.rows "broadcast_batches" = db.rows "broadcast_batches" ++ [r] ∧
      IsBatch batchId articleCount top10Count r ∧
      ((∀ u ∈ articles.filterMap articleId, ∃ a ∈ db.rows "scraped_articles", a.get "id" = .text u) →
        ∃ db', (Op.addDetailsBulk batchId articles top10).write now db₁ = .ok db' ∧
          db'.rows "broadcast_batches" = db₁.rows "broadcast_batches" ∧
          (getBatchArticles db' batchId).map Publisher.Detail.ulid =
            top ++ (articles.filterMap articleId).filter (fun u => decide (u ∉ top)) ∧
          ∀ d ∈ getBatchArticles db' batchId, d.publishStatus = .pending ∧ d.translated = none) ∧
      ((¬ ∀ u ∈ articles.filterMap articleId,
          ∃ a ∈ db.rows "scraped_articles", a.get "id" = .text u) →
        (∀ db', (Op.addDetailsBulk batchId articles top10).write now db₁ ≠ .ok db') ∧
          getBatchArticles db₁ batchId = []) := by
  obtain ⟨db₁, r, hcreate, hrows, hbatch, hsame⟩ :=
    createBroadcastBatch_ok h targetSite articleCount top10Count sourceJobId now
  have hother (u : String) (hu : u ≠ "broadcast_batches") : db₁.rows u = db.rows u := by
    rw [Database.rows, hsame u hu, Database.rows]
  have hdetails : HasDetails db₁ := by
    obtain ⟨T, hT, hs⟩ := h.details
    exact ⟨T, (hsame _ (by decide)).trans hT, hs⟩
  have hno : ∀ r ∈ db₁.rows "broadcast_details", ofBatch batchId r = false := by
    rw [hother _ (by decide)]
    exact h.noDetail
  have hnone : NoDetail (db₁.rows "broadcast_details") batchId (articles.filterMap articleId) :=
    fun r hr u _ => by rw [ofArticle, hno r hr, Bool.false_and]
  have hthere : ∃ b ∈ db₁.rows "broadcast_batches", b.get "batch_id" = .text batchId := by
    rw [hrows]
    exact ⟨r, List.mem_append_right _ (List.mem_singleton_self r), hbatch.batch⟩
  refine ⟨db₁, r, hcreate, hrows, hbatch, fun hstored => ?_, fun hmissing => ⟨fun db' hw => ?_, ?_⟩⟩
  · obtain ⟨db', hw⟩ := (Appended.nil batchId (top10Rank top10) db₁).accepted hdetails hnone hn hthere
      (by rw [hother _ (by decide)]; exact hstored) now
    obtain ⟨hlisted, hpending, hrest⟩ := listed_of_written hdetails hno hn htop hnamed hsub hw
    exact ⟨db', hw, hrest _ (by decide), hlisted, hpending⟩
  · obtain ⟨new, happ⟩ := (Appended.nil batchId (top10Rank top10) db₁).insertAll hdetails hnone hn hw
    refine hmissing fun u hu => ?_
    rw [← hother "scraped_articles" (by decide)]
    exact happ.parents u hu
  · have hold : (db₁.rows "broadcast_details").filter (ofBatch batchId) = [] := by
      rw [List.filter_eq_nil_iff]
      exact fun r hr => Bool.eq_false_iff.1 (hno r hr)
    rw [getBatchArticles, readDetails, hold]
    rfl

end Broadcast
