import AnythingTools.Articles.SearchIndex
import AnythingTools.Ulid

namespace Articles
open Relational Relational.Database Sync Schemas
set_option autoImplicit true

/-- The articles are stored as their table declares them, and no two have one key. -/
structure Rowed (db : Database) : Prop where
  stocked : Stocked db
  shaped : ∀ r ∈ db.rows "scraped_articles", r.columns = scrapedArticles.schema.names
  keyed : (db.rows "scraped_articles").Pairwise
    fun r r' => ¬ scrapedArticles.schema.conflicts r r' = true

def vecRowids (db : Database) : List Value :=
  (db.rows "scraped_articles").map fun r => r.get "vec_rowid"

/-- Of the articles after a write, each was there before or is the written one. -/
def Born (db db' : Database) (articleId : String) : Prop :=
  ∀ r ∈ db'.rows "scraped_articles", r.get "id" = .text articleId ∨
    ∃ q ∈ db.rows "scraped_articles", q.get "id" = r.get "id"

/-- A row id that nobody else has stays apart when the write takes it. -/
def Takes (db db' : Database) (v : Value) : Prop :=
  ∀ others, (vecRowids db ++ v :: others).Nodup → (vecRowids db' ++ others).Nodup

theorem Takes.refl (db : Database) (v : Value) : Takes db db v := by
  intro others h
  exact h.sublist ((List.sublist_cons_self v others).append_left _)

theorem Born.refl (db : Database) (articleId : String) : Born db db articleId :=
  fun r hr => .inr ⟨r, hr, rfl⟩

/-- What leaves keys and row ids leaves the articles apart. -/
theorem keeps_rowed (h : Keeps ("vec_rowid" :: keyColumns) db db') (hs : Stocked db')
    (hr : Rowed db) : Rowed db' ∧ vecRowids db' = vecRowids db ∧
      ∀ r ∈ db'.rows "scraped_articles", ∃ q ∈ db.rows "scraped_articles",
        q.get "id" = r.get "id" := by
  obtain ⟨f, hf, hk⟩ := h
  have hkeys : ∀ r, Row.Agree keyColumns (f r) r :=
    fun r => (hk r).1.subset fun c hc => List.mem_cons_of_mem _ hc
  refine ⟨⟨hs, ?_, ?_⟩, ?_, ?_⟩
  · intro r hm
    rw [hf] at hm
    obtain ⟨q, hq, rfl⟩ := List.mem_map.1 hm
    exact (hk q).2.trans (hr.shaped q hq)
  · rw [hf, List.pairwise_map]
    apply hr.keyed.imp
    intro a b hab
    rw [conflicts_congr hkeys]
    exact hab
  · rw [vecRowids, hf, List.map_map]
    apply List.map_congr_left
    intro r _
    exact (hk r).1 "vec_rowid" (by decide)
  · intro r hm
    rw [hf] at hm
    obtain ⟨q, hq, rfl⟩ := List.mem_map.1 hm
    exact ⟨q, hq, ((hk q).1 "id" (by decide)).symm⟩

/-- The article of the URL gives its row id up for the new one. -/
theorem takes_update {db db' : Database} (hr : Rowed db) (p : Row → Bool) (cells : Row)
    (hrows : db'.rows "scraped_articles" =
      (db.rows "scraped_articles").map fun r => if p r then r.assign cells else r)
    (hcell : ∀ r ∈ db.rows "scraped_articles", (r.assign cells).get "vec_rowid" = v)
    (hsame : ∀ r r', p r = true → p r' = true →
      scrapedArticles.schema.conflicts r r' = true) : Takes db db' v := by
  intro others h
  rw [List.nodup_append, vecRowids, List.nodup_cons] at h
  obtain ⟨hold, hothers, hdisjoint⟩ := h
  rw [List.Nodup, List.pairwise_map] at hold
  have hne : ∀ r ∈ db.rows "scraped_articles", r.get "vec_rowid" ≠ v :=
    fun r hm => hdisjoint _ (List.mem_map.2 ⟨r, hm, rfl⟩) v List.mem_cons_self
  have hcases : ∀ r ∈ db.rows "scraped_articles",
      (if p r then r.assign cells else r).get "vec_rowid" = if p r then v else r.get "vec_rowid" := by
    intro r hm
    split
    · exact hcell r hm
    · rfl
  rw [List.nodup_append, vecRowids, hrows, List.map_map]
  refine ⟨?_, hothers.2, ?_⟩
  · rw [List.Nodup, List.pairwise_map]
    apply (hold.and hr.keyed).imp_of_mem
    intro a b ha hb hab
    rw [Function.comp_apply, Function.comp_apply, hcases a ha, hcases b hb]
    by_cases hpa : p a = true
    · by_cases hpb : p b = true
      · exact absurd (hsame a b hpa hpb) hab.2
      · rw [if_pos hpa, if_neg hpb]
        exact (hne b hb).symm
    · by_cases hpb : p b = true
      · rw [if_neg hpa, if_pos hpb]
        exact hne a ha
      · rw [if_neg hpa, if_neg hpb]
        exact hab.1
  · intro x hx y hy
    obtain ⟨r, hm, rfl⟩ := List.mem_map.1 hx
    rw [Function.comp_apply, hcases r hm]
    split
    · exact fun he => hothers.1 (he ▸ hy)
    · exact hdisjoint _ (List.mem_map.2 ⟨r, hm, rfl⟩) y (List.mem_cons_of_mem _ hy)

theorem takes_append {db db' : Database} (row : Row)
    (hrows : db'.rows "scraped_articles" = db.rows "scraped_articles" ++ [row]) :
    Takes db db' (row.get "vec_rowid") := by
  intro others h
  rw [vecRowids, hrows, List.map_append, List.map_singleton, List.append_assoc,
    List.singleton_append]
  exact h

/-- The first statement of a write. -/
theorem upsert_rowed {s : Store} (hr : Rowed s.db) (h : s.upsert now row = .ok s') :
    Rowed s'.db ∧ Takes s.db s'.db ((candidate now row).get "vec_rowid") ∧
      ∀ r ∈ s'.db.rows "scraped_articles", r.get "id" = (candidate now row).get "id" ∨
        ∃ q ∈ s.db.rows "scraped_articles", q.get "id" = r.get "id" := by
  obtain ⟨T, hT, hSchema⟩ := hr.stocked
  have hrows : s.db.rows "scraped_articles" = T.rows := rows_of_find hT
  rw [Store.upsert, hT] at h
  dsimp only at h
  split at h
  · cases h
  · split at h
    next hany =>
      -- the URL is there
      have hdb := update_ok h
      have hmap := rows_update hdb
      have hspares := spares_upsert (candidate now row)
      have hcell : ∀ r ∈ s.db.rows "scraped_articles",
          (r.assign (Row.build upsertColumns (candidate now row).get)).get "vec_rowid" =
            (candidate now row).get "vec_rowid" := by
        intro r hm
        rw [Row.get_assign_build r _ _ (by rw [hr.shaped r hm]; decide), if_pos (by decide)]
      have hsame : ∀ r r', Row.sameKey ["url"] (candidate now row) r = true →
          Row.sameKey ["url"] (candidate now row) r' = true →
            scrapedArticles.schema.conflicts r r' = true := by
        intro r r' hk hk'
        refine Schema.conflicts_iff.2 ⟨["url"], by decide, ?_⟩
        exact Row.sameKey_trans (Row.sameKey_symm hk) hk'
      have hkeep : Keeps keyColumns s.db s'.db := keeps_update hspares hdb
      obtain ⟨f, hf, hk⟩ := hkeep
      refine ⟨⟨stocked_update hdb hr.stocked, ?_, ?_⟩,
        takes_update hr _ _ hmap hcell hsame, ?_⟩
      · intro r hm
        rw [hf] at hm
        obtain ⟨q, hq, rfl⟩ := List.mem_map.1 hm
        exact (hk q).2.trans (hr.shaped q hq)
      · rw [hf, List.pairwise_map]
        apply hr.keyed.imp
        intro a b hab
        rw [conflicts_congr fun r => (hk r).1]
        exact hab
      · intro r hm
        rw [hf] at hm
        obtain ⟨q, hq, rfl⟩ := List.mem_map.1 hm
        exact .inr ⟨q, hq, ((hk q).1 "id" (by decide)).symm⟩
    next hany =>
      split at h
      · cases h
      next hfree =>
        cases h
        have happend := rows_append hr.stocked (candidate now row)
        have hstocked : Stocked (s.db.append "scraped_articles" (candidate now row)) :=
          stocked_of_same (sameSchemas_append _ _ _) hr.stocked
        generalize s.db.append "scraped_articles" (candidate now row) = db at happend hstocked ⊢
        have hrows' : (afterInsert { s with db } (candidate now row)).db.rows "scraped_articles" =
            s.db.rows "scraped_articles" ++ [candidate now row] := happend
        refine ⟨⟨hstocked, ?_, ?_⟩, takes_append _ hrows', ?_⟩
        · intro r hm
          rw [hrows'] at hm
          rcases List.mem_append.1 hm with hm | hm
          · exact hr.shaped r hm
          · rw [List.mem_singleton.1 hm, candidate, Schema.fill, Row.columns_build]
        · rw [hrows', List.pairwise_append]
          refine ⟨hr.keyed, List.pairwise_singleton _ _, ?_⟩
          intro r hm r' hm' hc
          rw [List.mem_singleton.1 hm', Schema.conflicts_comm] at hc
          apply hfree
          refine List.any_eq_true.2 ⟨r, hrows ▸ hm, ?_⟩
          rw [hSchema]
          exact hc
        · intro r hm
          rw [hrows'] at hm
          rcases List.mem_append.1 hm with hm | hm
          · exact .inr ⟨r, hm, rfl⟩
          · rw [List.mem_singleton.1 hm]
            exact .inl rfl

/-- A write of an article, committed or refused. -/
theorem commit_rowed {s : Store} (hr : Rowed s.db) (now : String) (e : Env) (u : Upsert) :
    Rowed (s.commit now (u.statements e)).db ∧
      Takes s.db (s.commit now (u.statements e)).db u.vecRowid ∧
      Born s.db (s.commit now (u.statements e)).db u.articleId := by
  apply commit_inv (fun s' => Rowed s'.db ∧ Takes s.db s'.db u.vecRowid ∧
    Born s.db s'.db u.articleId) ⟨hr, .refl _ _, .refl _ _⟩
  intro s' h
  rw [u.statements_cons e] at h
  obtain ⟨s₁, hup, hrest⟩ := foldlM_cons_ok h
  obtain ⟨hr₁, htakes, hborn⟩ := upsert_rowed hr hup
  obtain ⟨hkeep, hs'⟩ := foldlM_keeps hr₁.stocked (u.harmless_tail e) hrest
  obtain ⟨hr', hids, hfrom⟩ := keeps_rowed hkeep hs' hr₁
  refine ⟨hr', ?_, ?_⟩
  · intro others hn
    rw [hids]
    exact htakes others hn
  · intro r hm
    obtain ⟨q, hq, he⟩ := hfrom r hm
    rw [← he]
    exact hborn q hq

/-- `_ensure_unique_vec_rowid` against the committed rows; the random fallbacks are given, and those
that are drawn are all of them. `none` inside is the `RuntimeError`. -/
def ensureUniqueVecRowid (rows : List Row) (articleId : String) :
    Nat → Int → List Int → Option (Option Int)
  | 0, _, draws => if draws = [] then some none else none
  | attempts + 1, current, draws =>
    match rows.find? fun r => decide (r.get "vec_rowid" = .int current) with
    | none => if draws = [] then some (some current) else none
    | some r =>
      if r.get "id" = .text articleId then
        if draws = [] then some (some current) else none
      else
        match draws with
        | [] => none
        | d :: ds => ensureUniqueVecRowid rows articleId attempts d ds

/-- A row id that passes is one of the candidates, and no row of another article has it. -/
theorem ensure_some {rows : List Row}
    (h : ensureUniqueVecRowid rows articleId n current draws = some (some v)) :
    v ∈ current :: draws ∧ ∀ r ∈ rows, r.get "vec_rowid" = .int v →
      ∃ q ∈ rows, q.get "id" = .text articleId := by
  induction n generalizing current draws with
  | zero =>
    unfold ensureUniqueVecRowid at h
    split at h <;> cases h
  | succ n ih =>
    unfold ensureUniqueVecRowid at h
    split at h
    next hf =>
      split at h
      · cases h
        refine ⟨List.mem_cons_self, ?_⟩
        intro r hr hv
        exact absurd (decide_eq_true hv) (List.find?_eq_none.1 hf r hr)
      · cases h
    next q hf =>
      split at h
      next hid =>
        split at h
        · cases h
          exact ⟨List.mem_cons_self, fun _ _ _ => ⟨q, List.mem_of_find?_eq_some hf, hid⟩⟩
        · cases h
      next =>
        split at h
        · cases h
        next d ds =>
          obtain ⟨hv, hrows⟩ := ih h
          exact ⟨List.mem_cons_of_mem _ hv, hrows⟩

/-- An article on its way to the queue, and how often its row id was checked. -/
structure Writing where
  upsert : Upsert
  checks : Nat
deriving DecidableEq, Repr

/-- The row id has passed both checks. -/
def Writing.ready (w : Writing) : Bool := decide (w.checks = 2)

def Writing.candidate (w : Writing) : Int := w.upsert.info.vecRowid.getD 0

def Writing.checked (w : Writing) (v : Int) : Writing where
  upsert := { w.upsert with info := { w.upsert.info with vecRowid := some v } }
  checks := w.checks + 1

/-- The generator of ids, the database, the articles on their way, and the queue of the writer. -/
structure WriteState where
  generator : Ulid.Generator := {}
  store : Store
  parsed : List Writing := []
  queue : List Upsert := []

inductive WriteStep where
  | parse (x : Ulid.Reading) (texts : List (String × Option String))
      (embedding : Option (List UInt8)) (now later : String)
  | check (w : Writing) (draws : List Int)
  | enqueue (w : Writing)
  | write (now : String)
deriving DecidableEq, Repr

namespace WriteState

def rows (s : WriteState) : List Row := s.store.db.rows "scraped_articles"

def pendingIds (s : WriteState) : List String :=
  s.parsed.map (fun w => w.upsert.articleId) ++ s.queue.map fun u => u.articleId

/-- The ULID is nobody's. -/
def Unused (s : WriteState) (ulid : String) : Prop :=
  ulid ∉ s.pendingIds ∧ ∀ r ∈ s.rows, r.get "id" ≠ .text ulid

instance (s : WriteState) (ulid : String) : Decidable (s.Unused ulid) :=
  inferInstanceAs (Decidable (_ ∧ _))

/-- The writes that have passed both checks and are not committed. -/
def uncommitted (s : WriteState) : List Upsert :=
  (s.parsed.filter Writing.ready).map (fun w => w.upsert) ++ s.queue

end WriteState

/-- The row id is checked by `enqueue_article_write` and again by `upsert_article`; the writer commits
one transaction at a time. -/
def writeStep (e : Env) (s : WriteState) : WriteStep → Option WriteState
  | .parse x texts embedding now later =>
    let g := s.generator.generate x
    let info : Meta := ⟨texts, some (Ulid.parsedId g.ulid)⟩
    if s.Unused g.ulid then
      some { s with generator := g,
                    parsed := s.parsed ++ [⟨⟨g.ulid, info, embedding, now, later⟩, 0⟩] }
    else none
  | .check w draws =>
    if w ∈ s.parsed ∧ w.checks < 2 then
      match ensureUniqueVecRowid s.rows w.upsert.articleId 10 w.candidate draws with
      | none => none
      | some none => some { s with parsed := s.parsed.erase w }
      | some (some v) => some { s with parsed := s.parsed.erase w ++ [w.checked v] }
    else none
  | .enqueue w =>
    if w ∈ s.parsed ∧ w.checks = 2 then
      some { s with parsed := s.parsed.erase w, queue := s.queue ++ [w.upsert] }
    else none
  | .write now =>
    match s.queue with
    | [] => none
    | u :: queue => some { s with store := s.store.commit now (u.statements e), queue }

/-- The last check of a row id has no candidate that an uncommitted write holds. -/
def Unclaimed (s : WriteState) : WriteStep → Prop
  | .check w draws => w.checks = 1 →
      ∀ c ∈ w.candidate :: draws, ∀ u ∈ s.uncommitted, u.vecRowid ≠ .int c
  | _ => True

/-- No two articles have one row id. -/
def Apart (s : WriteState) : Prop :=
  s.rows.Pairwise fun r r' => r.get "vec_rowid" ≠ r'.get "vec_rowid"

structure Separate (s : WriteState) : Prop where
  rowed : Rowed s.store.db
  apart : (vecRowids s.store.db ++ s.uncommitted.map Upsert.vecRowid).Nodup
  pending : s.pendingIds.Nodup
  unborn : ∀ w ∈ s.parsed, ∀ r ∈ s.rows, r.get "id" ≠ .text w.upsert.articleId

/-- The articles on their way, with the one that is looked at in front. -/
theorem perm_parsed {s : WriteState} (hw : w ∈ s.parsed) :
    s.parsed.Perm (w :: s.parsed.erase w) := List.perm_cons_erase hw

theorem pendingIds_erase {s : WriteState} (hw : w ∈ s.parsed) :
    s.pendingIds.Perm (w.upsert.articleId :: { s with parsed := s.parsed.erase w }.pendingIds) := by
  have hmap := (perm_parsed hw).map fun w => w.upsert.articleId
  exact hmap.append_right _

theorem uncommitted_erase {s : WriteState} (hw : w ∈ s.parsed) :
    s.uncommitted.Perm ((if w.checks = 2 then [w.upsert] else []) ++
      { s with parsed := s.parsed.erase w }.uncommitted) := by
  have hfilter := (((perm_parsed hw).filter Writing.ready).map fun w => w.upsert).append_right s.queue
  by_cases hc : w.checks = 2
  · have hready : w.ready = true := decide_eq_true hc
    rw [List.filter_cons_of_pos hready, List.map_cons, List.cons_append] at hfilter
    rw [if_pos hc]
    exact hfilter
  · have hready : ¬ w.ready = true := fun h => hc (of_decide_eq_true h)
    rw [List.filter_cons_of_neg hready] at hfilter
    rw [if_neg hc]
    exact hfilter

theorem separate_parse {s : WriteState} (hs : Separate s) (hfresh : s.Unused u.articleId)
    (g : Ulid.Generator) :
    Separate { s with generator := g, parsed := s.parsed ++ [⟨u, 0⟩] } := by
  have hids : (WriteState.pendingIds { s with generator := g, parsed := s.parsed ++ [⟨u, 0⟩] }).Perm
      (u.articleId :: s.pendingIds) := by
    rw [WriteState.pendingIds, List.map_append, List.map_singleton, List.append_assoc,
      List.singleton_append]
    exact List.perm_middle
  have hkept : WriteState.uncommitted { s with generator := g, parsed := s.parsed ++ [⟨u, 0⟩] } =
      s.uncommitted := by
    have hready : ¬ Writing.ready ⟨u, 0⟩ = true := by
      intro h
      have hzero : 0 = 2 := of_decide_eq_true h
      cases hzero
    rw [WriteState.uncommitted, List.filter_append, List.filter_cons_of_neg hready,
      List.filter_nil, List.append_nil]
    rfl
  refine ⟨hs.rowed, ?_, ?_, ?_⟩
  · rw [hkept]
    exact hs.apart
  · rw [hids.nodup_iff, List.nodup_cons]
    exact ⟨hfresh.1, hs.pending⟩
  · intro w hw
    rcases List.mem_append.1 hw with hw | hw
    · exact hs.unborn w hw
    · rw [List.mem_singleton.1 hw]
      exact hfresh.2

/-- A write that fails is forgotten. -/
theorem separate_erase {s : WriteState} (hs : Separate s) (hw : w ∈ s.parsed) :
    Separate { s with parsed := s.parsed.erase w } := by
  have hkept := (uncommitted_erase hw).map Upsert.vecRowid
  rw [List.map_append] at hkept
  refine ⟨hs.rowed, ?_, ?_, ?_⟩
  · have hall := ((hkept.append_left (vecRowids s.store.db)).nodup_iff).1 hs.apart
    exact hall.sublist ((List.sublist_append_right _ _).append_left _)
  · exact (((pendingIds_erase hw).nodup_iff).1 hs.pending).of_cons
  · exact fun w' hw' => hs.unborn w' (List.mem_of_mem_erase hw')

theorem separate_check {s : WriteState} (hs : Separate s) (hw : w ∈ s.parsed)
    (hchecks : w.checks < 2)
    (hfree : w.checks = 1 → Value.int v ∉ vecRowids s.store.db ∧
      ∀ u ∈ s.uncommitted, u.vecRowid ≠ .int v) :
    Separate { s with parsed := s.parsed.erase w ++ [w.checked v] } := by
  have herase := separate_erase hs hw
  have hnot : ¬ w.checks = 2 := by omega
  have hbefore := uncommitted_erase hw
  rw [if_neg hnot, List.nil_append] at hbefore
  have hids : (WriteState.pendingIds { s with parsed := s.parsed.erase w ++ [w.checked v] }).Perm
      s.pendingIds := by
    refine List.Perm.trans ?_ (pendingIds_erase hw).symm
    rw [WriteState.pendingIds, List.map_append, List.map_singleton, List.append_assoc,
      List.singleton_append]
    exact List.perm_middle
  refine ⟨hs.rowed, ?_, ?_, ?_⟩
  · by_cases hc : w.checks = 1
    · -- the write joins the uncommitted ones
      obtain ⟨hrows, hothers⟩ := hfree hc
      have hready : (w.checked v).ready = true := decide_eq_true (congrArg (· + 1) hc)
      have hjoin : (WriteState.uncommitted { s with
          parsed := s.parsed.erase w ++ [w.checked v] }).Perm
            ((w.checked v).upsert :: s.uncommitted) := by
        refine List.Perm.trans ?_ (hbefore.symm.cons _)
        rw [WriteState.uncommitted, List.filter_append, List.filter_cons_of_pos hready,
          List.filter_nil, List.map_append, List.map_singleton, List.append_assoc,
          List.singleton_append]
        exact List.perm_middle
      have hmap := (hjoin.map Upsert.vecRowid).append_left (vecRowids s.store.db)
      rw [List.map_cons] at hmap
      refine (hmap.trans List.perm_middle).nodup_iff.2 (List.nodup_cons.2 ⟨?_, hs.apart⟩)
      intro hm
      have hv : (w.checked v).upsert.vecRowid = .int v := rfl
      rw [hv] at hm
      rcases List.mem_append.1 hm with hm | hm
      · exact hrows hm
      · obtain ⟨u, hu, he⟩ := List.mem_map.1 hm
        exact hothers u hu he
    · have hready : ¬ (w.checked v).ready = true :=
        fun h => hc (Nat.succ.inj (of_decide_eq_true h))
      have hkept : WriteState.uncommitted { s with parsed := s.parsed.erase w ++ [w.checked v] } =
          WriteState.uncommitted { s with parsed := s.parsed.erase w } := by
        rw [WriteState.uncommitted, List.filter_append, List.filter_cons_of_neg hready,
          List.filter_nil, List.append_nil]
        rfl
      rw [hkept]
      exact herase.apart
  · exact hids.nodup_iff.2 hs.pending
  · intro w' hw'
    rcases List.mem_append.1 hw' with hw' | hw'
    · exact hs.unborn w' (List.mem_of_mem_erase hw')
    · rw [List.mem_singleton.1 hw']
      exact hs.unborn w hw

theorem separate_enqueue {s : WriteState} (hs : Separate s) (hw : w ∈ s.parsed)
    (hchecks : w.checks = 2) :
    Separate { s with parsed := s.parsed.erase w, queue := s.queue ++ [w.upsert] } := by
  have hbefore := uncommitted_erase hw
  rw [if_pos hchecks] at hbefore
  have hmoved : (WriteState.uncommitted { s with
      parsed := s.parsed.erase w, queue := s.queue ++ [w.upsert] }).Perm s.uncommitted := by
    refine List.Perm.trans ?_ hbefore.symm
    rw [WriteState.uncommitted, ← List.append_assoc]
    exact List.perm_append_singleton _ _
  have hids : (WriteState.pendingIds { s with
      parsed := s.parsed.erase w, queue := s.queue ++ [w.upsert] }).Perm s.pendingIds := by
    refine List.Perm.trans ?_ (pendingIds_erase hw).symm
    rw [WriteState.pendingIds, List.map_append, List.map_singleton, ← List.append_assoc]
    exact List.perm_append_singleton _ _
  refine ⟨hs.rowed, ?_, hids.nodup_iff.2 hs.pending, ?_⟩
  · exact ((hmoved.map Upsert.vecRowid).append_left _).nodup_iff.2 hs.apart
  · exact fun w' hw' => hs.unborn w' (List.mem_of_mem_erase hw')

/-- The writer commits the first write of the queue. -/
theorem separate_write {s : WriteState} (hs : Separate s) (hq : s.queue = u :: queue)
    (now : String) (e : Env) :
    Separate { s with store := s.store.commit now (u.statements e), queue } := by
  obtain ⟨hrowed, htakes, hborn⟩ := commit_rowed hs.rowed now e u
  have hfirst : s.uncommitted.Perm (u :: WriteState.uncommitted { s with queue }) := by
    rw [WriteState.uncommitted, hq]
    exact List.perm_middle
  have hids : s.pendingIds.Perm (u.articleId :: WriteState.pendingIds { s with queue }) := by
    rw [WriteState.pendingIds, hq, List.map_cons]
    exact List.perm_middle
  have hpending := hids.nodup_iff.1 hs.pending
  rw [List.nodup_cons] at hpending
  refine ⟨hrowed, ?_, hpending.2, ?_⟩
  · apply htakes
    have hmap := (hfirst.map Upsert.vecRowid).append_left (vecRowids s.store.db)
    exact hmap.nodup_iff.1 hs.apart
  · intro w hw r hr hid
    rcases hborn r hr with hnew | ⟨q, hqr, hsame⟩
    · have hsame : w.upsert.articleId = u.articleId := Value.text.inj (hid.symm.trans hnew)
      exact hpending.1 (hsame ▸ List.mem_append_left _ (List.mem_map.2 ⟨w, hw, rfl⟩))
    · exact hs.unborn w hw q hqr (hsame.trans hid)

theorem separate_step {s : WriteState} (hcond : Unclaimed s a) (h : writeStep e s a = some s')
    (hs : Separate s) : Separate s' := by
  cases a with
  | parse x texts embedding now later =>
    rw [writeStep] at h
    split at h
    next hfresh =>
      cases h
      exact separate_parse hs hfresh _
    next => cases h
  | check w draws =>
    rw [writeStep] at h
    split at h
    next hw =>
      split at h
      next => cases h
      next =>
        cases h
        exact separate_erase hs hw.1
      next v hensure =>
        cases h
        apply separate_check hs hw.1 hw.2
        intro hc
        obtain ⟨hv, hrows⟩ := ensure_some hensure
        refine ⟨?_, hcond hc v hv⟩
        intro hm
        obtain ⟨r, hr, he⟩ := List.mem_map.1 hm
        obtain ⟨q, hq, hid⟩ := hrows r hr he
        exact hs.unborn w hw.1 q hq hid
    next => cases h
  | enqueue w =>
    rw [writeStep] at h
    split at h
    next hw =>
      cases h
      exact separate_enqueue hs hw.1 hw.2
    next => cases h
  | write now =>
    rw [writeStep] at h
    split at h
    next => cases h
    next u queue hq =>
      cases h
      exact separate_write hs hq now e

/-- In every run whose last checks have no candidate of an uncommitted write, no two articles have
one row id in the state reached. -/
theorem apart_run (hrowed : Rowed s.store.db) (hapart : Apart s) (hidle : s.parsed = [] ∧ s.queue = [])
    (hm : Machine.Meets (writeStep e) Unclaimed s as)
    (hr : Machine.run (writeStep e) s as = some s') : Apart s' := by
  have huncommitted : s.uncommitted = [] := by
    rw [WriteState.uncommitted, hidle.1, hidle.2]
    rfl
  have hstart : Separate s := by
    refine ⟨hrowed, ?_, ?_, ?_⟩
    · rw [huncommitted, List.map_nil, List.append_nil, vecRowids, List.Nodup, List.pairwise_map]
      exact hapart
    · rw [WriteState.pendingIds, hidle.1, hidle.2]
      exact List.nodup_nil
    · rw [hidle.1]
      exact fun w hw => nomatch hw
  have hs := Machine.run_invariant (fun _ _ _ => separate_step) hm hr hstart
  have hrows := hs.apart.of_append_left
  rw [vecRowids, List.Nodup, List.pairwise_map] at hrows
  exact hrows

instance (s : WriteState) : (a : WriteStep) → Decidable (Unclaimed s a)
  | .check w draws => inferInstanceAs (Decidable (w.checks = 1 →
      ∀ c ∈ w.candidate :: draws, ∀ u ∈ s.uncommitted, u.vecRowid ≠ .int c))
  | .parse _ _ _ _ _ => isTrue trivial
  | .enqueue _ => isTrue trivial
  | .write _ => isTrue trivial

/-- Two readings of the generator, five milliseconds apart. -/
def firstReading : Ulid.Reading := ⟨1714557600000, 11, 0⟩

def secondReading : Ulid.Reading := ⟨1714557600005, 12, 0⟩

def parsedAt (g : Ulid.Generator) (url : String) : Writing where
  upsert := {
    articleId := g.ulid
    info := ⟨[("url", some url), ("title", some "Title")], some (Ulid.parsedId g.ulid)⟩
    now := "2024-05-01T10:00:00.100000+00:00"
    later := "2024-05-01T10:00:00.200000+00:00" }
  checks := 0

def parseStep (x : Ulid.Reading) (url : String) : WriteStep :=
  .parse x [("url", some url), ("title", some "Title")] none "2024-05-01T10:00:00.100000+00:00"
    "2024-05-01T10:00:00.200000+00:00"

/-- Both checks and the way to the queue; the first check may need a random row id. -/
def storeSteps (w : Writing) (draws : List Int) : List WriteStep :=
  let v := draws.headD w.candidate
  [.check w draws, .check (w.checked v) [], .enqueue ((w.checked v).checked v)]

def firstGenerator : Ulid.Generator := ({} : Ulid.Generator).generate firstReading

def secondGenerator : Ulid.Generator := firstGenerator.generate secondReading

def firstArticle : Writing := parsedAt firstGenerator "https://example.org/a"

def secondArticle : Writing := parsedAt secondGenerator "https://example.org/b"

def bothParsed : List WriteStep :=
  [parseStep firstReading "https://example.org/a", parseStep secondReading "https://example.org/b"]

/-- The second article is checked before the first is committed. -/
def checkedEarly : List WriteStep :=
  bothParsed ++ storeSteps firstArticle [] ++ storeSteps secondArticle [] ++
    [.write "2024-05-01 10:00:01", .write "2024-05-01 10:00:02"]

/-- The second article is checked after the first is committed, and takes a random row id. -/
def checkedLate : List WriteStep :=
  bothParsed ++ storeSteps firstArticle [] ++ [.write "2024-05-01 10:00:01"] ++
    storeSteps secondArticle [4242] ++ [.write "2024-05-01 10:00:02"]

def bareState : WriteState := { store := bareStore }

def writeEnd (as : List WriteStep) : WriteState :=
  (Machine.run (writeStep hashEnv) bareState as).getD bareState

instance (s : WriteState) : Decidable (Apart s) := inferInstanceAs (Decidable (List.Pairwise _ _))

/-- Two articles of one window get one row id. -/
theorem same_window :
    Machine.run (writeStep hashEnv) bareState checkedEarly = some (writeEnd checkedEarly) ∧
      (writeEnd checkedEarly).rows.map (fun r => r.get "vec_rowid") =
        [.int 3472636327576684616, .int 3472636327576684616] ∧
      ¬ Apart (writeEnd checkedEarly) :=
  ⟨Machine.run_getD (by decide +kernel) bareState, by decide +kernel, by decide +kernel⟩

theorem rowed_bare : Rowed bareStore.db :=
  ⟨kept_bare.stocked, kept_bare.shaped, shelf_bare.keyed⟩

theorem apart_checkedLate : Apart (writeEnd checkedLate) := by
  have hempty : Apart bareState := by decide +kernel
  have hrun : Machine.run (writeStep hashEnv) bareState checkedLate =
      some (writeEnd checkedLate) := Machine.run_getD (by decide +kernel) bareState
  exact apart_run rowed_bare hempty ⟨rfl, rfl⟩ (by decide +kernel) hrun

end Articles
