import AnythingTools.Scraper.Task

namespace Scraper
open Relational Relational.Database Sync Articles JobItems
set_option autoImplicit true

/-- A write about the item of a link, which does not complete it, or about the job. -/
inductive Plain (jobId link : String) : Write → Prop where
  | item (hm : itemKey m = (.text "scrape", .text link)) (hs : status ≠ .completed) :
      Plain jobId link (.item (.update jobId m status info now))
  | job : Plain jobId link (.job status)

/-- A write about one link; its item is completed only together with its article. -/
inductive About (jobId link : String) : Write → Prop where
  | plain (h : Plain jobId link w) : About jobId link w
  | article (hm : itemKey m = (.text "scrape", .text link)) (hu : u.url = .text link) :
      About jobId link (.article now u (.update jobId m .completed info now'))

/-- A write about another link, or one that at most adds an item. -/
def Foreign (jobId link : String) (w : Write) : Prop :=
  (∃ link', link' ≠ link ∧ About jobId link' w) ∨ ∃ m now, w = .item (.add jobId m now)

theorem stored_iff {db : Db} : db.stored link = true ↔
    ∃ r ∈ db.store.db.rows "scraped_articles", r.get "url" = .text link := by
  rw [Db.stored, List.any_eq_true]
  simp only [decide_eq_true_eq]
  exact Iff.rfl

/-- A transaction of an article is refused, or goes through. -/
theorem commit_article (e : Env) (db : Db) (now : String) (u : Upsert)
    (completed : ItemWrite LocalMeta) :
    db.commit e (.article now u completed) = db ∨
      ∃ store, (u.statements e).foldlM (Store.exec now) db.store = .ok store ∧
        db.commit e (.article now u completed) =
          { db with items := JobItems.commit db.items completed, store } := by
  rw [Db.commit]
  split
  next store h => exact .inr ⟨store, h, rfl⟩
  next => exact .inl rfl

theorem shelf_commit (e : Env) {db : Db} (hS : Shelf db.store.db) (w : Write) :
    Shelf (db.commit e w).store.db := by
  cases w with
  | item w => exact hS
  | job status => exact hS
  | article now u completed =>
    rcases commit_article e db now u completed with h | ⟨store, hok, h⟩
    · rw [h]
      exact hS
    · rw [h]
      exact shelf_statements hS e u hok

theorem shelf_commitAll (e : Env) {db : Db} (hS : Shelf db.store.db) (ws : List Write) :
    Shelf (db.commitAll e ws).store.db := by
  induction ws generalizing db with
  | nil => exact hS
  | cons w ws ih => exact ih (shelf_commit e hS w)

theorem commitAll_append (e : Env) (db : Db) (ws ws' : List Write) :
    db.commitAll e (ws ++ ws') = (db.commitAll e ws).commitAll e ws' := List.foldl_append

section
variable {jobId link link' : String} {w : Write} {ws : List Write}

theorem item_about (e : Env) (db : Db) (h : About jobId link' w) (hne : link ≠ link') :
    (db.commit e w).item jobId link = db.item jobId link := by
  have hother : ¬ (jobId = jobId ∧ "scrape" = "scrape" ∧ link = link') := fun h => hne h.2.2
  cases h with
  | plain h =>
    cases h with
    | item hm hs => exact itemRow_update_ne db.items _ _ _ hm hother
    | job => rfl
  | article hm hu =>
    rcases commit_article e db _ _ _ with h | ⟨store, _, h⟩
    · rw [h]
    · rw [h]
      exact itemRow_update_ne db.items _ _ _ hm hother

theorem store_plain (e : Env) {db : Db} (h : Plain jobId link' w) :
    (db.commit e w).store = db.store := by
  cases h with
  | item hm hs => rfl
  | job => rfl

theorem stored_about (e : Env) {db : Db} (hS : Shelf db.store.db) (h : About jobId link' w)
    (hne : link ≠ link') : (db.commit e w).stored link = db.stored link := by
  cases h with
  | plain h => rw [Db.stored, Db.stored, Db.articles, Db.articles, store_plain e h]
  | article hm hu =>
    rcases commit_article e db _ _ _ with h | ⟨store, hok, h⟩
    · rw [h]
    · rw [h, Bool.eq_iff_iff, stored_iff, stored_iff]
      refine url_statements hS e ?_ hok
      rw [hu]
      exact fun he => hne (Value.text.inj he)

/-- Writes about other links leave what is known of a link. -/
theorem known_foreign (e : Env) {db : Db} (h : ∀ w ∈ ws, Foreign jobId link w) :
    (db.commitAll e ws).known jobId link = db.known jobId link := by
  induction ws generalizing db with
  | nil => rfl
  | cons w ws ih =>
    refine (ih fun w hw => h w (List.mem_cons_of_mem _ hw)).trans ?_
    rcases h w List.mem_cons_self with ⟨link', hne, ha⟩ | ⟨m, now, rfl⟩
    · rw [Db.known, Db.known, item_about e db ha hne.symm]
    · -- An item that is added is pending and has no flags.
      change Db.known { db with items := JobItems.commit db.items (.add jobId m now) } jobId link = _
      rw [Db.known, Db.known, Db.item, Db.item]
      rcases itemRow_add db.items jobId m now jobId "scrape" link with he | ⟨hnone, he⟩
      · rw [he]
      · rw [he, hnone]
        rfl

/-- They do not store it. -/
theorem stored_foreign (e : Env) {db : Db} (hS : Shelf db.store.db)
    (h : ∀ w ∈ ws, Foreign jobId link w) : (db.commitAll e ws).stored link = db.stored link := by
  induction ws generalizing db with
  | nil => rfl
  | cons w ws ih =>
    have hfirst : (db.commit e w).stored link = db.stored link := by
      rcases h w List.mem_cons_self with ⟨link', hne, ha⟩ | ⟨m, now, rfl⟩
      · exact stored_about e hS ha hne.symm
      · rfl
    rw [← hfirst]
    exact ih (shelf_commit e hS w) fun w hw => h w (List.mem_cons_of_mem _ hw)

end

end Scraper
