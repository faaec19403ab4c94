import AnythingTools.Broadcast.Writer
import AnythingTools.Sync.CascadeFrame
import AnythingTools.Sync.PushOutcome

namespace Sync
open Relational Relational.Database Schemas
set_option autoImplicit true

/-- The cloud has every row of the backed-up tables, with the same values. -/
def Mirrored (db cloud : Database) : Prop :=
  ∀ t ∈ persistedTables, ∀ T, db.find t = some T → ∀ r ∈ T.rows,
    ∃ q ∈ cloud.rows t, Row.Agree T.schema.names r q

theorem arrives_congr (h : find cloud' t = find cloud t) :
    Arrives engine cloud' t T pkCols hashed r ↔ Arrives engine cloud t T pkCols hashed r := by
  have hrows : cloud'.rows t = cloud.rows t := by rw [Database.rows, Database.rows, h]
  have hid (r : Row) : pushId engine cloud' t pkCols hashed r =
      pushId engine cloud t pkCols hashed r := by
    rw [pushId, pushId, diffable, diffable, h, hrows]
  simp only [Arrives, Selected, hid, hrows]

theorem find_pushTables_ne {ts : List String}
    (h : pushTables engine settings reads ts cloud = .ok cloud') (ht : t ∉ ts) :
    cloud'.find t = cloud.find t := by
  induction ts generalizing cloud with
  | nil =>
    rw [pushTables] at h
    split at h
    · cases h
    · cases h
      rfl
  | cons u ts ih =>
    rw [List.mem_cons, not_or] at ht
    obtain ⟨cloud₁, h₁, h⟩ := bind_ok h
    rw [ih h ht.2, find_pushTable_ne h₁ ht.1]

/-- A push over several tables does for each what a push of it alone would. -/
theorem held_pushTables {ts : List String} {T : Table}
    (h : pushTables engine settings (fun _ => .still db) ts cloud = .ok cloud') (hn : ts.Nodup)
    (ht : t ∈ ts) (hd : detectPkColumns db t = (pkCols, hashed)) (hT : db.find t = some T)
    (hK : KeyedTable T) (hr : r ∈ T.rows) :
    (∃ q ∈ cloud'.rows t, Row.Agree T.schema.names r q) ↔
      Arrives engine cloud t T pkCols hashed r := by
  induction ts generalizing cloud with
  | nil => cases ht
  | cons u ts ih =>
    rw [List.nodup_cons] at hn
    obtain ⟨cloud₁, h₁, h₂⟩ := bind_ok h
    rcases List.mem_cons.1 ht with he | hm
    · subst he
      rw [← held_pushTable h₁ hd hT hK hr, Database.rows, find_pushTables_ne h₂ hn.1,
        Database.rows]
    · rw [ih h₂ hn.2 hm, arrives_congr]
      apply find_pushTable_ne h₁
      intro he
      exact hn.1 (he ▸ hm)

/-- The registry names the tables apart, and gives the backed-up ones a key of their own. -/
def backedUp (tables : List (String × TableDdl)) (t : String) : Bool :=
  match tables.lookup t with
  | none => false
  | some d => !isVirtual d && decide (d.schema.primaryKey ≠ []) &&
      decide ("embedding" ∉ d.schema.primaryKey)

theorem persisted_backedUp (e : Env) : persistedTables.all (backedUp e.tables) = true := by
  rw [Env.tables]
  cases e.sqliteVecAvailable <;> decide

theorem pushedTables_nodup (e : Env) : (pushedTables e.tables).Nodup := by
  rw [Env.tables]
  cases e.sqliteVecAvailable <;> decide

theorem mem_of_lookup {l : List (String × α)} (h : l.lookup a = some b) : (a, b) ∈ l := by
  obtain ⟨l₁, l₂, he, _⟩ := List.lookup_eq_some_iff.1 h
  rw [he]
  simp

theorem backedUp_cases {tables : List (String × TableDdl)} (h : backedUp tables t = true) :
    ∃ d, (t, d) ∈ tables ∧ isVirtual d = false ∧ d.schema.primaryKey ≠ [] ∧
      "embedding" ∉ d.schema.primaryKey := by
  rw [backedUp] at h
  cases hd : tables.lookup t with
  | none =>
    rw [hd] at h
    cases h
  | some d =>
    rw [hd] at h
    simp only [Bool.and_eq_true, Bool.not_eq_true', decide_eq_true_eq] at h
    exact ⟨d, mem_of_lookup hd, h.1.1, h.1.2, h.2⟩

theorem mem_pushedTables (e : Env) (ht : t ∈ persistedTables) : t ∈ pushedTables e.tables := by
  obtain ⟨d, hm, hv, _⟩ := backedUp_cases (List.all_eq_true.1 (persisted_backedUp e) t ht)
  apply List.mem_map.2
  exact ⟨(t, d), List.mem_filter.2 ⟨hm, by rw [hv]; rfl⟩, rfl⟩

theorem LocalDb.keyedTable {e : Env} (l : LocalDb e.tables) (ht : t ∈ persistedTables)
    (hT : l.db.find t = some T) : KeyedTable T := by
  obtain ⟨d, hm, hv, hpk, hemb⟩ :=
    backedUp_cases (List.all_eq_true.1 (persisted_backedUp e) t ht)
  obtain ⟨T', hT', hs⟩ := l.schemas (t, d) hm hv
  rw [hT, Option.some.injEq] at hT'
  subst hT'
  rw [← hs] at hpk hemb
  exact ⟨hpk, hemb, l.keyed t T hT⟩

/-- The row comes to the cloud, or is there already: without a cloud nothing comes. -/
def Reaches (engine : CloudEngine) (db cloud : Database) (t : String) (T : Table) (r : Row) :
    Prop :=
  if engine.enabled = true then
    Arrives engine cloud t T (detectPkColumns db t).1 (detectPkColumns db t).2 r
  else ∃ q ∈ cloud.rows t, Row.Agree T.schema.names r q

/-- A push that raises nothing leaves the cloud with every backed-up row exactly when each row
reaches it: the diff of keys and hashes has to see what changed. -/
theorem mirrored_iff {e : Env} (l : LocalDb e.tables)
    (h : syncData engine settings e.tables (fun _ => .still l.db) cloud = .ok cloud') :
    Mirrored l.db cloud' ↔
      ∀ t ∈ persistedTables, ∀ T, l.db.find t = some T → ∀ r ∈ T.rows,
        Reaches engine l.db cloud t T r := by
  apply forall_congr'
  intro t
  apply forall_congr'
  intro ht
  apply forall_congr'
  intro T
  apply forall_congr'
  intro hT
  apply forall_congr'
  intro r
  apply forall_congr'
  intro hr
  rw [Reaches]
  rw [syncData] at h
  split at h
  next he =>
    rw [if_pos he]
    exact held_pushTables h (pushedTables_nodup e) (mem_pushedTables e ht) rfl hT
      (l.keyedTable ht hT) hr
  next he =>
    cases h
    rw [if_neg he]

theorem pushId_unhashed (hr : r.get "content_hash" = .text "")
    (hc : AllRows cloud t fun q => q.get "content_hash" = .text "") (hq : q ∈ cloud.rows t)
    (hj : joinsManifest pkCols (manifestRow pkCols true r) q = true)
    (hd : diffable cloud t pkCols true = true) (hf : engine.fails (.diff t) = false) :
    pushId engine cloud t pkCols true r = none := by
  have hne : (cloud.rows t).filter (joinsManifest pkCols (manifestRow pkCols true r)) ≠ [] :=
    List.ne_nil_of_mem (List.mem_filter.2 ⟨hq, hj⟩)
  have hsame : ((cloud.rows t).filter (joinsManifest pkCols (manifestRow pkCols true r))).any
      (hashDiffers true (manifestRow pkCols true r)) = false := by
    rw [List.any_eq_false]
    intro q' hq'
    have hh := hc q' (List.mem_filter.1 hq').1
    simp [hashDiffers, manifestRow, hr, hh, strOrNull, coalesceStr]
  rw [pushId, if_pos ⟨hd, hf⟩, if_neg]
  intro h
  rcases h.2 with h | h
  · exact hne h
  · rw [hsame] at h
    cases h

/-- Whatever the broadcast module writes, the periodic push never sends a detail whose key the
cloud has, so that a dropped change of its status stays unnoticed. -/
theorem detail_not_pushed (evs : List Broadcast.Event) (hu : Broadcast.Unhashed s.db)
    (hc : Broadcast.UnhashedCloud s.cloud)
    (hr : r ∈ (Broadcast.run engine s evs).db.rows "broadcast_details")
    (hq : q ∈ (Broadcast.run engine s evs).cloud.rows "broadcast_details")
    (hj : joinsManifest pkCols (manifestRow pkCols true r) q = true)
    (hd : diffable (Broadcast.run engine s evs).cloud "broadcast_details" pkCols true = true)
    (hf : engine.fails (.diff "broadcast_details") = false) :
    pushId engine (Broadcast.run engine s evs).cloud "broadcast_details" pkCols true r = none := by
  obtain ⟨hdb, hcloud⟩ := Broadcast.unhashed_run engine evs hu hc
  exact pushId_unhashed (hdb.rows r hr) hcloud.rows hq hj hd hf

/-- The local tables are as the registry declares them, and their rows apart. -/
def localCheck (tables : List (String × TableDdl)) (db : Database) : Bool :=
  (tables.all fun p => isVirtual p.2 ||
    ((db.find p.1).map Table.schema == some p.2.schema)) &&
  db.tables.entries.all fun e =>
    decide (e.2.rows.Pairwise fun r r' => ¬ e.2.schema.conflicts r r' = true)

def LocalDb.ofCheck {tables : List (String × TableDdl)} (db : Database)
    (h : localCheck tables db = true) : LocalDb tables where
  db := db
  schemas p hp hv := by
    rw [localCheck, Bool.and_eq_true, List.all_eq_true] at h
    have hs := h.1 p hp
    rw [hv, Bool.false_or, beq_iff_eq, Option.map_eq_some_iff] at hs
    exact hs
  keyed t T hT := by
    rw [localCheck, Bool.and_eq_true, List.all_eq_true, List.all_eq_true] at h
    have hk := h.2 _ (AList.mem_lookup_iff.1 hT)
    simpa only [decide_eq_true_eq] using hk

/-- A push that raises nothing makes good what the inline writes missed. -/
def SafetyNet (engine : CloudEngine) (settings : SyncSettings) (e : Env) (s : Broadcast.Sides) :
    Prop :=
  ∀ cloud', syncData engine settings e.tables (fun _ => .still s.db) s.cloud = .ok cloud' →
    Mirrored s.db cloud'

def exampleEngine : CloudEngine where
  now := "2024-05-02 00:00:00"

def batchRow (batchId : String) : Row :=
  broadcastBatches.schema.coerce "2024-05-01 00:00:00"
    [("batch_id", .text batchId), ("target_site", .text "site")]

def articleRow (id : String) : Row :=
  scrapedArticles.schema.coerce "2024-05-01 00:00:00"
    [("id", .text id), ("vec_rowid", .int 1), ("url", .text id), ("content_hash", .text "h")]

/-- A batch and an article that the cloud has too. -/
def beforePublishing : Broadcast.Sides where
  db := operationalDb [("scraped_articles", [articleRow "a1"]),
    ("broadcast_batches", [batchRow "b1"])]
  cloud := cloudOf [("scraped_articles", [articleRow "a1"]),
    ("broadcast_batches", [batchRow "b1"])]

/-- The detail comes to the cloud, its publication does not. -/
def publishing : List Broadcast.Event :=
  [⟨.addDetailsBulk "b1" [{ ulid := some "a1" }] [], "2024-05-01T09:00:00+00:00", true⟩,
    ⟨.updateDetailPublishStatus "b1" "a1" "PUBLISHED_ARCHIVE" none, "2024-05-01T10:00:00+00:00",
      false⟩]

def published : Broadcast.Sides := Broadcast.run exampleEngine beforePublishing publishing

theorem push_published : syncData exampleEngine {} exampleEnv.tables (fun _ => .still published.db)
    published.cloud = .ok published.cloud := by
  rfl

instance : Decidable (Mirrored db cloud) :=
  decidable_of_iff (∀ t ∈ persistedTables, ∀ T ∈ db.find t, ∀ r ∈ T.rows,
    ∃ q ∈ cloud.rows t, Row.Agree T.schema.names r q) Iff.rfl

/-- The hash of the detail is empty before and after, so the push takes it for unchanged. -/
theorem publishing_missed : ¬ SafetyNet exampleEngine {} exampleEnv published := by
  intro h
  have hm := h published.cloud push_published
  revert hm
  decide +kernel

def publishedDb : LocalDb exampleEnv.tables := .ofCheck published.db (by decide +kernel)

theorem mirrored_published : Mirrored publishedDb.db published.cloud ↔
    ∀ t ∈ persistedTables, ∀ T, publishedDb.db.find t = some T → ∀ r ∈ T.rows,
      Reaches exampleEngine publishedDb.db published.cloud t T r :=
  mirrored_iff publishedDb push_published

end Sync
