import AnythingTools.Sync.CompositeKey
import AnythingTools.Sync.OpTransactions

namespace Sync
open Relational Relational.Database Schemas
set_option autoImplicit true

/-- The two ways in which cloud rows reach the operational database. -/
inductive Run where
  | bidirectional (o : SyncOptions)
  | restore (cloudEnabled : Bool)

/-- The tables whose rows refer to another table. -/
def childTables : List String :=
  ["scraped_articles_vec_backup", "broadcast_details", "sn_notes", "sn_note_details",
    "sf_quarterly_facts"]

/-- The tables are copied one after the other, a thousand rows to a transaction. -/
def restoreTransactions (temp : Database) : List (List Stmt) :=
  persistedTables.flatMap fun t =>
    (Python.chunks 1000 (temp.rows t)).map fun chunk => chunk.map (insertOrReplace temp t)

/-- The transactions that a run hands to the writer; a run that raises hands over none. -/
def transactions (e : Env) (db cloud : Database) : Run → List (List Stmt)
  | .bidirectional o =>
    match stagedFor e o cloud with
    | .error _ => []
    | .ok temp =>
      match bidirectionalStatements e o db temp with
      | .error _ => []
      | .ok ops =>
        match ops.mapM id with
        | .error _ => []
        | .ok ss => [ss]
  | .restore cloudEnabled =>
    if cloudEnabled = true then
      match pullToLocal e cloud with
      | .error _ => []
      | .ok temp => restoreTransactions temp
    else []

/-- The statements of a run that the database accepts. -/
def accepted (e : Env) (db cloud : Database) (run : Run) : List Stmt :=
  applied e.now db (transactions e db cloud run)

/-- The database after a run. -/
def afterRun (e : Env) (db cloud : Database) (run : Run) : Database :=
  commitAll e.now db (transactions e db cloud run)

/-- Every child row that no statement of the run deletes or stores is still there. -/
def ChildrenKept (e : Env) (db cloud : Database) (run : Run) : Prop :=
  ∀ t ∈ childTables, ∀ r ∈ db.rows t, ¬ NamedBy e.now db (accepted e db cloud run) t r →
    r ∈ (afterRun e db cloud run).rows t

/-- A bidirectional run restores a staged row in the place of `p`, or deletes `p`. -/
def ReplacedBySync (e : Env) (o : SyncOptions) (db temp : Database) (t : String) (p : Row) :
    Prop :=
  let triad := triadDeltas e db temp
  let strategy := selectStrategy o triad
  strategy ≠ .abort ∧ ∃ d, (t, d) ∈ triad ∧
    ((∃ q, Restored o strategy temp t d q ∧
        strikes e.now db (insertOrReplace temp t q) t p = true) ∨
      ∃ key, Deleted strategy d key ∧ strikes e.now db (.delete t key) t p = true)

/-- The local rows that a run deletes, in terms of the contents of both sides. -/
def Replaced (e : Env) (db cloud : Database) (run : Run) (t : String) (p : Row) : Prop :=
  match run with
  | .bidirectional o =>
    accepted e db cloud run ≠ [] ∧
      ∃ temp, stagedFor e o cloud = .ok temp ∧ ReplacedBySync e o db temp t p
  | .restore cloudEnabled =>
    cloudEnabled = true ∧ ∃ temp, pullToLocal e cloud = .ok temp ∧ t ∈ persistedTables ∧
      ∃ q ∈ temp.rows t, insertOrReplace temp t q ∈ accepted e db cloud run ∧
        strikes e.now db (insertOrReplace temp t q) t p = true

theorem target_of_strikes (h : strikes now db s t p = true) : t = s.target := by
  rw [strikes, Bool.and_eq_true, decide_eq_true_eq] at h
  exact h.1

theorem insertOrReplace_target (temp : Database) (t : String) (q : Row) :
    (insertOrReplace temp t q).target = t := by
  rw [insertOrReplace]
  cases temp.find t <;> rfl

theorem applied_single (now : String) (db : Database) (ss : List Stmt) :
    applied now db [ss] = ss ∨ applied now db [ss] = [] := by
  rw [applied]
  cases db.execAll now ss with
  | ok db' => exact .inl (List.append_nil ss)
  | error e => exact .inr rfl

/-- The statements of a bidirectional run, once something of it has reached the database. -/
theorem accepted_bidirectional (h : accepted e db cloud (.bidirectional o) ≠ []) :
    ∃ temp ops, stagedFor e o cloud = .ok temp ∧ bidirectionalStatements e o db temp = .ok ops ∧
      ∀ s, s ∈ accepted e db cloud (.bidirectional o) ↔ .ok s ∈ ops := by
  rw [accepted, transactions] at h ⊢
  cases ht : stagedFor e o cloud with
  | error err =>
    rw [ht] at h
    exact (h rfl).elim
  | ok temp =>
    simp only [ht] at h ⊢
    cases hb : bidirectionalStatements e o db temp with
    | error err =>
      simp only [hb] at h
      exact (h rfl).elim
    | ok ops =>
      simp only [hb] at h ⊢
      cases hm : ops.mapM id with
      | error err =>
        simp only [hm] at h
        exact (h rfl).elim
      | ok ss =>
        simp only [hm] at h ⊢
        refine ⟨temp, ops, rfl, hb, ?_⟩
        intro s
        rw [(applied_single e.now db ss).resolve_right h, Python.mem_mapM_ok hm]
        simp only [id_eq, exists_eq_right]

theorem mem_restoreTransactions : (∃ ss ∈ restoreTransactions temp, s ∈ ss) ↔
    ∃ t ∈ persistedTables, ∃ q ∈ temp.rows t, s = insertOrReplace temp t q := by
  apply Iff.intro
  · intro ⟨ss, hss, hs⟩
    obtain ⟨t, ht, hss⟩ := List.mem_flatMap.1 hss
    obtain ⟨chunk, hc, he⟩ := List.mem_map.1 hss
    subst he
    obtain ⟨q, hq, he⟩ := List.mem_map.1 hs
    exact ⟨t, ht, q, (Python.mem_chunks (n := 1000) (by decide)).1 ⟨chunk, hc, hq⟩, he.symm⟩
  · intro ⟨t, ht, q, hq, he⟩
    obtain ⟨chunk, hc, hq⟩ := (Python.mem_chunks (n := 1000) (by decide)).2 hq
    exact ⟨_, List.mem_flatMap.2 ⟨t, ht, List.mem_map.2 ⟨chunk, hc, rfl⟩⟩,
      List.mem_map.2 ⟨q, hq, he.symm⟩⟩

/-- The rows that the accepted statements of a run delete. -/
theorem hitRows_accepted (e : Env) (db cloud : Database) (run : Run) (t : String) (p : Row) :
    hitRows e.now db (accepted e db cloud run) t p ↔
      p ∈ db.rows t ∧ Replaced e db cloud run t p := by
  rw [hitRows]
  apply and_congr_right
  intro hp
  cases run with
  | bidirectional o =>
    apply Iff.intro
    · intro ⟨s, hs, hk⟩
      have hne := List.ne_nil_of_mem hs
      obtain ⟨temp, ops, ht, hb, hmem⟩ := accepted_bidirectional hne
      refine ⟨hne, temp, ht, ?_⟩
      have hs' := (hmem s).1 hs
      rw [bidirectionalStatements] at hb
      split at hb
      case isTrue =>
        cases hb
        cases hs'
      case isFalse ha =>
        refine ⟨ha, ?_⟩
        have htarget := target_of_strikes hk
        obtain ⟨⟨u, d⟩, hd, hs'⟩ := (mem_opTransactions hb).1 hs'
        rcases hs' with ⟨q, hq, he⟩ | ⟨key, hkey, he⟩
        · subst he
          rw [insertOrReplace_target] at htarget
          subst htarget
          exact ⟨d, hd, .inl ⟨q, hq, hk⟩⟩
        · subst he
          have htarget : t = u := htarget
          subst htarget
          exact ⟨d, hd, .inr ⟨key, hkey, hk⟩⟩
    · intro ⟨hne, temp, ht, ha, d, hd, hcase⟩
      obtain ⟨temp', ops, ht', hb, hmem⟩ := accepted_bidirectional hne
      rw [ht] at ht'
      cases ht'
      rw [bidirectionalStatements] at hb
      rw [if_neg ha] at hb
      rcases hcase with ⟨q, hq, hk⟩ | ⟨key, hkey, hk⟩
      · exact ⟨_, (hmem _).2 ((mem_opTransactions hb).2 ⟨(t, d), hd, .inl ⟨q, hq, rfl⟩⟩), hk⟩
      · exact ⟨_, (hmem _).2 ((mem_opTransactions hb).2 ⟨(t, d), hd, .inr ⟨key, hkey, rfl⟩⟩), hk⟩
  | restore cloudEnabled =>
    apply Iff.intro
    · intro ⟨s, hs, hk⟩
      obtain ⟨ss, hss, hsm⟩ := mem_applied hs
      rw [transactions] at hss
      split at hss
      case isFalse => cases hss
      case isTrue hc =>
        refine ⟨hc, ?_⟩
        cases hpull : pullToLocal e cloud with
        | error err =>
          rw [hpull] at hss
          cases hss
        | ok temp =>
          rw [hpull] at hss
          obtain ⟨u, hu, q, hq, he⟩ := mem_restoreTransactions.1 ⟨ss, hss, hsm⟩
          subst he
          have htarget := target_of_strikes hk
          rw [insertOrReplace_target] at htarget
          subst htarget
          exact ⟨temp, rfl, hu, q, hq, hs, hk⟩
    · intro ⟨hc, temp, hpull, hu, q, hq, hs, hk⟩
      exact ⟨_, hs, hk⟩

/-- A run keeps the children it does not name exactly when none of them refers, through any
number of foreign keys, to a row that the run replaces or deletes. -/
theorem children_kept_iff (hR : Referential db) (e : Env) (cloud : Database) (run : Run) :
    ChildrenKept e db cloud run ↔
      ∀ t ∈ childTables, ∀ r ∈ db.rows t, ¬ NamedBy e.now db (accepted e db cloud run) t r →
        ¬ Doomed db.tables (fun u p => p ∈ db.rows u ∧ Replaced e db cloud run u p) t r := by
  have hd : (fun u p => p ∈ db.rows u ∧ Replaced e db cloud run u p) =
      hitRows e.now db (accepted e db cloud run) := by
    funext u p
    rw [hitRows_accepted]
  rw [hd]
  have hx := execAll_applied e.now db (transactions e db cloud run)
  apply forall₂_congr
  intro t ht
  apply forall₂_congr
  intro r hr
  apply forall_congr'
  intro hn
  exact mem_execAll hx hR hr hn

/-- The operational database with its registered tables. -/
def operationalDb (l : List (String × List Row)) : Database :=
  l.foldl (fun db p => db.update p.1 fun T => { T with rows := p.2 })
    (ofSchemas (allTables.map fun p => (p.1, p.2.schema)))

/-- A cloud that has every table of the backup. -/
def cloudOf (l : List (String × List Row)) : Database :=
  l.foldl (fun db p => db.update p.1 fun T => { T with rows := p.2 })
    (ofSchemas ((getExpectedSqliteTables true).map fun p => (p.1, p.2.schema)))

def tickerRow (ticker contentHash updatedAt : String) : Row :=
  sfTickers.schema.coerce "2024-05-01 00:00:00"
    [("ticker", .text ticker), ("content_hash", .text contentHash),
      ("updated_at", .text updatedAt)]

def exampleEnv : Env where
  parseTs := fun _ => 0
  digest := fun _ => ""
  now := "2024-05-02 00:00:00"

/-- A ticker with one fact, which the cloud does not have yet. -/
def tickerWithFact : Database :=
  operationalDb [("sf_tickers", [tickerRow "AAPL" "a1" "2024-05-01 10:00:00"]),
    ("sf_quarterly_facts", [factRow "AAPL" "BS" "Revenue" "2024-Q1"])]

/-- A newer version of the ticker. -/
def newerTicker : Database :=
  cloudOf [("sf_tickers", [tickerRow "AAPL" "a2" "2024-05-02 10:00:00"])]

theorem accepted_newerTicker : accepted exampleEnv tickerWithFact newerTicker (.bidirectional {}) =
    [.replace "sf_tickers" (tickerRow "AAPL" "a2" "2024-05-02 10:00:00")] := by
  decide +kernel

/-- Taking the newer ticker from the cloud deletes the fact, which no statement names. -/
theorem children_lost :
    ¬ ChildrenKept exampleEnv tickerWithFact newerTicker (.bidirectional {}) := by
  intro h
  have hkept := h "sf_quarterly_facts" (by decide) (factRow "AAPL" "BS" "Revenue" "2024-Q1")
    (by decide +kernel)
  have hgone : factRow "AAPL" "BS" "Revenue" "2024-Q1" ∉
      (afterRun exampleEnv tickerWithFact newerTicker (.bidirectional {})).rows
        "sf_quarterly_facts" := by decide +kernel
  apply hgone
  apply hkept
  intro ⟨s, hs, hk⟩
  rw [accepted_newerTicker, List.mem_singleton] at hs
  subst hs
  rcases hk with hk | ⟨row, T, he, _⟩
  · exact absurd (target_of_strikes hk) (by decide)
  · exact absurd (Stmt.replace.inj he).1 (by decide)

theorem children_kept_tickerWithFact :
    ChildrenKept exampleEnv tickerWithFact newerTicker (.bidirectional {}) ↔
      ∀ t ∈ childTables, ∀ r ∈ tickerWithFact.rows t,
        ¬ NamedBy exampleEnv.now tickerWithFact
          (accepted exampleEnv tickerWithFact newerTicker (.bidirectional {})) t r →
        ¬ Doomed tickerWithFact.tables (fun u p => p ∈ tickerWithFact.rows u ∧
          Replaced exampleEnv tickerWithFact newerTicker (.bidirectional {}) u p) t r :=
  children_kept_iff (.of_referential (by decide +kernel)) exampleEnv newerTicker _

end Sync
