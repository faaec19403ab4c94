import AnythingTools.Sync.SyncEngine

namespace Sync
open Relational Relational.Database Schemas
set_option autoImplicit true

/-- The backed-up tables are in the cloud, with all their columns and no row. -/
def EmptyCloud (db cloud : Database) : Prop :=
  ∀ t ∈ persistedTables, ∀ T, db.find t = some T →
    ∃ C, cloud.find t = some C ∧ C.rows = [] ∧ ∀ c ∈ T.schema.names, c ∈ C.schema.names

/-- The text of its key finds the row again, and it is sent as it is. -/
def Sendable (engine : CloudEngine) (T : Table) (pkCols : List String) (hashed : Bool) (r : Row) :
    Prop :=
  T.schema.matchesKey (pkCols.zip (manifestRow pkCols hashed r).key) r = true ∧
    ∃ s, outgoing engine T.schema r = some s ∧ Row.Agree T.schema.names r s

/-- A value that the text of some value is converted to is found by its own text. -/
theorem convert_own {a : Affinity} {v v₀ : Value} (h : a.convert (strOrNull v₀) = v)
    (hv : v ≠ .null) : a.convert (strOrNull v) = v := by
  have hint (b : Affinity) (s : String)
      (hb : ∀ s, b.convert (.text s) = ((decimal s.toList).map Value.int).getD (.text s)) :
      b.convert (strOrNull (b.convert (.text s))) = b.convert (.text s) := by
    rw [hb s]
    cases hd : decimal s.toList with
    | none =>
      change b.convert (.text s) = .text s
      rw [hb s, hd]
      rfl
    | some n =>
      change b.convert (.text (toString n)) = .int n
      rw [hb, decimal_toString]
      rfl
  have htext (s : String) : a.convert (strOrNull (a.convert (.text s))) = a.convert (.text s) := by
    cases a with
    | text => rfl
    | blob => rfl
    | integer => exact hint .integer s fun _ => rfl
    | real => exact hint .real s fun _ => rfl
    | numeric => exact hint .numeric s fun _ => rfl
  cases v₀ with
  | null =>
    change a.convert .null = v at h
    rw [Affinity.convert_null] at h
    exact (hv h.symm).elim
  | int n => exact h ▸ htext _
  | real r => exact h ▸ htext _
  | text s => exact h ▸ htext _
  | blob bs => exact h ▸ htext _

theorem manifestKey_iff {S : Schema} {pkCols : List String} {r₀ r : Row} :
    S.matchesKey (pkCols.zip (manifestRow pkCols hashed r₀).key) r = true ↔
      ∀ c ∈ pkCols, (S.affinity c).convert (strOrNull (r₀.get c)) ≠ .null ∧
        (S.affinity c).convert (strOrNull (r₀.get c)) = r.get c := by
  have hzip : pkCols.zip (manifestRow pkCols hashed r₀).key =
      Row.build pkCols fun c => strOrNull (r₀.get c) :=
    List.map_prod_left_eq_zip.symm
  rw [hzip, Schema.matchesKey, Row.columns_build, Row.sameKey_iff]
  apply forall_congr'
  intro c
  apply forall_congr'
  intro hc
  rw [Schema.get_bind, Row.get_build_of_mem hc]

/-- A row that some text key finds is found by the text of its own key. -/
theorem manifestKey_own {S : Schema} {pkCols : List String} {r₀ r : Row}
    (h : S.matchesKey (pkCols.zip (manifestRow pkCols hashed r₀).key) r = true) :
    S.matchesKey (pkCols.zip (manifestRow pkCols hashed r).key) r = true := by
  rw [manifestKey_iff] at h ⊢
  intro c hc
  obtain ⟨hn, he⟩ := h c hc
  rw [he] at hn
  have hown := convert_own he hn
  rw [hown]
  exact ⟨hn, rfl⟩

theorem arrives_empty {T C : Table} (hC : cloud.find t = some C) (hempty : C.rows = [])
    (hd : diffable cloud t pkCols hashed = true) (hf : ∀ c, engine.fails c = false)
    (hr : r ∈ T.rows) :
    Arrives engine cloud t T pkCols hashed r ↔ Sendable engine T pkCols hashed r := by
  have hrows : cloud.rows t = [] := by rw [rows_of_find hC, hempty]
  have hid (r₀ : Row) : pushId engine cloud t pkCols hashed r₀ =
      some (manifestRow pkCols hashed r₀).key := by
    rw [pushId, if_pos ⟨hd, hf _⟩, if_pos]
    refine ⟨hf _, .inl ?_⟩
    rw [hrows]
    rfl
  have hsel : Selected engine cloud t T pkCols hashed r ↔
      T.schema.matchesKey (pkCols.zip (manifestRow pkCols hashed r).key) r = true := by
    constructor
    · rintro ⟨r₀, _, k, hk, hm⟩
      rw [hid, Option.some.injEq] at hk
      rw [← hk] at hm
      exact manifestKey_own hm
    · intro hm
      exact ⟨r, hr, _, hid r, hm⟩
  rw [Arrives, hrows, hsel, Sendable]
  constructor
  · intro h
    rcases h with h | ⟨_, q, hq, _⟩
    · exact h
    · cases hq
  · exact Or.inl

/-- A table of the sync is backed up or has no `updated_at`. -/
def countedOrBackedUp (p : String × TableDdl) : Bool :=
  isVirtual p.2 || decide (p.1 ∈ persistedTables) || decide ("updated_at" ∉ p.2.schema.names)

theorem registry_counted (e : Env) : e.tables.all countedOrBackedUp = true := by
  rw [Env.tables]
  cases e.sqliteVecAvailable <;> decide

/-- Where no row is pending, only backed-up tables have rows. -/
theorem backedUp_of_no_pending {e : Env} (l : LocalDb e.tables)
    (hp : totalPendingRows e.tables true l.db = 0)
    (hdata : hasData (computeLocalProofs e.tables l.db) = true) :
    ∃ t ∈ persistedTables, ∃ T, l.db.find t = some T ∧ T.rows ≠ [] := by
  obtain ⟨n, hn, hpos⟩ := List.any_eq_true.1 hdata
  obtain ⟨p, hm, he⟩ := List.mem_map.1 hn
  obtain ⟨hmem, hv⟩ := List.mem_filter.1 hm
  rw [Bool.not_eq_true'] at hv
  obtain ⟨T, hT, hs⟩ := l.schemas p hmem hv
  have hrows : T.rows ≠ [] := by
    intro hnil
    rw [← he, decide_eq_true_eq, rows_of_find hT, hnil] at hpos
    exact Int.lt_irrefl 0 hpos
  have hreg := List.all_eq_true.1 (registry_counted e) p hmem
  rw [countedOrBackedUp, hv, Bool.false_or, Bool.or_eq_true, decide_eq_true_eq,
    decide_eq_true_eq] at hreg
  rcases hreg with ht | hu
  · exact ⟨p.1, ht, T, hT, hrows⟩
  · have hzero : pendingDeltaRows l.db true p = 0 := by
      rw [totalPendingRows, List.sum_eq_zero_iff] at hp
      exact hp _ (List.mem_map_of_mem hm)
    rw [pendingDeltaRows, hT] at hzero
    dsimp only at hzero
    rw [if_neg fun h => hu h.1, List.length_eq_zero_iff] at hzero
    exact (hrows hzero).elim

theorem localData_of_pushOnly {localProofs cloudProofs : List (String × Int)}
    (h : (decideStartupAction localProofs cloudProofs).action = .pushOnly) :
    cloudProofs ≠ [] ∧ hasData localProofs = true := by
  rw [decideStartupAction] at h
  split at h
  · cases h
  next hne =>
    refine ⟨hne, ?_⟩
    split at h
    · cases h
    · cases h
    next hl _ => exact hl
    · split at h <;> cases h

/-- The cloud once the start is done. -/
def StartupRun.cloud (before : Database) : StartupRun → Database
  | .pushed r => r.cloud
  | _ => before

/-- The push of a start failed. -/
def StartupRun.failed : StartupRun → Bool
  | .pushed r => r.cloudError.isSome
  | _ => false

/-- A start that finds the cloud empty and decides to push fills it exactly when some row is above
its watermark and every row can be sent. -/
theorem filled_iff {e : Env} (l : LocalDb e.tables) (hcloud : EmptyCloud l.db cloud)
    (hf : ∀ c, engine.fails c = false)
    (hdec : (startupDecision engine e.tables l.db cloud).action = .pushOnly)
    (hok : (syncStartup engine settings e.tables prompt l.db cloud).failed = false) :
    Mirrored l.db ((syncStartup engine settings e.tables prompt l.db cloud).cloud cloud) ↔
      0 < totalPendingRows e.tables true l.db ∧
        ∀ t ∈ persistedTables, ∀ T, l.db.find t = some T → ∀ r ∈ T.rows,
          Sendable engine T (detectPkColumns l.db t).1 (detectPkColumns l.db t).2 r := by
  obtain ⟨hne, hdata⟩ := localData_of_pushOnly hdec
  have henabled : engine.enabled = true := by
    by_contra hno
    rw [computeCloudProofs, if_neg hno] at hne
    exact hne rfl
  have hrun : syncStartup engine settings e.tables prompt l.db cloud =
      .pushed (syncAll engine settings e.tables true (fun _ => .still l.db) l.db cloud) := by
    rw [syncStartup, startupRun, hdec]
  rw [hrun] at hok ⊢
  change (syncAll engine settings e.tables true (fun _ => .still l.db) l.db cloud).cloudError.isSome
    = false at hok
  change Mirrored l.db
    (syncAll engine settings e.tables true (fun _ => .still l.db) l.db cloud).cloud ↔ _
  have hon : ¬ engine.enabled = false := by
    rw [henabled]
    exact Bool.noConfusion
  rw [syncAll, if_neg hon] at hok ⊢
  by_cases hp : totalPendingRows e.tables true l.db = 0
  · rw [if_pos hp]
    obtain ⟨t, ht, T, hT, hrows⟩ := backedUp_of_no_pending l hp hdata
    obtain ⟨r, hr⟩ := List.exists_mem_of_ne_nil _ hrows
    obtain ⟨C, hC, hempty, _⟩ := hcloud t ht T hT
    constructor
    · intro hm
      obtain ⟨q, hq, _⟩ := hm t ht T hT r hr
      rw [rows_of_find hC, hempty] at hq
      cases hq
    · intro h
      exact absurd hp (Nat.ne_of_gt h.1)
  · rw [if_neg hp] at hok ⊢
    rw [and_iff_right (Nat.pos_of_ne_zero hp)]
    cases hx : syncData engine settings e.tables (fun _ => .still l.db) cloud with
    | error err =>
      rw [hx] at hok
      cases hok
    | ok cloud' =>
      dsimp only
      rw [syncData, if_pos henabled] at hx
      apply forall_congr'
      intro t
      apply forall_congr'
      intro ht
      apply forall_congr'
      intro T
      apply forall_congr'
      intro hT
      apply forall_congr'
      intro r
      apply forall_congr'
      intro hr
      obtain ⟨C, hC, hempty, hcols⟩ := hcloud t ht T hT
      have hK := l.keyedTable ht hT
      have hd : diffable cloud t (detectPkColumns l.db t).1 (detectPkColumns l.db t).2 = true := by
        rw [diffable, hC]
        dsimp only
        rw [Bool.and_eq_true, List.all_eq_true]
        constructor
        · intro c hc
          rw [mem_detectPkColumns hT hK.primaryKey] at hc
          rw [decide_eq_true_eq]
          exact hcols c (primaryKey_subset _ hc)
        · rw [detectPkColumns, hT]
          dsimp only
          by_cases hh : "content_hash" ∈ T.schema.names
          · rw [decide_eq_true hh, decide_eq_true (hcols _ hh)]
            rfl
          · rw [decide_eq_false hh]
            rfl
      have hpair : detectPkColumns l.db t =
          ((detectPkColumns l.db t).1, (detectPkColumns l.db t).2) := rfl
      rw [held_pushTables hx (pushedTables_nodup e) (mem_pushedTables e ht) hpair hT hK hr,
        arrives_empty hC hempty hd hf hr]

/-- An article that an earlier run pushed, before the cloud was emptied. -/
def pushedBefore : Database :=
  operationalDb [("scraped_articles", [articleRow "a1"]),
    ("sync_ledger", [syncLedger.schema.coerce "2024-05-01 06:00:00"
      (ledgerEntry "2024-05-01T06:00:00+00:00" 1)])]

instance : Decidable (EmptyCloud db cloud) :=
  decidable_of_iff (∀ t ∈ persistedTables, ∀ T ∈ db.find t, ∃ C ∈ cloud.find t,
    C.rows = [] ∧ ∀ c ∈ T.schema.names, c ∈ C.schema.names) Iff.rfl

/-- The start decides to fill the empty cloud, and then finds nothing to push. -/
theorem fresh_cloud_left_empty :
    EmptyCloud pushedBefore (cloudOf []) ∧
      (startupDecision exampleEngine exampleEnv.tables pushedBefore (cloudOf [])).action =
        .pushOnly ∧
      (syncStartup exampleEngine {} exampleEnv.tables .abort pushedBefore (cloudOf [])).failed =
        false ∧
      ¬ Mirrored pushedBefore ((syncStartup exampleEngine {} exampleEnv.tables .abort pushedBefore
        (cloudOf [])).cloud (cloudOf [])) := by
  decide +kernel

def pushedBeforeDb : LocalDb exampleEnv.tables := .ofCheck pushedBefore (by decide +kernel)

theorem filled_pushedBefore :
    Mirrored pushedBeforeDb.db ((syncStartup exampleEngine {} exampleEnv.tables .abort
        pushedBeforeDb.db (cloudOf [])).cloud (cloudOf [])) ↔
      0 < totalPendingRows exampleEnv.tables true pushedBeforeDb.db ∧
        ∀ t ∈ persistedTables, ∀ T, pushedBeforeDb.db.find t = some T → ∀ r ∈ T.rows,
          Sendable exampleEngine T (detectPkColumns pushedBeforeDb.db t).1
            (detectPkColumns pushedBeforeDb.db t).2 r :=
  filled_iff pushedBeforeDb (by decide +kernel) (fun _ => rfl) (by decide +kernel)
    (by decide +kernel)

end Sync
