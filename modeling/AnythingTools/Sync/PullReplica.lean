import AnythingTools.Refresh
import AnythingTools.Sync.PullSession
import AnythingTools.Sync.SafetyNet
import AnythingTools.Sync.Staged

namespace Sync
open Relational Relational.Database Schemas Refresh
set_option autoImplicit true

/-- The record that is written for a cloud row, unless its vector cannot be read. -/
def record (e : Env) (t : String) (S : Schema) (c : Row) : Option Row :=
  (pullRecords e t { schema := S, rows := [c] }).head?

/-- The local table as a copy of the cloud table. -/
def replica (e : Env) (t : String) (C : Table) (S : Schema) (pkCols : List String)
    (hashed : Bool) : Replica String Row Row where
  clash := S.conflicts
  meets r c := joinsManifest pkCols (manifestRow pkCols hashed r) c
  differs r c := hashDiffers hashed (manifestRow pkCols hashed r) c
  stored now c := (record e t C.schema c).map (S.coerce now)
  source := C.rows

theorem pullRecords_append (e : Env) (t : String) (S : Schema) (cs cs' : List Row) :
    pullRecords e t { schema := S, rows := cs ++ cs' } =
      pullRecords e t { schema := S, rows := cs } ++ pullRecords e t { schema := S, rows := cs' } := by
  simp only [pullRecords, List.map_append]
  split
  · rw [pullVectorsFromCloud, List.filter_append, List.map_append]
    rfl
  · rw [List.map_append]

theorem pullRecords_one (e : Env) (t : String) (S : Schema) (c : Row) :
    pullRecords e t { schema := S, rows := [c] } = (record e t S c).toList := by
  have hlen : (pullRecords e t { schema := S, rows := [c] }).length ≤ 1 := by
    rw [pullRecords, List.length_map]
    split
    · exact List.length_filter_le _ _
    · exact Nat.le_refl 1
  rw [record]
  cases hp : pullRecords e t { schema := S, rows := [c] } with
  | nil => rfl
  | cons r rs =>
    rw [hp, List.length_cons] at hlen
    have hnil : rs = [] := List.length_eq_zero_iff.1 (by omega)
    rw [hnil]
    rfl

theorem pullRecords_eq (e : Env) (t : String) (S : Schema) (cs : List Row) :
    pullRecords e t { schema := S, rows := cs } = cs.filterMap (record e t S) := by
  induction cs with
  | nil =>
    rw [pullRecords]
    split <;> rfl
  | cons c cs ih =>
    rw [← List.singleton_append, pullRecords_append, pullRecords_one, ih, List.singleton_append,
      List.filterMap_cons]
    cases record e t S c with
    | none => rfl
    | some r => rfl

/-- The record has the cells of its cloud row; only an empty hash is computed anew. -/
theorem get_record (h : record e t S c = some r) : r.columns = S.names ∧
    ∀ n ∈ S.names, n ≠ "content_hash" → r.get n = c.get n := by
  have hm : r ∈ pullRecords e t { schema := S, rows := [c] } := by
    rw [pullRecords_one, h]
    simp
  obtain ⟨p, hp, hcols, hget⟩ := mem_pullRecords hm
  rw [List.mem_singleton] at hp
  subst hp
  exact ⟨hcols, fun n hn hne => hget n hn fun he => absurd he hne⟩

theorem diffCloud_eq (e : Env) (t : String) (C : Table) (S : Schema) (pkCols : List String)
    (hashed : Bool) (rows : List Row) :
    diffCloud pkCols hashed C (rows.map (manifestRow pkCols hashed)) =
      (replica e t C S pkCols hashed).fetch rows := by
  rw [diffCloud, Replica.fetch]
  congr 1
  funext c
  have hf : ((rows.map (manifestRow pkCols hashed)).filter fun m => joinsManifest pkCols m c) =
      (rows.filter fun r => (replica e t C S pkCols hashed).meets r c).map
        (manifestRow pkCols hashed) := List.filter_map
  rw [hf]
  cases rows.filter fun r => (replica e t C S pkCols hashed).meets r c with
  | nil => rfl
  | cons p ps =>
    rw [List.map_cons]
    dsimp only
    rw [← List.map_cons, List.filter_map, List.map_map]
    rfl

theorem joinsManifest_iff : joinsManifest pkCols (manifestRow pkCols hashed r) c = true ↔
    ∀ n ∈ pkCols, r.get n ≠ .null ∧ strOrNull (r.get n) = strOrNull (c.get n) := by
  have hnull (v : Value) : strOrNull v = .null ↔ v = .null := by
    cases v <;> simp [strOrNull]
  have hzip : pkCols.zip (manifestRow pkCols hashed r).key =
      pkCols.map fun n => (n, strOrNull (r.get n)) := by
    rw [manifestRow]
    conv_lhs =>
      lhs
      rw [← List.map_id pkCols]
    exact List.zip_map'
  simp only [joinsManifest, hzip, List.all_map, List.all_eq_true, Function.comp_apply,
    Bool.and_eq_true, decide_eq_true_eq, ne_eq, hnull]

/-- The table has a primary key, and a row gives the cells of its keys itself. -/
def keyedSchema (S : Schema) : Bool :=
  decide (S.primaryKey ≠ []) && decide ("content_hash" ∉ S.primaryKey) &&
    S.keys.all fun k => k.all fun n =>
      match S.column? n with
      | none => true
      | some c => decide (c.dfltValue = none)

theorem tables_keyed (e : Env) :
    (e.tables.all fun p => isVirtual p.2 || keyedSchema p.2.schema) = true := by
  rw [Env.tables]
  cases e.sqliteVecAvailable <;> decide

theorem keyedSchema_of_mem {e : Env} {p : String × TableDdl} (hp : p ∈ e.tables)
    (hv : isVirtual p.2 = false) : keyedSchema p.2.schema = true := by
  have h := List.all_eq_true.1 (tables_keyed e) p hp
  rw [hv, Bool.false_or] at h
  exact h

section
variable {S : Schema}

theorem keyedSchema_iff : keyedSchema S = true ↔ S.primaryKey ≠ [] ∧
    "content_hash" ∉ S.primaryKey ∧ ∀ k ∈ S.keys, ∀ n ∈ k, ∀ c, S.column? n = some c →
      c.dfltValue = none := by
  simp only [keyedSchema, Bool.and_eq_true, decide_eq_true_eq, List.all_eq_true, and_assoc]
  refine and_congr_right fun _ => and_congr_right fun _ => ?_
  refine forall_congr' fun k => forall_congr' fun _ => forall_congr' fun n =>
    forall_congr' fun _ => ?_
  cases S.column? n with
  | none => simp
  | some c => simp

theorem primaryKey_mem_keys (h : S.primaryKey ≠ []) : S.primaryKey ∈ S.keys := by
  rw [Schema.keys, List.mem_filter]
  exact ⟨List.mem_cons_self, by simpa using h⟩

/-- A cell of a key is stored as it is. -/
theorem get_coerce_key (h : keyedSchema S = true) (hk : k ∈ S.keys) (hn : n ∈ k)
    (hname : n ∈ S.names) (hcol : n ∈ r.columns) : (S.coerce now r).get n = r.get n := by
  obtain ⟨d, hd, he⟩ := List.mem_map.1 hname
  obtain ⟨c, hc⟩ := S.column?_of_mem hd
  rw [he] at hc
  have hnone := (keyedSchema_iff.1 h).2.2 k hk n hn c hc
  rw [Schema.coerce, Row.get_build_of_mem hname, hc]
  dsimp only
  split
  · rfl
  next hnot =>
    have hnull : r.get n = .null := by
      by_contra hne
      exact hnot ⟨hcol, fun hand => hne hand.2⟩
    rw [Column.default, hnone, hnull]
    rfl

/-- The cells of a key do not depend on the clock. -/
theorem get_coerce_timeless (h : keyedSchema S = true) (hk : k ∈ S.keys) (hn : n ∈ k)
    (now now' : String) (r : Row) : (S.coerce now r).get n = (S.coerce now' r).get n := by
  by_cases hname : n ∈ S.names
  · rw [Schema.coerce, Schema.coerce, Row.get_build_of_mem hname, Row.get_build_of_mem hname]
    cases hc : S.column? n with
    | none => rfl
    | some c =>
      have hnone := (keyedSchema_iff.1 h).2.2 k hk n hn c hc
      dsimp only
      rw [Column.default, Column.default, hnone]
      rfl
  · rw [Schema.coerce, Schema.coerce, Row.get_build, Row.get_build, if_neg hname, if_neg hname]

end

/-- Both tables have the key columns. -/
structure Matched (C : Table) (S : Schema) (pkCols : List String) : Prop where
  keyed : keyedSchema S = true
  cols : ∀ n, n ∈ pkCols ↔ n ∈ S.primaryKey
  named : ∀ n ∈ pkCols, n ∈ C.schema.names

section
variable {e : Env} {t : String} {C : Table} {S : Schema} {pkCols : List String} {hashed : Bool}

theorem stored_cases (h : (replica e t C S pkCols hashed).stored now c = some p) :
    ∃ r, record e t C.schema c = some r ∧ p = S.coerce now r := by
  obtain ⟨r, hr, he⟩ := Option.map_eq_some_iff.1 h
  exact ⟨r, hr, he.symm⟩

/-- A row is stored under the key of its cloud row. -/
theorem Matched.get_stored (hM : Matched C S pkCols)
    (h : (replica e t C S pkCols hashed).stored now c = some p) (hn : n ∈ pkCols) :
    p.get n = c.get n := by
  obtain ⟨r, hr, rfl⟩ := stored_cases h
  obtain ⟨hcols, hget⟩ := get_record hr
  obtain ⟨hpk, hhash, _⟩ := keyedSchema_iff.1 hM.keyed
  have hkey := (hM.cols n).1 hn
  have hname := Schema.mem_names_of_primaryKey hkey
  have hcloud := hM.named n hn
  rw [get_coerce_key hM.keyed (primaryKey_mem_keys hpk) hkey hname (hcols ▸ hcloud),
    hget n hcloud fun he => hhash (he ▸ hkey)]

theorem Matched.conflicts_of_key (hM : Matched C S pkCols)
    (h : ∀ n ∈ pkCols, q.get n ≠ .null ∧ q.get n = p.get n) : S.conflicts q p = true := by
  apply Schema.conflicts_of_primaryKey (keyedSchema_iff.1 hM.keyed).1
  rw [Row.sameKey_iff]
  exact fun n hn => h n ((hM.cols n).2 hn)

theorem Matched.lawful (hM : Matched C S pkCols) : (replica e t C S pkCols hashed).Lawful where
  symm := S.conflicts_comm
  total now now' c p h := by
    obtain ⟨r, hr, _⟩ := stored_cases h
    exact ⟨S.coerce now' r, by
      change (record e t C.schema c).map _ = _
      rw [hr]
      rfl⟩
  self q c h := by
    apply hM.conflicts_of_key
    exact fun n hn => ⟨(joinsManifest_iff.1 h n hn).1, rfl⟩
  trans now c c' p q hp hq hm := by
    refine joinsManifest_iff.2 fun n hn => ?_
    obtain ⟨hne, he⟩ := joinsManifest_iff.1 hq n hn
    obtain ⟨_, he'⟩ := joinsManifest_iff.1 hm n hn
    rw [hM.get_stored hp hn] at he'
    exact ⟨hne, he.trans he'⟩

/-- The key cells tell the rows apart as their texts do. -/
def KeyTexts (pkCols : List String) (rows source : List Row) : Prop :=
  ∀ q ∈ rows ++ source, ∀ c ∈ source, ∀ n ∈ pkCols,
    strOrNull (q.get n) = strOrNull (c.get n) → q.get n = c.get n

theorem Matched.keyed_replica {rows : List Row} (hM : Matched C S pkCols)
    (hT : KeyTexts pkCols rows C.rows) :
    (replica e t C S pkCols hashed).Keyed rows where
  replaces c hc now p hp q hq hm := by
    apply hM.conflicts_of_key
    intro n hn
    obtain ⟨hne, he⟩ := joinsManifest_iff.1 hm n hn
    refine ⟨hne, ?_⟩
    rw [hM.get_stored hp hn]
    rcases hq with hq | ⟨z, hz, now', hs⟩
    · exact hT q (List.mem_append_left _ hq) c hc n hn he
    · rw [hM.get_stored hs hn] at he ⊢
      exact hT z (List.mem_append_right _ hz) c hc n hn he
  meets_stored q c now p hm hp := by
    refine joinsManifest_iff.2 fun n hn => ?_
    obtain ⟨hne, he⟩ := joinsManifest_iff.1 hm n hn
    rw [hM.get_stored hp hn]
    refine ⟨?_, rfl⟩
    intro hnull
    rw [hnull] at he
    cases hq : q.get n with
    | null => exact hne hq
    | _ =>
      rw [hq] at he
      cases he
  timeless c now now' p p' hp hp' hcl := by
    obtain ⟨r, hr, rfl⟩ := stored_cases hp
    obtain ⟨r', hr', rfl⟩ := stored_cases hp'
    rw [hr, Option.some.injEq] at hr'
    subst hr'
    obtain ⟨k, hk, hs⟩ := Schema.conflicts_iff.1 hcl
    refine Schema.conflicts_iff.2 ⟨k, hk, Row.sameKey_iff.2 fun n hn => ?_⟩
    exact ⟨(Row.sameKey_iff.1 hs n hn).1, get_coerce_timeless hM.keyed hk hn now now' r⟩

end

/-- The local database after the pull of one table. -/
theorem LocalDb.pullTable {tables : List (String × TableDdl)} (l : LocalDb tables)
    (h : pullTable e cloud a t l.db = .ok db') (hT : l.db.find t = some T) :
    ∃ l' : LocalDb tables, l'.db = db' := by
  cases hd : detectPkColumns l.db t with
  | mk pkCols hashed =>
    obtain ⟨C, T', _, _, hu, hfind, hframe⟩ := pullTable_ok h hT hd
    have hs := Table.upsertAll_schema hu
    refine ⟨⟨db', ?_, ?_⟩, rfl⟩
    · intro p hp hv
      obtain ⟨U, hU, hd⟩ := l.schemas p hp hv
      by_cases hpt : p.1 = t
      · rw [hpt, hT, Option.some.injEq] at hU
        subst hU
        exact ⟨T', by rw [hpt]; exact hfind, hs.trans hd⟩
      · exact ⟨U, by rw [hframe p.1 hpt]; exact hU, hd⟩
    · intro u U hU
      by_cases hut : u = t
      · rw [hut, hfind, Option.some.injEq] at hU
        subst hU
        exact Table.upsertAll_apart hu (l.keyed t T hT)
      · rw [hframe u hut] at hU
        exact l.keyed u U hU

theorem detectPkColumns_congr (h : find db t = some T) (h' : find db' t = some T')
    (hs : T'.schema = T.schema) : detectPkColumns db' t = detectPkColumns db t := by
  rw [detectPkColumns, detectPkColumns, h, h']
  dsimp only
  rw [hs]

/-- A cloud table beside the local one. -/
def replicaAt (e : Env) (db : Database) (t : String) (C T : Table) : Replica String Row Row :=
  replica e t C T.schema (detectPkColumns db t).1 (detectPkColumns db t).2

theorem replicaAt_congr (h : find db t = some T) (h' : find db' t = some T')
    (hs : T'.schema = T.schema) : replicaAt e db' t C T' = replicaAt e db t C T := by
  rw [replicaAt, replicaAt, detectPkColumns_congr h h' hs, hs]

theorem uploadLocalManifest_eq {a : Attempt} (hr : a.fails (.readManifest t) = none)
    (hT : find db t = some T) (hn : ∀ c ∈ pkCols, c ∈ T.schema.names) :
    uploadLocalManifest a.engine db t pkCols hashed = T.rows.map (manifestRow pkCols hashed) := by
  rw [uploadLocalManifest, hT]
  dsimp only
  rw [if_neg]
  rintro (hf | ⟨c, hc, hnot⟩)
  · rw [Attempt.engine] at hf
    dsimp only at hf
    rw [hr] at hf
    cases hf
  · exact hnot (hn c hc)

/-- What the pull of one table does to its rows: the wanted rows of the cloud are fetched and
written. -/
theorem pullTable_fetch {e : Env} {l : LocalDb e.tables} {p : String × TableDdl}
    (hp : p ∈ e.tables) (hv : isVirtual p.2 = false) (hr : a.fails (.readManifest p.1) = none)
    (h : pullTable e cloud a p.1 l.db = .ok db') :
    ∃ C T T', cloud.find p.1 = some C ∧ l.db.find p.1 = some T ∧
      Matched C T.schema (detectPkColumns l.db p.1).1 ∧
      T.upsertAll (a.now p.1) (((a.order p.1).sort ((replicaAt e l.db p.1 C T).fetch
        T.rows)).filterMap (record e p.1 C.schema)) = .ok T' ∧
      db'.find p.1 = some T' ∧ ∀ u, u ≠ p.1 → db'.find u = l.db.find u := by
  obtain ⟨T, hT, hs⟩ := l.schemas p hp hv
  have hkeyed := keyedSchema_of_mem hp hv
  rw [← hs] at hkeyed
  have hcols (n : String) := mem_detectPkColumns (c := n) hT (keyedSchema_iff.1 hkeyed).1
  simp only [replicaAt]
  cases hd : detectPkColumns l.db p.1 with
  | mk pkCols hashed =>
    rw [hd] at hcols
    dsimp only at hcols ⊢
    obtain ⟨C, T', hC, hdiff, hu, hfind, hframe⟩ := pullTable_ok h hT hd
    have hlocal (n : String) (hn : n ∈ pkCols) : n ∈ T.schema.names :=
      Schema.mem_names_of_primaryKey ((hcols n).1 hn)
    rw [diffable, hC] at hdiff
    simp only [Bool.and_eq_true, List.all_eq_true, decide_eq_true_eq] at hdiff
    rw [uploadLocalManifest_eq hr hT hlocal, diffCloud_eq e p.1 C T.schema, pullRecords_eq] at hu
    exact ⟨C, T, T', hC, hT, ⟨hkeyed, hcols, hdiff.1⟩, hu, hfind, hframe⟩

end Sync
