import AnythingTools.Displace
import AnythingTools.Relational.Transaction

namespace Relational
open Displace
set_option autoImplicit true

/-! ### Rows that a table takes -/

/-- Each column is given a value, or takes a default in the place of a NULL. -/
def Schema.Takes (S : Schema) (r : Row) : Prop :=
  S.checks = [] ∧
    ∀ c ∈ S.columns, r.get c.name ≠ .null ∨ c.notnull = true ∧ c.dfltValue.isSome = true

theorem Row.mem_columns_of_get {r : Row} (h : r.get n ≠ .null) : n ∈ r.columns := by
  by_contra hn
  exact h (Row.get_of_not_mem hn)

theorem Row.get_ne_null {r : Row} (h : ∀ p ∈ r, p.2 ≠ Value.null) (hn : n ∈ r.columns) :
    r.get n ≠ .null := by
  induction r with
  | nil => cases hn
  | cons p r ih =>
    rw [Row.get_cons]
    by_cases hp : n = p.1
    · rw [if_pos hp]
      exact h p List.mem_cons_self
    · rw [if_neg hp]
      rw [Row.columns, List.map_cons, List.mem_cons] at hn
      exact ih (fun q hq => h q (List.mem_cons_of_mem p hq)) (hn.resolve_left hp)

/-- A value that is given is stored. -/
theorem Schema.get_coerce_given {S : Schema} (hn : n ∈ S.names) (h : Row.get r n ≠ .null)
    (now : String) : (S.coerce now r).get n = r.get n := by
  rw [Schema.coerce, Row.get_build_of_mem hn]
  obtain ⟨c, hc, rfl⟩ := List.mem_map.1 hn
  obtain ⟨d, hd⟩ := S.column?_of_mem hc
  rw [hd]
  exact if_pos ⟨Row.mem_columns_of_get h, fun hnull => h hnull.2⟩

theorem Schema.coerce_given {S : Schema} (h : ∀ n ∈ S.names, Row.get r n ≠ .null) (now : String) :
    S.coerce now r = Row.build S.names r.get := by
  rw [Schema.coerce]
  refine List.map_congr_left fun n hn => ?_
  obtain ⟨c, hc, rfl⟩ := List.mem_map.1 hn
  obtain ⟨d, hd⟩ := S.column?_of_mem hc
  dsimp only
  rw [hd]
  exact congrArg _ (if_pos ⟨Row.mem_columns_of_get (h _ hn), fun hnull => h _ hn hnull.2⟩)

/-- The rows that are stored for those that were given, each at some time. -/
def Schema.StoredAs (S : Schema) (rows ws : List Row) : Prop :=
  List.Forall₂ (fun row w => ∃ now, w = S.coerce now row) rows ws

theorem Schema.StoredAs.mem {S : Schema} (h : S.StoredAs rows ws) (hw : w ∈ ws) :
    ∃ row ∈ rows, ∃ now, w = S.coerce now row := by
  induction h with
  | nil => cases hw
  | cons hrow _ ih =>
    rcases List.mem_cons.1 hw with rfl | hw
    · exact ⟨_, List.mem_cons_self, hrow⟩
    · obtain ⟨row, hm, hnow⟩ := ih hw
      exact ⟨row, List.mem_cons_of_mem _ hm, hnow⟩

theorem Schema.StoredAs.each {S : Schema} (h : S.StoredAs rows ws) (hrow : row ∈ rows) :
    ∃ now, S.coerce now row ∈ ws := by
  induction h with
  | nil => cases hrow
  | cons hw _ ih =>
    rcases List.mem_cons.1 hrow with rfl | hrow
    · obtain ⟨now, rfl⟩ := hw
      exact ⟨now, List.mem_cons_self⟩
    · obtain ⟨now, hm⟩ := ih hrow
      exact ⟨now, List.mem_cons_of_mem _ hm⟩

/-- Rows that say everything themselves are stored as they are. -/
theorem Schema.StoredAs.eq {S : Schema} (h : S.StoredAs rows ws)
    (hrows : ∀ row ∈ rows, ∀ now, S.coerce now row = row) : ws = rows := by
  induction h with
  | nil => rfl
  | cons hw _ ih =>
    obtain ⟨now, rfl⟩ := hw
    rw [hrows _ List.mem_cons_self, ih fun row hrow => hrows row (List.mem_cons_of_mem _ hrow)]

/-- Stored rows have the keys that were given. -/
theorem Schema.StoredAs.map_get {S : Schema} (h : S.StoredAs rows ws) (hk : k ∈ S.names)
    (hrows : ∀ row ∈ rows, Row.get row k ≠ .null) :
    ws.map (fun w => w.get k) = rows.map fun row => row.get k := by
  induction h with
  | nil => rfl
  | cons hw _ ih =>
    obtain ⟨now, rfl⟩ := hw
    rw [List.map_cons, List.map_cons, ih fun row hrow => hrows row (List.mem_cons_of_mem _ hrow),
      Schema.get_coerce_given hk (hrows _ List.mem_cons_self)]

theorem Schema.Takes.get_coerce {S : Schema} (h : S.Takes r) (hn : n ∈ S.names) (now : String) :
    (S.coerce now r).get n ≠ .null := by
  rw [Schema.coerce, Row.get_build_of_mem hn]
  obtain ⟨c, hc, rfl⟩ := List.mem_map.1 hn
  obtain ⟨d, hd⟩ := S.column?_of_mem hc
  obtain ⟨hdc, hname⟩ := S.column?_name hd
  rw [hd, ← hname]
  dsimp only
  split
  next hgiven =>
    rcases h.2 d hdc with hval | ⟨hnot, -⟩
    · exact hval
    · exact fun hnull => hgiven.2 ⟨hnot, hnull⟩
  next hleft =>
    have hdflt : d.dfltValue.isSome = true := by
      rcases h.2 d hdc with hval | ⟨-, hdflt⟩
      · exact absurd ⟨Row.mem_columns_of_get hval, fun hnull => hval hnull.2⟩ hleft
      · exact hdflt
    obtain ⟨v, hv⟩ := Option.isSome_iff_exists.1 hdflt
    rw [Column.default, hv]
    exact Default.value_ne_null now v

theorem Schema.Takes.admits {S : Schema} (h : S.Takes r) (now : String) :
    S.admits (S.coerce now r) = true := by
  rw [Schema.admits_iff, h.1]
  refine ⟨fun c hc _ => h.get_coerce (List.mem_map_of_mem hc) now, fun k hk => ?_⟩
  cases hk

theorem Schema.conflicts_single {S : Schema} (h : S.keys = [[k]]) :
    S.conflicts r r' = true ↔ r.get k ≠ .null ∧ r.get k = r'.get k := by
  rw [Schema.conflicts_iff, h]
  simp only [List.mem_singleton, exists_eq_left, Row.sameKey_iff, forall_eq]

/-- Lists with the same elements keep the same when the same is written. -/
theorem mem_putAll_congr {clash : α → α → Bool} {l l' as : List α} (h : ∀ b, b ∈ l ↔ b ∈ l') :
    b ∈ putAll clash l as ↔ b ∈ putAll clash l' as := by
  rw [mem_putAll, mem_putAll, h b]

/-- Of what is written apart nothing is lost. -/
theorem mem_putAll_apart {clash : α → α → Bool} {l as : List α}
    (hs : ∀ a b, clash a b = clash b a) (h : Apart clash as) :
    b ∈ putAll clash l as ↔ (b ∈ l ∧ ∀ a ∈ as, clash a b = false) ∨ b ∈ as := by
  rw [mem_putAll]
  refine or_congr_right ⟨?_, fun hb => ?_⟩
  · rintro ⟨as₁, as₂, rfl, -⟩
    exact List.mem_append_right as₁ List.mem_cons_self
  · obtain ⟨as₁, as₂, rfl⟩ := List.append_of_mem hb
    have hlast := (List.pairwise_cons.1 (List.pairwise_append.1 h).2.1).1
    exact ⟨as₁, as₂, rfl, fun a ha => by
      rw [hs a b]
      exact Bool.eq_false_iff.2 (hlast a ha)⟩

/-- Rows with keys of their own are apart. -/
theorem Schema.apart_of_nodup {S : Schema} (h : S.keys = [[k]])
    (hn : (rows.map fun r : Row => r.get k).Nodup) : Apart S.conflicts rows := by
  rw [List.Nodup, List.pairwise_map] at hn
  exact hn.imp fun hne hc => hne ((Schema.conflicts_single h).1 hc).2

/-- The rows that the statements give for a table. -/
def Stmt.rowsAt (u : String) (ss : List Stmt) : List Row :=
  ss.filterMap fun s =>
    match s with
    | .replace t row => if t = u then some row else none
    | .delete _ _ => none

theorem Stmt.rowsAt_replace_self (t : String) (row : Row) : rowsAt t [.replace t row] = [row] := by
  have hrow : (if t = t then some row else none) = some row := if_pos rfl
  rw [rowsAt, List.filterMap_cons, List.filterMap_nil]
  dsimp only
  rw [hrow]

theorem Stmt.rowsAt_replace_ne (row : Row) (h : ¬ t = u) : rowsAt u [.replace t row] = [] := by
  have hrow : (if t = u then some row else none) = none := if_neg h
  rw [rowsAt, List.filterMap_cons, List.filterMap_nil]
  dsimp only
  rw [hrow]

theorem Stmt.rowsAt_map_self (t : String) (f : α → Row) (l : List α) :
    rowsAt t (l.map fun a => .replace t (f a)) = l.map f := by
  rw [rowsAt, List.filterMap_map, ← List.filterMap_eq_map]
  exact List.filterMap_congr fun a _ => if_pos rfl

theorem Stmt.rowsAt_map_ne (f : α → Row) (l : List α) (h : ¬ t = u) :
    rowsAt u (l.map fun a => .replace t (f a)) = [] := by
  rw [rowsAt, List.filterMap_map, List.filterMap_eq_nil_iff]
  exact fun a _ => if_neg h

theorem Stmt.rowsAt_flatMap (u : String) (f : α → List Stmt) (l : List α) :
    rowsAt u (l.flatMap f) = l.flatMap fun a => rowsAt u (f a) := List.filterMap_flatMap

theorem Stmt.rowsAt_append (u : String) (ss ss' : List Stmt) :
    rowsAt u (ss ++ ss') = rowsAt u ss ++ rowsAt u ss' := List.filterMap_append

namespace Database

/-! ### Tables that nothing refers to -/

section
variable {us : List String}

/-- One of the tables refers to `v`. -/
def Refers (us : List String) (db : Database) (v : String) : Prop :=
  ∃ u ∈ us, ∃ T, db.find u = some T ∧ ∃ f ∈ T.schema.foreignKeys, f.refTable = v

theorem Refers.congr (hs : SameSchemas db db') (h : Refers us db' v) : Refers us db v := by
  obtain ⟨u, hu, T', hT', f, hf, hv⟩ := h
  obtain ⟨T, hT, hschema⟩ := hs.symm.find hT'
  exact ⟨u, hu, T, hT, f, by rw [hschema]; exact hf, hv⟩

/-- The tables refer to tables among them, and none of them to `t`. -/
structure Leaf (us : List String) (db : Database) (t : String) : Prop where
  closed : ∀ v, Refers us db v → v ∈ us
  free : ¬ Refers us db t

theorem Leaf.congr (h : Leaf us db t) (hs : SameSchemas db db') : Leaf us db' t where
  closed v hv := h.closed v (hv.congr hs)
  free ht := h.free (ht.congr hs)

theorem Leaf.not_doomed (h : Leaf us db t) (hd : ∀ v q, dead v q → v = t) (hu : u ∈ us) :
    ¬ Doomed db.tables dead u r := by
  intro hdoomed
  induction hdoomed with
  | direct hdead hT hr hf hl => exact h.free ⟨_, hu, _, hT, _, hf, hd _ _ hdead⟩
  | chain hp hT hr hf hl ih => exact ih (h.closed _ ⟨_, hu, _, hT, _, hf, rfl⟩)

theorem struckBy_target (h : struckBy now db s v q) : v = s.target := by
  obtain ⟨-, hk⟩ := h
  rw [strikes, Bool.and_eq_true, decide_eq_true_eq] at hk
  exact hk.1

/-- A statement on such a table changes no other of them. -/
theorem Leaf.mem_exec (hl : Leaf us db s.target) (hu : u ∈ us) (h : exec now db s = .ok db') :
    r ∈ db'.rows u ↔ (r ∈ db.rows u ∧ ¬ strikes now db s u r = true) ∨ stores now db s u r := by
  rw [Database.mem_exec h]
  have hdoomed : ¬ Doomed db.tables (struckBy now db s) u r :=
    hl.not_doomed (fun v q hd => struckBy_target hd) hu
  rw [and_iff_left hdoomed]

/-- A row that is taken and meets its parents is stored. -/
theorem Leaf.exec_replace (hl : Leaf us db t) (ht : t ∈ us) (hT : db.find t = some T)
    (ha : T.schema.admits (T.schema.coerce now row) = true)
    (hp : db.parentsPresent T.schema (T.schema.coerce now row) = true) :
    ∃ db', exec now db (.replace t row) = .ok db' := by
  rw [exec, replaceRow, hT]
  dsimp only
  rw [if_pos ha]
  refine ⟨_, if_pos ?_⟩
  rw [parentsPresent, List.all_eq_true] at hp ⊢
  intro f hf
  have hpf := hp f hf
  rw [Bool.or_eq_true, List.any_eq_true] at hpf ⊢
  refine hpf.imp_right fun hparent => ?_
  obtain ⟨p, hp, hlinks⟩ := hparent
  refine ⟨p, ?_, hlinks⟩
  obtain ⟨D, hD, -⟩ := (sameSchemas_deleteRows db t fun r =>
    T.schema.conflicts (T.schema.coerce now row) r).find hT
  have href : Refers us db f.refTable := ⟨t, ht, T, hT, f, hf, rfl⟩
  rw [mem_append hD, mem_deleteRows]
  refine .inl ⟨hp, fun hsame => hl.free (hsame.1 ▸ href), ?_⟩
  exact hl.not_doomed (fun v q hd => hd.1) (hl.closed _ href)

/-- A row for one of the tables that nothing refers to. -/
def LeafWrite (us : List String) (now : String) (db : Database) (s : Stmt) : Prop :=
  ∃ t row T, s = .replace t row ∧ t ∈ us ∧ Leaf us db t ∧ db.find t = some T ∧
    T.schema.admits (T.schema.coerce now row) = true ∧
    db.parentsPresent T.schema (T.schema.coerce now row) = true

/-- It can be written as long as no row that is referred to is lost. -/
theorem LeafWrite.congr (h : LeafWrite us now db s) (hs : SameSchemas db db')
    (hkept : ∀ v, Refers us db v → ∀ p ∈ db.rows v, p ∈ db'.rows v) :
    LeafWrite us now db' s := by
  obtain ⟨t, row, T, rfl, ht, hl, hT, ha, hp⟩ := h
  obtain ⟨T', hT', hschema⟩ := hs.find hT
  refine ⟨t, row, T', rfl, ht, hl.congr hs, hT', ?_, ?_⟩
  · rw [hschema]
    exact ha
  · rw [hschema]
    rw [parentsPresent, List.all_eq_true] at hp ⊢
    intro f hf
    have hpf := hp f hf
    rw [Bool.or_eq_true, List.any_eq_true] at hpf ⊢
    refine hpf.imp_right fun hparent => ?_
    obtain ⟨p, hp, hlinks⟩ := hparent
    exact ⟨p, hkept _ ⟨t, ht, T, hT, f, hf, rfl⟩ p hp, hlinks⟩

/-- One such row is put in the place of those it collides with. -/
theorem LeafWrite.exec (h : LeafWrite us now db s) : ∃ db', exec now db s = .ok db' ∧
    (∀ v, Refers us db v → ∀ p ∈ db.rows v, p ∈ db'.rows v) ∧
    ∀ u ∈ us, ∀ T, db.find u = some T → ∀ r, r ∈ db'.rows u ↔
      r ∈ putAll T.schema.conflicts (db.rows u)
        ((Stmt.rowsAt u [s]).map (T.schema.coerce now)) := by
  obtain ⟨t, row, T, rfl, ht, hl, hT, ha, hp⟩ := h
  obtain ⟨db', hexec⟩ := hl.exec_replace ht hT ha hp
  have hmem {u r} (hu : u ∈ us) := hl.mem_exec (r := r) hu hexec
  refine ⟨db', hexec, ?_, ?_⟩
  · intro v hv p hp
    refine (hmem (hl.closed v hv)).2 (.inl ⟨hp, fun hk => ?_⟩)
    rw [strikes_replace hT] at hk
    exact hl.free (hk.1 ▸ hv)
  · intro u hu U hU r
    rw [hmem hu, strikes_replace hT]
    by_cases htu : t = u
    · subst u
      rw [hT, Option.some.injEq] at hU
      subst U
      have hstores : stores now db (.replace t row) t r ↔ r = T.schema.coerce now row := by
        constructor
        · rintro ⟨row', T', hs, hT', hr⟩
          cases hs
          rw [hT, Option.some.injEq] at hT'
          subst T'
          exact hr
        · exact fun hr => ⟨row, T, rfl, hT, hr⟩
      rw [Stmt.rowsAt_replace_self, List.map_singleton, putAll_cons]
      change _ ↔ r ∈ put _ _ _
      rw [mem_put, hstores, eq_self, true_and, Bool.not_eq_true]
    · have hstores : ¬ stores now db (.replace t row) u r := by
        rintro ⟨row', T', hs, -, -⟩
        cases hs
        exact htu rfl
      rw [Stmt.rowsAt_replace_ne row htu, List.map_nil, or_iff_left hstores]
      change _ ↔ r ∈ db.rows u
      exact and_iff_left fun hk => htu hk.1.symm

/-- All of them are written, one after the other. -/
theorem execAll_leaf (h : ∀ s ∈ ss, LeafWrite us now db s) : ∃ db', execAll now db ss = .ok db' ∧
    SameSchemas db db' ∧ (∀ v, Refers us db v → ∀ p ∈ db.rows v, p ∈ db'.rows v) ∧
    ∀ u ∈ us, ∀ T, db.find u = some T → ∀ r, r ∈ db'.rows u ↔
      r ∈ putAll T.schema.conflicts (db.rows u)
        ((Stmt.rowsAt u ss).map (T.schema.coerce now)) := by
  induction ss generalizing db with
  | nil => exact ⟨db, rfl, .refl db, fun v _ p hp => hp, fun u _ T _ r => Iff.rfl⟩
  | cons s ss ih =>
    obtain ⟨db₁, hexec, hkept, hmem⟩ := (h s List.mem_cons_self).exec
    have hs := exec_sameSchemas hexec
    obtain ⟨db', hall, hs', hkept', hmem'⟩ :=
      ih fun s' hs' => (h s' (List.mem_cons_of_mem s hs')).congr hs hkept
    refine ⟨db', ?_, hs.trans hs', ?_, ?_⟩
    · rw [execAll, hexec]
      exact hall
    · exact fun v hv p hp => hkept' v (hv.congr hs.symm) p (hkept v hv p hp)
    · intro u hu T hT r
      obtain ⟨T', hT', hschema⟩ := hs.find hT
      rw [hmem' u hu T' hT' r, hschema, mem_putAll_congr (hmem u hu T hT), ← putAll_append,
        ← List.map_append, ← Stmt.rowsAt_append]
      rfl

/-- The same tables, with the same rows as far as they are looked at. -/
structure Same (us : List String) (db db' : Database) : Prop where
  schemas : SameSchemas db db'
  rows : ∀ u ∈ us, db'.rows u = db.rows u

theorem Same.refl (us : List String) (db : Database) : Same us db db where
  schemas := .refl db
  rows _ _ := rfl

theorem Same.trans (h : Same us db₁ db₂) (h' : Same us db₂ db₃) : Same us db₁ db₃ where
  schemas := h.schemas.trans h'.schemas
  rows u hu := (h'.rows u hu).trans (h.rows u hu)

/-- The transactions of one writer, each of them committed as a whole or not at all, with what is
committed between them and leaves the tables alone. -/
inductive Drained (us : List String) : Database → List (List Stmt) → Database → Prop
  | done {db} : Drained us db [] db
  | other {db db₁ db' tasks} : Same us db db₁ → Drained us db₁ tasks db' → Drained us db tasks db'
  | task {db db' ss tasks} (now : String) : Drained us (commit now db ss) tasks db' →
      Drained us db (ss :: tasks) db'

theorem LeafWrite.same (h : LeafWrite us now db s) (hs : Same us db db') :
    LeafWrite us now db' s := by
  obtain ⟨t, row, T, -, -, hl, -⟩ := id h
  refine h.congr hs.schemas fun v hv p hp => ?_
  rw [hs.rows v (hl.closed v hv)]
  exact hp

theorem Drained.split (h : Drained us db (tasks ++ tasks') db') :
    ∃ db₁, Drained us db tasks db₁ ∧ Drained us db₁ tasks' db' := by
  generalize hall : tasks ++ tasks' = all at h
  induction h generalizing tasks with
  | done =>
    obtain ⟨rfl, rfl⟩ := List.append_eq_nil_iff.1 hall
    exact ⟨_, .done, .done⟩
  | other hs hrest ih =>
    obtain ⟨db₁, hfirst, hlast⟩ := ih hall
    exact ⟨db₁, .other hs hfirst, hlast⟩
  | task now hrest ih =>
    cases tasks with
    | nil =>
      rw [List.nil_append] at hall
      subst hall
      exact ⟨_, .done, .task now hrest⟩
    | cons ss tasks =>
      rw [List.cons_append, List.cons.injEq] at hall
      obtain ⟨rfl, hall⟩ := hall
      obtain ⟨db₁, hfirst, hlast⟩ := ih hall
      exact ⟨db₁, .task now hfirst, hlast⟩

/-- With nothing between them. -/
theorem drained_commitAll (us : List String) (now : String) (db : Database)
    (tasks : List (List Stmt)) : Drained us db tasks (commitAll now db tasks) := by
  induction tasks generalizing db with
  | nil => exact .done
  | cons ss tasks ih => exact .task now (ih (commit now db ss))

theorem Drained.same (h : Drained us db [] db') : Same us db db' := by
  generalize hnil : ([] : List (List Stmt)) = tasks at h
  induction h with
  | done => exact .refl us _
  | other hs _ ih => exact hs.trans (ih hnil)
  | task => cases hnil

theorem Drained.single (h : Drained us db [ss] db') : ∃ now db₀, Same us db db₀ ∧
    Same us (commit now db₀ ss) db' := by
  generalize hone : [ss] = tasks at h
  induction h with
  | done => cases hone
  | other hs _ ih =>
    obtain ⟨now, db₀, hfirst, hlast⟩ := ih hone
    exact ⟨now, db₀, hs.trans hfirst, hlast⟩
  | task now hrest _ =>
    cases hone
    exact ⟨now, _, .refl us _, hrest.same⟩

/-- Rows for such tables are all written, each at its time. -/
theorem Drained.leaf (h : Drained us db tasks db')
    (hw : ∀ ss ∈ tasks, ∀ s ∈ ss, ∀ now, LeafWrite us now db s) :
    SameSchemas db db' ∧ ∀ u ∈ us, ∀ T, db.find u = some T → ∃ ws,
      T.schema.StoredAs (Stmt.rowsAt u tasks.flatten) ws ∧
      ∀ r, r ∈ db'.rows u ↔ r ∈ putAll T.schema.conflicts (db.rows u) ws := by
  induction h with
  | done => exact ⟨.refl _, fun u _ T _ => ⟨[], .nil, fun r => Iff.rfl⟩⟩
  | @other db db₁ db' tasks hs hrest ih =>
    obtain ⟨hs', hall⟩ := ih fun ss hss s hmem now => (hw ss hss s hmem now).same hs
    refine ⟨hs.schemas.trans hs', fun u hu T hT => ?_⟩
    obtain ⟨T', hT', hschema⟩ := hs.schemas.find hT
    obtain ⟨ws, hws, hmem⟩ := hall u hu T' hT'
    rw [← hschema]
    refine ⟨ws, hws, fun r => ?_⟩
    rw [hmem r, hs.rows u hu]
  | @task db db' ss tasks now hrest ih =>
    obtain ⟨db₁, hexec, hs, hkept, hfirst⟩ := execAll_leaf (hw ss List.mem_cons_self · · now)
    have hcommit : commit now db ss = db₁ := by rw [commit, hexec]
    rw [hcommit] at ih
    obtain ⟨hs', hall⟩ := ih fun ss' hss' s hmem now' =>
      (hw ss' (List.mem_cons_of_mem ss hss') s hmem now').congr hs hkept
    refine ⟨hs.trans hs', fun u hu T hT => ?_⟩
    obtain ⟨T', hT', hschema⟩ := hs.find hT
    obtain ⟨ws, hws, hmem⟩ := hall u hu T' hT'
    refine ⟨(Stmt.rowsAt u ss).map (T.schema.coerce now) ++ ws, ?_, fun r => ?_⟩
    · rw [List.flatten_cons, Stmt.rowsAt_append]
      rw [hschema] at hws
      refine List.rel_append ?_ hws
      rw [List.forall₂_map_right_iff, List.forall₂_same]
      exact fun row _ => ⟨now, rfl⟩
    · rw [hmem r, hschema, mem_putAll_congr (hfirst u hu T hT), ← putAll_append]

end

end Database
end Relational
