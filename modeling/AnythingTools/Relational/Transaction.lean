import AnythingTools.Relational.Statement

namespace Relational
namespace Database
set_option autoImplicit true

/-- The two databases declare the same tables. -/
def SameSchemas (db db' : Database) : Prop :=
  ∀ t, (db.find t).map Table.schema = (db'.find t).map Table.schema

theorem SameSchemas.refl (db : Database) : SameSchemas db db := fun _ => rfl

theorem SameSchemas.symm (h : SameSchemas db db') : SameSchemas db' db := fun t => (h t).symm

theorem SameSchemas.trans (h : SameSchemas db₁ db₂) (h' : SameSchemas db₂ db₃) :
    SameSchemas db₁ db₃ := fun t => (h t).trans (h' t)

theorem SameSchemas.find (h : SameSchemas db db') (hT : db.find t = some T) :
    ∃ T', db'.find t = some T' ∧ T'.schema = T.schema := by
  have he := h t
  rw [hT, Option.map_some, eq_comm, Option.map_eq_some_iff] at he
  exact he

theorem sameSchemas_update (db : Database) (t : String) {f : Table → Table}
    (hf : ∀ T, (f T).schema = T.schema) : SameSchemas db (db.update t f) := by
  intro u
  by_cases hu : u = t
  · subst u
    rw [find_update_self, Option.map_map]
    congr 1
    funext T
    exact (hf T).symm
  · rw [find_update_ne _ _ hu]

theorem sameSchemas_deleteRows (db : Database) (t : String) (p : Row → Bool) :
    SameSchemas db (db.deleteRows t p) := by
  intro u
  cases hf : (db.deleteRows t p).find u with
  | none =>
    have hs := find_deleteRows_isSome db t p u
    rw [hf, Option.isSome_none, eq_comm, Option.isSome_eq_false_iff, Option.isNone_iff_eq_none]
      at hs
    rw [hs]
  | some T' =>
    obtain ⟨T, hT, hs, hl⟩ := find_deleteRows hf
    rw [hT, Option.map_some, Option.map_some, hs]

theorem sameSchemas_append (db : Database) (t : String) (r : Row) :
    SameSchemas db (db.append t r) :=
  sameSchemas_update db t fun _ => rfl

/-- What a successful `INSERT OR REPLACE` did. -/
theorem replaceRow_ok (h : replaceRow now db t row = .ok db') :
    ∃ T, db.find t = some T ∧ T.schema.admits (T.schema.coerce now row) = true ∧
      db' = (db.deleteRows t fun r => T.schema.conflicts (T.schema.coerce now row) r).append t
        (T.schema.coerce now row) ∧
      db'.parentsPresent T.schema (T.schema.coerce now row) = true := by
  rw [replaceRow] at h
  cases hT : db.find t with
  | none =>
    rw [hT] at h
    cases h
  | some T =>
    rw [hT] at h
    dsimp only at h
    split at h
    case isFalse => cases h
    case isTrue ha =>
      split at h
      case isFalse => cases h
      case isTrue hp =>
        cases h
        exact ⟨T, rfl, ha, rfl, hp⟩

theorem delete_ok (h : exec now db (.delete t key) = .ok db') :
    ∃ T, db.find t = some T ∧ db' = db.deleteRows t fun r => T.schema.matchesKey key r := by
  rw [exec] at h
  cases hT : db.find t with
  | none =>
    rw [hT] at h
    cases h
  | some T =>
    rw [hT] at h
    cases h
    exact ⟨T, rfl, rfl⟩

theorem exec_sameSchemas (h : exec now db s = .ok db') : SameSchemas db db' := by
  cases s with
  | replace t row =>
    obtain ⟨T, hT, ha, he, hp⟩ := replaceRow_ok h
    rw [he]
    exact (sameSchemas_deleteRows db t _).trans (sameSchemas_append _ t _)
  | delete t key =>
    obtain ⟨T, hT, he⟩ := delete_ok h
    rw [he]
    exact sameSchemas_deleteRows db t _

theorem strikes_congr (h : SameSchemas db db') (s : Stmt) (t : String) (r : Row) :
    strikes now db s t r = strikes now db' s t r := by
  have he := h s.target
  simp only [strikes]
  cases hT : db.find s.target with
  | none =>
    rw [hT, Option.map_none, eq_comm, Option.map_eq_none_iff] at he
    rw [he]
  | some T =>
    obtain ⟨T', hT', hs⟩ := h.find hT
    simp only [hT', hs]

theorem strikes_replace (hT : find db t = some T) :
    strikes now db (.replace t row) u r = true ↔
      u = t ∧ T.schema.conflicts (T.schema.coerce now row) r = true := by
  rw [strikes, Bool.and_eq_true, decide_eq_true_eq]
  simp only [Stmt.target, hT]

theorem strikes_delete (hT : find db t = some T) :
    strikes now db (.delete t key) u r = true ↔ u = t ∧ T.schema.matchesKey key r = true := by
  rw [strikes, Bool.and_eq_true, decide_eq_true_eq]
  simp only [Stmt.target, hT]

/-- The stored rows that the statement itself deletes. -/
def struckBy (now : String) (db : Database) (s : Stmt) (t : String) (r : Row) : Prop :=
  r ∈ db.rows t ∧ strikes now db s t r = true

theorem struckBy_replace (hT : find db t = some T) :
    struckBy now db (.replace t row) = fun v q => v = t ∧ q ∈ db.rows t ∧
      T.schema.conflicts (T.schema.coerce now row) q = true := by
  funext v q
  rw [struckBy, strikes_replace hT, eq_iff_iff]
  exact ⟨fun ⟨hq, hv, hc⟩ => ⟨hv, hv ▸ hq, hc⟩, fun ⟨hv, hq, hc⟩ => ⟨hv ▸ hq, hv, hc⟩⟩

theorem struckBy_delete (hT : find db t = some T) :
    struckBy now db (.delete t key) = fun v q => v = t ∧ q ∈ db.rows t ∧
      T.schema.matchesKey key q = true := by
  funext v q
  rw [struckBy, strikes_delete hT, eq_iff_iff]
  exact ⟨fun ⟨hq, hv, hc⟩ => ⟨hv, hv ▸ hq, hc⟩, fun ⟨hv, hq, hc⟩ => ⟨hv ▸ hq, hv, hc⟩⟩

/-- One statement keeps exactly the rows it neither deletes nor dooms, and stores its own. -/
theorem mem_exec (h : exec now db s = .ok db') : r ∈ db'.rows u ↔
    (r ∈ db.rows u ∧ ¬ strikes now db s u r = true ∧ ¬ Doomed db.tables (struckBy now db s) u r) ∨
      stores now db s u r := by
  cases s with
  | replace t row =>
    obtain ⟨T, hT, ha, he, hp⟩ := replaceRow_ok h
    obtain ⟨D, hD, hs⟩ := (sameSchemas_deleteRows db t fun r =>
      T.schema.conflicts (T.schema.coerce now row) r).find hT
    rw [he, mem_append hD, mem_deleteRows, struckBy_replace hT]
    have hstores : stores now db (.replace t row) u r ↔
        u = t ∧ r = T.schema.coerce now row := by
      apply Iff.intro
      · intro ⟨row', T', hs', hT', hr⟩
        cases hs'
        rw [hT, Option.some.injEq] at hT'
        subst T'
        exact ⟨rfl, hr⟩
      · intro ⟨hu, hr⟩
        subst u
        exact ⟨row, T, rfl, hT, hr⟩
    rw [strikes_replace hT, hstores]
  | delete t key =>
    obtain ⟨T, hT, he⟩ := delete_ok h
    rw [he, mem_deleteRows, struckBy_delete hT, strikes_delete hT]
    have hstores : ¬ stores now db (.delete t key) u r := by
      intro ⟨row, T', hs, _⟩
      cases hs
    rw [or_iff_left hstores]

/-- Every reference meets a parent, and every referenced column is a key of its table. -/
structure Referential (db : Database) : Prop where
  parents : ∀ {u T f r}, db.find u = some T → f ∈ T.schema.foreignKeys → r ∈ T.rows →
    r.get f.column ≠ .null → ∃ p ∈ db.rows f.refTable, f.links r p = true
  targets : ∀ {u T f P}, db.find u = some T → f ∈ T.schema.foreignKeys →
    db.find f.refTable = some P → [f.refColumn] ∈ P.schema.keys

/-- The same, evaluated. -/
def referential (db : Database) : Bool :=
  db.tables.entries.all fun e => e.2.schema.foreignKeys.all fun f =>
    (e.2.rows.all fun r => decide (r.get f.column = .null) ||
      (db.rows f.refTable).any fun p => f.links r p) &&
    (db.find f.refTable).all fun P => decide ([f.refColumn] ∈ P.schema.keys)

theorem Referential.of_referential (h : referential db = true) : Referential db := by
  have hentry {u T f} (hT : db.find u = some T) (hf : f ∈ T.schema.foreignKeys) :
      (T.rows.all fun r => decide (r.get f.column = .null) ||
        (db.rows f.refTable).any fun p => f.links r p) = true ∧
      ((db.find f.refTable).all fun P => decide ([f.refColumn] ∈ P.schema.keys)) = true := by
    rw [referential, List.all_eq_true] at h
    have he := h _ (AList.mem_lookup_iff.1 hT)
    rw [List.all_eq_true] at he
    have hef := he f hf
    rw [Bool.and_eq_true] at hef
    exact hef
  refine ⟨?_, ?_⟩
  · intro u T f r hT hf hr hn
    have hp := (hentry hT hf).1
    rw [List.all_eq_true] at hp
    have hpr := hp r hr
    rw [Bool.or_eq_true, decide_eq_true_eq, List.any_eq_true] at hpr
    exact hpr.resolve_left hn
  · intro u T f P hT hf hP
    have hk := (hentry hT hf).2
    rw [hP, Option.all_some, decide_eq_true_eq] at hk
    exact hk

/-- Two rows with one value in a referenced column collide. -/
theorem Referential.conflict (h : Referential db) (hT : db.find u = some T)
    (hf : f ∈ T.schema.foreignKeys) (hP : db.find f.refTable = some P)
    (hp : f.links r p = true) (hq : f.links r q = true) : P.schema.conflicts p q = true := by
  rw [ForeignKey.links_iff] at hp hq
  rw [Schema.conflicts_iff]
  refine ⟨[f.refColumn], h.targets hT hf hP, ?_⟩
  rw [Row.sameKey_iff]
  intro c hc
  rw [List.mem_singleton] at hc
  subst c
  exact ⟨hp.2 ▸ hp.1, hp.2.symm.trans hq.2⟩

theorem exec_referential (h : exec now db s = .ok db') (hr : Referential db) :
    Referential db' := by
  have hss := exec_sameSchemas h
  refine ⟨?_, ?_⟩
  · intro u T' f r hT' hf hm hn
    obtain ⟨T, hT, hs⟩ := hss.symm.find hT'
    have hm' : r ∈ db'.rows u := by rw [rows_of_find hT']; exact hm
    rcases (mem_exec h).1 hm' with ⟨hold, hk, hd⟩ | ⟨row, U, hst, hU, he⟩
    · obtain ⟨U, hU, hrU⟩ := mem_rows hold
      rw [hT, Option.some.injEq] at hU
      subst U
      obtain ⟨p, hp, hl⟩ := hr.parents hT (hs ▸ hf) hrU hn
      have hkp : ¬ strikes now db s f.refTable p = true := fun hk' =>
        hd (.direct ⟨hp, hk'⟩ hT hrU (hs ▸ hf) hl)
      have hdp : ¬ Doomed db.tables (struckBy now db s) f.refTable p := fun hd' =>
        hd (.chain hd' hT hrU (hs ▸ hf) hl)
      exact ⟨p, (mem_exec h).2 (.inl ⟨hp, hkp, hdp⟩), hl⟩
    · subst s
      obtain ⟨V, hV, ha, hdb, hp⟩ := replaceRow_ok h
      rw [hU, Option.some.injEq] at hV
      subst V
      rw [hT, Option.some.injEq] at hU
      subst U
      rw [parentsPresent, List.all_eq_true] at hp
      have hpf := hp f (hs ▸ hf)
      rw [← he, Bool.or_eq_true, decide_eq_true_eq, List.any_eq_true] at hpf
      exact hpf.resolve_left hn
  · intro u T' f P' hT' hf hP'
    obtain ⟨T, hT, hs⟩ := hss.symm.find hT'
    obtain ⟨P, hP, hs'⟩ := hss.symm.find hP'
    rw [← hs']
    exact hr.targets hT (hs ▸ hf) hP

/-- Some statement of the list deletes the row itself. -/
def HitBy (now : String) (db : Database) (ss : List Stmt) (t : String) (r : Row) : Prop :=
  ∃ s ∈ ss, strikes now db s t r = true

theorem hitBy_congr (h : SameSchemas db db') (hh : HitBy now db ss t r) :
    HitBy now db' ss t r := by
  obtain ⟨s, hs, hk⟩ := hh
  exact ⟨s, hs, by rw [← strikes_congr h]; exact hk⟩

/-- The stored rows that some statement of the list deletes. -/
def hitRows (now : String) (db : Database) (ss : List Stmt) (t : String) (r : Row) : Prop :=
  r ∈ db.rows t ∧ HitBy now db ss t r

theorem stores_congr (h : SameSchemas db db') (hs : stores now db s t r) :
    stores now db' s t r := by
  obtain ⟨row, T, he, hT, hr⟩ := hs
  obtain ⟨T', hT', hs'⟩ := h.find hT
  exact ⟨row, T', he, hT', by rw [hs']; exact hr⟩

/-- Some statement of the list deletes the row itself, or stores it. -/
def NamedBy (now : String) (db : Database) (ss : List Stmt) (t : String) (r : Row) : Prop :=
  ∃ s ∈ ss, strikes now db s t r = true ∨ stores now db s t r

theorem HitBy.named (h : HitBy now db ss t r) : NamedBy now db ss t r := by
  obtain ⟨s, hs, hk⟩ := h
  exact ⟨s, hs, .inl hk⟩

theorem NamedBy.tail (h : SameSchemas db db') (hn : NamedBy now db' ss t r) :
    NamedBy now db (s :: ss) t r := by
  obtain ⟨s', hs, hk⟩ := hn
  refine ⟨s', List.mem_cons_of_mem _ hs, ?_⟩
  rcases hk with hk | hk
  · exact .inl (by rw [strikes_congr h]; exact hk)
  · exact .inr (stores_congr h.symm hk)

/-- A row no statement names stays out once it is gone. -/
theorem execAll_absent (h : execAll now db ss = .ok db') (hn : ¬ NamedBy now db ss t r)
    (hr : r ∉ db.rows t) : r ∉ db'.rows t := by
  induction ss generalizing db with
  | nil =>
    cases h
    exact hr
  | cons s ss ih =>
    obtain ⟨db₁, hs, h⟩ := execAll_cons_ok h
    apply ih h
    · intro hn'
      exact hn (hn'.tail (exec_sameSchemas hs))
    · intro hm
      rcases (mem_exec hs).1 hm with hold | hst
      · exact hr hold.1
      · exact hn ⟨s, List.mem_cons_self, .inr hst⟩

theorem mem_rows_congr (h : SameSchemas db db') (hT : find db t = some T)
    (hr : r ∈ db'.rows t) : ∃ T', db'.find t = some T' ∧ T'.schema = T.schema ∧ r ∈ T'.rows := by
  obtain ⟨T', hT', hs⟩ := h.find hT
  rw [rows_of_find hT'] at hr
  exact ⟨T', hT', hs, hr⟩

/-- A row that a statement leaves in place. -/
theorem exec_survives (h : exec now db s = .ok db') (hr : r ∈ db.rows t)
    (hk : ¬ strikes now db s t r = true) (hd : ¬ Doomed db.tables (struckBy now db s) t r) :
    r ∈ db'.rows t :=
  (mem_exec h).2 (.inl ⟨hr, hk, hd⟩)

/-- A parent that the statement has just stored took the place of an old parent. -/
theorem parent_struck (h : exec now db s = .ok db') (hR : Referential db)
    (hT : db.find t = some T) (hf : f ∈ T.schema.foreignKeys) (hr : r ∈ T.rows)
    (hl : f.links r p = true) (hp : p ∈ db'.rows f.refTable) (hnew : p ∉ db.rows f.refTable) :
    ∃ q, struckBy now db s f.refTable q ∧ f.links r q = true := by
  rcases (mem_exec h).1 hp with hold | ⟨row, P, hs, hP, he⟩
  · exact (hnew hold.1).elim
  · obtain ⟨q, hq, hlq⟩ := hR.parents hT hf hr (ForeignKey.links_iff.1 hl).1
    refine ⟨q, ⟨hq, ?_⟩, hlq⟩
    have hc := hR.conflict hT hf hP hl hlq
    subst s
    rw [strikes_replace hP, ← he]
    exact ⟨rfl, hc⟩

theorem hitRows_head (h : struckBy now db s t r) : hitRows now db (s :: ss) t r :=
  ⟨h.1, s, List.mem_cons_self, h.2⟩

theorem HitBy.tail (h : HitBy now db ss t r) : HitBy now db (s :: ss) t r := by
  obtain ⟨s', hs, hk⟩ := h
  exact ⟨s', List.mem_cons_of_mem _ hs, hk⟩

theorem HitBy.cases (h : HitBy now db (s :: ss) t r) :
    strikes now db s t r = true ∨ HitBy now db ss t r := by
  obtain ⟨s', hs, hk⟩ := h
  rcases List.mem_cons.1 hs with he | hs
  · subst s'
    exact .inl hk
  · exact .inr ⟨s', hs, hk⟩

/-- What the rest of the list dooms, the whole list dooms. -/
theorem doomed_before (h : exec now db s = .ok db₁) (hR : Referential db)
    (hd : Doomed db₁.tables (hitRows now db₁ ss) t r) (hr : r ∈ db.rows t) :
    Doomed db.tables (hitRows now db (s :: ss)) t r := by
  have hss := exec_sameSchemas h
  have hback {t T₁ f} (hT₁ : db₁.tables.lookup t = some T₁) (hf : f ∈ T₁.schema.foreignKeys) :
      ∃ T, db.find t = some T ∧ f ∈ T.schema.foreignKeys := by
    obtain ⟨T, hT, hs⟩ := hss.symm.find hT₁
    exact ⟨T, hT, hs ▸ hf⟩
  induction hd with
  | @direct f p t T₁ r hp hT₁ hm hf hl =>
    obtain ⟨T, hT, hfT⟩ := hback hT₁ hf
    rw [rows_of_find hT] at hr
    by_cases hold : p ∈ db.rows f.refTable
    · exact .direct ⟨hold, (hitBy_congr hss.symm hp.2).tail⟩ hT hr hfT hl
    · obtain ⟨q, hq, hlq⟩ := parent_struck h hR hT hfT hr hl hp.1 hold
      exact .direct (hitRows_head hq) hT hr hfT hlq
  | @chain f q t T₁ r hd hT₁ hm hf hl ih =>
    obtain ⟨T, hT, hfT⟩ := hback hT₁ hf
    rw [rows_of_find hT] at hr
    by_cases hold : q ∈ db.rows f.refTable
    · exact .chain (ih hold) hT hr hfT hl
    · obtain ⟨q', hq', hlq⟩ := parent_struck h hR hT hfT hr hl
        (mem_rows_iff_holds.2 hd.holds) hold
      exact .direct (hitRows_head hq') hT hr hfT hlq

/-- What the whole list dooms and its first statement spares, the rest dooms. -/
theorem doomed_after (h : exec now db s = .ok db₁)
    (hd : Doomed db.tables (hitRows now db (s :: ss)) t r)
    (hk : ¬ strikes now db s t r = true) (hn : ¬ Doomed db.tables (struckBy now db s) t r) :
    Doomed db₁.tables (hitRows now db₁ ss) t r := by
  have hss := exec_sameSchemas h
  have hforth {t T f r} (hT : db.tables.lookup t = some T) (hr : r ∈ T.rows)
      (hf : f ∈ T.schema.foreignKeys) (hk : ¬ strikes now db s t r = true)
      (hn : ¬ Doomed db.tables (struckBy now db s) t r) :
      ∃ T₁, db₁.tables.lookup t = some T₁ ∧ r ∈ T₁.rows ∧ f ∈ T₁.schema.foreignKeys := by
    have hr' : r ∈ db.rows t := mem_rows_iff_holds.2 ⟨T, hT, hr⟩
    obtain ⟨T₁, hT₁, hs, hr₁⟩ := mem_rows_congr hss hT (exec_survives h hr' hk hn)
    exact ⟨T₁, hT₁, hr₁, hs ▸ hf⟩
  induction hd with
  | @direct f p t T r hp hT hr hf hl =>
    obtain ⟨T₁, hT₁, hr₁, hf₁⟩ := hforth hT hr hf hk hn
    have hkp : ¬ strikes now db s f.refTable p = true := fun hs =>
      hn (.direct ⟨hp.1, hs⟩ hT hr hf hl)
    have hnp : ¬ Doomed db.tables (struckBy now db s) f.refTable p := fun hd' =>
      hn (.chain hd' hT hr hf hl)
    have hh := hp.2.cases.resolve_left hkp
    exact .direct ⟨exec_survives h hp.1 hkp hnp, hitBy_congr hss hh⟩ hT₁ hr₁ hf₁ hl
  | @chain f q t T r hd hT hr hf hl ih =>
    obtain ⟨T₁, hT₁, hr₁, hf₁⟩ := hforth hT hr hf hk hn
    have hkq : ¬ strikes now db s f.refTable q = true := fun hs =>
      hn (.direct ⟨mem_rows_iff_holds.2 hd.holds, hs⟩ hT hr hf hl)
    have hnq : ¬ Doomed db.tables (struckBy now db s) f.refTable q := fun hd' =>
      hn (.chain hd' hT hr hf hl)
    exact .chain (ih hkq hnq) hT₁ hr₁ hf₁ hl

theorem not_doomed_nil : ¬ Doomed tabs (hitRows now db []) t r := by
  intro h
  induction h with
  | direct hp _ _ _ _ =>
    obtain ⟨s, hs, _⟩ := hp.2
    cases hs
  | chain _ _ _ _ _ ih => exact ih

/-- A transaction keeps a row that none of its statements names exactly when no row that
they delete dooms it. -/
theorem mem_execAll (h : execAll now db ss = .ok db') (hR : Referential db) (hr : r ∈ db.rows t)
    (hn : ¬ NamedBy now db ss t r) :
    r ∈ db'.rows t ↔ ¬ Doomed db.tables (hitRows now db ss) t r := by
  induction ss generalizing db with
  | nil =>
    cases h
    exact ⟨fun _ => not_doomed_nil, fun _ => hr⟩
  | cons s ss ih =>
    obtain ⟨db₁, hs, h⟩ := execAll_cons_ok h
    have hss := exec_sameSchemas hs
    have hk : ¬ strikes now db s t r = true := fun hk => hn ⟨s, List.mem_cons_self, .inl hk⟩
    have hn₁ : ¬ NamedBy now db₁ ss t r := fun hn' => hn (hn'.tail hss)
    by_cases hd : Doomed db.tables (struckBy now db s) t r
    · have hr₁ : r ∉ db₁.rows t := by
        intro hm
        rcases (mem_exec hs).1 hm with hold | hst
        · exact hold.2.2 hd
        · exact hn ⟨s, List.mem_cons_self, .inr hst⟩
      apply Iff.intro
      · intro hm
        exact (execAll_absent h hn₁ hr₁ hm).elim
      · intro hn'
        exact (hn' (hd.mono fun _ _ => hitRows_head)).elim
    · have hr₁ := exec_survives hs hr hk hd
      rw [ih h (exec_referential hs hR) hr₁ hn₁]
      exact not_congr ⟨fun hd' => doomed_before hs hR hd' hr, fun hd' => doomed_after hs hd' hk hd⟩

/-- The rows of every table are apart under its keys. -/
def RowsApart (db : Database) : Prop :=
  ∀ t T, db.find t = some T → T.rows.Pairwise fun r r' => ¬ T.schema.conflicts r r' = true

theorem RowsApart.deleteRows (h : RowsApart db) (t : String) (p : Row → Bool) :
    RowsApart (db.deleteRows t p) := by
  intro u T' hT'
  obtain ⟨T, hT, hs, hl⟩ := find_deleteRows hT'
  rw [hs]
  exact (h u T hT).sublist hl

/-- A transaction is applied as a whole or not at all. -/
def commit (now : String) (db : Database) (ss : List Stmt) : Database :=
  match db.execAll now ss with
  | .ok db' => db'
  | .error _ => db

/-- Transactions one after the other, whatever becomes of each. -/
def commitAll (now : String) (db : Database) (txs : List (List Stmt)) : Database :=
  txs.foldl (commit now) db

/-- The statements of the transactions that are applied. -/
def applied (now : String) (db : Database) : List (List Stmt) → List Stmt
  | [] => []
  | ss :: txs =>
    match db.execAll now ss with
    | .ok db' => ss ++ db'.applied now txs
    | .error _ => db.applied now txs

theorem execAll_applied (now : String) (db : Database) (txs : List (List Stmt)) :
    execAll now db (applied now db txs) = .ok (commitAll now db txs) := by
  induction txs generalizing db with
  | nil => rfl
  | cons ss txs ih =>
    rw [applied, commitAll, List.foldl_cons, commit]
    cases he : db.execAll now ss with
    | ok db' =>
      simp only [execAll_append, he]
      exact ih db'
    | error e => exact ih db

theorem mem_applied (h : s ∈ applied now db txs) : ∃ ss ∈ txs, s ∈ ss := by
  induction txs generalizing db with
  | nil => cases h
  | cons ss txs ih =>
    rw [applied] at h
    cases he : db.execAll now ss with
    | ok db' =>
      simp only [he, List.mem_append] at h
      rcases h with h | h
      · exact ⟨ss, List.mem_cons_self, h⟩
      · obtain ⟨ss', hss, hs⟩ := ih h
        exact ⟨ss', List.mem_cons_of_mem _ hss, hs⟩
    | error e =>
      simp only [he] at h
      obtain ⟨ss', hss, hs⟩ := ih h
      exact ⟨ss', List.mem_cons_of_mem _ hss, hs⟩

end Database
end Relational
