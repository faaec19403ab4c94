import AnythingTools.Management.Reconciler

namespace Management
open Relational Relational.Database Session Schemas
set_option autoImplicit true

/-- A start does not drop the column: the script of the table has it, or the table is virtual, or
there is no script for it. -/
def Surviving (expectedTables : List (String × TableDdl)) (t : String) (T : Table) (c : String) :
    Prop :=
  ∀ d, (t, d) ∈ expectedTables →
    T.schema.module.isSome = true ∨ c ∈ (desiredCols t d).map Column.name

/-- Every row of a table that a start does not drop is still there, with the same values in the
columns that a start does not drop. -/
def Kept (expectedTables : List (String × TableDdl)) (db₀ db : Database) : Prop :=
  ∀ t T₀, isUnexpected expectedTables t = false → db₀.find t = some T₀ →
    ∃ T, db.find t = some T ∧ T₀.Keeps (Surviving expectedTables t T₀) T

/-- No flag of a table differs from its script. -/
def Undrifted (p : String × TableDdl) (db : Database) : Prop :=
  ∀ T, db.find p.1 = some T → T.schema.module = none →
    constraintDrift T.schema.columns (desiredCols p.1 p.2) = []

theorem Kept.refl (expectedTables : List (String × TableDdl)) (db : Database) :
    Kept expectedTables db db :=
  fun _ T₀ _ hT => ⟨T₀, hT, .refl _ T₀⟩

theorem not_unexpected_of_mem (h : (t, d) ∈ expectedTables) :
    isUnexpected expectedTables t = false := by
  have hany : (expectedTables.any fun p => decide (p.1 = t)) = true :=
    List.any_eq_true.2 ⟨(t, d), h, decide_eq_true rfl⟩
  rw [isUnexpected, hany, Bool.not_true, Bool.and_false]

/-- What a step on one table does to what was kept so far. -/
theorem Kept.step (h : Kept ex db₀ db) (hothers : ∀ u, u ≠ t → db'.find u = db.find u)
    (hself : ∀ T₀ T, isUnexpected ex t = false → db₀.find t = some T₀ → db.find t = some T →
      T₀.Keeps (Surviving ex t T₀) T →
        ∃ T', db'.find t = some T' ∧ T₀.Keeps (Surviving ex t T₀) T') : Kept ex db₀ db' := by
  intro u U₀ hu hU
  obtain ⟨U, hfind, hkeeps⟩ := h u U₀ hu hU
  by_cases hut : u = t
  · subst hut
    exact hself U₀ U hu hU hfind hkeeps
  · exact ⟨U, (hothers u hut).trans hfind, hkeeps⟩

/-- The invariant of a start: the rows are kept, and the tables still to be checked have no drift. -/
structure Good (ex : List (String × TableDdl)) (db₀ : Database) (rest : List (String × TableDdl))
    (db : Database) : Prop where
  kept : Kept ex db₀ db
  undrifted : ∀ p ∈ rest, Undrifted p db

/-- The database and the backup beside it. -/
def Sound (ex : List (String × TableDdl)) (db₀ : Database) (rest : List (String × TableDdl))
    (s : Opened) : Prop :=
  Good ex db₀ rest s.db ∧ ∀ b, s.bak = some (.of b) → Good ex db₀ rest b

variable {ex rest : List (String × TableDdl)} {db₀ db db' : Database} {cfg : Start}

theorem Undrifted.congr (h : Undrifted p db) (he : db'.find p.1 = db.find p.1) :
    Undrifted p db' := by
  intro T hT
  exact h T (he ▸ hT)

/-- A step on a table that is not to be checked any more. -/
theorem Good.step (h : Good ex db₀ rest db) (hothers : ∀ u, u ≠ t → db'.find u = db.find u)
    (hrest : ∀ p ∈ rest, p.1 ≠ t)
    (hself : ∀ T₀ T, isUnexpected ex t = false → db₀.find t = some T₀ → db.find t = some T →
      T₀.Keeps (Surviving ex t T₀) T →
        ∃ T', db'.find t = some T' ∧ T₀.Keeps (Surviving ex t T₀) T') : Good ex db₀ rest db' where
  kept := h.kept.step hothers hself
  undrifted p hp := (h.undrifted p hp).congr (hothers p.1 (hrest p hp))

theorem Good.congr (h : Good ex db₀ rest db) (he : ∀ u, db'.find u = db.find u) :
    Good ex db₀ rest db' where
  kept t T₀ ht hT := by
    obtain ⟨T, hfind, hkeeps⟩ := h.kept t T₀ ht hT
    exact ⟨T, (he t).trans hfind, hkeeps⟩
  undrifted p hp := (h.undrifted p hp).congr (he p.1)

theorem Good.dropTable (h : Good ex db₀ rest db) (ht : isUnexpected ex t = true)
    (hrest : ∀ p ∈ rest, p.1 ≠ t) : Good ex db₀ rest (db.dropTable false t) := by
  refine h.step (fun u hu => find_dropTable_ne db false hu) hrest ?_
  intro T₀ T hexpected
  rw [ht] at hexpected
  cases hexpected

theorem Good.addColumn (h : Good ex db₀ rest db) (hrest : ∀ p ∈ rest, p.1 ≠ t)
    (hadd : db.addColumn t c = .ok db') : Good ex db₀ rest db' := by
  obtain ⟨U, U', hU, hU', hkeeps, hothers⟩ := addColumn_ok hadd
  refine h.step hothers hrest ?_
  intro T₀ T _ _ hT hT₀
  rw [hU] at hT
  cases hT
  exact ⟨U', hU', hT₀.trans (hkeeps _)⟩

theorem Good.dropColumn (h : Good ex db₀ rest db) (hrest : ∀ p ∈ rest, p.1 ≠ t)
    (hextra : ∀ T₀, isUnexpected ex t = false → db₀.find t = some T₀ → ¬ Surviving ex t T₀ c)
    (hdrop : db.dropColumn t c = .ok db') : Good ex db₀ rest db' := by
  obtain ⟨U, U', hU, hU', hkeeps, hothers⟩ := dropColumn_ok hdrop
  refine h.step hothers hrest ?_
  intro T₀ T ht hfind hT hT₀
  rw [hU] at hT
  cases hT
  exact ⟨U', hU', hT₀.trans (hkeeps _ (hextra T₀ ht hfind))⟩

theorem Good.execDdl (h : Good ex db₀ rest db) (hrest : ∀ p ∈ rest, p.1 ≠ t) (hs : s.On t)
    (hexec : db.execDdl s = .ok db') : Good ex db₀ rest db' := by
  cases s with
  | table ifNotExists u S =>
    cases hs
    rcases createTable_find hexec with rfl | ⟨hnone, hothers⟩
    · exact h
    · refine h.step hothers hrest ?_
      intro T₀ T _ _ hT
      rw [hnone] at hT
      cases hT
  | index u d => exact h.congr (createIndex_find hexec)

/-- The column is not one whose values have to be kept. -/
def Free (ex : List (String × TableDdl)) (db₀ : Database) (t c : String) : Prop :=
  ∀ T₀, isUnexpected ex t = false → db₀.find t = some T₀ → c ∈ T₀.schema.names →
    ¬ Surviving ex t T₀ c

theorem Good.updateWhere (h : Good ex db₀ rest db) (hfree : Free ex db₀ t c)
    (hupdate : db.updateWhere t c v p = .ok db') : Good ex db₀ rest db' := by
  obtain ⟨U, hU, hU', hothers⟩ := updateWhere_ok hupdate
  constructor
  · refine h.kept.step hothers ?_
    intro T₀ T ht hfind hT hT₀
    rw [hU] at hT
    cases hT
    refine ⟨_, hU', hT₀.names, ?_, hT₀.module⟩
    intro r hr
    obtain ⟨q, hq, hagree⟩ := hT₀.rows r hr
    refine ⟨if p q then q.set c v else q, List.mem_map_of_mem hq, ?_⟩
    intro d hd hs
    have hne : d ≠ c := fun he => hfree T₀ ht hfind (he ▸ hd) (he ▸ hs)
    split
    · exact (Row.get_set_ne q v hne).trans (hagree d hd hs)
    · exact hagree d hd hs
  · intro q hq T hT hmodule
    by_cases hqt : q.1 = t
    · rw [hqt] at hT ⊢
      rw [hU'] at hT
      cases hT
      have hold := h.undrifted q hq U
      rw [hqt] at hold
      exact hold hU hmodule
    · exact h.undrifted q hq T ((hothers q.1 hqt).symm.trans hT) hmodule

theorem onDb_ensures {m : Conn α} {Q : α → Prop} (h : Ensures (Good ex db₀ rest) m Q) :
    Ensures (Sound ex db₀ rest) (onDb m) Q := by
  intro s hs
  obtain ⟨hgood, hq⟩ := h s.db hs.1
  rw [left] at hgood ⊢
  rw [onDb, exec_bind_ok (exec_get s)]
  cases he : exec m s.db with
  | mk r db =>
    rw [he] at hgood hq
    cases r with
    | ok a =>
      refine ⟨⟨hgood, hs.2⟩, ?_⟩
      intro b hb
      cases hb
      exact hq a rfl
    | error e =>
      refine ⟨⟨hgood, hs.2⟩, ?_⟩
      intro b hb
      cases hb

theorem onDb_stmt {f : Database → Except SqlError Database}
    (h : ∀ db db', f db = .ok db' → Good ex db₀ rest db → Good ex db₀ rest db') :
    Ensures (Sound ex db₀ rest) (onDb (stmt f)) fun _ => True :=
  onDb_ensures (Ensures.stmt h)

/-- What a report may ask for: no migration, and fillers of new columns only. -/
def Harmless (ex : List (String × TableDdl)) (db₀ : Database) (report : Report) : Prop :=
  report.typeMismatchPlans = [] ∧ ∀ p ∈ report.pendingFills, ∀ c ∈ p.2, Free ex db₀ p.1 c

theorem pruneUnexpected_ensures (cfg : Start) (db₀ : Database) :
    Ensures (Sound cfg.expectedTables db₀ cfg.expectedTables) (pruneUnexpected cfg)
      (Harmless cfg.expectedTables db₀) := by
  apply Ensures.bind Ensures.get
  intro s _
  apply Ensures.bind
  · apply Ensures.forM
    intro table htable
    have ht : isUnexpected cfg.expectedTables table = true := (List.mem_filter.1 htable).2
    apply onDb_stmt
    intro db db' hdrop h
    cases hdrop
    refine h.dropTable ht ?_
    rintro p hp rfl
    rw [not_unexpected_of_mem hp] at ht
    cases ht
  · exact fun _ _ => Ensures.pure ⟨rfl, fun p hp => nomatch hp⟩

theorem addMissingColumns_ensures (hrest : ∀ p ∈ rest, p.1 ≠ t) (d : TableDdl)
    (missing : List Column) :
    Ensures (Sound ex db₀ rest) (addMissingColumns t d missing) fun _ => True := by
  apply Ensures.foldlM
  · intro added c _ _
    apply Ensures.attempt
    · apply Ensures.bind
      · apply onDb_stmt
        intro db db' hadd h
        exact h.addColumn hrest hadd
      · exact fun _ _ => Ensures.pure trivial
    · exact fun _ => Ensures.pure trivial
  · trivial

theorem indexIsOn_ensures (c : String) (terms : List IndexTerm) :
    Ensures (Sound ex db₀ rest) (indexIsOn c terms) fun _ => True := by
  induction terms with
  | nil => exact Ensures.pure trivial
  | cons m terms ih =>
    cases m with
    | expr sql => exact Ensures.throw _ _
    | column n =>
      rw [indexIsOn]
      split
      · exact Ensures.pure trivial
      · exact ih

theorem dropDependentIndexes_ensures (t c : String) :
    Ensures (Sound ex db₀ rest) (dropDependentIndexes t c) fun _ => True := by
  apply Ensures.bind Ensures.get
  intro s _
  apply Ensures.forM
  intro e _
  apply Ensures.bind (indexIsOn_ensures c e.2.terms)
  intro dependent _
  split
  · apply onDb_stmt
    intro db db' hdrop h
    cases hdrop
    exact h.congr (find_dropIndex db e.1)
  · exact Ensures.pure trivial

theorem backupBeforeDrop_ensures (cfg : Start) (t c : String) :
    Ensures (Sound ex db₀ rest) (backupBeforeDrop cfg t c) fun _ => True := by
  apply Ensures.bind Ensures.get
  intro s hs
  split
  · apply Ensures.bind
    · apply Ensures.set
      refine ⟨hs.1, ?_⟩
      intro b hb
      cases hb
      exact hs.1
    · exact fun _ _ => Ensures.pure trivial
  · split
    · apply Ensures.bind
      · apply Ensures.set
        refine ⟨hs.1, ?_⟩
        intro b hb
        cases hb
      · exact fun _ _ => Ensures.pure trivial
    · exact Ensures.pure trivial

theorem revertToBackup_ensures (t c : String) :
    Ensures (Sound ex db₀ rest) (revertToBackup t c) fun _ => True := by
  apply Ensures.bind Ensures.get
  intro s hs
  split
  next db hbak =>
    apply Ensures.bind
    · apply Ensures.set
      exact ⟨hs.2 db hbak, hs.2⟩
    · exact fun _ _ => Ensures.throw _ _
  next => exact Ensures.throw _ _

theorem dropColumnSteps_ensures (cfg : Start) (hrest : ∀ p ∈ rest, p.1 ≠ t)
    (hextra : ∀ T₀, isUnexpected ex t = false → db₀.find t = some T₀ → ¬ Surviving ex t T₀ c) :
    Ensures (Sound ex db₀ rest) (dropColumnSteps cfg t c) fun _ => True := by
  apply Ensures.bind (dropDependentIndexes_ensures t c)
  intro _ _
  split
  · exact Ensures.throw _ _
  · apply onDb_stmt
    intro db db' hdrop h
    exact h.dropColumn hrest hextra hdrop

theorem dropExtraColumn_ensures (cfg : Start) (hrest : ∀ p ∈ rest, p.1 ≠ t)
    (hextra : ∀ T₀, isUnexpected ex t = false → db₀.find t = some T₀ → ¬ Surviving ex t T₀ c)
    (dropped : List String) :
    Ensures (Sound ex db₀ rest) (dropExtraColumn cfg t c dropped) fun _ => True := by
  apply Ensures.bind (backupBeforeDrop_ensures cfg t c)
  intro backupPath _
  apply Ensures.attempt
  · apply Ensures.bind (dropColumnSteps_ensures cfg hrest hextra)
    exact fun _ _ => Ensures.pure trivial
  · intro _
    split
    · exact revertToBackup_ensures t c
    · exact Ensures.pure trivial

theorem validateStructure_ensures (cfg : Start) (hmem : (t, d) ∈ cfg.expectedTables)
    (hrest : ∀ p ∈ rest, p.1 ≠ t) (hgood : Good cfg.expectedTables db₀ ((t, d) :: rest) db)
    (hreport : Harmless cfg.expectedTables db₀ report) :
    Ensures (Sound cfg.expectedTables db₀ rest) (validateStructure cfg t d report (db.find t))
      (Harmless cfg.expectedTables db₀) := by
  have hexpected := not_unexpected_of_mem hmem
  cases hT : db.find t with
  | none =>
    apply Ensures.bind
    · apply onDb_ensures
      apply Ensures.forM
      intro s hs
      apply Ensures.stmt
      intro db db' hexec h
      exact h.execDdl hrest (statements_on t d s hs) hexec
    · exact fun _ _ => Ensures.pure hreport
  | some T =>
    have hkeeps (T₀ : Table) (hT₀ : db₀.find t = some T₀) :
        T₀.Keeps (Surviving cfg.expectedTables t T₀) T := by
      obtain ⟨U, hU, hkeeps⟩ := hgood.kept t T₀ hexpected hT₀
      rw [hT] at hU
      cases hU
      exact hkeeps
    rw [validateStructure]
    split
    next => exact Ensures.pure hreport
    next hmodule =>
      have hplain : T.schema.module = none := by
        rwa [Bool.not_eq_true, Option.isSome_eq_false_iff, Option.isNone_iff_eq_none] at hmodule
      split
      next => exact Ensures.throw _ _
      next =>
        split
        next hdrift =>
          exact absurd (hgood.undrifted (t, d) List.mem_cons_self T hT hplain) hdrift
        next =>
          apply Ensures.bind (addMissingColumns_ensures hrest d _)
          intro added _
          apply Ensures.bind
          · apply Ensures.foldlM
            · intro dropped c hc _
              apply dropExtraColumn_ensures cfg hrest
              intro T₀ _ hT₀ hsurviving
              have hextra := (List.mem_filter.1 (List.mem_dedup.1 ((cfg.order _).2.mem_iff.1 hc))).2
              rcases hsurviving d hmem with hvirtual | hdesired
              · rw [← (hkeeps T₀ hT₀).module, hplain] at hvirtual
                cases hvirtual
              · exact of_decide_eq_true hextra hdesired
            · trivial
          · intro _ _
            split
            · exact Ensures.pure hreport
            · refine Ensures.pure ⟨hreport.1, ?_⟩
              intro p hp c hc
              dsimp only at hp
              split at hp
              · exact hreport.2 p hp c hc
              · rcases List.mem_append.1 hp with hp | hp
                · exact hreport.2 p hp c hc
                · cases List.mem_singleton.1 hp
                  obtain ⟨k, hk, rfl⟩ := List.mem_map.1 hc
                  intro T₀ _ hT₀ hold hsurviving
                  exact of_decide_eq_true (List.mem_filter.1 hk).2
                    ((hkeeps T₀ hT₀).names k.name hold hsurviving)

/-- The checks of all tables: those that are left have no drift at any time. -/
theorem validateStructures_ensures (cfg : Start) (ps : List (String × TableDdl))
    (hmem : ∀ p ∈ ps, p ∈ cfg.expectedTables) (hnodup : (ps.map Prod.fst).Nodup)
    (hreport : Harmless cfg.expectedTables db₀ report) {s : Opened}
    (hs : Sound cfg.expectedTables db₀ ps s) :
    Sound cfg.expectedTables db₀ [] (left (validateStructures cfg ps report) s) ∧
      ∀ r, (exec (validateStructures cfg ps report) s).1 = .ok r →
        Harmless cfg.expectedTables db₀ r := by
  induction ps generalizing report s with
  | nil =>
    refine ⟨hs, ?_⟩
    intro r hr
    cases hr
    exact hreport
  | cons p ps ih =>
    obtain ⟨t, d⟩ := p
    rw [List.map_cons, List.nodup_cons] at hnodup
    have hrest : ∀ p ∈ ps, p.1 ≠ t := fun p hp he => hnodup.1 (List.mem_map.2 ⟨p, hp, he⟩)
    have htail : Sound cfg.expectedTables db₀ ps s :=
      ⟨⟨hs.1.kept, fun p hp => hs.1.undrifted p (List.mem_cons_of_mem _ hp)⟩,
        fun b hb => ⟨(hs.2 b hb).kept,
          fun p hp => (hs.2 b hb).undrifted p (List.mem_cons_of_mem _ hp)⟩⟩
    obtain ⟨hsound, hharmless⟩ :=
      validateStructure_ensures cfg (hmem _ List.mem_cons_self) hrest hs.1 hreport s htail
    rw [validateStructures, left, exec_bind_ok (exec_get s), exec_bind]
    rw [left] at hsound
    cases he : exec (validateStructure cfg t d report (s.db.find t)) s with
    | mk r s₁ =>
      rw [he] at hsound hharmless
      cases r with
      | ok report₁ =>
        exact ih (fun p hp => hmem p (List.mem_cons_of_mem _ hp)) hnodup.2 (hharmless report₁ rfl)
          hsound
      | error e =>
        refine ⟨⟨⟨hsound.1.kept, fun p hp => absurd hp List.not_mem_nil⟩,
          fun b hb => ⟨(hsound.2 b hb).kept, fun p hp => absurd hp List.not_mem_nil⟩⟩, ?_⟩
        intro r hr
        cases hr

theorem fillContentHash_ensures (hfree : Free ex db₀ t c) (e : Sync.Env) :
    Ensures (Good ex db₀ rest) (fillContentHash e t c) fun _ => True := by
  unfold fillContentHash
  dsimp only
  split
  · exact Ensures.pure trivial
  · apply Ensures.bind Ensures.get
    intro db _
    split
    · split
      · exact Ensures.throw _ _
      · apply Ensures.bind
        · apply Ensures.forM
          intro p _
          apply Ensures.stmt
          intro db db' hupdate h
          exact h.updateWhere hfree hupdate
        · exact fun _ _ => Ensures.pure trivial
    · exact Ensures.throw _ _
    · exact Ensures.throw _ _

theorem fillEmbeddingStatus_ensures (hfree : Free ex db₀ t c) (e : Sync.Env) :
    Ensures (Good ex db₀ rest) (fillEmbeddingStatus e t c) fun _ => True := by
  apply Ensures.bind Ensures.get
  intro db _
  apply Ensures.bind
  · apply Ensures.stmt
    intro db db' hupdate h
    exact h.updateWhere hfree hupdate
  · exact fun _ _ => Ensures.pure trivial

theorem getFiller_ensures {filler : ColumnFillFunc} (h : getFiller t c = some filler)
    (hfree : Free ex db₀ t c) (e : Sync.Env) :
    Ensures (Good ex db₀ rest) (filler e t c) fun _ => True := by
  rw [getFiller] at h
  split at h
  · cases h
    exact fillContentHash_ensures hfree e
  · split at h
    · cases h
      exact fillEmbeddingStatus_ensures hfree e
    · cases h

theorem runAutoFill_ensures (cfg : Start) (hfree : Free ex db₀ t c) :
    Ensures (Sound ex db₀ rest) (runAutoFill cfg t c) fun _ => True := by
  rw [runAutoFill]
  split
  · exact Ensures.pure trivial
  next filler hfiller =>
    apply Ensures.attempt
    · apply Ensures.bind Ensures.get
      intro s _
      split
      · exact Ensures.pure trivial
      · apply Ensures.bind (onDb_ensures (getFiller_ensures hfiller hfree cfg.env))
        exact fun _ _ => Ensures.pure trivial
    · exact fun _ => Ensures.pure trivial

/-- A reconciliation of tables without drift keeps the rows, whether or not it fails. -/
theorem reconcile_sound (cfg : Start) {s : Opened}
    (hs : Sound cfg.expectedTables db₀ cfg.expectedTables s) :
    Sound cfg.expectedTables db₀ [] (left (reconcile cfg) s) ∧
      ∀ r, (exec (reconcile cfg) s).1 = .ok r → r.typeMismatchPlans = [] := by
  have hweak {s : Opened} (h : Sound cfg.expectedTables db₀ cfg.expectedTables s) :
      Sound cfg.expectedTables db₀ [] s :=
    ⟨⟨h.1.kept, fun p hp => nomatch hp⟩, fun b hb => ⟨(h.2 b hb).kept, fun p hp => nomatch hp⟩⟩
  obtain ⟨hprune, hpruned⟩ := pruneUnexpected_ensures cfg db₀ s hs
  rw [left] at hprune ⊢
  rw [reconcile, exec_bind]
  cases hp : exec (pruneUnexpected cfg) s with
  | mk r s₁ =>
    rw [hp] at hprune hpruned
    cases r with
    | error e =>
      refine ⟨hweak hprune, ?_⟩
      intro r hr
      cases hr
    | ok pruned =>
      obtain ⟨hstructures, hharmless⟩ :=
        validateStructures_ensures cfg cfg.expectedTables (fun _ h => h) cfg.nodup
          (hpruned pruned rfl) hprune
      dsimp only
      rw [left] at hstructures
      rw [exec_bind]
      cases hv : exec (validateStructures cfg cfg.expectedTables pruned) s₁ with
      | mk r s₂ =>
        rw [hv] at hstructures hharmless
        cases r with
        | error e =>
          refine ⟨hstructures, ?_⟩
          intro r hr
          cases hr
        | ok report =>
          obtain ⟨hplans, hfills⟩ := hharmless report rfl
          have hrest : Ensures (Sound cfg.expectedTables db₀ [])
              (do
                runPendingAutoFills cfg report.pendingFills
                return report) fun r => r.typeMismatchPlans = [] := by
            apply Ensures.bind
            · apply Ensures.forM
              intro p hp
              apply Ensures.forM
              intro c hc
              exact runAutoFill_ensures cfg (hfills p hp c hc)
            · exact fun _ _ => Ensures.pure hplans
          exact hrest s₂ hstructures

end Management
