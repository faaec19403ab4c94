import AnythingTools.Sync.PullReplica

namespace Sync
open Relational Relational.Database Schemas Refresh
set_option autoImplicit true

/-- Each record that can be written has a rowid of its own, and whatever of the cloud table is
fetched settles. -/
structure CalmTable (e : Env) (db : Database) (t : String) (C T : Table) : Prop where
  numbered : ∀ c ∈ C.rows, ∀ r, record e t C.schema c = some r → ∀ now, T.schema.Numbered now r
  calm : ∀ now, (replicaAt e db t C T).Calm now T.rows

/-- The tables that a pull goes through are calm. -/
def CalmTables (e : Env) (cloud db : Database) : Prop :=
  ∀ p ∈ e.tables, isVirtual p.2 = false → ∀ C T, cloud.find p.1 = some C →
    db.find p.1 = some T → CalmTable e db p.1 C T

/-- The same rows in every table, in whatever order. -/
def SameTables (db db' : Database) : Prop :=
  ∀ t, (db'.find t).map Table.schema = (db.find t).map Table.schema ∧
    (db'.rows t).Perm (db.rows t)

/-- Every read of the local table goes through; where it does not, the manifest is empty. -/
def Pull.Reads (p : Pull) : Prop :=
  ∀ t, p.first.fails (.readManifest t) = none ∧ p.retry.fails (.readManifest t) = none

/-- After a pull that came to its end, at the first or the second run, another one changes no
table, however far it comes. -/
def PullsOnce (e : Env) (cloud db : Database) : Prop :=
  ∀ first second : Pull, first.Reads → second.Reads →
    (pullInto e cloud first db).2 = none →
      SameTables (pullInto e cloud first db).1
        (pullInto e cloud second (pullInto e cloud first db).1).1

theorem SameTables.refl (db : Database) : SameTables db db := fun _ => ⟨rfl, .refl _⟩

theorem SameTables.trans (h : SameTables db₁ db₂) (h' : SameTables db₂ db₃) :
    SameTables db₁ db₃ :=
  fun t => ⟨(h' t).1.trans (h t).1, (h' t).2.trans (h t).2⟩

/-- Of a table nothing is wanted that is not there already. -/
structure SettledTable (e : Env) (db : Database) (t : String) (C T : Table) : Prop where
  numbered : ∀ c ∈ C.rows, ∀ r, record e t C.schema c = some r → ∀ now, T.schema.Numbered now r
  settled : (replicaAt e db t C T).Settled T.rows

def SettledAt (e : Env) (cloud db : Database) (t : String) : Prop :=
  ∀ C T, cloud.find t = some C → db.find t = some T → SettledTable e db t C T

theorem SettledTable.congr (h : SettledTable e db t C T) (hT : find db t = some T)
    (hT' : find db' t = some T') (hs : T'.schema = T.schema) (hp : T'.rows.Perm T.rows) :
    SettledTable e db' t C T' where
  numbered := by
    rw [hs]
    exact h.numbered
  settled := by
    rw [replicaAt_congr hT hT' hs]
    exact h.settled.congr hp.symm

theorem SettledAt.congr (h : SettledAt e cloud db t) (hf : find db' t = find db t) :
    SettledAt e cloud db' t := by
  intro C T hC hT
  rw [hf] at hT
  exact (h C T hC hT).congr hT (hf.trans hT) rfl (.refl _)

/-- The fetched rows are written as the replica writes them. -/
theorem refresh_of_upsertAll {cs : List Row}
    (hn : ∀ c ∈ C.rows, ∀ r, record e t C.schema c = some r → T.schema.Numbered now r)
    (hcs : cs.Perm ((replicaAt e db t C T).fetch T.rows))
    (hu : T.upsertAll now (cs.filterMap (record e t C.schema)) = .ok T') :
    T'.rows = (replicaAt e db t C T).refresh now cs T.rows := by
  rw [Table.upsertAll_putAll hu, List.map_filterMap]
  · rfl
  · intro r hr
    obtain ⟨c, hc, hrec⟩ := List.mem_filterMap.1 hr
    exact hn c (Replica.mem_fetch _ |>.1 (hcs.mem_iff.1 hc)).1 r hrec

section
variable {e : Env} {cloud : Database} {l l' : LocalDb e.tables} {a : Attempt}
  {p : String × TableDdl}

theorem pullTable_settles (hp : p ∈ e.tables) (hv : isVirtual p.2 = false)
    (hr : a.fails (.readManifest p.1) = none) (h : pullTable e cloud a p.1 l.db = .ok db')
    (hcalm : ∀ C T, cloud.find p.1 = some C → l.db.find p.1 = some T →
      CalmTable e l.db p.1 C T) : SettledAt e cloud db' p.1 := by
  obtain ⟨C, T, T', hC, hT, hM, hu, hfind, _⟩ := pullTable_fetch hp hv hr h
  have hcs := (a.order p.1).perm ((replicaAt e l.db p.1 C T).fetch T.rows)
  intro C' U hC' hU
  rw [hC, Option.some.injEq] at hC'
  subst hC'
  rw [hfind, Option.some.injEq] at hU
  subst hU
  obtain ⟨hn, hcalm⟩ := hcalm C T hC hT
  have hs := Table.upsertAll_schema hu
  have hrows := refresh_of_upsertAll (fun c hc r hrec => hn c hc r hrec _) hcs hu
  refine ⟨by rw [hs]; exact hn, ?_⟩
  rw [replicaAt_congr hT hfind hs, hrows]
  exact (hcalm (a.now p.1)).settled hM.lawful hcs

theorem pullTable_keeps (hp : p ∈ e.tables) (hv : isVirtual p.2 = false)
    (hr : a.fails (.readManifest p.1) = none) (h : pullTable e cloud a p.1 l.db = .ok db')
    (hset : SettledAt e cloud l.db p.1) : SameTables l.db db' ∧ SettledAt e cloud db' p.1 := by
  obtain ⟨C, T, T', hC, hT, hM, hu, hfind, hframe⟩ := pullTable_fetch hp hv hr h
  have hcs := (a.order p.1).perm ((replicaAt e l.db p.1 C T).fetch T.rows)
  obtain ⟨hn, hsettled⟩ := hset C T hC hT
  have hs := Table.upsertAll_schema hu
  have hperm : T'.rows.Perm T.rows := by
    rw [refresh_of_upsertAll (fun c hc r hrec => hn c hc r hrec _) hcs hu]
    exact hsettled.refresh_perm hM.lawful (l.keyed p.1 T hT) hcs _
  constructor
  · intro t
    by_cases ht : t = p.1
    · subst ht
      rw [hfind, hT, rows_of_find hfind, rows_of_find hT]
      exact ⟨congrArg some hs, hperm⟩
    · rw [Database.rows, Database.rows, hframe t ht]
      exact ⟨rfl, .refl _⟩
  · intro C' U hC' hU
    rw [hC, Option.some.injEq] at hC'
    subst hC'
    rw [hfind, Option.some.injEq] at hU
    subst hU
    exact (hset C T hC hT).congr hT hfind hs hperm

/-- While a pull goes on, each table is as it was before the call, or settled. -/
def Ready (e : Env) (cloud : Database) (l l' : LocalDb e.tables) : Prop :=
  ∀ p ∈ e.tables, isVirtual p.2 = false →
    SettledAt e cloud l'.db p.1 ∨ l'.db.find p.1 = l.db.find p.1

/-- What a run hands on: no table that was settled is unsettled again. -/
structure Advances (e : Env) (cloud : Database) (l l' l'' : LocalDb e.tables) : Prop where
  ready : Ready e cloud l l''
  keeps : ∀ p ∈ e.tables, isVirtual p.2 = false → SettledAt e cloud l'.db p.1 →
    SettledAt e cloud l''.db p.1

theorem Advances.refl (h : Ready e cloud l l') : Advances e cloud l l' l' := ⟨h, fun _ _ _ => id⟩

theorem Advances.trans (h : Advances e cloud l l₁ l₂) (h' : Advances e cloud l l₂ l₃) :
    Advances e cloud l l₁ l₃ :=
  ⟨h'.ready, fun p hp hv hs => h'.keeps p hp hv (h.keeps p hp hv hs)⟩

/-- The pull of a table settles it and leaves the others alone. -/
theorem Ready.pullTable (hcalm : CalmTables e cloud l.db) (h : Ready e cloud l l')
    (hp : p ∈ e.tables) (hv : isVirtual p.2 = false) (hr : a.fails (.readManifest p.1) = none)
    (hpull : pullTable e cloud a p.1 l'.db = .ok db') :
    ∃ l'' : LocalDb e.tables, l''.db = db' ∧ Advances e cloud l l' l'' ∧
      SettledAt e cloud l''.db p.1 := by
  obtain ⟨C, T, T', hC, hT, _, _, _, hframe⟩ := pullTable_fetch hp hv hr hpull
  obtain ⟨l'', rfl⟩ := l'.pullTable hpull hT
  have hset : SettledAt e cloud l''.db p.1 := by
    rcases h p hp hv with hs | hold
    · exact (pullTable_keeps hp hv hr hpull hs).2
    · apply pullTable_settles hp hv hr hpull
      intro C U hC hU
      have hU' := hU
      rw [hold] at hU'
      obtain ⟨hn, hcl⟩ := hcalm p hp hv C U hC hU'
      refine ⟨hn, ?_⟩
      rw [replicaAt_congr hU' hU rfl]
      exact hcl
  refine ⟨l'', rfl, ⟨?_, ?_⟩, hset⟩
  · intro q hq hvq
    by_cases hqp : q.1 = p.1
    · rw [hqp]
      exact .inl hset
    · rcases h q hq hvq with hs | hold
      · exact .inl (hs.congr (hframe q.1 hqp))
      · exact .inr ((hframe q.1 hqp).trans hold)
  · intro q _ _ hs
    by_cases hqp : q.1 = p.1
    · rw [hqp]
      exact hset
    · exact hs.congr (hframe q.1 hqp)

/-- A run settles the tables that it goes through, wherever it ends. -/
theorem Ready.executeTables {list : List (String × TableDdl)} (hcalm : CalmTables e cloud l.db)
    (h : Ready e cloud l l') (hsub : ∀ p ∈ list, p ∈ e.tables)
    (hr : ∀ t, a.fails (.readManifest t) = none) :
    ∃ l'' : LocalDb e.tables, l''.db = (executeTables e cloud a list l'.db).1 ∧
      Advances e cloud l l' l'' ∧
      ((executeTables e cloud a list l'.db).2 = none →
        ∀ p ∈ list, isVirtual p.2 = false → SettledAt e cloud l''.db p.1) := by
  induction list generalizing l' with
  | nil => exact ⟨l', rfl, .refl h, fun _ p hp => by cases hp⟩
  | cons p list ih =>
    obtain ⟨t, d⟩ := p
    rw [List.forall_mem_cons] at hsub
    rw [Sync.executeTables]
    by_cases hv : isVirtual d = true
    · rw [if_pos hv]
      obtain ⟨l'', hl, hadv, hdone⟩ := ih h hsub.2
      refine ⟨l'', hl, hadv, fun hok => ?_⟩
      rw [List.forall_mem_cons]
      refine ⟨fun hnv => ?_, hdone hok⟩
      rw [hv] at hnv
      cases hnv
    · rw [if_neg hv]
      cases hpull : Sync.pullTable e cloud a t l'.db with
      | error err => exact ⟨l', rfl, .refl h, nofun⟩
      | ok db' =>
        rw [Bool.not_eq_true] at hv
        obtain ⟨l₁, rfl, hadv₁, hset⟩ := h.pullTable hcalm hsub.1 hv (hr t) hpull
        obtain ⟨l'', hl, hadv, hdone⟩ := ih hadv₁.ready hsub.2
        refine ⟨l'', hl, hadv₁.trans hadv, fun hok => ?_⟩
        rw [List.forall_mem_cons]
        exact ⟨fun _ => hadv.keeps _ hsub.1 hv hset, hdone hok⟩

theorem Ready.executePull (hcalm : CalmTables e cloud l.db) (h : Ready e cloud l l')
    (hr : ∀ t, a.fails (.readManifest t) = none) :
    ∃ l'' : LocalDb e.tables, l''.db = (executePull e cloud a l'.db).1 ∧
      Advances e cloud l l' l'' ∧
      ((executePull e cloud a l'.db).2 = none →
        ∀ p ∈ e.tables, isVirtual p.2 = false → SettledAt e cloud l''.db p.1) := by
  rw [Sync.executePull]
  split
  · exact ⟨l', rfl, .refl h, nofun⟩
  · exact h.executeTables hcalm (fun _ => id) hr

/-- Every table is settled. -/
def AllSettled (e : Env) (cloud db : Database) : Prop :=
  ∀ p ∈ e.tables, isVirtual p.2 = false → SettledAt e cloud db p.1

/-- A pull that comes to its end, at once or after a lost session, leaves every table settled. -/
theorem allSettled_pullInto {first : Pull} (hcalm : CalmTables e cloud l.db)
    (hr : first.Reads) (hok : (pullInto e cloud first l.db).2 = none) :
    ∃ l' : LocalDb e.tables, l'.db = (pullInto e cloud first l.db).1 ∧
      AllSettled e cloud l'.db := by
  have hready : Ready e cloud l l := fun _ _ _ => .inr rfl
  obtain ⟨l₁, hl₁, hadv, hdone⟩ := hready.executePull hcalm fun t => (hr t).1
  rw [pullInto, withSessionRecovery] at hok ⊢
  cases hfirst : executePull e cloud first.first l.db with
  | mk db₁ err =>
    rw [hfirst] at hl₁ hdone hok
    subst hl₁
    split at hok
    next he =>
      cases he
      obtain ⟨l₂, hl₂, _, hdone₂⟩ := hadv.ready.executePull hcalm fun t => (hr t).2
      exact ⟨l₂, hl₂, hdone₂ hok⟩
    next => exact ⟨l₁, rfl, hdone hok⟩

theorem AllSettled.executeTables {list : List (String × TableDdl)}
    (h : AllSettled e cloud l.db) (hsub : ∀ p ∈ list, p ∈ e.tables)
    (hr : ∀ t, a.fails (.readManifest t) = none) :
    ∃ l' : LocalDb e.tables, l'.db = (executeTables e cloud a list l.db).1 ∧
      AllSettled e cloud l'.db ∧ SameTables l.db l'.db := by
  induction list generalizing l with
  | nil => exact ⟨l, rfl, h, .refl _⟩
  | cons p list ih =>
    obtain ⟨t, d⟩ := p
    rw [List.forall_mem_cons] at hsub
    rw [Sync.executeTables]
    by_cases hv : isVirtual d = true
    · rw [if_pos hv]
      exact ih h hsub.2
    · rw [if_neg hv]
      cases hpull : Sync.pullTable e cloud a t l.db with
      | error err => exact ⟨l, rfl, h, .refl _⟩
      | ok db' =>
        rw [Bool.not_eq_true] at hv
        obtain ⟨C, T, T', hC, hT, _, _, _, hframe⟩ := pullTable_fetch hsub.1 hv (hr t) hpull
        obtain ⟨l₁, rfl⟩ := l.pullTable hpull hT
        obtain ⟨hsame, hset⟩ := pullTable_keeps hsub.1 hv (hr t) hpull (h _ hsub.1 hv)
        have hall : AllSettled e cloud l₁.db := by
          intro q hq hvq
          by_cases hqt : q.1 = t
          · rw [hqt]
            exact hset
          · exact (h q hq hvq).congr (hframe q.1 hqt)
        obtain ⟨l', hl, hall', hsame'⟩ := ih hall hsub.2
        exact ⟨l', hl, hall', hsame.trans hsame'⟩

theorem AllSettled.executePull (h : AllSettled e cloud l.db)
    (hr : ∀ t, a.fails (.readManifest t) = none) :
    ∃ l' : LocalDb e.tables, l'.db = (executePull e cloud a l.db).1 ∧
      AllSettled e cloud l'.db ∧ SameTables l.db l'.db := by
  rw [Sync.executePull]
  split
  · exact ⟨l, rfl, h, .refl _⟩
  · exact h.executeTables (fun _ => id) hr

/-- A pull into settled tables changes none of them, wherever it fails. -/
theorem AllSettled.pullInto {second : Pull} (h : AllSettled e cloud l.db) (hr : second.Reads) :
    SameTables l.db (pullInto e cloud second l.db).1 := by
  obtain ⟨l₁, hl₁, hall, hsame⟩ := h.executePull fun t => (hr t).1
  rw [Sync.pullInto, withSessionRecovery]
  cases hfirst : Sync.executePull e cloud second.first l.db with
  | mk db₁ err =>
    rw [hfirst] at hl₁
    subst hl₁
    split
    next he =>
      cases he
      obtain ⟨l₂, hl₂, _, hsame₂⟩ := hall.executePull fun t => (hr t).2
      rw [← hl₂]
      exact hsame.trans hsame₂
    next => exact hsame

theorem pullsOnce_of_calm (hcalm : CalmTables e cloud l.db) : PullsOnce e cloud l.db := by
  intro first second hr hr' hok
  obtain ⟨l', hl, hall⟩ := allSettled_pullInto hcalm hr hok
  rw [← hl]
  exact hall.pullInto hr'

end

end Sync
