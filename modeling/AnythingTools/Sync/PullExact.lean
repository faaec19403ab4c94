import AnythingTools.Sync.PullAgain

namespace Sync
open Relational Relational.Database Schemas Refresh
set_option autoImplicit true

/-- The cloud table has the columns that the diff query names, the local constraints let its rows
in, and the key cells differ where their texts do. -/
structure RegularTable (e : Env) (t : String) (S : Schema) (C : Table) (rows : List Row) :
    Prop where
  named : ∀ n ∈ S.primaryKey, n ∈ C.schema.names
  hashed : "content_hash" ∈ S.names → "content_hash" ∈ C.schema.names
  accepts : ∀ c ∈ C.rows, ∀ r, record e t C.schema c = some r → S.Accepts r
  texts : KeyTexts S.primaryKey rows C.rows

/-- Nothing but a failure keeps a pull from its end. -/
def Regular (e : Env) (cloud db : Database) : Prop :=
  ∀ p ∈ e.tables, isVirtual p.2 = false →
    ∃ C, cloud.find p.1 = some C ∧ RegularTable e p.1 p.2.schema C (db.rows p.1)

/-- The order that gives the one list as the other. -/
def RowOrder.choose (rows cs : List Row) (h : cs.Perm rows) : RowOrder where
  sort l := if l = rows then cs else l
  perm l := by
    split
    next he =>
      subst he
      exact h
    · exact .refl _

section
variable {e : Env} {cloud : Database} {l l' : LocalDb e.tables} {a : Attempt}
  {p : String × TableDdl}

theorem writeRecords_clean (hclean : ∀ c, a.fails c = none) (hT : find db t = some T)
    (hu : T.upsertAll (a.now t) records = .ok T') : ∃ db', writeRecords a t db records = .ok db' := by
  rw [writeRecords]
  split
  · exact ⟨db, rfl⟩
  · rw [call_of_none (hclean _), hT]
    dsimp only [Except.bind, bind]
    rw [hu]
    dsimp only
    rw [call_of_none (hclean _)]
    exact ⟨_, rfl⟩

theorem pullTable_clean {rows : List Row} (hp : p ∈ e.tables) (hv : isVirtual p.2 = false)
    (hclean : ∀ c, a.fails c = none) (hC : cloud.find p.1 = some C)
    (hreg : RegularTable e p.1 p.2.schema C rows) :
    ∃ db', pullTable e cloud a p.1 l.db = .ok db' := by
  obtain ⟨T, hT, hs⟩ := l.schemas p hp hv
  have hkeyed := keyedSchema_of_mem hp hv
  rw [← hs] at hkeyed
  have hcols (n : String) := mem_detectPkColumns (c := n) hT (keyedSchema_iff.1 hkeyed).1
  have hhash : (detectPkColumns l.db p.1).2 = decide ("content_hash" ∈ T.schema.names) := by
    rw [detectPkColumns, hT]
  cases hd : detectPkColumns l.db p.1 with
  | mk pkCols hashed =>
    rw [hd] at hcols hhash
    dsimp only at hcols hhash
    have hlocal (n : String) (hn : n ∈ pkCols) : n ∈ T.schema.names :=
      Schema.mem_names_of_primaryKey ((hcols n).1 hn)
    have hdiff : diffable cloud p.1 pkCols hashed = true := by
      rw [diffable, hC]
      simp only [Bool.and_eq_true, List.all_eq_true, decide_eq_true_eq, Bool.or_eq_true]
      refine ⟨fun n hn => hreg.named n (hs ▸ (hcols n).1 hn), ?_⟩
      rw [hhash]
      by_cases hm : "content_hash" ∈ T.schema.names
      · exact .inr (hreg.hashed (hs ▸ hm))
      · exact .inl (by simpa using hm)
    rw [pullTable, hd]
    dsimp only
    rw [call_of_none (hclean _), call_of_none (hclean _), hC]
    change ∃ db', (if diffable cloud p.1 pkCols hashed = true then _ else _ :
      Except PullError Database) = .ok db'
    rw [if_pos hdiff, uploadLocalManifest_eq (hclean _) hT hlocal,
      diffCloud_eq e p.1 C T.schema, pullRecords_eq]
    have haccepts (r : Row) (hr : r ∈ ((a.order p.1).sort ((replica e p.1 C T.schema pkCols
        hashed).fetch T.rows)).filterMap (record e p.1 C.schema)) : T.schema.Accepts r := by
      obtain ⟨c, hc, hrec⟩ := List.mem_filterMap.1 hr
      rw [hs]
      refine hreg.accepts c ?_ r hrec
      exact (Replica.mem_fetch _ |>.1 (((a.order p.1).perm _).mem_iff.1 hc)).1
    obtain ⟨T', hu⟩ := Table.upsertAll_accepts haccepts (a.now p.1)
    exact writeRecords_clean hclean hT hu

/-- A run without a failure comes to its end, and each table is pulled on its own. -/
theorem executeTables_clean {list : List (String × TableDdl)} (hn : (pushedTables list).Nodup)
    (hsub : ∀ p ∈ list, p ∈ e.tables) (hclean : ∀ c, a.fails c = none)
    (hreg : ∀ p ∈ list, isVirtual p.2 = false → ∃ C rows, cloud.find p.1 = some C ∧
      RegularTable e p.1 p.2.schema C rows) :
    ∃ l' : LocalDb e.tables, executeTables e cloud a list l.db = (l'.db, none) ∧
      (∀ u, u ∉ pushedTables list → l'.db.find u = l.db.find u) ∧
      ∀ p ∈ list, isVirtual p.2 = false → ∃ C T T', cloud.find p.1 = some C ∧
        l.db.find p.1 = some T ∧
        T.upsertAll (a.now p.1) (((a.order p.1).sort ((replicaAt e l.db p.1 C T).fetch
          T.rows)).filterMap (record e p.1 C.schema)) = .ok T' ∧ l'.db.find p.1 = some T' := by
  induction list generalizing l with
  | nil =>
    refine ⟨l, ?_, fun _ _ => rfl, fun p hp => by cases hp⟩
    rw [executeTables, hclean]
  | cons p list ih =>
    obtain ⟨t, d⟩ := p
    rw [List.forall_mem_cons] at hsub hreg
    rw [executeTables]
    cases hv : isVirtual d with
    | true =>
      have hpushed : pushedTables ((t, d) :: list) = pushedTables list := by
        rw [pushedTables, List.filter_cons, hv]
        rfl
      rw [hpushed] at hn ⊢
      obtain ⟨l', hl, hframe, hall⟩ := ih hn hsub.2 hreg.2
      refine ⟨l', by rw [if_pos rfl]; exact hl, hframe, ?_⟩
      rw [List.forall_mem_cons]
      refine ⟨fun hnv => ?_, hall⟩
      rw [hv] at hnv
      cases hnv
    | false =>
      have hpushed : pushedTables ((t, d) :: list) = t :: pushedTables list := by
        rw [pushedTables, List.filter_cons, hv]
        rfl
      rw [hpushed, List.nodup_cons] at hn
      obtain ⟨C, rows, hC, hregular⟩ := hreg.1 hv
      obtain ⟨db', hpull⟩ := pullTable_clean (l := l) (a := a) hsub.1 hv hclean hC hregular
      obtain ⟨C', T, T', hC', hT, _, hu, hfind, hframe₁⟩ :=
        pullTable_fetch hsub.1 hv (hclean _) hpull
      obtain ⟨l₁, rfl⟩ := l.pullTable hpull hT
      obtain ⟨l', hl, hframe, hall⟩ := ih (l := l₁) hn.2 hsub.2 hreg.2
      refine ⟨l', ?_, ?_, ?_⟩
      · rw [if_neg Bool.false_ne_true, hpull]
        exact hl
      · intro u hu
        rw [hpushed, List.mem_cons, not_or] at hu
        rw [hframe u hu.2, hframe₁ u hu.1]
      · rw [List.forall_mem_cons]
        refine ⟨fun _ => ⟨C', T, T', hC', hT, hu, ?_⟩, ?_⟩
        · rw [hframe t hn.1]
          exact hfind
        · intro q hq hvq
          obtain ⟨D, U, U', hD, hU, hu', hf'⟩ := hall q hq hvq
          have hne : q.1 ≠ t := by
            intro he
            apply hn.1
            rw [← he]
            exact List.mem_map.2 ⟨q, List.mem_filter.2 ⟨hq, by rw [hvq]; rfl⟩, rfl⟩
          have hold : l₁.db.find q.1 = l.db.find q.1 := hframe₁ q.1 hne
          rw [hold] at hU
          refine ⟨D, U, U', hD, hU, ?_, hf'⟩
          rw [← replicaAt_congr hU (hold.trans hU) rfl]
          exact hu'

/-- A pull without a failure that gets the rows of one table in a given order. -/
def orderedPull (now t : String) (rows cs : List Row) (h : cs.Perm rows) : Pull where
  first := { now := fun _ => now, order := fun u => if u = t then .choose rows cs h else .given }
  retry := { now := fun _ => now }

theorem orderedPull_reads (now t : String) (rows cs : List Row) (h : cs.Perm rows) :
    (orderedPull now t rows cs h).Reads := fun _ => ⟨rfl, rfl⟩

theorem sort_orderedPull (now t : String) (rows cs : List Row) (h : cs.Perm rows) :
    ((orderedPull now t rows cs h).first.order t).sort rows = cs := by
  rw [orderedPull]
  dsimp only
  rw [if_pos rfl]
  exact if_pos rfl

theorem pullInto_ordered {cs : List Row} (hreg : ∀ p ∈ e.tables, isVirtual p.2 = false →
      ∃ C rows, cloud.find p.1 = some C ∧ RegularTable e p.1 p.2.schema C rows)
    (hp : p ∈ e.tables) (hv : isVirtual p.2 = false) (hC : cloud.find p.1 = some C)
    (hT : l.db.find p.1 = some T) (now : String)
    (hcs : cs.Perm ((replicaAt e l.db p.1 C T).fetch T.rows)) :
    ∃ (l' : LocalDb e.tables) (T' : Table),
      pullInto e cloud (orderedPull now p.1 _ cs hcs) l.db = (l'.db, none) ∧
      l'.db.find p.1 = some T' ∧
      T.upsertAll now (cs.filterMap (record e p.1 C.schema)) = .ok T' := by
  obtain ⟨l', hl, _, hall⟩ := executeTables_clean (l := l)
    (a := (orderedPull now p.1 _ cs hcs).first) (pushedTables_nodup e) (fun _ => id)
    (fun _ => rfl) hreg
  obtain ⟨D, U, T', hD, hU, hu, hf⟩ := hall p hp hv
  rw [hC, Option.some.injEq] at hD
  subst hD
  rw [hT, Option.some.injEq] at hU
  subst hU
  rw [sort_orderedPull] at hu
  refine ⟨l', T', ?_, hf, hu⟩
  rw [pullInto, withSessionRecovery, executePull]
  have hbegin : (orderedPull now p.1 _ cs hcs).first.fails .begin = none := rfl
  rw [hbegin]
  dsimp only
  rw [hl]

/-- What a second pull leaves of one table, in whatever order either fetches its rows. -/
theorem table_unchanged {cs : List Row} (hreg : Regular e cloud l.db)
    (h : PullsOnce e cloud l.db) (hp : p ∈ e.tables) (hv : isVirtual p.2 = false)
    (hC : cloud.find p.1 = some C) (hT : l.db.find p.1 = some T) (now : String)
    (hcs : cs.Perm ((replicaAt e l.db p.1 C T).fetch T.rows)) :
    ∃ T₁, T.upsertAll now (cs.filterMap (record e p.1 C.schema)) = .ok T₁ ∧
      ∀ (now' : String) (cs' : List Row), cs'.Perm ((replicaAt e l.db p.1 C T).fetch T₁.rows) →
        ∃ T₂, T₁.upsertAll now' (cs'.filterMap (record e p.1 C.schema)) = .ok T₂ ∧
          T₂.rows.Perm T₁.rows := by
  have hregular (q : String × TableDdl) (hq : q ∈ e.tables) (hvq : isVirtual q.2 = false) :
      ∃ C rows, cloud.find q.1 = some C ∧ RegularTable e q.1 q.2.schema C rows := by
    obtain ⟨D, hD, hr⟩ := hreg q hq hvq
    exact ⟨D, _, hD, hr⟩
  obtain ⟨l₁, T₁, hpull, hT₁, hu⟩ := pullInto_ordered hregular hp hv hC hT now hcs
  refine ⟨T₁, hu, fun now' cs' hcs' => ?_⟩
  have hR := replicaAt_congr (e := e) (C := C) hT hT₁ (Table.upsertAll_schema hu)
  rw [← hR] at hcs'
  obtain ⟨l₂, T₂, hpull₂, hT₂, hu₂⟩ := pullInto_ordered hregular hp hv hC hT₁ now' hcs'
  refine ⟨T₂, hu₂, ?_⟩
  have hsame := h (orderedPull now p.1 _ cs hcs) (orderedPull now' p.1 _ cs' hcs')
    (orderedPull_reads _ _ _ _ _) (orderedPull_reads _ _ _ _ _) (by rw [hpull])
  rw [hpull] at hsame
  dsimp only at hsame
  rw [hpull₂] at hsame
  have hperm := (hsame p.1).2
  rw [rows_of_find hT₁, rows_of_find hT₂] at hperm
  exact hperm

theorem RegularTable.matched {rows : List Row} (hreg : RegularTable e p.1 p.2.schema C rows)
    (hp : p ∈ e.tables) (hv : isVirtual p.2 = false) (hT : l.db.find p.1 = some T)
    (hs : T.schema = p.2.schema) : Matched C T.schema (detectPkColumns l.db p.1).1 := by
  have hkeyed := keyedSchema_of_mem hp hv
  rw [← hs] at hkeyed
  have hcols (n : String) := mem_detectPkColumns (c := n) hT (keyedSchema_iff.1 hkeyed).1
  exact ⟨hkeyed, hcols, fun n hn => hreg.named n (hs ▸ (hcols n).1 hn)⟩

/-- A record without a rowid is stored once more by every pull. -/
theorem numbered_of_unchanged (hreg : Regular e cloud l.db) (h : PullsOnce e cloud l.db)
    (hp : p ∈ e.tables) (hv : isVirtual p.2 = false) (hC : cloud.find p.1 = some C)
    (hT : l.db.find p.1 = some T) (hM : Matched C T.schema (detectPkColumns l.db p.1).1) :
    ∀ c ∈ C.rows, ∀ r, record e p.1 C.schema c = some r → ∀ now, T.schema.Numbered now r := by
  intro c hc r hrec now n hn hnull
  have hkey : n ∈ (detectPkColumns l.db p.1).1 := by
    rw [hM.cols, Schema.primaryKey_of_alias hn]
    exact List.mem_singleton_self n
  have hcell {z r' : Row} {now' : String} (hz : record e p.1 C.schema z = some r') :
      (T.schema.coerce now' r').get n = z.get n := by
    have hstored : (replicaAt e l.db p.1 C T).stored now' z = some (T.schema.coerce now' r') := by
      change (record e p.1 C.schema z).map _ = _
      rw [hz]
      rfl
    exact hM.get_stored hstored hkey
  rw [hcell hrec] at hnull
  obtain ⟨T₁, hu, hagain⟩ := table_unchanged hreg h hp hv hC hT now (.refl _)
  have hs := Table.upsertAll_schema hu
  have hapart := Table.upsertAll_apart hu (l.keyed p.1 T hT)
  rw [hs] at hapart
  -- what has a rowid is there already
  have hthere (z : Row) (hz : z ∈ (replicaAt e l.db p.1 C T).fetch T₁.rows) (hne : z.get n ≠ .null)
      (r' : Row) (hr' : record e p.1 C.schema z = some r') : T.schema.coerce now r' ∈ T₁.rows := by
    obtain ⟨l₁, l₂, he⟩ := List.append_of_mem hz
    obtain ⟨T₂, hu₂, hperm⟩ := hagain now (l₁ ++ l₂ ++ [z]) (by
      rw [he]
      exact Displace.perm_last l₁ l₂ z)
    rw [List.filterMap_append, List.filterMap_cons, hr', List.filterMap_nil] at hu₂
    obtain ⟨T₃, hu₃, hlast⟩ := Table.upsertAll_append hu₂
    obtain ⟨T₄, hone, hend⟩ := Table.upsertAll_cons hlast
    cases hend
    have hs₃ := (Table.upsertAll_schema hu₃).trans hs
    have hnum : T₃.schema.Numbered now r' := by
      rw [hs₃]
      intro m hm
      rw [hn, Option.some.injEq] at hm
      subst hm
      rw [hcell hr']
      exact hne
    obtain ⟨_, _, hrows⟩ := Table.upsert_ok hone
    rw [Table.assign_numbered hnum, hs₃] at hrows
    rw [← hperm.mem_iff, hrows]
    simp
  -- the rows without one are written last
  let withRowid (z : Row) : Bool := decide (z.get n ≠ .null)
  obtain ⟨T₂, hu₂, hperm⟩ := hagain now
    (((replicaAt e l.db p.1 C T).fetch T₁.rows).filter withRowid ++
      ((replicaAt e l.db p.1 C T).fetch T₁.rows).filter fun z => !withRowid z)
    (List.filter_append_perm _ _)
  rw [List.filterMap_append] at hu₂
  obtain ⟨T₃, hu₃, hlast⟩ := Table.upsertAll_append hu₂
  have hs₃ := (Table.upsertAll_schema hu₃).trans hs
  have hkept (b : Row) (hb : b ∈ T₁.rows) : b ∈ T₃.rows := by
    rw [Table.upsertAll_putAll hu₃, hs]
    · refine Displace.Apart.mem_putAll T.schema.conflicts_comm hapart hb fun q hq => ?_
      obtain ⟨r', hr', rfl⟩ := List.mem_map.1 hq
      obtain ⟨z, hz, hzr⟩ := List.mem_filterMap.1 hr'
      obtain ⟨hz, hne⟩ := List.mem_filter.1 hz
      exact hthere z hz (by simpa [withRowid] using hne) r' hzr
    · intro r' hr' m hm
      obtain ⟨z, hz, hzr⟩ := List.mem_filterMap.1 hr'
      obtain ⟨_, hne⟩ := List.mem_filter.1 hz
      rw [hs] at hm ⊢
      rw [hn, Option.some.injEq] at hm
      subst hm
      rw [hcell hzr]
      simpa [withRowid] using hne
  have hwanted : c ∈ (replicaAt e l.db p.1 C T).fetch T₁.rows := by
    refine Replica.mem_fetch _ |>.2 ⟨hc, .inl fun q _ => ?_⟩
    by_contra hm
    rw [Bool.not_eq_false] at hm
    obtain ⟨hne, he⟩ := joinsManifest_iff.1 hm n hkey
    rw [hnull] at he
    cases hq : q.get n with
    | null => exact hne hq
    | _ =>
      rw [hq] at he
      cases he
  have hmem : r ∈ (((replicaAt e l.db p.1 C T).fetch T₁.rows).filter fun z =>
      !withRowid z).filterMap (record e p.1 C.schema) :=
    List.mem_filterMap.2 ⟨c, List.mem_filter.2 ⟨hwanted, by simp [withRowid, hnull]⟩, hrec⟩
  obtain ⟨q, hq, k, hk, hle⟩ := Table.upsertAll_grows hlast (List.ne_nil_of_mem hmem)
    (by rw [hs₃]; exact hn) (by
      intro r' hr'
      obtain ⟨z, hz, hzr⟩ := List.mem_filterMap.1 hr'
      rw [hs₃, hcell hzr]
      simpa [withRowid] using (List.mem_filter.1 hz).2)
  have hlt := Table.lt_nextRowid (hkept q (hperm.mem_iff.1 hq)) hk
  omega

/-- A database that every repeated pull leaves as it was is calm. -/
theorem calm_of_pullsOnce (hreg : Regular e cloud l.db) (h : PullsOnce e cloud l.db) :
    CalmTables e cloud l.db := by
  intro p hp hv C T hC hT
  obtain ⟨D, hD, hregular⟩ := hreg p hp hv
  rw [hC, Option.some.injEq] at hD
  subst hD
  obtain ⟨U, hU, hs⟩ := l.schemas p hp hv
  rw [hT, Option.some.injEq] at hU
  subst hU
  have hM := hregular.matched hp hv hT hs
  have hnum := numbered_of_unchanged hreg h hp hv hC hT hM
  have htexts : KeyTexts (detectPkColumns l.db p.1).1 T.rows C.rows := by
    intro q hq c hc n hn
    rw [← rows_of_find hT] at hq
    exact hregular.texts q hq c hc n (hs ▸ (hM.cols n).1 hn)
  refine ⟨hnum, fun now => ?_⟩
  refine Replica.calm_of_settled hM.lawful (hM.keyed_replica htexts) (l.keyed p.1 T hT) ?_
  intro cs hcs
  obtain ⟨T₁, hu, hagain⟩ := table_unchanged hreg h hp hv hC hT now hcs
  have hs₁ := Table.upsertAll_schema hu
  have hapart := Table.upsertAll_apart hu (l.keyed p.1 T hT)
  rw [hs₁] at hapart
  rw [← refresh_of_upsertAll (fun c hc r hr => hnum c hc r hr now) hcs hu]
  refine Replica.settled_of_unchanged hM.lawful hapart fun now' cs' hcs' => ?_
  obtain ⟨T₂, hu₂, hperm⟩ := hagain now' cs' hcs'
  have hR : replicaAt e l.db p.1 C T₁ = replicaAt e l.db p.1 C T := by
    rw [replicaAt, replicaAt, hs₁]
  rw [← hR] at hcs' ⊢
  rw [← refresh_of_upsertAll (T := T₁) (fun c hc r hr => hs₁ ▸ hnum c hc r hr now') hcs' hu₂]
  exact hperm

/-- Where every fetched row settles, a repeated pull changes no table, at whatever table the first
one lost its session; and where the constraints let the cloud rows in, only there. -/
theorem pull_again_iff (e : Env) (l : LocalDb e.tables) (cloud : Database) :
    (CalmTables e cloud l.db → PullsOnce e cloud l.db) ∧
      (Regular e cloud l.db → PullsOnce e cloud l.db → CalmTables e cloud l.db) :=
  ⟨pullsOnce_of_calm, calm_of_pullsOnce⟩

end

/-- An article of the cloud. -/
def cloudArticle (id url : String) : Row :=
  scrapedArticles.schema.coerce "2024-05-01 00:00:00"
    [("id", .text id), ("vec_rowid", .int 1), ("url", .text url), ("content_hash", .text id)]

def emptyLocal : LocalDb exampleEnv.tables := .ofCheck (operationalDb []) (by decide +kernel)

def quietPull : Pull where
  first := { now := fun _ => "2024-05-02 00:00:00" }
  retry := { now := fun _ => "2024-05-02 00:00:00" }

/-- Of two articles with one address each pull stores the one that is missing, in place of the
other. -/
theorem same_url_swaps : ¬ PullsOnce exampleEnv
    (cloudOf [("scraped_articles", [cloudArticle "a1" "u", cloudArticle "a2" "u"])])
    emptyLocal.db := by
  intro h
  have hsame := h quietPull quietPull (fun _ => ⟨rfl, rfl⟩) (fun _ => ⟨rfl, rfl⟩)
    (by decide +kernel) "scraped_articles"
  have hmem := hsame.2.mem_iff (a := cloudArticle "a1" "u")
  revert hmem
  decide +kernel

def oneArticle : Database := cloudOf [("scraped_articles", [cloudArticle "a1" "u1"])]

theorem calm_oneArticle : CalmTables exampleEnv oneArticle emptyLocal.db := by
  intro p hp hv C T hC hT
  by_cases ht : p.1 = "scraped_articles"
  · have hfind : oneArticle.find "scraped_articles" =
        some { schema := scrapedArticles.schema, rows := [cloudArticle "a1" "u1"] } := by
      decide +kernel
    have hlocal : emptyLocal.db.find "scraped_articles" =
        some { schema := scrapedArticles.schema, rows := [] } := by
      decide +kernel
    rw [ht, hfind, Option.some.injEq] at hC
    rw [ht, hlocal, Option.some.injEq] at hT
    subst hC
    subst hT
    rw [ht]
    have hkeys : detectPkColumns emptyLocal.db "scraped_articles" = (["id"], true) := by
      decide +kernel
    have hrec : record exampleEnv "scraped_articles" scrapedArticles.schema
        (cloudArticle "a1" "u1") = some (cloudArticle "a1" "u1") := by
      decide +kernel
    have hstored (now : String) : (replica exampleEnv "scraped_articles"
        { schema := scrapedArticles.schema, rows := [cloudArticle "a1" "u1"] }
        scrapedArticles.schema ["id"] true).stored now (cloudArticle "a1" "u1") =
        some (cloudArticle "a1" "u1") :=
      congrArg (Option.map (scrapedArticles.schema.coerce now)) hrec
    refine ⟨fun c _ r _ now n hn => ?_, fun now => ?_⟩
    · have hnone : scrapedArticles.schema.rowidAlias = none := by decide
      rw [hnone] at hn
      cases hn
    · rw [replicaAt, hkeys]
      have hdiffers : (replica exampleEnv "scraped_articles"
          { schema := scrapedArticles.schema, rows := [cloudArticle "a1" "u1"] }
          scrapedArticles.schema ["id"] true).differs (cloudArticle "a1" "u1")
          (cloudArticle "a1" "u1") = false := by
        decide +kernel
      constructor
      case apart =>
        intro c hc _ c' hc' _ p hp p' hp' _
        rw [List.mem_singleton.1 hc, hstored, Option.some.injEq] at hp
        rw [List.mem_singleton.1 hc', hstored, Option.some.injEq] at hp'
        exact .inl (hp.symm.trans hp')
      case met =>
        intro c hc p hp
        rw [List.mem_singleton.1 hc]
        refine .inl ⟨cloudArticle "a1" "u1", .inr ⟨_, List.mem_singleton_self _, .inl nofun,
          hstored now⟩, ?_⟩
        decide +kernel
      case agreed =>
        rintro c hc p hp q (⟨hq, _⟩ | ⟨z, hz, _, hs⟩) _ hd
        · cases hq
        · rw [List.mem_singleton.1 hz, hstored, Option.some.injEq] at hs
          rw [List.mem_singleton.1 hc, ← hs, hdiffers] at hd
          cases hd
  · have hCrows : C.rows = [] := by
      rw [← rows_of_find hC]
      have hall : (exampleEnv.tables.all fun p => decide (p.1 = "scraped_articles") ||
          decide (oneArticle.rows p.1 = [])) = true := by
        decide +kernel
      have hone := List.all_eq_true.1 hall p hp
      rw [decide_eq_false ht, Bool.false_or, decide_eq_true_eq] at hone
      exact hone
    have hnone (c : Row) : c ∉ C.rows := by
      rw [hCrows]
      exact List.not_mem_nil
    exact ⟨fun c hc => absurd hc (hnone c), fun now =>
      ⟨fun c hc => absurd hc (hnone c), fun c hc => absurd hc (hnone c),
        fun c hc => absurd hc (hnone c)⟩⟩

/-- One article is pulled once. -/
theorem pull_again_oneArticle : PullsOnce exampleEnv oneArticle emptyLocal.db :=
  (pull_again_iff exampleEnv emptyLocal oneArticle).1 calm_oneArticle

end Sync
