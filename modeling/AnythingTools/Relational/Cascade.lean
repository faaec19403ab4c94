import AnythingTools.Relational.Schema
import Mathlib.Algebra.GroupWithZero.Nat
import Mathlib.Algebra.Order.BigOperators.Group.List
import Mathlib.Algebra.Order.Group.Nat

namespace Relational
set_option autoImplicit true

/-- Some foreign key leads from the row to one of the deleted rows. -/
def Schema.refersTo (S : Schema) (dead : List (String × Row)) (r : Row) : Bool :=
  S.foreignKeys.any fun f => dead.any fun d => decide (d.1 = f.refTable) && f.links r d.2

theorem Schema.refersTo_iff : Schema.refersTo S dead r = true ↔
    ∃ f ∈ S.foreignKeys, ∃ p, (f.refTable, p) ∈ dead ∧ f.links r p = true := by
  simp only [Schema.refersTo, List.any_eq_true, Bool.and_eq_true, decide_eq_true_eq]
  constructor
  · rintro ⟨f, hf, ⟨t, p⟩, hp, he, hl⟩
    cases he
    exact ⟨f, hf, p, hp, hl⟩
  · rintro ⟨f, hf, p, hp, hl⟩
    exact ⟨f, hf, (f.refTable, p), hp, rfl, hl⟩

/-- Remove the rows that refer to a deleted row. -/
def sweep (tabs : Tables) (dead : List (String × Row)) : Tables :=
  mapVals (fun _ T => { T with rows := T.rows.filter fun r => !T.schema.refersTo dead r }) tabs

/-- The rows that `sweep` removes. -/
def struck (tabs : Tables) (dead : List (String × Row)) : List (String × Row) :=
  tabs.entries.flatMap fun e =>
    (e.2.rows.filter fun r => e.2.schema.refersTo dead r).map fun r => (e.1, r)

def rowCount (tabs : Tables) : Nat := (tabs.entries.map fun e => e.2.rows.length).sum

/-- `ON DELETE CASCADE`, one generation of children at a time. -/
def cascade : Nat → Tables → List (String × Row) → Tables
  | 0, tabs, _ => tabs
  | n + 1, tabs, dead => cascade n (sweep tabs dead) (struck tabs dead)

/-- The row is stored in the named table. -/
def Holds (tabs : Tables) (t : String) (r : Row) : Prop :=
  ∃ T, tabs.lookup t = some T ∧ r ∈ T.rows

/-- A stored row from which a chain of foreign keys leads to a deleted row. -/
inductive Doomed (tabs : Tables) (dead : String → Row → Prop) : String → Row → Prop
  | direct {f p t T r} : dead f.refTable p → tabs.lookup t = some T → r ∈ T.rows →
      f ∈ T.schema.foreignKeys → f.links r p = true → Doomed tabs dead t r
  | chain {f p t T r} : Doomed tabs dead f.refTable p → tabs.lookup t = some T → r ∈ T.rows →
      f ∈ T.schema.foreignKeys → f.links r p = true → Doomed tabs dead t r

theorem Doomed.holds (h : Doomed tabs dead t r) : Holds tabs t r := by
  cases h with
  | direct hd hT hr hf hl => exact ⟨_, hT, hr⟩
  | chain hd hT hr hf hl => exact ⟨_, hT, hr⟩

theorem Doomed.mono (h : Doomed tabs dead t r) (hs : ∀ u p, dead u p → dead' u p) :
    Doomed tabs dead' t r := by
  induction h with
  | direct hd hT hr hf hl => exact .direct (hs _ _ hd) hT hr hf hl
  | chain hd hT hr hf hl ih => exact .chain ih hT hr hf hl

/-- Where references lead to earlier tables, a deleted row dooms only rows of later tables. -/
theorem Doomed.later {place : String → Nat} {declared : String → Prop}
    (hf : ∀ u T f, declared u → tabs.lookup u = some T → f ∈ T.schema.foreignKeys →
      declared f.refTable ∧ place f.refTable < place u)
    (h : Doomed tabs dead t r) (ht : declared t) : ∃ u p, dead u p ∧ place u < place t := by
  induction h with
  | direct hd hT _ hm _ => exact ⟨_, _, hd, (hf _ _ _ ht hT hm).2⟩
  | chain _ hT _ hm _ ih =>
    obtain ⟨hn, hlt⟩ := hf _ _ _ ht hT hm
    obtain ⟨u, p, hd, hu⟩ := ih hn
    exact ⟨u, p, hd, hu.trans hlt⟩

theorem lookup_sweep (tabs : Tables) (dead : List (String × Row)) (t : String) :
    (sweep tabs dead).lookup t = (tabs.lookup t).map fun T =>
      { T with rows := T.rows.filter fun r => !T.schema.refersTo dead r } := by
  rw [sweep, lookup_mapVals]

theorem holds_sweep : Holds (sweep tabs dead) t r ↔
    ∃ T, tabs.lookup t = some T ∧ r ∈ T.rows ∧ T.schema.refersTo dead r = false := by
  constructor
  · rintro ⟨T', hT', hr⟩
    rw [lookup_sweep, Option.map_eq_some_iff] at hT'
    obtain ⟨T, hT, he⟩ := hT'
    subst T'
    obtain ⟨hr, hn⟩ := List.mem_filter.1 hr
    exact ⟨T, hT, hr, by simpa only [Bool.not_eq_true'] using hn⟩
  · rintro ⟨T, hT, hr, hn⟩
    refine ⟨_, by rw [lookup_sweep, hT]; rfl, List.mem_filter.2 ⟨hr, ?_⟩⟩
    simp only [hn, Bool.not_false]

theorem mem_struck : (t, r) ∈ struck tabs dead ↔
    ∃ T, tabs.lookup t = some T ∧ r ∈ T.rows ∧ T.schema.refersTo dead r = true := by
  simp only [struck, List.mem_flatMap, List.mem_map, List.mem_filter, Prod.mk.injEq]
  constructor
  · rintro ⟨⟨u, T⟩, he, r', ⟨hr, hd⟩, hu, hr'⟩
    cases hu
    cases hr'
    exact ⟨T, AList.mem_lookup_iff.2 he, hr, hd⟩
  · rintro ⟨T, hT, hr, hd⟩
    exact ⟨⟨t, T⟩, AList.mem_lookup_iff.1 hT, r, ⟨hr, hd⟩, rfl, rfl⟩

/-- A doomed row either goes in this generation, or is doomed by the rows that do. -/
theorem Doomed.advance (h : Doomed tabs (fun t r => (t, r) ∈ dead) t r) :
    (t, r) ∈ struck tabs dead ∨
      Doomed (sweep tabs dead) (fun t r => (t, r) ∈ struck tabs dead) t r := by
  induction h with
  | @direct f p t T r hd hT hr hf hl =>
    exact .inl (mem_struck.2 ⟨T, hT, hr, Schema.refersTo_iff.2 ⟨f, hf, p, hd, hl⟩⟩)
  | @chain f p t T r hd hT hr hf hl ih =>
    cases hn : T.schema.refersTo dead r with
    | true => exact .inl (mem_struck.2 ⟨T, hT, hr, hn⟩)
    | false =>
      obtain ⟨T', hT', hr'⟩ := holds_sweep.2 ⟨T, hT, hr, hn⟩
      have hf' : f ∈ T'.schema.foreignKeys := by
        rw [lookup_sweep, hT, Option.map_some, Option.some.injEq] at hT'
        subst T'
        exact hf
      rcases ih with hs | hs
      · exact .inr (.direct hs hT' hr' hf' hl)
      · exact .inr (.chain hs hT' hr' hf' hl)

theorem Doomed.retreat
    (h : Doomed (sweep tabs dead) (fun t r => (t, r) ∈ struck tabs dead) t r) :
    Doomed tabs (fun t r => (t, r) ∈ dead) t r := by
  have hstruck {t r} (hs : (t, r) ∈ struck tabs dead) :
      Doomed tabs (fun t r => (t, r) ∈ dead) t r := by
    obtain ⟨T, hT, hr, hn⟩ := mem_struck.1 hs
    obtain ⟨f, hf, p, hp, hl⟩ := Schema.refersTo_iff.1 hn
    exact .direct hp hT hr hf hl
  have hback {t T' r f} (hT' : (sweep tabs dead).lookup t = some T') (hr : r ∈ T'.rows)
      (hf : f ∈ T'.schema.foreignKeys) :
      ∃ T, tabs.lookup t = some T ∧ r ∈ T.rows ∧ f ∈ T.schema.foreignKeys := by
    rw [lookup_sweep, Option.map_eq_some_iff] at hT'
    obtain ⟨T, hT, he⟩ := hT'
    subst T'
    exact ⟨T, hT, (List.mem_filter.1 hr).1, hf⟩
  induction h with
  | direct hd hT hr hf hl =>
    obtain ⟨T, hT, hr, hf⟩ := hback hT hr hf
    exact .chain (hstruck hd) hT hr hf hl
  | chain hd hT hr hf hl ih =>
    obtain ⟨T, hT, hr, hf⟩ := hback hT hr hf
    exact .chain ih hT hr hf hl

theorem filter_length_add (p : α → Bool) (l : List α) :
    (l.filter fun a => !p a).length + (l.filter p).length = l.length := by
  have h := List.length_eq_length_filter_add (l := l) p
  omega

/-- Every generation takes its rows out of the tables. -/
theorem rowCount_sweep (tabs : Tables) (dead : List (String × Row)) :
    rowCount (sweep tabs dead) + (struck tabs dead).length = rowCount tabs := by
  simp only [rowCount, sweep, struck, mapVals]
  induction tabs.entries with
  | nil => rfl
  | cons e es ih =>
    have he := filter_length_add (fun r => e.2.schema.refersTo dead r) e.2.rows
    simp only [List.map_cons, List.sum_cons, List.flatMap_cons, List.length_append,
      List.length_map] at ih ⊢
    omega

theorem rowCount_zero (h : rowCount tabs = 0) : ¬ Holds tabs t r := by
  rintro ⟨T, hT, hr⟩
  have he := AList.mem_lookup_iff.1 hT
  have hle : T.rows.length ≤ rowCount tabs :=
    List.le_sum_of_mem (List.mem_map.2 ⟨_, he, rfl⟩)
  have hpos := List.length_pos_of_mem hr
  omega

theorem struck_nil (tabs : Tables) : struck tabs [] = [] := by
  rw [List.eq_nil_iff_forall_not_mem]
  rintro ⟨t, r⟩ hs
  obtain ⟨T, hT, hr, hn⟩ := mem_struck.1 hs
  obtain ⟨f, hf, p, hp, hl⟩ := Schema.refersTo_iff.1 hn
  cases hp

/-- A round that strikes no row changes nothing. -/
theorem sweep_eq_self (h : struck tabs dead = []) : sweep tabs dead = tabs := by
  apply AList.ext
  simp only [sweep, mapVals]
  conv_rhs => rw [← List.map_id tabs.entries]
  apply List.map_congr_left
  rintro ⟨t, T⟩ he
  have hT := AList.mem_lookup_iff.2 he
  have hrows : (T.rows.filter fun r => !T.schema.refersTo dead r) = T.rows := by
    rw [List.filter_eq_self]
    intro r hr
    cases hn : T.schema.refersTo dead r with
    | false => rfl
    | true =>
      have hs := mem_struck.2 ⟨T, hT, hr, hn⟩
      rw [h] at hs
      cases hs
  simp only [hrows, id_eq]

theorem cascade_eq_self (h : struck tabs dead = []) : cascade n tabs dead = tabs := by
  induction n generalizing tabs dead with
  | zero => rfl
  | succ n ih =>
    rw [cascade, sweep_eq_self h, h]
    exact ih (struck_nil tabs)

/-- With fuel for every row, a cascade leaves exactly the rows no deleted row dooms. -/
theorem holds_cascade (hn : rowCount tabs ≤ n) : Holds (cascade n tabs dead) t r ↔
    Holds tabs t r ∧ ¬ Doomed tabs (fun t r => (t, r) ∈ dead) t r := by
  induction n generalizing tabs dead with
  | zero =>
    have hz := rowCount_zero (t := t) (r := r) (Nat.le_zero.1 hn)
    exact ⟨fun h => (hz h).elim, fun h => (hz h.1).elim⟩
  | succ n ih =>
    have hstep : Holds (sweep tabs dead) t r ∧
        ¬ Doomed (sweep tabs dead) (fun t r => (t, r) ∈ struck tabs dead) t r ↔
        Holds tabs t r ∧ ¬ Doomed tabs (fun t r => (t, r) ∈ dead) t r := by
      constructor
      · rintro ⟨hs, hd⟩
        obtain ⟨T, hT, hr, hf⟩ := holds_sweep.1 hs
        refine ⟨⟨T, hT, hr⟩, fun hd' => ?_⟩
        rcases hd'.advance with hk | hk
        · obtain ⟨T', hT', _, hf'⟩ := mem_struck.1 hk
          rw [hT, Option.some.injEq] at hT'
          subst T'
          rw [hf] at hf'
          cases hf'
        · exact hd hk
      · rintro ⟨⟨T, hT, hr⟩, hd⟩
        refine ⟨holds_sweep.2 ⟨T, hT, hr, ?_⟩, fun hd' => hd hd'.retreat⟩
        cases hf : T.schema.refersTo dead r with
        | false => rfl
        | true =>
          obtain ⟨f, hf, p, hp, hl⟩ := Schema.refersTo_iff.1 hf
          exact (hd (.direct hp hT hr hf hl)).elim
    have hcount := rowCount_sweep tabs dead
    by_cases hnil : struck tabs dead = []
    · rw [cascade, cascade_eq_self (by rw [hnil]; exact struck_nil _), ← hstep, hnil]
      refine ⟨fun h => ⟨h, fun hd => ?_⟩, fun h => h.1⟩
      have hnone {t r} (hd : Doomed (sweep tabs dead) (fun t r => (t, r) ∈ []) t r) : False := by
        induction hd with
        | direct hd _ _ _ _ => cases hd
        | chain _ _ _ _ _ ih => exact ih
      exact hnone hd
    · have hpos := List.length_pos_iff.2 hnil
      rw [cascade, ih (by omega), hstep]

/-- A cascade keeps the schema and the order of what it leaves. -/
theorem lookup_cascade (h : (cascade n tabs dead).lookup t = some T') :
    ∃ T, tabs.lookup t = some T ∧ T'.schema = T.schema ∧ T'.rows.Sublist T.rows := by
  induction n generalizing tabs dead with
  | zero => exact ⟨T', h, rfl, .refl _⟩
  | succ n ih =>
    obtain ⟨U, hU, hs, hl⟩ := ih h
    rw [lookup_sweep, Option.map_eq_some_iff] at hU
    obtain ⟨T, hT, he⟩ := hU
    subst U
    exact ⟨T, hT, hs, hl.trans List.filter_sublist⟩

theorem lookup_cascade_isSome (n : Nat) (tabs : Tables) (dead : List (String × Row))
    (t : String) : ((cascade n tabs dead).lookup t).isSome = (tabs.lookup t).isSome := by
  induction n generalizing tabs dead with
  | zero => rfl
  | succ n ih => rw [cascade, ih, lookup_sweep, Option.isSome_map]

/-- A table without doomed rows stays as it is. -/
theorem lookup_cascade_keep
    (h : ∀ r, ¬ Doomed tabs (fun t r => (t, r) ∈ dead) u r) :
    (cascade n tabs dead).lookup u = tabs.lookup u := by
  induction n generalizing tabs dead with
  | zero => rfl
  | succ n ih =>
    rw [cascade, ih fun r hd => h r hd.retreat, lookup_sweep]
    cases hT : tabs.lookup u with
    | none => rfl
    | some T =>
      have hrows : (T.rows.filter fun r => !T.schema.refersTo dead r) = T.rows := by
        rw [List.filter_eq_self]
        intro r hr
        cases hn : T.schema.refersTo dead r with
        | false => rfl
        | true =>
          obtain ⟨f, hf, p, hp, hl⟩ := Schema.refersTo_iff.1 hn
          exact (h r (.direct hp hT hr hf hl)).elim
      rw [Option.map_some, hrows]

end Relational
