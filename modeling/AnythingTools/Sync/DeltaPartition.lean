import AnythingTools.Schemas
import AnythingTools.Sync.DiffEngine
import Mathlib.Data.List.Flatten
import Mathlib.Data.List.Perm.Basic

namespace Sync
open Relational Schemas
set_option autoImplicit true

/-- The row of the in-memory table that a fetched row makes. -/
def diffRow (r : Fetched) : DiffRow where
  pk := pkStr r.key
  contentHash := Python.strOr r.contentHash
  ts := Python.strOr r.ts

/-- Rows with different key texts are all kept. -/
theorem insertDiffRows_eq (h : (rows.map fun r : Fetched => pkStr r.key).Nodup) :
    insertDiffRows rows = rows.map diffRow := by
  rw [insertDiffRows]
  have hgen (mem : List DiffRow) (hm : ∀ m ∈ mem, ∀ r ∈ rows, m.pk ≠ pkStr r.key) :
      rows.foldl (fun mem r =>
        let d : DiffRow :=
          { pk := pkStr r.key
            contentHash := Python.strOr r.contentHash
            ts := Python.strOr r.ts }
        if mem.any fun m => decide (m.pk = d.pk) then mem else mem ++ [d]) mem =
      mem ++ rows.map diffRow := by
    induction rows generalizing mem with
    | nil => rw [List.foldl_nil, List.map_nil, List.append_nil]
    | cons r rows ih =>
      rw [List.map_cons, List.nodup_cons] at h
      have hno : ¬ (mem.any fun m => decide (m.pk = pkStr r.key)) = true := by
        rw [List.any_eq_true]
        rintro ⟨m, hmem, he⟩
        exact hm m hmem r List.mem_cons_self (of_decide_eq_true he)
      rw [List.foldl_cons]
      dsimp only
      rw [if_neg hno, ih h.2, List.append_assoc]
      · rfl
      · intro m hmem r' hr'
        rcases List.mem_append.1 hmem with hmem | hmem
        · exact hm m hmem r' (List.mem_cons_of_mem r hr')
        · rw [List.mem_singleton.1 hmem]
          exact fun he => h.1 (List.mem_map.2 ⟨r', hr', he.symm⟩)
  exact hgen [] fun _ hm => nomatch hm

/-- The key of a row of the join. -/
def joinedKey : Option DiffRow × Option DiffRow → List String
  | (some o, _) => [o.pk]
  | (none, some c) => [c.pk]
  | (none, none) => []

/-- Each operational key, and each cloud key that no operational row has. -/
theorem joinedKey_joined (op cloud : List DiffRow) :
    (joined op cloud).flatMap joinedKey = op.map DiffRow.pk ++
      (cloud.filter fun c => !op.any fun o => decide (o.pk = c.pk)).map DiffRow.pk := by
  rw [joined, List.flatMap_append, List.flatMap_map, List.flatMap_map, List.map_eq_flatMap,
    List.map_eq_flatMap]
  rfl

theorem mem_onlyCloud {op cloud : List DiffRow} :
    c ∈ cloud.filter (fun c => !op.any fun o => decide (o.pk = c.pk)) ↔
      c ∈ cloud ∧ c.pk ∉ op.map DiffRow.pk := by
  rw [List.mem_filter, Bool.not_eq_true', ← Bool.not_eq_true, List.any_eq_true, List.mem_map]
  simp only [decide_eq_true_eq]

theorem find_pk_eq_some {cloud : List DiffRow} (hn : (cloud.map DiffRow.pk).Nodup) :
    (cloud.find? fun c => decide (c.pk = s)) = some c ↔ c ∈ cloud ∧ c.pk = s := by
  constructor
  · intro h
    exact ⟨List.mem_of_find?_eq_some h, by simpa using List.find?_some h⟩
  · rintro ⟨hc, rfl⟩
    cases hf : cloud.find? fun d => decide (d.pk = c.pk) with
    | none => exact (List.find?_eq_none.1 hf c hc (decide_eq_true rfl)).elim
    | some d =>
      have he : d.pk = c.pk := by simpa using List.find?_some hf
      rw [List.inj_on_of_nodup_map hn (List.mem_of_find?_eq_some hf) hc he]

theorem mem_joined_both {op cloud : List DiffRow} (hn : (cloud.map DiffRow.pk).Nodup) :
    (some o, some c) ∈ joined op cloud ↔ o ∈ op ∧ c ∈ cloud ∧ c.pk = o.pk := by
  rw [joined, List.mem_append, List.mem_map, List.mem_map]
  constructor
  · rintro (⟨o', ho, he⟩ | ⟨c', _, he⟩)
    · obtain ⟨h₁, h₂⟩ := Prod.mk.inj he
      cases h₁
      exact ⟨ho, (find_pk_eq_some hn).1 h₂⟩
    · cases he
  · rintro ⟨ho, hc⟩
    exact .inl ⟨o, ho, by rw [(find_pk_eq_some hn).2 hc]⟩

theorem mem_joined_op {op cloud : List DiffRow} :
    (some o, none) ∈ joined op cloud ↔ o ∈ op ∧ o.pk ∉ cloud.map DiffRow.pk := by
  rw [joined, List.mem_append, List.mem_map, List.mem_map]
  have hnone : (cloud.find? fun c => decide (c.pk = o.pk)) = none ↔
      o.pk ∉ cloud.map DiffRow.pk := by
    rw [List.find?_eq_none, List.mem_map, not_exists]
    simp only [decide_eq_true_eq, not_and]
  constructor
  · rintro (⟨o', ho, he⟩ | ⟨c', _, he⟩)
    · obtain ⟨h₁, h₂⟩ := Prod.mk.inj he
      cases h₁
      exact ⟨ho, hnone.1 h₂⟩
    · cases he
  · rintro ⟨ho, hc⟩
    exact .inl ⟨o, ho, by rw [hnone.2 hc]⟩

theorem mem_joined_cloud {op cloud : List DiffRow} :
    (none, some c) ∈ joined op cloud ↔ c ∈ cloud ∧ c.pk ∉ op.map DiffRow.pk := by
  rw [← mem_onlyCloud, joined, List.mem_append, List.mem_map, List.mem_map]
  constructor
  · rintro (⟨o', _, he⟩ | ⟨c', hc, he⟩)
    · cases he
    · cases he
      exact hc
  · exact fun hc => .inr ⟨c, hc, rfl⟩

def Deltas.conflictIds (d : Deltas) : List String := d.genuineConflicts.map Conflict.id

def Deltas.driftIds (d : Deltas) : List String := d.timestampDrift.map Conflict.id

section
variable (parseTs : String → Int)

/-- What one row of the join adds to the classes. -/
def classifyOne (hashed : Bool) (p : Option DiffRow × Option DiffRow) : Deltas :=
  classify parseTs hashed { pkCol := [] } p.1 p.2

/-- A row of the join goes to one class, under its key. -/
theorem classifyOne_classes (hashed : Bool) (p : Option DiffRow × Option DiffRow) :
    (classifyOne parseTs hashed p).opOnly ++ (classifyOne parseTs hashed p).cloudOnly ++
      (classifyOne parseTs hashed p).contentIdentical ++
      (classifyOne parseTs hashed p).conflictIds = joinedKey p := by
  obtain ⟨_ | o, _ | c⟩ := p
  case some.some =>
    simp only [classifyOne, classify]
    split
    · split <;> rfl
    · split <;> rfl
  all_goals rfl

theorem classify_add (hashed : Bool) (d : Deltas) (p : Option DiffRow × Option DiffRow) :
    (classify parseTs hashed d p.1 p.2).opOnly =
        d.opOnly ++ (classifyOne parseTs hashed p).opOnly ∧
      (classify parseTs hashed d p.1 p.2).cloudOnly =
        d.cloudOnly ++ (classifyOne parseTs hashed p).cloudOnly ∧
      (classify parseTs hashed d p.1 p.2).contentIdentical =
        d.contentIdentical ++ (classifyOne parseTs hashed p).contentIdentical ∧
      (classify parseTs hashed d p.1 p.2).timestampDrift =
        d.timestampDrift ++ (classifyOne parseTs hashed p).timestampDrift ∧
      (classify parseTs hashed d p.1 p.2).genuineConflicts =
        d.genuineConflicts ++ (classifyOne parseTs hashed p).genuineConflicts := by
  obtain ⟨_ | o, _ | c⟩ := p
  case some.some =>
    simp only [classifyOne, classify]
    split
    · split <;> simp only [List.nil_append, List.append_nil, and_self]
    · split <;> simp only [List.nil_append, List.append_nil, and_self]
  all_goals simp only [classifyOne, classify, List.nil_append, List.append_nil, and_self]

/-- Both sides have the row, and it is not the same: the hashes differ, or where one is missing the
time stamps do. -/
def Conflicting (opHash cloudHash opTs cloudTs : String) : Prop :=
  (opHash ≠ "" ∧ cloudHash ≠ "" ∧ opHash ≠ cloudHash) ∨
    ((opHash = "" ∨ cloudHash = "") ∧ safeTsCompare parseTs opTs cloudTs ≠ 0)

/-- Both sides have the row with the same hash, and different time stamps. -/
def Drifted (opHash cloudHash opTs cloudTs : String) : Prop :=
  opHash ≠ "" ∧ opHash = cloudHash ∧ safeTsCompare parseTs opTs cloudTs ≠ 0

theorem classifyOne_both (hh : hashed = false → o.contentHash = "" ∨ c.contentHash = "")
    (s : String) :
    (s ∈ (classifyOne parseTs hashed (some o, some c)).conflictIds ↔ o.pk = s ∧
      Conflicting parseTs o.contentHash c.contentHash o.ts c.ts) ∧
    (s ∈ (classifyOne parseTs hashed (some o, some c)).driftIds ↔ o.pk = s ∧
      Drifted parseTs o.contentHash c.contentHash o.ts c.ts) := by
  have hu : (hashed = true ∧ o.contentHash ≠ "" ∧ c.contentHash ≠ "") ↔
      o.contentHash ≠ "" ∧ c.contentHash ≠ "" := by
    cases hashed with
    | false => have := hh rfl; grind
    | true => simp
  simp only [classifyOne, classify, Deltas.conflictIds, Deltas.driftIds, Conflicting, Drifted, hu]
  by_cases hm : o.contentHash ≠ "" ∧ c.contentHash ≠ ""
  · rw [if_pos hm]
    by_cases he : o.contentHash = c.contentHash
    · rw [if_pos he]
      by_cases ht : safeTsCompare parseTs o.ts c.ts = 0 <;> simp [ht, he, hm.2, eq_comm]
    · rw [if_neg he]
      simp [he, hm, eq_comm]
  · rw [if_neg hm]
    have hor : o.contentHash = "" ∨ c.contentHash = "" := by
      rwa [not_and_or, not_not, not_not] at hm
    by_cases ht : safeTsCompare parseTs o.ts c.ts = 0
    · simp only [ht]
      grind
    · rw [if_pos ht]
      simp only [List.nil_append, List.map_cons, List.map_nil, List.mem_singleton]
      grind

/-- Conflicts and drifts are rows of both sides. -/
theorem mem_classifyOne_both (hh : hashed = false → ∀ o c, p = (some o, some c) →
    o.contentHash = "" ∨ c.contentHash = "") (s : String) :
    (s ∈ (classifyOne parseTs hashed p).conflictIds ↔ ∃ o c, p = (some o, some c) ∧ o.pk = s ∧
      Conflicting parseTs o.contentHash c.contentHash o.ts c.ts) ∧
    (s ∈ (classifyOne parseTs hashed p).driftIds ↔ ∃ o c, p = (some o, some c) ∧ o.pk = s ∧
      Drifted parseTs o.contentHash c.contentHash o.ts c.ts) := by
  obtain ⟨_ | o, _ | c⟩ := p
  case some.some =>
    obtain ⟨hc, hd⟩ := classifyOne_both parseTs (fun hf => hh hf o c rfl) s
    rw [hc, hd]
    simp
  all_goals simp [classifyOne, classify, Deltas.conflictIds, Deltas.driftIds]

theorem mem_classifyOne_opOnly : s ∈ (classifyOne parseTs hashed p).opOnly ↔
    ∃ o, p = (some o, none) ∧ o.pk = s := by
  obtain ⟨_ | o, _ | c⟩ := p
  case some.none => simp [classifyOne, classify, eq_comm]
  case some.some =>
    simp only [classifyOne, classify]
    split
    · split <;> simp
    · split <;> simp
  all_goals simp [classifyOne, classify]

theorem mem_classifyOne_cloudOnly : s ∈ (classifyOne parseTs hashed p).cloudOnly ↔
    ∃ c, p = (none, some c) ∧ c.pk = s := by
  obtain ⟨_ | o, _ | c⟩ := p
  case none.some => simp [classifyOne, classify, eq_comm]
  case some.some =>
    simp only [classifyOne, classify]
    split
    · split <;> simp
    · split <;> simp
  all_goals simp [classifyOne, classify]

theorem classifyOne_driftIds (hashed : Bool) (p : Option DiffRow × Option DiffRow) :
    (classifyOne parseTs hashed p).driftIds.Sublist
      (classifyOne parseTs hashed p).contentIdentical := by
  obtain ⟨_ | o, _ | c⟩ := p
  case some.some =>
    simp only [classifyOne, classify, Deltas.driftIds]
    split
    · split
      · split <;> simp
      · simp
    · split <;> simp
  all_goals simp [classifyOne, classify, Deltas.driftIds]

/-- A drifted row is newer on one side. -/
theorem classifyOne_drift (hd : x ∈ (classifyOne parseTs hashed p).timestampDrift) :
    safeTsCompare parseTs x.opTs x.cloudTs ≠ 0 := by
  obtain ⟨_ | o, _ | c⟩ := p
  case some.some =>
    simp only [classifyOne, classify] at hd
    split at hd
    · split at hd
      · split at hd
        next ht =>
          obtain rfl := List.mem_singleton.1 hd
          exact ht
        next => cases hd
      · cases hd
    · split at hd <;> cases hd
  all_goals cases hd

theorem safeTsCompare_neg (a b : String) :
    safeTsCompare parseTs b a = - safeTsCompare parseTs a b := by
  rw [safeTsCompare, safeTsCompare, ← Int.sign_neg, Int.neg_sub]

theorem opNewer_add_cloudNewer {d : Deltas}
    (h : ∀ x ∈ d.timestampDrift, safeTsCompare parseTs x.opTs x.cloudTs ≠ 0) :
    d.opNewer parseTs + d.cloudNewer parseTs = d.timestampDrift.length := by
  rw [Deltas.opNewer, Deltas.cloudNewer]
  generalize d.timestampDrift = l at h
  induction l with
  | nil => rfl
  | cons x l ih =>
    have hx := h x List.mem_cons_self
    have hl := ih fun y hy => h y (List.mem_cons_of_mem x hy)
    rw [List.countP_cons, List.countP_cons, List.length_cons]
    simp only [decide_eq_true_eq, safeTsCompare_neg parseTs x.opTs x.cloudTs] at hl ⊢
    split <;> split <;> omega

/-- The lists of a diff are what its joined rows add to them, in their order. -/
structure Classes (hashed : Bool) (op cloud : List DiffRow) (d : Deltas) : Prop where
  opOnly : d.opOnly =
    (joined op cloud).flatMap fun p => (classifyOne parseTs hashed p).opOnly
  cloudOnly : d.cloudOnly =
    (joined op cloud).flatMap fun p => (classifyOne parseTs hashed p).cloudOnly
  contentIdentical : d.contentIdentical =
    (joined op cloud).flatMap fun p => (classifyOne parseTs hashed p).contentIdentical
  timestampDrift : d.timestampDrift =
    (joined op cloud).flatMap fun p => (classifyOne parseTs hashed p).timestampDrift
  genuineConflicts : d.genuineConflicts =
    (joined op cloud).flatMap fun p => (classifyOne parseTs hashed p).genuineConflicts
  unhashed : hashed = false → ∀ o ∈ op, ∀ c ∈ cloud, o.contentHash = "" ∨ c.contentHash = ""

theorem foldl_classes (pkCol : List String) (n m : Nat)
    (hu : hashed = false → ∀ o ∈ op, ∀ c ∈ cloud, o.contentHash = "" ∨ c.contentHash = "") :
    Classes parseTs hashed op cloud ((joined op cloud).foldl
      (fun d p => classify parseTs hashed d p.1 p.2) { pkCol, opRows := n, cloudRows := m }) where
  opOnly := foldl_append (fun d p => (classify_add parseTs hashed d p).1) _ _
  cloudOnly := foldl_append (fun d p => (classify_add parseTs hashed d p).2.1) _ _
  contentIdentical := foldl_append (fun d p => (classify_add parseTs hashed d p).2.2.1) _ _
  timestampDrift := foldl_append (fun d p => (classify_add parseTs hashed d p).2.2.2.1) _ _
  genuineConflicts := foldl_append (fun d p => (classify_add parseTs hashed d p).2.2.2.2) _ _
  unhashed := hu

end

section
variable {parseTs : String → Int} {hashed : Bool} {op cloud : List DiffRow} {d : Deltas}

/-- All classes together are the keys of the join. -/
theorem Classes.perm (h : Classes parseTs hashed op cloud d) :
    (d.opOnly ++ d.cloudOnly ++ d.contentIdentical ++ d.conflictIds).Perm
      (op.map DiffRow.pk ++
        (cloud.filter fun c => !op.any fun o => decide (o.pk = c.pk)).map DiffRow.pk) := by
  rw [h.opOnly, h.cloudOnly, h.contentIdentical, Deltas.conflictIds, h.genuineConflicts,
    List.map_flatMap, ← joinedKey_joined]
  have hone (p : Option DiffRow × Option DiffRow) := classifyOne_classes parseTs hashed p
  refine ((((List.flatMap_append_perm _ _ _).append_right _).trans
    (List.flatMap_append_perm _ _ _)).append_right _).trans
    ((List.flatMap_append_perm _ _ _).trans (List.Perm.of_eq ?_))
  exact List.flatMap_congr fun p _ => hone p

theorem Classes.nodup (h : Classes parseTs hashed op cloud d) (ho : (op.map DiffRow.pk).Nodup)
    (hc : (cloud.map DiffRow.pk).Nodup) :
    (d.opOnly ++ d.cloudOnly ++ d.contentIdentical ++ d.conflictIds).Nodup := by
  refine h.perm.nodup_iff.2 (List.Nodup.append ho (hc.sublist (List.filter_sublist.map _)) ?_)
  intro s hop hcloud
  obtain ⟨c, hm, rfl⟩ := List.mem_map.1 hcloud
  exact (mem_onlyCloud.1 hm).2 hop

theorem Classes.mem_iff (h : Classes parseTs hashed op cloud d) (s : String) :
    s ∈ d.opOnly ++ d.cloudOnly ++ d.contentIdentical ++ d.conflictIds ↔
      s ∈ op.map DiffRow.pk ∨ s ∈ cloud.map DiffRow.pk := by
  rw [h.perm.mem_iff, List.mem_append]
  constructor
  · rintro (ho | hc)
    · exact .inl ho
    · exact .inr ((List.filter_sublist.map _).subset hc)
  · intro hs
    by_cases ho : s ∈ op.map DiffRow.pk
    · exact .inl ho
    · obtain ⟨c, hc, rfl⟩ := List.mem_map.1 (hs.resolve_left ho)
      exact .inr (List.mem_map.2 ⟨c, mem_onlyCloud.2 ⟨hc, ho⟩, rfl⟩)

theorem Classes.mem_opOnly (h : Classes parseTs hashed op cloud d) (s : String) :
    s ∈ d.opOnly ↔ s ∈ op.map DiffRow.pk ∧ s ∉ cloud.map DiffRow.pk := by
  rw [h.opOnly, List.mem_flatMap]
  simp only [mem_classifyOne_opOnly]
  constructor
  · rintro ⟨_, hp, o, rfl, rfl⟩
    exact ⟨List.mem_map_of_mem (mem_joined_op.1 hp).1, (mem_joined_op.1 hp).2⟩
  · rintro ⟨ho, hc⟩
    obtain ⟨o, hm, rfl⟩ := List.mem_map.1 ho
    exact ⟨_, mem_joined_op.2 ⟨hm, hc⟩, o, rfl, rfl⟩

theorem Classes.mem_cloudOnly (h : Classes parseTs hashed op cloud d) (s : String) :
    s ∈ d.cloudOnly ↔ s ∈ cloud.map DiffRow.pk ∧ s ∉ op.map DiffRow.pk := by
  rw [h.cloudOnly, List.mem_flatMap]
  simp only [mem_classifyOne_cloudOnly]
  constructor
  · rintro ⟨_, hp, c, rfl, rfl⟩
    exact ⟨List.mem_map_of_mem (mem_joined_cloud.1 hp).1, (mem_joined_cloud.1 hp).2⟩
  · rintro ⟨hc, ho⟩
    obtain ⟨c, hm, rfl⟩ := List.mem_map.1 hc
    exact ⟨_, mem_joined_cloud.2 ⟨hm, ho⟩, c, rfl, rfl⟩

theorem Classes.mem_both (h : Classes parseTs hashed op cloud d)
    (hc : (cloud.map DiffRow.pk).Nodup) (s : String) :
    (s ∈ d.conflictIds ↔ ∃ o ∈ op, ∃ c ∈ cloud, o.pk = s ∧ c.pk = s ∧
      Conflicting parseTs o.contentHash c.contentHash o.ts c.ts) ∧
    (s ∈ d.driftIds ↔ ∃ o ∈ op, ∃ c ∈ cloud, o.pk = s ∧ c.pk = s ∧
      Drifted parseTs o.contentHash c.contentHash o.ts c.ts) := by
  rw [Deltas.conflictIds, h.genuineConflicts, Deltas.driftIds, h.timestampDrift, List.map_flatMap,
    List.map_flatMap, List.mem_flatMap, List.mem_flatMap]
  have hone (p : Option DiffRow × Option DiffRow) (hp : p ∈ joined op cloud) :=
    mem_classifyOne_both parseTs (fun hf o c he =>
      have hm := (mem_joined_both hc).1 (he ▸ hp)
      h.unhashed hf o hm.1 c hm.2.1) s
  have hcommon (P : DiffRow → DiffRow → Prop) :
      (∃ p ∈ joined op cloud, ∃ o c, p = (some o, some c) ∧ o.pk = s ∧ P o c) ↔
      ∃ o ∈ op, ∃ c ∈ cloud, o.pk = s ∧ c.pk = s ∧ P o c := by
    constructor
    · rintro ⟨_, hp, o, c, rfl, rfl, hP⟩
      obtain ⟨ho, hcl, he⟩ := (mem_joined_both hc).1 hp
      exact ⟨o, ho, c, hcl, rfl, he, hP⟩
    · rintro ⟨o, ho, c, hcl, rfl, he, hP⟩
      exact ⟨_, (mem_joined_both hc).2 ⟨ho, hcl, he⟩, o, c, rfl, rfl, hP⟩
  rw [← hcommon, ← hcommon]
  exact ⟨exists_congr fun p => and_congr_right fun hp => (hone p hp).1,
    exists_congr fun p => and_congr_right fun hp => (hone p hp).2⟩

theorem Classes.drift_sublist (h : Classes parseTs hashed op cloud d) :
    d.driftIds.Sublist d.contentIdentical := by
  rw [Deltas.driftIds, h.timestampDrift, h.contentIdentical, List.map_flatMap]
  exact List.Sublist.flatMap_right _ fun p _ => classifyOne_driftIds parseTs hashed p

theorem Classes.newer (h : Classes parseTs hashed op cloud d) :
    d.opNewer parseTs + d.cloudNewer parseTs = d.timestampDrift.length := by
  refine opNewer_add_cloudNewer parseTs fun x hx => ?_
  rw [h.timestampDrift, List.mem_flatMap] at hx
  obtain ⟨p, _, hx⟩ := hx
  exact classifyOne_drift parseTs hx

end

def hashText (T : Table) (r : Row) : String :=
  if "content_hash" ∈ T.schema.names then Python.strOr (r.get "content_hash") else ""

def tsText (T : Table) (r : Row) : String :=
  if "updated_at" ∈ T.schema.names then Python.strOr (r.get "updated_at") else ""

def keyTexts (T : Table) (k : String) : List String := T.rows.map fun r => Python.str (r.get k)

/-- The operational and the cloud rows of a table with the text primary key `k`. -/
structure TextKeyed (op cloud : Database) (t k : String) (O C : Table) : Prop where
  op : op.find t = some O
  cloud : cloud.find t = some C
  primaryKey : O.schema.primaryKey = [k]
  cloudKey : k ∈ C.schema.names
  stamped : "updated_at" ∈ C.schema.names ↔ "updated_at" ∈ O.schema.names
  opTexts : ∀ r ∈ O.rows, ∃ s, r.get k = .text s
  cloudTexts : ∀ r ∈ C.rows, ∃ s, r.get k = .text s
  opKeyed : (O.rows.map fun r => r.get k).Nodup
  cloudKeyed : (C.rows.map fun r => r.get k).Nodup

def sideRow (T : Table) (k : String) (r : Row) : DiffRow where
  pk := Python.str (r.get k)
  contentHash := hashText T r
  ts := tsText T r

theorem keyTexts_nodup (ht : ∀ r ∈ T.rows, ∃ s, Row.get r k = .text s)
    (hn : (T.rows.map fun r => Row.get r k).Nodup) : (keyTexts T k).Nodup := by
  have he : keyTexts T k = (T.rows.map fun r => Row.get r k).map Python.str := by
    rw [keyTexts, List.map_map]
    rfl
  rw [he]
  refine hn.map_on fun a ha b hb hab => ?_
  obtain ⟨r, hr, rfl⟩ := List.mem_map.1 ha
  obtain ⟨r', hr', rfl⟩ := List.mem_map.1 hb
  obtain ⟨s, hs⟩ := ht r hr
  obtain ⟨s', hs'⟩ := ht r' hr'
  rw [hs, hs'] at hab ⊢
  exact congrArg Value.text hab

/-- The rows of one side as they stand in its in-memory table. -/
theorem insertDiffRows_fetchRows (hT : Database.find db t = some T) (hk : k ∈ T.schema.names)
    (hts : hasTs = true ↔ "updated_at" ∈ T.schema.names) (hn : (keyTexts T k).Nodup) :
    insertDiffRows (fetchRows db t [k] (decide ("content_hash" ∈ T.schema.names)) hasTs) =
      T.rows.map (sideRow T k) := by
  have hall : ([k] ++ (if "content_hash" ∈ T.schema.names then ["content_hash"] else []) ++
      if hasTs = true then ["updated_at"] else []).all
        (fun c => decide (c ∈ T.schema.names)) = true := by
    rw [List.all_eq_true]
    intro c hc
    rw [List.mem_append, List.mem_append, List.mem_singleton] at hc
    rw [decide_eq_true_eq]
    rcases hc with (rfl | hc) | hc
    · exact hk
    · split at hc
      next h => rwa [List.mem_singleton.1 hc]
      next => cases hc
    · split at hc
      next h => rw [List.mem_singleton.1 hc]; exact hts.1 h
      next => cases hc
  have hfetch : fetchRows db t [k] (decide ("content_hash" ∈ T.schema.names)) hasTs =
      T.rows.map fun r =>
        { key := [r.get k]
          contentHash := if "content_hash" ∈ T.schema.names then r.get "content_hash" else .text ""
          ts := if hasTs = true then r.get "updated_at" else .text "" } := by
    rw [fetchRows, hT]
    simp only [decide_eq_true_eq, if_pos hall, List.map_cons, List.map_nil]
  have hrow (v : Value) : pkStr [v] = Python.str v := String.intercalate_singleton
  rw [hfetch, insertDiffRows_eq, List.map_map]
  · apply List.map_congr_left
    intro r _
    simp only [Function.comp_apply, diffRow, sideRow, hashText, tsText, hrow, hts]
    congr 1
    · split <;> simp
    · split <;> simp
  · rw [List.map_map]
    simp only [Function.comp_def, hrow]
    exact hn

theorem detectPkColumns_single (hT : Database.find db t = some T)
    (hk : T.schema.primaryKey = [k]) :
    detectPkColumns db t = ([k], decide ("content_hash" ∈ T.schema.names)) := by
  rw [Schema.primaryKey] at hk
  obtain ⟨c, hc, rfl⟩ := List.map_eq_singleton_iff.1 hk
  rw [detectPkColumns, hT]
  dsimp only
  rw [hc, List.insertionSort_cons, List.insertionSort_nil, List.orderedInsert_nil, List.map_cons,
    List.map_nil, if_neg (List.cons_ne_nil _ _)]

section
variable (parseTs : String → Int)

/-- The diff of one table is made of the rows of its two sides. -/
theorem computeDeltas_classes (h : TextKeyed op cloud t k O C) :
    ∃ hashed, Classes parseTs hashed (O.rows.map (sideRow O k)) (C.rows.map (sideRow C k))
      (computeDeltas parseTs op cloud t) := by
  have hk : k ∈ O.schema.names :=
    primaryKey_subset O.schema (h.primaryKey ▸ List.mem_singleton_self k)
  have hts : hasUpdatedAt op t = true ↔ "updated_at" ∈ O.schema.names := by
    rw [hasUpdatedAt, h.op, decide_eq_true_eq]
  have hcloud : (detectPkColumns cloud t).2 = decide ("content_hash" ∈ C.schema.names) := by
    rw [detectPkColumns, h.cloud]
  refine ⟨decide ("content_hash" ∈ O.schema.names) && decide ("content_hash" ∈ C.schema.names),
    ?_⟩
  rw [computeDeltas, detectPkColumns_single h.op h.primaryKey]
  dsimp only
  rw [hcloud, insertDiffRows_fetchRows h.op hk hts (keyTexts_nodup h.opTexts h.opKeyed),
    insertDiffRows_fetchRows h.cloud h.cloudKey (hts.trans h.stamped.symm)
      (keyTexts_nodup h.cloudTexts h.cloudKeyed)]
  apply foldl_classes
  intro hf o ho c hc
  obtain ⟨o, _, rfl⟩ := List.mem_map.1 ho
  obtain ⟨c, _, rfl⟩ := List.mem_map.1 hc
  rw [Bool.and_eq_false_iff, decide_eq_false_iff_not, decide_eq_false_iff_not] at hf
  rcases hf with hf | hf
  · exact .inl (if_neg hf)
  · exact .inr (if_neg hf)

/-- The diff of one table: every key of the two sides is in one class, once. -/
theorem computeDeltas_partition (h : TextKeyed op cloud t k O C) :
    let d := computeDeltas parseTs op cloud t
    (d.opOnly ++ d.cloudOnly ++ d.contentIdentical ++ d.conflictIds).Nodup ∧
      (∀ s, s ∈ d.opOnly ++ d.cloudOnly ++ d.contentIdentical ++ d.conflictIds ↔
        s ∈ keyTexts O k ∨ s ∈ keyTexts C k) ∧
      (∀ s, s ∈ d.opOnly ↔ s ∈ keyTexts O k ∧ s ∉ keyTexts C k) ∧
      (∀ s, s ∈ d.cloudOnly ↔ s ∈ keyTexts C k ∧ s ∉ keyTexts O k) ∧
      (∀ s, s ∈ d.conflictIds ↔ ∃ o ∈ O.rows, ∃ c ∈ C.rows,
        o.get k = .text s ∧ c.get k = .text s ∧
          Conflicting parseTs (hashText O o) (hashText C c) (tsText O o) (tsText C c)) ∧
      d.driftIds.Sublist d.contentIdentical ∧
      (∀ s, s ∈ d.driftIds ↔ ∃ o ∈ O.rows, ∃ c ∈ C.rows,
        o.get k = .text s ∧ c.get k = .text s ∧
          Drifted parseTs (hashText O o) (hashText C c) (tsText O o) (tsText C c)) ∧
      d.opNewer parseTs + d.cloudNewer parseTs = d.timestampDrift.length := by
  intro d
  obtain ⟨hashed, hd⟩ := computeDeltas_classes parseTs h
  have hpk (T : Table) : (T.rows.map (sideRow T k)).map DiffRow.pk = keyTexts T k := by
    rw [List.map_map]
    rfl
  have ho : ((O.rows.map (sideRow O k)).map DiffRow.pk).Nodup :=
    hpk O ▸ keyTexts_nodup h.opTexts h.opKeyed
  have hc : ((C.rows.map (sideRow C k)).map DiffRow.pk).Nodup :=
    hpk C ▸ keyTexts_nodup h.cloudTexts h.cloudKeyed
  -- key texts are the keys, as all keys are texts
  have hrows (s : String) (P : DiffRow → DiffRow → Prop) :
      (∃ o ∈ O.rows.map (sideRow O k), ∃ c ∈ C.rows.map (sideRow C k),
        o.pk = s ∧ c.pk = s ∧ P o c) ↔
      ∃ o ∈ O.rows, ∃ c ∈ C.rows, o.get k = .text s ∧ c.get k = .text s ∧
        P (sideRow O k o) (sideRow C k c) := by
    simp only [List.mem_map, exists_exists_and_eq_and]
    refine exists_congr fun o => and_congr_right fun hmo => exists_congr fun c =>
      and_congr_right fun hmc => ?_
    obtain ⟨so, hso⟩ := h.opTexts o hmo
    obtain ⟨sc, hsc⟩ := h.cloudTexts c hmc
    simp only [sideRow, hso, hsc, Python.str_text, Value.text.injEq]
  refine ⟨hd.nodup ho hc, ?_, ?_, ?_, ?_, hd.drift_sublist, ?_, hd.newer⟩
  · simpa only [hpk] using hd.mem_iff
  · simpa only [hpk] using hd.mem_opOnly
  · simpa only [hpk] using hd.mem_cloudOnly
  · exact fun s => (hd.mem_both hc s).1.trans (hrows s _)
  · exact fun s => (hd.mem_both hc s).2.trans (hrows s _)

end

def hashedTicker (ticker hash ts : String) : Row :=
  sfTickers.schema.coerce ts
    [("ticker", .text ticker), ("content_hash", .text hash), ("updated_at", .text ts)]

def tickersDb (rows : List Row) : Database :=
  (Database.ofSchemas [("sf_tickers", sfTickers.schema)]).update "sf_tickers"
    fun T => { T with rows }

/-- One ticker on each side alone, one drifted and one in conflict. -/
theorem computeDeltas_partition_tickers :
    let d := computeDeltas (fun t => t.length) (tickersDb [hashedTicker "A" "1" "2024",
      hashedTicker "B" "2" "2024", hashedTicker "C" "3" "2024"])
      (tickersDb [hashedTicker "B" "2" "2024-05", hashedTicker "C" "4" "2024", hashedTicker "D" "5" "2024"])
      "sf_tickers"
    (d.opOnly ++ d.cloudOnly ++ d.contentIdentical ++ d.conflictIds).Nodup ∧
      d.opOnly = ["A"] ∧ d.cloudOnly = ["D"] ∧ d.driftIds = ["B"] ∧ d.conflictIds = ["C"] := by
  have h : TextKeyed (tickersDb [hashedTicker "A" "1" "2024", hashedTicker "B" "2" "2024",
      hashedTicker "C" "3" "2024"])
      (tickersDb [hashedTicker "B" "2" "2024-05", hashedTicker "C" "4" "2024", hashedTicker "D" "5" "2024"])
      "sf_tickers" "ticker"
      { schema := sfTickers.schema
        rows := [hashedTicker "A" "1" "2024", hashedTicker "B" "2" "2024", hashedTicker "C" "3" "2024"] }
      { schema := sfTickers.schema
        rows := [hashedTicker "B" "2" "2024-05", hashedTicker "C" "4" "2024",
          hashedTicker "D" "5" "2024"] } := by
    constructor
    case op => decide +kernel
    case cloud => decide +kernel
    case primaryKey => decide
    case cloudKey => decide
    case stamped => decide
    case opTexts =>
      simp only [List.forall_mem_cons]
      exact ⟨⟨"A", rfl⟩, ⟨"B", rfl⟩, ⟨"C", rfl⟩, fun _ h => nomatch h⟩
    case cloudTexts =>
      simp only [List.forall_mem_cons]
      exact ⟨⟨"B", rfl⟩, ⟨"C", rfl⟩, ⟨"D", rfl⟩, fun _ h => nomatch h⟩
    case opKeyed => decide +kernel
    case cloudKeyed => decide +kernel
  refine ⟨(computeDeltas_partition _ h).1, ?_, ?_, ?_, ?_⟩ <;> decide +kernel

end Sync
