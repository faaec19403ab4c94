import AnythingTools.Sync.Bidirectional

namespace Sync
open Relational Schemas
set_option autoImplicit true

/-- The bound key that a key text of the diff stands for. -/
def keyOf (pkCol : List String) (id : String) : Except Python.Error (Option Row) :=
  match pkCol with
  | [pk] => .ok (some [(pk, .text id)])
  | _ => decodeKey pkCol id

theorem mem_selectKeys : q ∈ selectKeys temp t keys ↔
    ∃ k ∈ keys, q ∈ selectKeys temp t [k] := by
  simp only [selectKeys]
  cases temp.find t with
  | none => simp
  | some T => simp only [List.mem_filter, List.any_eq_true, List.mem_singleton, exists_eq_left]; grind

theorem decodeKeys_ok {ids : List String} (h : decodeKeys pkCol ids = .ok keys) :
    k ∈ keys ↔ ∃ id ∈ ids, decodeKey pkCol id = .ok (some k) := by
  induction ids generalizing keys with
  | nil =>
    cases h
    simp
  | cons id ids ih =>
    rw [decodeKeys] at h
    cases hk : decodeKey pkCol id with
    | error e =>
      rw [hk] at h
      cases h
    | ok k' =>
      cases hks : decodeKeys pkCol ids with
      | error e =>
        rw [hk, hks] at h
        cases h
      | ok ks =>
        rw [hk, hks] at h
        cases h
        rw [List.mem_append, ih hks, Option.mem_toList]
        simp only [List.mem_cons, exists_eq_or_imp, hk, Except.ok.injEq]

/-- Restored are the staged rows that some key text selects. -/
theorem mem_restoreStatements {ids : List String}
    (h : restoreStatements temp t pkCol ids = .ok ss) : s ∈ ss ↔
      ∃ id ∈ ids, ∃ key, keyOf pkCol id = .ok (some key) ∧
        ∃ q ∈ selectKeys temp t [key], s = insertOrReplace temp t q := by
  unfold restoreStatements at h
  split at h
  next pk =>
    cases h
    simp only [List.mem_flatMap, List.mem_map, keyOf, Except.ok.injEq, Option.some.injEq,
      exists_eq_left']
    apply Iff.intro
    · rintro ⟨chunk, hc, q, hq, hs⟩
      obtain ⟨k, hk, hq⟩ := mem_selectKeys.1 hq
      obtain ⟨id, hid, hk⟩ := List.mem_map.1 hk
      subst hk
      exact ⟨id, (Python.mem_chunks (n := 900) (by decide)).1 ⟨chunk, hc, hid⟩, q, hq, hs.symm⟩
    · rintro ⟨id, hid, q, hq, hs⟩
      obtain ⟨chunk, hc, hid⟩ := (Python.mem_chunks (n := 900) (by decide)).2 hid
      exact ⟨chunk, hc, q, mem_selectKeys.2 ⟨_, List.mem_map.2 ⟨id, hid, rfl⟩, hq⟩, hs.symm⟩
  next hne =>
    have hkey (id : String) : keyOf pkCol id = decodeKey pkCol id := by
      unfold keyOf
      split
      · exact (hne _ rfl).elim
      · rfl
    dsimp only at h
    split at h
    case isTrue => cases h
    case isFalse hz =>
      cases hks : (Python.chunks (900 / max 1 pkCol.length) ids).mapM (decodeKeys pkCol) with
      | error e =>
        rw [hks] at h
        cases h
      | ok kss =>
        rw [hks] at h
        cases h
        simp only [List.mem_flatMap, List.mem_map, Python.mem_mapM_ok hks, hkey]
        apply Iff.intro
        · rintro ⟨ks, ⟨chunk, hc, hk⟩, q, hq, hs⟩
          obtain ⟨k, hk', hq⟩ := mem_selectKeys.1 hq
          obtain ⟨id, hid, hd⟩ := (decodeKeys_ok hk).1 hk'
          have hpos : 0 < 900 / max 1 pkCol.length := by
            apply Nat.pos_of_ne_zero
            intro he
            apply hz
            refine ⟨he, ?_⟩
            intro hi
            rw [hi] at hc
            cases hc
          exact ⟨id, (Python.mem_chunks hpos).1 ⟨chunk, hc, hid⟩, k, hd, q, hq, hs.symm⟩
        · rintro ⟨id, hid, k, hd, q, hq, hs⟩
          have hpos : 0 < 900 / max 1 pkCol.length := by
            apply Nat.pos_of_ne_zero
            intro he
            apply hz
            refine ⟨he, ?_⟩
            intro hi
            rw [hi] at hid
            cases hid
          obtain ⟨chunk, hc, hid⟩ := (Python.mem_chunks hpos).2 hid
          obtain ⟨ks, hk⟩ := Python.mapM_ok_total hks hc
          exact ⟨ks, ⟨chunk, hc, hk⟩, q, mem_selectKeys.2 ⟨k, (decodeKeys_ok hk).2 ⟨id, hid, hd⟩, hq⟩,
            hs.symm⟩

theorem bind_ok {x : Except ε α} {f : α → Except ε β} (h : (x >>= f) = .ok b) :
    ∃ a, x = .ok a ∧ f a = .ok b := by
  cases x with
  | error e => cases h
  | ok a => exact ⟨a, rfl, h⟩

theorem keyOf_composite (h : ∀ pk, pkCol ≠ [pk]) (id : String) :
    keyOf pkCol id = decodeKey pkCol id := by
  unfold keyOf
  split
  · exact (h _ rfl).elim
  · rfl

theorem decodeKey_of_none {id : String} (h : loadKey id = .ok none) :
    decodeKey pkCol id = .ok none := by
  rw [decodeKey, h]
  rfl

theorem decodeKey_of_some {id : String} (h : loadKey id = .ok (some xs)) :
    decodeKey pkCol id =
      if xs.length = pkCol.length then (bindKey pkCol xs).map some else .ok none := by
  rw [decodeKey, h]
  change (if xs.length = pkCol.length then _ else _) = _
  split
  · cases bindKey pkCol xs <;> rfl
  · rfl

theorem mem_deleteStatements {ids : List String} (h : deleteStatements t pkCol ids = .ok ops) :
    .ok s ∈ ops ↔ ∃ id ∈ ids, ∃ key, keyOf pkCol id = .ok (some key) ∧ s = .delete t key := by
  induction ids generalizing ops with
  | nil =>
    cases h
    simp
  | cons id ids ih =>
    rw [deleteStatements] at h
    obtain ⟨rest, hr, h⟩ := bind_ok h
    simp only [List.mem_cons, exists_eq_or_imp, ← ih hr]
    split at h
    next pk =>
      cases h
      simp [keyOf]
    next hne =>
      rw [keyOf_composite hne]
      obtain ⟨xs?, hl, h⟩ := bind_ok h
      cases xs? with
      | none =>
        cases h
        rw [decodeKey_of_none hl]
        simp
      | some xs =>
        rw [decodeKey_of_some hl]
        dsimp only at h
        split at h
        case isFalse hx =>
          cases h
          simp [hx]
        case isTrue hx =>
          cases h
          simp only [List.mem_cons, hx]
          cases bindKey pkCol xs with
          | error e => simp [Except.map]
          | ok key => simp [Except.map]

theorem mem_conflictStatements {cs : List Conflict}
    (h : conflictStatements o strategy temp t pkCol cs = .ok ss) : s ∈ ss ↔
      ∃ c ∈ cs, verdict o strategy t c = .cloud ∧
        ∃ q, conflictRow temp t pkCol c = .ok (some q) ∧ s = insertOrReplace temp t q := by
  induction cs generalizing ss with
  | nil =>
    cases h
    simp
  | cons c cs ih =>
    rw [conflictStatements] at h
    simp only [List.mem_cons, exists_eq_or_imp]
    split at h
    case isFalse hv =>
      rw [ih h]
      simp only [hv, false_and, false_or]
    case isTrue hv =>
      obtain ⟨q?, hq, h⟩ := bind_ok h
      obtain ⟨rest, hr, h⟩ := bind_ok h
      cases h
      rw [List.mem_append, ih hr]
      simp only [hv, hq, true_and]
      cases q? with
      | none => simp
      | some q => simp

/-- The staged rows of a table that a run restores. -/
def Restored (o : SyncOptions) (strategy : Strategy) (temp : Database) (t : String) (d : Deltas)
    (q : Row) : Prop :=
  ((strategy = .cloudWins ∨ strategy = .newestOverallWins) ∧ ∃ id ∈ d.cloudOnly, ∃ key,
      keyOf d.pkCol id = .ok (some key) ∧ q ∈ selectKeys temp t [key]) ∨
    ∃ c ∈ d.genuineConflicts, verdict o strategy t c = .cloud ∧
      conflictRow temp t d.pkCol c = .ok (some q)

/-- The keys of a table that a run deletes. -/
def Deleted (strategy : Strategy) (d : Deltas) (key : Row) : Prop :=
  strategy = .cloudWins ∧ ∃ id ∈ d.opOnly, keyOf d.pkCol id = .ok (some key)

theorem mem_tableStatements (h : tableStatements o strategy temp t d = .ok ops) :
    .ok s ∈ ops ↔ (∃ q, Restored o strategy temp t d q ∧ s = insertOrReplace temp t q) ∨
      ∃ key, Deleted strategy d key ∧ s = .delete t key := by
  rw [tableStatements] at h
  obtain ⟨restored, hr, h⟩ := bind_ok h
  obtain ⟨deleted, hd, h⟩ := bind_ok h
  obtain ⟨resolved, hc, h⟩ := bind_ok h
  cases h
  have hmap (l : List Stmt) : Except.ok s ∈ l.map (@Except.ok Python.Error Stmt) ↔ s ∈ l := by
    simp
  simp only [List.mem_append, hmap, Restored, Deleted]
  have hr' : s ∈ restored ↔ (strategy = .cloudWins ∨ strategy = .newestOverallWins) ∧
      ∃ id ∈ d.cloudOnly, ∃ key, keyOf d.pkCol id = .ok (some key) ∧
        ∃ q ∈ selectKeys temp t [key], s = insertOrReplace temp t q := by
    split at hr
    case isTrue hs => rw [mem_restoreStatements hr]; simp only [hs, true_and]
    case isFalse hs =>
      cases hr
      simp only [hs, false_and, List.not_mem_nil]
  have hd' : Except.ok s ∈ deleted ↔ strategy = .cloudWins ∧
      ∃ id ∈ d.opOnly, ∃ key, keyOf d.pkCol id = .ok (some key) ∧ s = .delete t key := by
    split at hd
    case isTrue hs => rw [mem_deleteStatements hd]; simp only [hs, true_and]
    case isFalse hs =>
      cases hd
      simp only [hs, false_and, List.not_mem_nil]
  rw [hr', hd', mem_conflictStatements hc]
  grind

theorem mem_opTransactions {triad : List (String × Deltas)}
    (h : opTransactions o strategy temp triad = .ok ops) :
    .ok s ∈ ops ↔ ∃ p ∈ triad,
      (∃ q, Restored o strategy temp p.1 p.2 q ∧ s = insertOrReplace temp p.1 q) ∨
        ∃ key, Deleted strategy p.2 key ∧ s = .delete p.1 key := by
  induction triad generalizing ops with
  | nil =>
    cases h
    simp
  | cons p triad ih =>
    obtain ⟨t, d⟩ := p
    rw [opTransactions] at h
    obtain ⟨ss, hs, h⟩ := bind_ok h
    obtain ⟨rest, hr, h⟩ := bind_ok h
    cases h
    rw [List.mem_append, mem_tableStatements hs, ih hr]
    simp only [List.mem_cons, exists_eq_or_imp]

end Sync
