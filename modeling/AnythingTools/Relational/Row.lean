import Mathlib.Data.List.AList

namespace Relational
set_option autoImplicit true

/-- A stored cell, by SQLite storage class. A REAL is kept as its decimal text. -/
inductive Value where
  | null
  | int (n : Int)
  | real (repr : String)
  | text (s : String)
  | blob (bytes : List UInt8)
deriving DecidableEq, Repr

/-- A row is the dictionary from column names to cells that a cursor returns. -/
abbrev Row := List (String × Value)

/-- The cell of a column; a column the row does not have reads as NULL. -/
def Row.get (r : Row) (c : String) : Value := (r.lookup c).getD .null

def Row.columns (r : Row) : List String := r.map Prod.fst

@[simp] theorem Row.get_nil (c : String) : Row.get [] c = .null := rfl

theorem Row.get_cons (p : String × Value) (r : Row) (c : String) :
    Row.get (p :: r) c = if c = p.1 then p.2 else Row.get r c := by
  obtain ⟨d, v⟩ := p
  by_cases h : c = d
  · subst h
    simp only [Row.get, List.lookup_cons_self, Option.getD_some, ↓reduceIte]
  · have hb : (c == d) = false := beq_false_of_ne h
    simp only [Row.get, List.lookup_cons, hb, h, ↓reduceIte]

theorem Row.get_of_not_mem (h : c ∉ Row.columns r) : Row.get r c = .null := by
  induction r with
  | nil => rfl
  | cons p r ih =>
    rw [Row.columns, List.map_cons, List.mem_cons, not_or] at h
    rw [Row.get_cons, if_neg h.1]
    exact ih h.2

/-- The row that holds `f c` in each of the given columns. -/
def Row.build (cols : List String) (f : String → Value) : Row := cols.map fun c => (c, f c)

theorem Row.get_build (cols : List String) (f : String → Value) (c : String) :
    Row.get (Row.build cols f) c = if c ∈ cols then f c else .null := by
  induction cols with
  | nil => rfl
  | cons d cols ih =>
    rw [Row.build, List.map_cons, Row.get_cons]
    change (if c = d then f d else Row.get (Row.build cols f) c) = _
    rw [ih]
    by_cases h : c = d
    · subst h
      simp only [↓reduceIte, List.mem_cons, true_or]
    · simp only [h, ↓reduceIte, List.mem_cons, false_or]

theorem Row.get_build_of_mem (h : c ∈ cols) : Row.get (Row.build cols f) c = f c := by
  rw [Row.get_build, if_pos h]

theorem Row.build_get (cols : List String) (f : String → Value) :
    Row.build cols (Row.build cols f).get = Row.build cols f := by
  apply List.map_congr_left
  intro c hc
  rw [Row.get_build_of_mem hc]

@[simp] theorem Row.columns_build (cols : List String) (f : String → Value) :
    (Row.build cols f).columns = cols := by
  simp only [Row.columns, Row.build, List.map_map, Function.comp_def, List.map_id']

/-- Write one cell of a row that already has the column. -/
def Row.set (r : Row) (c : String) (v : Value) : Row :=
  r.map fun p => if p.1 = c then (p.1, v) else p

theorem Row.get_set_ne (r : Row) (v : Value) (h : d ≠ c) : (r.set c v).get d = r.get d := by
  induction r with
  | nil => rfl
  | cons p r ih =>
    rw [Row.set, List.map_cons, Row.get_cons, Row.get_cons]
    change (if d = _ then _ else (Row.set r c v).get d) = _
    rw [ih]
    by_cases hp : p.1 = c
    · have hd : d ≠ p.1 := fun he => h (he.trans hp)
      simp only [hp, ↓reduceIte, if_neg h]
    · simp only [hp, ↓reduceIte]

@[simp] theorem Row.columns_set (r : Row) (c : String) (v : Value) :
    (r.set c v).columns = r.columns := by
  simp only [Row.columns, Row.set, List.map_map]
  apply List.map_congr_left
  intro p hp
  simp only [Function.comp_apply]
  split <;> rfl

theorem Row.get_set_self (r : Row) (v : Value) (h : c ∈ r.columns) : (r.set c v).get c = v := by
  induction r with
  | nil => simp [Row.columns] at h
  | cons p r ih =>
    rw [Row.set, List.map_cons, Row.get_cons]
    by_cases hp : p.1 = c
    · simp only [hp, ↓reduceIte]
    · have hc : c ∈ Row.columns r := by
        simp only [Row.columns, List.map_cons, List.mem_cons] at h ⊢
        exact h.resolve_left fun he => hp he.symm
      have hne : ¬ c = p.1 := fun he => hp he.symm
      simp only [hp, ↓reduceIte, hne]
      exact ih hc

/-- Append a column. -/
def Row.add (r : Row) (c : String) (v : Value) : Row := r ++ [(c, v)]

theorem Row.get_add_ne (r : Row) (v : Value) (h : d ≠ c) : (r.add c v).get d = r.get d := by
  induction r with
  | nil => simp only [Row.add, List.nil_append, Row.get_cons, Row.get_nil, if_neg h]
  | cons p r ih =>
    rw [Row.add, List.cons_append, Row.get_cons, Row.get_cons]
    change (if d = p.1 then p.2 else (Row.add r c v).get d) = _
    rw [ih]

/-- Remove a column. -/
def Row.drop (r : Row) (c : String) : Row := r.filter fun p => p.1 ≠ c

theorem Row.get_drop_ne (r : Row) (h : d ≠ c) : (r.drop c).get d = r.get d := by
  induction r with
  | nil => rfl
  | cons p r ih =>
    by_cases hp : p.1 = c
    · have hd : d ≠ p.1 := fun he => h (he.trans hp)
      have hf : Row.drop (p :: r) c = Row.drop r c := by simp [Row.drop, hp]
      rw [hf, ih, Row.get_cons, if_neg hd]
    · have hf : Row.drop (p :: r) c = p :: Row.drop r c := by simp [Row.drop, hp]
      rw [hf, Row.get_cons, Row.get_cons, ih]

/-- Two rows hold the same cells in the given columns. -/
def Row.Agree (cols : List String) (r r' : Row) : Prop := ∀ c ∈ cols, r.get c = r'.get c

instance (cols : List String) (r r' : Row) : Decidable (Row.Agree cols r r') :=
  inferInstanceAs (Decidable (∀ c ∈ cols, r.get c = r'.get c))

theorem Row.Agree.refl (cols : List String) (r : Row) : Row.Agree cols r r := fun _ _ => rfl

theorem Row.Agree.symm (h : Row.Agree cols r r') : Row.Agree cols r' r :=
  fun c hc => (h c hc).symm

theorem Row.Agree.trans (h : Row.Agree cols r s) (h' : Row.Agree cols s t) :
    Row.Agree cols r t :=
  fun c hc => (h c hc).trans (h' c hc)

theorem Row.Agree.subset (h : Row.Agree cols r r') (hs : ∀ c ∈ cols', c ∈ cols) :
    Row.Agree cols' r r' :=
  fun c hc => h c (hs c hc)

/-- Key equality as `=` tests it: every cell is non-NULL and equal. -/
def Row.sameKey (key : List String) (r r' : Row) : Bool :=
  key.all fun c => decide (r.get c ≠ .null) && decide (r.get c = r'.get c)

theorem Row.sameKey_iff : Row.sameKey key r r' = true ↔
    ∀ c ∈ key, r.get c ≠ .null ∧ r.get c = r'.get c := by
  simp only [Row.sameKey, List.all_eq_true, Bool.and_eq_true, decide_eq_true_eq]

theorem Row.sameKey_symm (h : Row.sameKey key r r' = true) : Row.sameKey key r' r = true := by
  rw [Row.sameKey_iff] at h ⊢
  intro c hc
  obtain ⟨hn, he⟩ := h c hc
  exact ⟨he ▸ hn, he.symm⟩

theorem Row.sameKey_comm (key : List String) (r r' : Row) :
    Row.sameKey key r r' = Row.sameKey key r' r := by
  rw [Bool.eq_iff_iff]
  exact ⟨Row.sameKey_symm, Row.sameKey_symm⟩

theorem Row.sameKey_trans (h : Row.sameKey key r s = true) (h' : Row.sameKey key s t = true) :
    Row.sameKey key r t = true := by
  rw [Row.sameKey_iff] at h h' ⊢
  intro c hc
  exact ⟨(h c hc).1, (h c hc).2.trans (h' c hc).2⟩

theorem Row.sameKey_self (h : ∀ c ∈ key, Row.get r c ≠ .null) : Row.sameKey key r r = true := by
  rw [Row.sameKey_iff]
  exact fun c hc => ⟨h c hc, rfl⟩

theorem Row.sameKey_agree (h : Row.Agree key r s) (t : Row) :
    Row.sameKey key r t = Row.sameKey key s t := by
  rw [Bool.eq_iff_iff, Row.sameKey_iff, Row.sameKey_iff]
  constructor
  · intro ht c hc
    rw [← h c hc]
    exact ht c hc
  · intro ht c hc
    rw [h c hc]
    exact ht c hc

theorem Row.sameKey_agree_right (h : Row.Agree key r s) (t : Row) :
    Row.sameKey key t r = Row.sameKey key t s := by
  rw [Row.sameKey_comm, Row.sameKey_agree h, Row.sameKey_comm]

end Relational
