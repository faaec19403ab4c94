import AnythingTools.Relational.Row
import Mathlib.Logic.Relation

namespace Writer
open Relational
set_option autoImplicit true

inductive Skip where
  | text
  | line
  | block
deriving DecidableEq, Repr

/-- White space and comments before a statement. -/
def lstripSql : Skip → List Char → List Char
  | _, [] => []
  | .line, '\n' :: cs => lstripSql .text cs
  | .line, _ :: cs => lstripSql .line cs
  | .block, '*' :: '/' :: cs => lstripSql .text cs
  | .block, _ :: cs => lstripSql .block cs
  | .text, '-' :: '-' :: cs => lstripSql .line cs
  | .text, '/' :: '*' :: cs => lstripSql .block cs
  | .text, c :: cs => if c ∈ [' ', '\t', '\r', '\n'] then lstripSql .text cs else c :: cs

def startsWithAny (words : List String) (sql : String) : Bool :=
  words.any fun word =>
    word.toList.isPrefixOf ((lstripSql .text sql.toList).map Char.toLower)

def transactionControl (sql : String) : Bool :=
  startsWithAny ["begin", "commit", "end", "rollback", "savepoint", "release"] sql

/-- A statement with its parameters. Transactions are the worker's own. -/
structure Statement where
  sql : String
  params : List Value := []
  notControl : transactionControl sql = false
deriving DecidableEq, Repr

/-- `INSERT`, `UPDATE`, `DELETE` and `REPLACE` open a transaction. -/
def Statement.dml (st : Statement) : Bool :=
  startsWithAny ["insert", "update", "delete", "replace"] st.sql

/-- Queries change nothing. -/
def Statement.reads (st : Statement) : Bool := startsWithAny ["select", "values", "explain"] st.sql

/-- Why a commit fails. -/
inductive CommitError where
  | busy
  | foreignKey
  | ioError
  | full
deriving DecidableEq, Repr

def CommitError.message : CommitError → String
  | .busy => "database is locked"
  | .foreignKey => "FOREIGN KEY constraint failed"
  | .ioError => "disk I/O error"
  | .full => "database or disk is full"

/-- The database under a connection. What a statement does may depend on when it is executed; one
that fails has no effect. -/
structure Sqlite (σ : Type) where
  run : Nat → Statement → σ → Except String σ
  commitError : Nat → σ → Option CommitError
  getRepairScript : String → List Statement
  run_reads : ∀ n st s s', st.reads = true → run n st s = .ok s' → s' = s

/-- A connection with its open transaction. -/
structure Conn (σ : Type) where
  committed : σ
  work : Option σ := none
  clock : Nat := 0
deriving DecidableEq, Repr

namespace Conn

variable {σ : Type} {db : Sqlite σ} {c : Conn σ}

def current (c : Conn σ) : σ := c.work.getD c.committed

def tick (c : Conn σ) : Conn σ := { c with clock := c.clock + 1 }

/-- Outside a transaction a statement commits itself. -/
def raw (db : Sqlite σ) (c : Conn σ) (st : Statement) : Conn σ × Option String :=
  match db.run c.clock st c.current with
  | .error e => (c.tick, some e)
  | .ok s =>
    match c.work with
    | some _ => ({ c.tick with work := some s }, none)
    | none =>
      match db.commitError c.clock s with
      | some e => (c.tick, some e.message)
      | none => ({ c.tick with committed := s }, none)

/-- `BEGIN`, as the module issues it before a statement that changes data. -/
def begun (c : Conn σ) : Conn σ := { c with work := some c.current }

def execute (db : Sqlite σ) (c : Conn σ) (st : Statement) : Conn σ × Option String :=
  if st.dml = true then c.begun.raw db st else c.raw db st

def commit (db : Sqlite σ) (c : Conn σ) : Conn σ × Option String :=
  match c.work with
  | none => (c, none)
  | some s =>
    match db.commitError c.clock s with
    | some e => (c.tick, some e.message)
    | none => ({ c.tick with committed := s, work := none }, none)

def rollback (c : Conn σ) : Conn σ := { c with work := none }

/-- Statements one after the other up to the first error. -/
def sequence (f : Conn σ → Statement → Conn σ × Option String) :
    Conn σ → List Statement → Conn σ × Option String
  | c, [] => (c, none)
  | c, st :: sts =>
    match f c st with
    | (c', none) => sequence f c' sts
    | (c', some e) => (c', some e)

/-- A script commits what is open, then each of its statements by itself. -/
def executescript (db : Sqlite σ) (c : Conn σ) (sts : List Statement) : Conn σ × Option String :=
  match c.commit db with
  | (c', none) => sequence (raw db) c' sts
  | (c', some e) => (c', some e)

@[simp] theorem tick_committed : c.tick.committed = c.committed := rfl

@[simp] theorem tick_work : c.tick.work = c.work := rfl

@[simp] theorem rollback_committed : c.rollback.committed = c.committed := rfl

@[simp] theorem rollback_work : c.rollback.work = none := rfl

@[simp] theorem begun_committed : c.begun.committed = c.committed := rfl

@[simp] theorem begun_current : c.begun.current = c.current := rfl

/-- A transaction is open. -/
def Open (c : Conn σ) : Prop := c.work.isSome = true

@[simp] theorem open_begun (c : Conn σ) : c.begun.Open := rfl

theorem current_closed (h : c.work = none) : c.current = c.committed := by
  rw [current, h, Option.getD_none]

theorem begun_of_open (h : c.Open) : c.begun = c := by
  obtain ⟨s, hs⟩ := Option.isSome_iff_exists.1 h
  cases c with
  | mk committed work clock =>
    cases hs
    rfl

theorem execute_open (h : c.Open) (st : Statement) : c.execute db st = c.raw db st := by
  rw [execute, begun_of_open h]
  split <;> rfl

/-- The statements took effect one after the other. -/
inductive Ran (db : Sqlite σ) : List Statement → σ → σ → Prop
  | nil : Ran db [] s s
  | cons : db.run n st s = .ok s₁ → Ran db sts s₁ s' → Ran db (st :: sts) s s'

/-- In a transaction a statement does not reach the committed data. -/
theorem raw_open (db : Sqlite σ) (h : c.Open) (st : Statement) :
    (c.raw db st).1.committed = c.committed ∧ (c.raw db st).1.Open ∧
      ((c.raw db st).2 = none → ∃ n, db.run n st c.current = .ok (c.raw db st).1.current) ∧
      ((c.raw db st).2.isSome = true → (c.raw db st).1.current = c.current) := by
  obtain ⟨s, hs⟩ := Option.isSome_iff_exists.1 h
  rw [raw, hs]
  cases hr : db.run c.clock st c.current with
  | error e =>
    refine ⟨rfl, h, ?_, fun _ => rfl⟩
    intro he
    cases he
  | ok s₁ =>
    refine ⟨rfl, rfl, fun _ => ⟨_, hr⟩, ?_⟩
    intro he
    cases he

/-- Outside a transaction it is committed or has no effect. -/
theorem raw_closed (db : Sqlite σ) (h : c.work = none) (st : Statement) :
    (c.raw db st).1.work = none ∧
      ((c.raw db st).2 = none →
        ∃ n, db.run n st c.committed = .ok (c.raw db st).1.committed) ∧
      ((c.raw db st).2.isSome = true → (c.raw db st).1.committed = c.committed) := by
  rw [raw, h]
  cases hr : db.run c.clock st c.current with
  | error e =>
    refine ⟨h, ?_, fun _ => rfl⟩
    intro he
    cases he
  | ok s₁ =>
    rw [current_closed h] at hr
    dsimp only
    cases db.commitError c.clock s₁ with
    | some e =>
      refine ⟨h, ?_, fun _ => rfl⟩
      intro he
      cases he
    | none =>
      refine ⟨h, fun _ => ⟨_, hr⟩, ?_⟩
      intro he
      cases he

/-- A statement that fails changes nothing, an opened transaction apart. -/
theorem execute_error (db : Sqlite σ) (st : Statement) (h : (c.execute db st).2.isSome = true) :
    (c.execute db st).1.current = c.current := by
  have hraw (c₁ : Conn σ) (he : (c₁.raw db st).2.isSome = true) : (c₁.raw db st).1 = c₁.tick := by
    rw [raw] at he ⊢
    cases hr : db.run c₁.clock st c₁.current with
    | error e => rfl
    | ok s =>
      rw [hr] at he
      cases hw : c₁.work with
      | some s₁ =>
        rw [hw] at he
        cases he
      | none =>
        rw [hw] at he
        dsimp only at he ⊢
        cases hc : db.commitError c₁.clock s with
        | some e => rfl
        | none =>
          rw [hc] at he
          cases he
  rw [execute] at h ⊢
  split at h
  next hd =>
    rw [if_pos hd, hraw c.begun h]
    rfl
  next hd =>
    rw [if_neg hd, hraw c h]
    rfl

theorem sequence_cons (f : Conn σ → Statement → Conn σ × Option String) (c : Conn σ)
    (st : Statement) (sts : List Statement) :
    sequence f c (st :: sts) =
      if (f c st).2 = none then sequence f (f c st).1 sts else f c st := by
  rw [sequence]
  obtain ⟨c', e⟩ := f c st
  cases e <;> rfl

theorem sequence_single (f : Conn σ → Statement → Conn σ × Option String) (c : Conn σ)
    (st : Statement) : sequence f c [st] = f c st := by
  rw [sequence]
  obtain ⟨c', e⟩ := f c st
  cases e <;> rfl

/-- Statements in a transaction stay in it. -/
theorem sequence_open (db : Sqlite σ) (h : c.Open) (sts : List Statement) :
    (sequence (execute db) c sts).1.committed = c.committed ∧
      (sequence (execute db) c sts).1.Open ∧
      ((sequence (execute db) c sts).2 = none →
        Ran db sts c.current (sequence (execute db) c sts).1.current) := by
  induction sts generalizing c with
  | nil => exact ⟨rfl, h, fun _ => .nil⟩
  | cons st sts ih =>
    obtain ⟨hcommitted, hopen, hran, _⟩ := raw_open db h st
    rw [sequence_cons, execute_open h]
    split
    next hnone =>
      obtain ⟨hcommitted', hopen', hran'⟩ := ih hopen
      refine ⟨hcommitted'.trans hcommitted, hopen', ?_⟩
      intro hok
      obtain ⟨n, hn⟩ := hran hnone
      exact .cons hn (hran' hok)
    next hsome => exact ⟨hcommitted, hopen, fun hnone => absurd hnone hsome⟩

/-- A commit takes all of the work or nothing. -/
theorem commit_open (db : Sqlite σ) (h : c.Open) :
    ((c.commit db).2 = none → (c.commit db).1.committed = c.current ∧
        (c.commit db).1.work = none) ∧
      ((c.commit db).2.isSome = true → (c.commit db).1.committed = c.committed ∧
        ∃ e : CommitError, (c.commit db).2 = some e.message) := by
  obtain ⟨s, hs⟩ := Option.isSome_iff_exists.1 h
  rw [commit, current, hs]
  dsimp only
  cases db.commitError c.clock s with
  | none =>
    refine ⟨fun _ => ⟨rfl, rfl⟩, ?_⟩
    intro he
    cases he
  | some e =>
    refine ⟨?_, fun _ => ⟨rfl, e, rfl⟩⟩
    intro he
    cases he

theorem commit_closed (db : Sqlite σ) (h : c.work = none) : c.commit db = (c, none) := by
  rw [commit, h]

theorem commit_ok (db : Sqlite σ) (h : (c.commit db).2 = none) : (c.commit db).1.work = none := by
  cases hw : c.work with
  | none =>
    rw [commit_closed db hw]
    exact hw
  | some s => exact ((commit_open db (by rw [Open, hw]; rfl)).1 h).2

theorem commit_error (db : Sqlite σ) (h : c.commit db = (c', some e)) :
    ∃ e' : CommitError, e = e'.message := by
  cases hw : c.work with
  | none =>
    rw [commit_closed db hw] at h
    cases h
  | some s =>
    obtain ⟨_, e', he'⟩ := (commit_open db (c := c) (by rw [Open, hw]; rfl)).2 (by rw [h]; rfl)
    rw [h] at he'
    exact ⟨e', Option.some.inj he'⟩

/-- A commit of work that changed nothing. -/
theorem commit_same (db : Sqlite σ) (h : c.current = c.committed) :
    (c.commit db).1.committed = c.committed := by
  cases hw : c.work with
  | none => rw [commit_closed db hw]
  | some s =>
    obtain ⟨hok, herr⟩ := commit_open db (c := c) (by rw [Open, hw]; rfl)
    cases he : (c.commit db).2 with
    | none => exact (hok he).1.trans h
    | some e => exact (herr (by rw [he]; rfl)).1

/-- Statements outside a transaction take effect one by one. -/
theorem sequence_closed (db : Sqlite σ) (h : c.work = none) (sts : List Statement) :
    (sequence (raw db) c sts).1.work = none ∧
      Relation.ReflTransGen (fun s s' => ∃ st ∈ sts, ∃ n, db.run n st s = .ok s') c.committed
        (sequence (raw db) c sts).1.committed := by
  induction sts generalizing c with
  | nil => exact ⟨h, .refl⟩
  | cons st sts ih =>
    obtain ⟨hclosed, hran, hsame⟩ := raw_closed db h st
    rw [sequence_cons]
    split
    next hnone =>
      obtain ⟨hclosed', hrest⟩ := ih hclosed
      obtain ⟨n, hn⟩ := hran hnone
      refine ⟨hclosed', .head ⟨st, List.mem_cons_self, n, hn⟩ ?_⟩
      refine Relation.ReflTransGen.mono ?_ _ _ hrest
      rintro s s' ⟨st', hst', hstep⟩
      exact ⟨st', List.mem_cons_of_mem st hst', hstep⟩
    next hsome =>
      rw [hsame (Option.isSome_iff_ne_none.2 hsome)]
      exact ⟨hclosed, .refl⟩

end Conn

end Writer
