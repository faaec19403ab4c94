import AnythingTools.Writer.Connection
import Mathlib.Data.List.Infix

namespace Writer
set_option autoImplicit true

def lower (s : String) : List Char := s.toList.map Char.toLower

def mentions (pattern msg : String) : Bool := decide (pattern.toList <:+: lower msg)

def isWord (c : Char) : Bool := c.isAlphanum || c == '_'

/-- The end of the pattern of `_extract_table_name`: a quote or a schema may stand before the
name. -/
def extractName (cs : List Char) : Option String :=
  match cs.dropWhile Char.isWhitespace with
  | '"' :: rest => if rest.takeWhile isWord = [] then none else some (.ofList (rest.takeWhile isWord))
  | cs =>
    let segments := (cs.takeWhile fun c => isWord c || c == '.').splitOn '.'
    let behindDot := if segments.headD [] = [] then segments.drop 2 else segments.drop 1
    match (behindDot.filter fun s => !s.isEmpty).getLast? with
    | some s => some (.ofList s)
    | none => if segments.headD [] = [] then none else some (.ofList (segments.headD []))

def extractTableName (msg : String) : Option String :=
  msg.toList.tails.findSome? fun cs =>
    if "no such table:".toList.isPrefixOf (cs.map Char.toLower) then extractName (cs.drop 14)
    else none

example : extractTableName "no such table: main.watch" = some "watch" := by decide +kernel

def isNoSuchTableError (e : String) : Bool := mentions "no such table" e

def isRecoverableVec0Error (e : String) : Bool :=
  ["error opening vector blob", "vector_chunks", "could not insert a new vector chunk",
    "could not initialize"].any fun p => mentions p e

theorem not_isNoSuchTableError_message (e : CommitError) : isNoSuchTableError e.message = false := by
  cases e <;> decide +kernel

/-- What happens to a receipt. -/
inductive Settlement where
  | resolved
  | rejected (e : String)
deriving DecidableEq, Repr

/-- A task of the queue. -/
inductive Task where
  | single (st : Statement)
  | script (sts : List Statement)
  | transaction (sts : List Statement)
deriving DecidableEq, Repr

def Task.statements : Task → List Statement
  | .single st => [st]
  | .script sts => sts
  | .transaction sts => sts

variable {σ : Type}

/-- `_attempt_table_repair`. -/
def attemptTableRepair (db : Sqlite σ) (c : Conn σ) (tableName : String) : Conn σ × Bool :=
  if db.getRepairScript tableName = [] then (c, false)
  else
    match c.executescript db (db.getRepairScript tableName) with
    | (c', some _) => (c'.rollback, false)
    | (c', none) =>
      match c'.commit db with
      | (c', some _) => (c'.rollback, false)
      | (c', none) => (c', true)

/-- The statements of a task and the commit. -/
def attempt (db : Sqlite σ) (c : Conn σ) (sts : List Statement) : Conn σ × Option String :=
  match Conn.sequence (Conn.execute db) c sts with
  | (c', some e) => (c', some e)
  | (c', none) => c'.commit db

/-- `_attempt_table_repair` for the table that an error names. -/
def repairFor (db : Sqlite σ) (c : Conn σ) (e : String) : Conn σ × Bool :=
  if isNoSuchTableError e = true then
    match extractTableName e with
    | none => (c, false)
    | some tableName => attemptTableRepair db c tableName
  else (c, false)

/-- A single statement with the retries that are left. The branches for foreign keys and vectors log
what they know, and roll back and reject like the last one. -/
def runSingle (db : Sqlite σ) (st : Statement) : Nat → Conn σ → Conn σ × List Settlement
  | retries, c =>
    match attempt db c [st] with
    | (c', none) => (c', [.resolved])
    | (c', some e) =>
      match retries, repairFor db c' e with
      | n + 1, (c'', true) => runSingle db st n c''
      | _, (c'', _) => (c''.rollback, [.rejected e])

/-- A transaction with the retries that are left for vectors. The error is raised again after the
receipt is rejected, so the handler of all tasks rejects it once more. -/
def runTransaction (db : Sqlite σ) (sts : List Statement) : Nat → Conn σ → Conn σ × List Settlement
  | retries, c =>
    match attempt db c sts with
    | (c', none) => (c', [.resolved])
    | (c', some e) =>
      match retries, isRecoverableVec0Error e with
      | n + 1, true => runTransaction db sts n c'.rollback
      | _, _ => (c'.rollback.rollback, [.rejected e, .rejected e])

def runScript (db : Sqlite σ) (sts : List Statement) (c : Conn σ) : Conn σ × List Settlement :=
  match c.executescript db sts with
  | (c', some e) => (c'.rollback, [.rejected e])
  | (c', none) =>
    match c'.commit db with
    | (c', some e) => (c'.rollback, [.rejected e])
    | (c', none) => (c', [.resolved])

/-- `MAX_REPAIR_RETRIES`. -/
def maxRepairRetries : Nat := 1

def runTask (db : Sqlite σ) (c : Conn σ) : Task → Conn σ × List Settlement
  | .single st => runSingle db st maxRepairRetries c
  | .script sts => runScript db sts c
  | .transaction sts => runTransaction db sts 2 c

/-- The thread between two tasks. -/
structure Worker (σ : Type) where
  conn : Conn σ
  consecutiveErrors : Nat := 0
  generation : Nat := 0
deriving DecidableEq, Repr

/-- A task, with the handler of all tasks: the third error in a row opens a new connection. -/
def perform (db : Sqlite σ) (w : Worker σ) (task : Task) : Worker σ × List Settlement :=
  match runTask db w.conn task with
  | (c, out) =>
    if out = [.resolved] then ({ conn := c, generation := w.generation + 1 }, out)
    else
      match task with
      | .single _ => ({ w with conn := c }, out)
      | _ =>
        if 3 ≤ w.consecutiveErrors + 1 then
          ({ w with conn := c.rollback, consecutiveErrors := 0 }, out)
        else ({ w with conn := c, consecutiveErrors := w.consecutiveErrors + 1 }, out)

/-- The repair step has executed statements of registered tables. -/
def Repaired (db : Sqlite σ) : σ → σ → Prop :=
  Relation.ReflTransGen fun s s' =>
    ∃ tableName, ∃ st ∈ db.getRepairScript tableName, ∃ n, db.run n st s = .ok s'

/-- What a task may leave behind beside its own statements. -/
def Allowed (db : Sqlite σ) : Task → σ → σ → Prop
  | .single _ => Repaired db
  | _ => Eq

/-- The receipt is resolved and all statements are committed, or it is rejected and nothing is. -/
def Settled (db : Sqlite σ) (task : Task) (s s' : σ) (out : List Settlement) : Prop :=
  (out = [.resolved] ∧ ∃ s₀, Allowed db task s s₀ ∧ Conn.Ran db task.statements s₀ s') ∨
    (out ≠ [] ∧ (∀ x ∈ out, ∃ e, x = .rejected e) ∧ Allowed db task s s')

/-- The task is settled in every database, whatever statement of it fails. -/
def Atomic (task : Task) : Prop :=
  ∀ (σ : Type) (db : Sqlite σ) (w : Worker σ), w.conn.work = none →
    Settled db task w.conn.committed (perform db w task).1.conn.committed (perform db w task).2

/-- Nothing but queries stands before the last statement or before one that opens a transaction. -/
def whole (opens : Statement → Bool) : List Statement → Bool
  | [] => true
  | [_] => true
  | st :: st' :: sts => opens st || (st.reads && whole opens (st' :: sts))

/-- Nothing of the task commits before its end. -/
def Whole : Task → Prop
  | .single _ => True
  | .script sts => whole (fun _ => false) sts = true
  | .transaction sts => whole Statement.dml sts = true

theorem Repaired.refl (db : Sqlite σ) (s : σ) : Repaired db s s := Relation.ReflTransGen.refl

theorem Allowed.refl (db : Sqlite σ) (task : Task) (s : σ) : Allowed db task s s := by
  cases task with
  | single st => exact Repaired.refl db s
  | script sts => rfl
  | transaction sts => rfl

theorem committed_perform (db : Sqlite σ) (w : Worker σ) (task : Task) :
    (perform db w task).1.conn.committed = (runTask db w.conn task).1.committed ∧
      (perform db w task).2 = (runTask db w.conn task).2 := by
  rw [perform]
  obtain ⟨c, out⟩ := runTask db w.conn task
  dsimp only
  split
  · exact ⟨rfl, rfl⟩
  · split
    · exact ⟨rfl, rfl⟩
    · split
      · exact ⟨rfl, rfl⟩
      · exact ⟨rfl, rfl⟩

/-- What an attempt does to the committed data: all of the statements or none. -/
structure Attempted (db : Sqlite σ) (sts : List Statement) (s : σ) (x : Conn σ × Option String) :
    Prop where
  ok : x.2 = none → Conn.Ran db sts s x.1.committed ∧ x.1.work = none
  error : x.2.isSome = true → x.1.committed = s

theorem Attempted.of_error {c : Conn σ} (h : c.committed = s) (e : String) :
    Attempted db sts s (c, some e) := by
  constructor
  · intro he
    cases he
  · exact fun _ => h

/-- An attempt that opens a transaction first. -/
theorem attempt_dml (db : Sqlite σ) {c : Conn σ} (h : c.work = none) (hd : st.dml = true)
    (sts : List Statement) :
    Attempted db (st :: sts) c.committed (attempt db c (st :: sts)) := by
  have hseq : Conn.sequence (Conn.execute db) c (st :: sts) =
      Conn.sequence (Conn.execute db) c.begun (st :: sts) := by
    rw [Conn.sequence_cons, Conn.sequence_cons, Conn.execute_open (Conn.open_begun c),
      Conn.execute, if_pos hd]
  obtain ⟨hcommitted, hopen, hran⟩ := Conn.sequence_open db (Conn.open_begun c) (st :: sts)
  rw [Conn.begun_current, Conn.current_closed h] at hran
  rw [attempt, hseq]
  generalize Conn.sequence (Conn.execute db) c.begun (st :: sts) = x at hcommitted hopen hran
  obtain ⟨c', e⟩ := x
  cases e with
  | some e => exact .of_error hcommitted e
  | none =>
    obtain ⟨hok, herr⟩ := Conn.commit_open db hopen
    constructor
    · intro he
      obtain ⟨hall, hclosed⟩ := hok he
      refine ⟨?_, hclosed⟩
      rw [hall]
      exact hran rfl
    · exact fun he => (herr he).1.trans hcommitted

/-- An attempt of one statement. -/
theorem attempt_single (db : Sqlite σ) {c : Conn σ} (h : c.work = none) (st : Statement) :
    Attempted db [st] c.committed (attempt db c [st]) := by
  by_cases hd : st.dml = true
  · exact attempt_dml db h hd []
  · obtain ⟨hclosed, hran, hsame⟩ := Conn.raw_closed db h st
    have hstep : Conn.execute db c st = c.raw db st := if_neg hd
    rw [attempt, Conn.sequence_single, hstep]
    generalize c.raw db st = x at hclosed hran hsame
    obtain ⟨c', e⟩ := x
    cases e with
    | some e => exact .of_error (hsame rfl) e
    | none =>
      obtain ⟨n, hn⟩ := hran rfl
      dsimp only
      rw [Conn.commit_closed db hclosed]
      exact ⟨fun _ => ⟨.cons hn .nil, hclosed⟩, fun he => nomatch he⟩

theorem attempt_cons (db : Sqlite σ) (c : Conn σ) (st : Statement) (sts : List Statement) :
    attempt db c (st :: sts) =
      if (c.execute db st).2 = none then attempt db (c.execute db st).1 sts
      else c.execute db st := by
  rw [attempt, Conn.sequence]
  obtain ⟨c', e⟩ := c.execute db st
  cases e <;> rfl

theorem attempt_whole (db : Sqlite σ) {c : Conn σ} (h : c.work = none)
    (hw : whole Statement.dml sts = true) : Attempted db sts c.committed (attempt db c sts) := by
  induction sts generalizing c with
  | nil =>
    have hnil : attempt db c [] = (c, none) := Conn.commit_closed db h
    rw [hnil]
    exact ⟨fun _ => ⟨.nil, h⟩, fun he => nomatch he⟩
  | cons st sts ih =>
    cases sts with
    | nil => exact attempt_single db h st
    | cons st' sts =>
      by_cases hd : st.dml = true
      · exact attempt_dml db h hd (st' :: sts)
      · rw [whole, Bool.or_eq_true, Bool.and_eq_true] at hw
        obtain ⟨hreads, hrest⟩ := hw.resolve_left hd
        obtain ⟨hclosed, hran, hsame⟩ := Conn.raw_closed db h st
        have hstep : c.execute db st = c.raw db st := if_neg hd
        rw [attempt_cons, hstep]
        split
        next hnone =>
          obtain ⟨n, hn⟩ := hran hnone
          obtain ⟨hok, herr⟩ := ih hclosed hrest
          have hcommitted := db.run_reads _ _ _ _ hreads hn
          refine ⟨fun he => ⟨.cons hn (hok he).1, (hok he).2⟩, ?_⟩
          exact fun he => (herr he).trans hcommitted
        next hsome =>
          refine ⟨fun he => absurd he hsome, hsame⟩

theorem Settled.resolved (h : Allowed db task s s₀) (hran : Conn.Ran db task.statements s₀ s') :
    Settled db task s s' [.resolved] :=
  .inl ⟨rfl, s₀, h, hran⟩

theorem Settled.rejected (h : Allowed db task s s') (e : String) :
    Settled db task s s' [.rejected e] ∧
      Settled db task s s' [.rejected e, .rejected e] := by
  constructor
  · exact .inr ⟨List.cons_ne_nil _ _, by simp, h⟩
  · exact .inr ⟨List.cons_ne_nil _ _, by simp, h⟩

/-- A transaction whose attempts are whole is settled, with any number of retries. -/
theorem settled_transaction (db : Sqlite σ) (hw : whole Statement.dml sts = true) (retries : Nat)
    {c : Conn σ} (h : c.work = none) :
    Settled db (.transaction sts) c.committed (runTransaction db sts retries c).1.committed
      (runTransaction db sts retries c).2 := by
  induction retries generalizing c with
  | zero =>
    have ha := attempt_whole db h hw
    rw [runTransaction]
    generalize attempt db c sts = x at ha
    obtain ⟨c', e⟩ := x
    cases e with
    | none => exact .resolved rfl (ha.ok rfl).1
    | some e =>
      have hsame : Allowed db (.transaction sts) c.committed c'.committed := (ha.error rfl).symm
      exact (Settled.rejected hsame e).2
  | succ n ih =>
    have ha := attempt_whole db h hw
    rw [runTransaction]
    generalize attempt db c sts = x at ha
    obtain ⟨c', e⟩ := x
    cases e with
    | none => exact .resolved rfl (ha.ok rfl).1
    | some e =>
      have hsame : Allowed db (.transaction sts) c.committed c'.committed := (ha.error rfl).symm
      dsimp only
      cases isRecoverableVec0Error e with
      | false => exact (Settled.rejected hsame e).2
      | true =>
        have hrest := ih (c := c'.rollback) rfl
        rw [Conn.rollback_committed, ← hsame] at hrest
        exact hrest

/-- An error that the repair handles is not the commit's, so nothing is open that differs from the
database. -/
theorem attempt_single_current (db : Sqlite σ) {c : Conn σ} (h : c.work = none) (st : Statement)
    (ha : attempt db c [st] = (c', some e)) (he : isNoSuchTableError e = true) :
    c'.current = c.committed := by
  rw [attempt, Conn.sequence_single] at ha
  have hexecute := Conn.execute_error (c := c) db st
  generalize c.execute db st = x at ha hexecute
  obtain ⟨c₁, e₁⟩ := x
  cases e₁ with
  | some e₁ =>
    cases ha
    exact (hexecute rfl).trans (Conn.current_closed h)
  | none =>
    dsimp only at ha
    obtain ⟨e', he'⟩ := Conn.commit_error db ha
    rw [he', not_isNoSuchTableError_message] at he
    cases he

theorem attemptTableRepair_repaired (db : Sqlite σ) {c : Conn σ} (h : c.current = c.committed)
    (tableName : String) :
    Repaired db c.committed (attemptTableRepair db c tableName).1.committed ∧
      ((attemptTableRepair db c tableName).2 = true →
        (attemptTableRepair db c tableName).1.work = none) := by
  have hcommitted := Conn.commit_same db h
  have hclosed := Conn.commit_ok (c := c) db
  rw [attemptTableRepair, Conn.executescript]
  split
  · refine ⟨.refl db _, ?_⟩
    intro hfalse
    cases hfalse
  · generalize c.commit db = x at hcommitted hclosed
    obtain ⟨c₁, e⟩ := x
    cases e with
    | some e =>
      rw [← hcommitted]
      refine ⟨.refl db _, ?_⟩
      intro hfalse
      cases hfalse
    | none =>
      obtain ⟨hwork, hsteps⟩ := Conn.sequence_closed db (hclosed rfl) (db.getRepairScript tableName)
      dsimp only at hcommitted ⊢
      rw [← hcommitted]
      have hrepaired := Relation.ReflTransGen.mono (p := fun s s' =>
          ∃ tableName, ∃ st ∈ db.getRepairScript tableName, ∃ n, db.run n st s = .ok s')
        (fun s s' hstep => ⟨tableName, hstep⟩) _ _ hsteps
      generalize Conn.sequence (Conn.raw db) c₁ (db.getRepairScript tableName) = x
        at hwork hrepaired
      obtain ⟨c₂, e⟩ := x
      cases e with
      | some e =>
        refine ⟨hrepaired, ?_⟩
        intro hfalse
        cases hfalse
      | none =>
        dsimp only at hwork ⊢
        rw [Conn.commit_closed db hwork]
        exact ⟨hrepaired, fun _ => hwork⟩

theorem repairFor_repaired (db : Sqlite σ) {c : Conn σ}
    (h : isNoSuchTableError e = true → c.current = c.committed) :
    Repaired db c.committed (repairFor db c e).1.committed ∧
      ((repairFor db c e).2 = true → (repairFor db c e).1.work = none) := by
  have hnone : Repaired db c.committed (c, false).1.committed ∧
      ((c, false).2 = true → (c, false).1.work = none) := by
    refine ⟨.refl db _, ?_⟩
    intro hfalse
    cases hfalse
  rw [repairFor]
  split
  next he =>
    cases extractTableName e with
    | none => exact hnone
    | some tableName => exact attemptTableRepair_repaired db (h he) tableName
  next => exact hnone

/-- An attempt at a single statement, and the repair after it. -/
theorem attempt_single_repair (db : Sqlite σ) {c : Conn σ} (h : c.work = none) (st : Statement)
    (ha : attempt db c [st] = (c', some e)) :
    Repaired db c.committed (repairFor db c' e).1.committed ∧
      ((repairFor db c' e).2 = true → (repairFor db c' e).1.work = none) := by
  have hsame : c'.committed = c.committed := by
    have hattempted := attempt_single db h st
    rw [ha] at hattempted
    exact hattempted.error rfl
  rw [← hsame]
  refine repairFor_repaired db ?_
  intro he
  exact (attempt_single_current db h st ha he).trans hsame.symm

/-- A single statement is settled, with any number of retries. -/
theorem settled_single (db : Sqlite σ) (st : Statement) (retries : Nat) {c : Conn σ}
    (h : c.work = none) (hs : Repaired db s c.committed) :
    Settled db (.single st) s (runSingle db st retries c).1.committed
      (runSingle db st retries c).2 := by
  induction retries generalizing c with
  | zero =>
    have ha := attempt_single db h st
    have hrepair : ∀ c' e, attempt db c [st] = (c', some e) → _ := fun c' e =>
      attempt_single_repair db h st
    rw [runSingle]
    generalize attempt db c [st] = x at ha hrepair
    obtain ⟨c', e⟩ := x
    cases e with
    | none => exact .resolved hs (ha.ok rfl).1
    | some e =>
      have hrepaired : Allowed db (.single st) s (repairFor db c' e).1.committed :=
        Relation.ReflTransGen.trans hs (hrepair c' e rfl).1
      exact (Settled.rejected hrepaired e).1
  | succ n ih =>
    have ha := attempt_single db h st
    have hrepair : ∀ c' e, attempt db c [st] = (c', some e) → _ := fun c' e =>
      attempt_single_repair db h st
    rw [runSingle]
    generalize attempt db c [st] = x at ha hrepair
    obtain ⟨c', e⟩ := x
    cases e with
    | none => exact .resolved hs (ha.ok rfl).1
    | some e =>
      have hrepaired : Allowed db (.single st) s (repairFor db c' e).1.committed :=
        Relation.ReflTransGen.trans hs (hrepair c' e rfl).1
      have hclosed := (hrepair c' e rfl).2
      dsimp only
      generalize repairFor db c' e = y at hrepaired hclosed
      obtain ⟨c'', repaired⟩ := y
      cases repaired with
      | false => exact (Settled.rejected hrepaired e).1
      | true => exact ih (hclosed rfl) hrepaired

theorem sequence_whole (db : Sqlite σ) {c : Conn σ} (h : c.work = none)
    (hw : whole (fun _ => false) sts = true) :
    (Conn.sequence (Conn.raw db) c sts).1.work = none ∧
      ((Conn.sequence (Conn.raw db) c sts).2 = none →
        Conn.Ran db sts c.committed (Conn.sequence (Conn.raw db) c sts).1.committed) ∧
      ((Conn.sequence (Conn.raw db) c sts).2.isSome = true →
        (Conn.sequence (Conn.raw db) c sts).1.committed = c.committed) := by
  induction sts generalizing c with
  | nil => exact ⟨h, fun _ => .nil, fun _ => rfl⟩
  | cons st sts ih =>
    obtain ⟨hclosed, hran, hsame⟩ := Conn.raw_closed db h st
    cases sts with
    | nil =>
      rw [Conn.sequence_single]
      refine ⟨hclosed, ?_, hsame⟩
      intro hok
      obtain ⟨n, hn⟩ := hran hok
      exact .cons hn .nil
    | cons st' sts =>
      rw [whole, Bool.false_or, Bool.and_eq_true] at hw
      obtain ⟨hreads, hrest⟩ := hw
      rw [Conn.sequence_cons]
      split
      next hnone =>
        obtain ⟨n, hn⟩ := hran hnone
        obtain ⟨hclosed', hok, herr⟩ := ih hclosed hrest
        have hcommitted := db.run_reads _ _ _ _ hreads hn
        exact ⟨hclosed', fun he => .cons hn (hok he), fun he => (herr he).trans hcommitted⟩
      next hsome => exact ⟨hclosed, fun he => absurd he hsome, hsame⟩

/-- A script that commits nothing before its last statement is settled. -/
theorem settled_script (db : Sqlite σ) {c : Conn σ} (h : c.work = none)
    (hw : whole (fun _ => false) sts = true) :
    Settled db (.script sts) c.committed (runScript db sts c).1.committed
      (runScript db sts c).2 := by
  obtain ⟨hclosed, hran, hsame⟩ := sequence_whole db h hw
  rw [runScript, Conn.executescript, Conn.commit_closed db h]
  dsimp only
  generalize Conn.sequence (Conn.raw db) c sts = x at hclosed hran hsame
  obtain ⟨c', e⟩ := x
  cases e with
  | some e =>
    have hnothing : Allowed db (.script sts) c.committed c'.committed := (hsame rfl).symm
    exact (Settled.rejected hnothing e).1
  | none =>
    dsimp only
    rw [Conn.commit_closed db hclosed]
    exact .resolved rfl (hran rfl)

theorem attempt_closed (db : Sqlite σ) (c : Conn σ) (sts : List Statement)
    (h : (attempt db c sts).2 = none) : (attempt db c sts).1.work = none := by
  rw [attempt] at h ⊢
  generalize Conn.sequence (Conn.execute db) c sts = x at h
  obtain ⟨c', e⟩ := x
  cases e with
  | some e => cases h
  | none => exact Conn.commit_ok db h

theorem runSingle_closed (db : Sqlite σ) (st : Statement) (retries : Nat) (c : Conn σ) :
    (runSingle db st retries c).1.work = none := by
  fun_induction runSingle db st retries c with
  | case1 retries c c' ha =>
    have hclosed := attempt_closed db c [st] (by rw [ha])
    rw [ha] at hclosed
    exact hclosed
  | case2 _ _ _ _ _ _ _ ih => exact ih
  | case3 => rfl

theorem runTransaction_closed (db : Sqlite σ) (sts : List Statement) (retries : Nat)
    (c : Conn σ) : (runTransaction db sts retries c).1.work = none := by
  fun_induction runTransaction db sts retries c with
  | case1 retries c c' ha =>
    have hclosed := attempt_closed db c sts (by rw [ha])
    rw [ha] at hclosed
    exact hclosed
  | case2 _ _ _ _ _ _ ih => exact ih
  | case3 => rfl

theorem runScript_closed (db : Sqlite σ) (sts : List Statement) (c : Conn σ) :
    (runScript db sts c).1.work = none := by
  rw [runScript]
  obtain ⟨c₁, e⟩ := c.executescript db sts
  cases e with
  | some e => rfl
  | none =>
    have hok := Conn.commit_ok (c := c₁) db
    dsimp only
    generalize c₁.commit db = x at hok
    obtain ⟨c₂, e⟩ := x
    cases e with
    | some e => rfl
    | none => exact hok rfl

/-- After every task the connection has no open transaction. -/
theorem perform_closed (db : Sqlite σ) (w : Worker σ) (task : Task) :
    (perform db w task).1.conn.work = none := by
  have hclosed : (runTask db w.conn task).1.work = none := by
    cases task with
    | single st => exact runSingle_closed db st _ w.conn
    | script sts => exact runScript_closed db sts w.conn
    | transaction sts => exact runTransaction_closed db sts _ w.conn
  rw [perform]
  generalize runTask db w.conn task = x at hclosed
  obtain ⟨c, out⟩ := x
  dsimp only
  split
  · exact hclosed
  · split
    · exact hclosed
    · split
      · rfl
      · exact hclosed

/-- A database that takes one change and fails from then on. -/
def onceOnly : Sqlite Bool where
  run _ st changed := if changed then .error "table already exists" else .ok !st.reads
  commitError _ _ := none
  getRepairScript _ := []
  run_reads := by
    intro n st s s' hreads hrun
    cases s with
    | true => cases hrun
    | false =>
      rw [hreads] at hrun
      cases hrun
      rfl

theorem raw_changed {c : Conn Bool} (h : c.current = true) (st : Statement) :
    c.raw onceOnly st = (c.tick, some "table already exists") := by
  rw [Conn.raw, h]
  rfl

/-- Statements that are not whole leave a change behind when they fail. -/
theorem sequence_changed (opens : Statement → Bool)
    (f : Conn Bool → Statement → Conn Bool × Option String)
    (hraw : ∀ c st, opens st = false → f c st = c.raw onceOnly st)
    (hchanged : ∀ c st, c.work = none → c.committed = true →
      (f c st).2 = some "table already exists" ∧ (f c st).1.committed = true)
    (hw : whole opens sts = false) {c : Conn Bool} (h : c.work = none)
    (hc : c.committed = false) :
    (Conn.sequence f c sts).2 = some "table already exists" ∧
      (Conn.sequence f c sts).1.committed = true := by
  induction sts generalizing c with
  | nil => cases hw
  | cons st sts ih =>
    cases sts with
    | nil => cases hw
    | cons st' sts =>
      rw [whole, Bool.or_eq_false_iff, Bool.and_eq_false_iff] at hw
      obtain ⟨hopens, hrest⟩ := hw
      have hfirst : f c st = ({ c.tick with committed := !st.reads }, none) := by
        rw [hraw c st hopens, Conn.raw, Conn.current_closed h, hc, h]
        rfl
      rw [Conn.sequence_cons, hfirst, if_pos rfl]
      cases hreads : st.reads with
      | true => exact ih (hrest.resolve_left (by rw [hreads]; exact Bool.noConfusion)) h rfl
      | false =>
        obtain ⟨herror, hcommitted⟩ := hchanged { c.tick with committed := true } st' h rfl
        have hstop : (f { c.tick with committed := true } st').2 ≠ none := by
          rw [herror]
          exact Option.some_ne_none _
        rw [Bool.not_false, Conn.sequence_cons, if_neg hstop]
        exact ⟨herror, hcommitted⟩

theorem not_settled_of_changed (db : Sqlite Bool) (e : String) (out : List Settlement)
    (htask : Allowed db task = Eq) :
    ¬ Settled db task false true (.rejected e :: out) := by
  rintro (⟨hout, _⟩ | ⟨_, _, hsame⟩)
  · cases hout
  · rw [htask] at hsame
    cases hsame

theorem not_atomic_script (h : whole (fun _ => false) sts = false) : ¬ Atomic (.script sts) := by
  intro hatomic
  have hsettled := hatomic Bool onceOnly { conn := { committed := false } } rfl
  obtain ⟨hcommitted, hout⟩ := committed_perform onceOnly { conn := { committed := false } }
    (.script sts)
  obtain ⟨herror, hchanged⟩ := sequence_changed (fun _ => false) (Conn.raw onceOnly)
    (fun _ _ _ => rfl) (fun c st hc ht => by
      rw [raw_changed ((Conn.current_closed hc).trans ht)]
      exact ⟨rfl, ht⟩) h (c := { committed := false }) rfl rfl
  rw [hcommitted, hout, runTask, runScript, Conn.executescript,
    Conn.commit_closed onceOnly rfl] at hsettled
  dsimp only at hsettled
  generalize Conn.sequence (Conn.raw onceOnly) { committed := false } sts = x
    at herror hchanged hsettled
  obtain ⟨c, e⟩ := x
  cases herror
  dsimp only at hsettled
  rw [Conn.rollback_committed, hchanged] at hsettled
  exact not_settled_of_changed onceOnly _ _ rfl hsettled

theorem not_atomic_transaction (h : whole Statement.dml sts = false) :
    ¬ Atomic (.transaction sts) := by
  intro hatomic
  have hsettled := hatomic Bool onceOnly { conn := { committed := false } } rfl
  obtain ⟨hcommitted, hout⟩ := committed_perform onceOnly { conn := { committed := false } }
    (.transaction sts)
  obtain ⟨herror, hchanged⟩ := sequence_changed Statement.dml (Conn.execute onceOnly)
    (fun _ _ hd => by rw [Conn.execute, hd]; rfl) (fun c st hc ht => by
      have hcurrent : c.begun.current = true := (Conn.current_closed hc).trans ht
      rw [Conn.execute]
      split
      · rw [raw_changed hcurrent]
        exact ⟨rfl, ht⟩
      · rw [raw_changed ((Conn.current_closed hc).trans ht)]
        exact ⟨rfl, ht⟩) h (c := { committed := false }) rfl rfl
  have hvec : isRecoverableVec0Error "table already exists" = false := by decide +kernel
  rw [hcommitted, hout, runTask, runTransaction, attempt] at hsettled
  generalize Conn.sequence (Conn.execute onceOnly) { committed := false } sts = x
    at herror hchanged hsettled
  obtain ⟨c, e⟩ := x
  cases herror
  dsimp only at hsettled
  rw [hvec] at hsettled
  dsimp only at hsettled
  rw [Conn.rollback_committed, Conn.rollback_committed, hchanged] at hsettled
  exact not_settled_of_changed onceOnly _ _ rfl hsettled

/-- A task is settled in every database iff nothing of it is committed before its end. -/
theorem atomic_iff (task : Task) : Atomic task ↔ Whole task := by
  constructor
  · intro h
    cases task with
    | single st => exact trivial
    | script sts =>
      by_contra hw
      exact not_atomic_script (eq_false_of_ne_true hw) h
    | transaction sts =>
      by_contra hw
      exact not_atomic_transaction (eq_false_of_ne_true hw) h
  · intro hw σ db w hidle
    obtain ⟨hcommitted, hout⟩ := committed_perform db w task
    rw [hcommitted, hout]
    cases task with
    | single st => exact settled_single db st _ hidle (Repaired.refl db _)
    | script sts => exact settled_script db hidle hw
    | transaction sts => exact settled_transaction db hw 2 hidle

/-- A database of tables, with a registered one. -/
def tables : Sqlite (List String) where
  run _ st names :=
    if st.reads = true then .ok names
    else if st.dml = true then
      if "CREATE TABLE watch (id TEXT)" ∈ names then .ok names
      else .error "no such table: main.watch"
    else if st.sql ∈ names then .error "table watch already exists"
    else .ok (names ++ [st.sql])
  commitError _ _ := none
  getRepairScript tableName :=
    if tableName = "watch" then
      [{ sql := "CREATE TABLE watch (id TEXT)", notControl := by decide +kernel }]
    else []
  run_reads := by
    intro n st s s' hreads hrun
    rw [if_pos hreads] at hrun
    exact (Except.ok.inj hrun).symm

def createTable : Statement where
  sql := "CREATE TABLE watch (id TEXT)"
  notControl := by decide +kernel

def insertRow : Statement where
  sql := "INSERT INTO watch VALUES ('a')"
  notControl := by decide +kernel

example : (perform tables { conn := { committed := [] } } (.single insertRow)).2 = [.resolved] := by
  decide +kernel

/-- The receipt of a script that creates a table twice is rejected and the table is there. -/
theorem script_twice :
    (perform tables { conn := { committed := [] } } (.script [createTable, createTable])).2 =
        [.rejected "table watch already exists"] ∧
      (perform tables { conn := { committed := [] } }
        (.script [createTable, createTable])).1.conn.committed = [createTable.sql] ∧
      ¬ Atomic (.script [createTable, createTable]) := by
  have hout : (perform tables { conn := { committed := [] } }
      (.script [createTable, createTable])).2 = [.rejected "table watch already exists"] := by
    decide +kernel
  have hchanged : (perform tables { conn := { committed := [] } }
      (.script [createTable, createTable])).1.conn.committed = [createTable.sql] := by
    decide +kernel
  refine ⟨hout, hchanged, ?_⟩
  intro h
  have hsettled := h (List String) tables { conn := { committed := [] } } rfl
  rw [hchanged, hout] at hsettled
  obtain ⟨hresolved, _⟩ | ⟨_, _, hsame⟩ := hsettled
  · cases hresolved
  · cases hsame

end Writer
