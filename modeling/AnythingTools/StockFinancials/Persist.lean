import Mathlib.Data.List.ReduceOption
import AnythingTools.Python
import AnythingTools.StockFinancials.Statements

namespace StockFinancials
open KeepFirst Nearest
set_option autoImplicit true

/-! ### The latest quarters -/

/-- The one quarter is no later than the other, by their dates or, where there are none, by their
names. -/
def NotLater (dates : Dates) (frame : List ResultRow) (a b : String) : Prop :=
  if (quarterLabels frame).any fun label => (quarterDate dates frame label).isSome then
    latest (quarterDate dates frame a) ≤ latest (quarterDate dates frame b)
  else toLex (parseQuarterLabel a) ≤ toLex (parseQuarterLabel b)

/-- A limit keeps all rows of the latest quarters, as many as it says or all there are. -/
theorem limitStatement_latest (dates : Dates) (df : List StatementRow) (numQuarters : Int) :
    ∃ kept, limitStatement dates df numQuarters =
        df.filter (fun r => decide (r.quarterLabel ∈ kept)) ∧
      kept.Nodup ∧ kept ⊆ quarterLabels (df.map StatementRow.toResult) ∧
      kept.length = (if numQuarters ≤ 0 then (quarterLabels (df.map StatementRow.toResult)).length
        else min numQuarters.toNat (quarterLabels (df.map StatementRow.toResult)).length) ∧
      ∀ a ∈ kept, ∀ b ∈ quarterLabels (df.map StatementRow.toResult), b ∉ kept →
        NotLater dates (df.map StatementRow.toResult) b a := by
  have hnodup : (quarterLabels (df.map StatementRow.toResult)).Nodup := by
    have hkeys := keys_keepFirst id ((df.map StatementRow.toResult).map fun r => r.quarterLabel)
    rw [List.map_id] at hkeys
    exact hkeys
  by_cases hall : df = [] ∨ numQuarters ≤ 0
  · refine ⟨quarterLabels (df.map StatementRow.toResult), ?_, hnodup, List.Subset.refl _, ?_,
      fun a _ b hb hnot => absurd hb hnot⟩
    · rw [limitStatement, if_pos hall, eq_comm, List.filter_eq_self]
      intro r hr
      rw [decide_eq_true_iff, quarterLabels, mem_keepFirst_id, List.map_map]
      exact List.mem_map_of_mem (f := fun r : StatementRow => r.quarterLabel) hr
    · split
      next => rfl
      next hpos =>
        rw [hall.resolve_right hpos]
        exact (Nat.min_zero _).symm
  · refine ⟨wantedQuarters dates df numQuarters, ?_, ?_⟩
    · rw [limitStatement, if_neg hall]
    · rw [not_or] at hall
      rw [if_neg hall.2, wantedQuarters]
      have hnear {δ : Type} [LinearOrder δ] (key : String → δ) :=
        isNearest_take (pairwise_byKey key (quarterLabels (df.map StatementRow.toResult)))
          (perm_byKey key _) hnodup numQuarters.toNat
      rw [sortQuartersDesc]
      split
      next hdated =>
        have h := hnear fun label => OrderDual.toDual
          (latest (quarterDate dates (df.map StatementRow.toResult) label))
        refine ⟨h.nodup, h.subset, h.length, fun a ha b hb hnot => ?_⟩
        rw [NotLater, if_pos hdated]
        exact h.le a ha b hb hnot
      next hdated =>
        have h := hnear fun label => OrderDual.toDual (toLex (parseQuarterLabel label))
        refine ⟨h.nodup, h.subset, h.length, fun a ha b hb hnot => ?_⟩
        rw [NotLater, if_neg hdated]
        exact h.le a ha b hb hnot

/-! ### The table -/

/-- A row of `sf_quarterly_facts`. -/
structure SfFact where
  ticker : String
  statementType : String
  concept : String
  quarter : String
  label : String
  periodEnd : String
  fiscalPeriod : String
  fiscalYear : Int
  numericValue : String
  unit : String
  periodType : String
  depth : Int
  isTotal : Bool
  conceptOrder : Nat
  contentHash : String
  extractedAt : String
  createdAt : String
  updatedAt : String
deriving DecidableEq, Repr

abbrev FactKey := String × String × String × String

def SfFact.key (f : SfFact) : FactKey := (f.ticker, f.statementType, f.concept, f.quarter)

/-- The row without its times. -/
def SfFact.content (f : SfFact) : SfFact :=
  { f with extractedAt := "", createdAt := "", updatedAt := "" }

/-- What is there under a key gives way, but for when it came to be. -/
def SfFact.over (now : String) (old : Option SfFact) (f : SfFact) : SfFact :=
  match old with
  | none => f
  | some old =>
    { f with extractedAt := old.extractedAt, createdAt := old.createdAt, updatedAt := now }

def lookupFact (rows : List SfFact) (k : FactKey) : Option SfFact :=
  rows.find? fun f => decide (f.key = k)

/-- `INSERT ... ON CONFLICT(ticker, statement_type, concept, quarter) DO UPDATE`. -/
def upsertFact (now : String) (rows : List SfFact) (f : SfFact) : List SfFact :=
  if rows.any fun old => decide (old.key = f.key) then
    rows.map fun old => if old.key = f.key then f.over now (some old) else old
  else rows ++ [f]

section
variable (str : ℚ → String) (md5 : String → String)

def computeFactHash (ticker : String) (r : StatementRow) (numericValue : String) : String :=
  md5 ("||".intercalate [ticker, r.statementType, r.concept, r.quarterLabel, numericValue])

/-- The values of a record, unless one is missing; every column must have one. -/
def factValues (ticker nowIso : String) (r : StatementRow) : Option SfFact :=
  match r.periodEnd, r.fiscalYear, r.unit with
  | .text periodEnd, some fiscalYear, some unit =>
    let numericValue := (r.numericValue.map str).getD ""
    some {
      ticker
      statementType := r.statementType
      concept := r.concept
      quarter := r.quarterLabel
      label := r.label
      periodEnd
      fiscalPeriod := r.fiscalPeriod
      fiscalYear
      numericValue
      unit
      periodType := r.periodType
      depth := r.depth
      isTotal := r.isTotal
      conceptOrder := r.conceptOrder
      contentHash := computeFactHash md5 ticker r numericValue
      extractedAt := nowIso
      createdAt := nowIso
      updatedAt := nowIso }
  | _, _, _ => none

/-- What is handed to the writer: rows to delete, or the records of a transaction. -/
inductive FactTask where
  | delete (ticker : String)
  | upsert (values : List (Option SfFact))

/-- A transaction of which one record is refused stores none of them. -/
def FactTask.apply (now : String) (rows : List SfFact) : FactTask → List SfFact
  | .delete ticker => rows.filter fun f => decide (f.ticker ≠ ticker)
  | .upsert values =>
    if values.all Option.isSome then values.reduceOption.foldl (upsertFact now) rows else rows

/-- The tasks and the count that is returned. -/
def upsertQuarterlyRecords (ticker nowIso : String) (records : List StatementRow) :
    List FactTask × Nat :=
  ((Python.chunks 500 records).map fun chunk =>
    .upsert (chunk.map (factValues str md5 ticker nowIso)), records.length)

/-- A row of the cash flow always has a value. -/
def ResultRow.toStatement (r : ResultRow) : StatementRow where
  concept := r.concept
  periodEnd := r.periodEnd
  fiscalPeriod := r.fiscalPeriod
  fiscalYear := r.fiscalYear
  quarterLabel := r.quarterLabel
  numericValue := some r.numericValue
  unit := r.unit
  periodType := r.periodType
  statementType := r.statementType
  label := r.label
  depth := r.depth
  isTotal := r.isTotal
  conceptOrder := r.conceptOrder

/-- What is read of the company, with the times at which the statements are written. -/
structure Company where
  ticker : String
  facts : FactsTable
  blueprint : String → Option (List BlueprintRow)
  nowIso : String → String

/-- The rows of a statement, unless processing it raises. -/
def Company.process (dates : Dates) (company : Company) (numQuarters : Int) :
    List (String × Option (List StatementRow)) :=
  [("income", processIncome dates company.facts (company.blueprint "income") numQuarters),
    ("balance", processBalance dates company.facts (company.blueprint "balance") numQuarters),
    ("cashflow",
      (processCashflow dates company.facts (company.blueprint "cashflow") numQuarters).map
        fun rows => rows.map ResultRow.toStatement)]

def extractAndPersist (dates : Dates) (company : Company) (numQuarters : Int) (refresh : Bool) :
    List FactTask :=
  (if refresh then [.delete company.ticker] else []) ++
    (company.process dates numQuarters).flatMap fun p =>
      match p.2 with
      | none => []
      | some records =>
        (upsertQuarterlyRecords str md5 company.ticker (company.nowIso p.1) records).1

end

/-! ### What is found under a key -/

theorem key_over (now : String) (old : Option SfFact) (f : SfFact) : (f.over now old).key = f.key := by
  cases old <;> rfl

theorem content_over (now : String) (old : Option SfFact) (f : SfFact) :
    (f.over now old).content = f.content := by
  cases old <;> rfl

theorem lookup_cons (f : SfFact) (rows : List SfFact) (k : FactKey) :
    lookupFact (f :: rows) k = if f.key = k then some f else lookupFact rows k := by
  rw [lookupFact, List.find?_cons]
  split
  next h => rw [if_pos (of_decide_eq_true h)]
  next h =>
    rw [if_neg (of_decide_eq_false h)]
    rfl

theorem lookup_append (rows rows' : List SfFact) (k : FactKey) :
    lookupFact (rows ++ rows') k = (lookupFact rows k).or (lookupFact rows' k) :=
  List.find?_append

theorem lookup_upsertFact (now : String) (rows : List SfFact) (f : SfFact) (k : FactKey) :
    lookupFact (upsertFact now rows f) k =
      if f.key = k then some (f.over now (lookupFact rows k)) else lookupFact rows k := by
  rw [upsertFact]
  split
  next hany =>
    have hkeys (old : SfFact) :
        (if old.key = f.key then f.over now (some old) else old).key = old.key := by
      split
      next he => rw [key_over, he]
      next => rfl
    have hmap : lookupFact (rows.map fun old =>
        if old.key = f.key then f.over now (some old) else old) k =
        (lookupFact rows k).map fun old =>
          if old.key = f.key then f.over now (some old) else old := by
      rw [lookupFact, List.find?_map, lookupFact]
      congr 2
      funext old
      rw [Function.comp_apply, hkeys]
    rw [hmap]
    cases hfind : lookupFact rows k with
    | none =>
      rw [Option.map_none]
      split
      next hk =>
        obtain ⟨old, hold, he⟩ := List.any_eq_true.1 hany
        rw [lookupFact, List.find?_eq_none] at hfind
        rw [hk] at he
        exact absurd he (hfind old hold)
      next => rfl
    | some old =>
      have hold : old.key = k := by
        rw [lookupFact] at hfind
        simpa using List.find?_some hfind
      rw [Option.map_some, hold]
      simp only [eq_comm (a := k)]
      split <;> rfl
  next hany =>
    rw [lookup_append, lookup_cons]
    split
    next hk =>
      have hnone : lookupFact rows k = none := by
        rw [lookupFact, List.find?_eq_none]
        intro old hold he
        rw [← hk] at he
        exact hany (List.any_eq_true.2 ⟨old, hold, he⟩)
      rw [hnone]
      rfl
    next hk => exact Option.or_none

/-- Writes with their times, one after the other. -/
def writeAll (rows : List SfFact) (ws : List (String × SfFact)) : List SfFact :=
  ws.foldl (fun rows w => upsertFact w.1 rows w.2) rows

/-- The last write under a key is what is found there. -/
theorem content_writeAll (rows : List SfFact) (ws : List (String × SfFact)) (k : FactKey) :
    (lookupFact (writeAll rows ws) k).map SfFact.content =
      ((lookupFact (ws.map Prod.snd).reverse k).map SfFact.content).or
        ((lookupFact rows k).map SfFact.content) := by
  induction ws using List.reverseRecOn with
  | nil => rfl
  | append_singleton ws w ih =>
    rw [writeAll, List.foldl_append, List.foldl_cons, List.foldl_nil, lookup_upsertFact,
      List.map_append, List.map_singleton, List.reverse_append, List.reverse_singleton,
      List.singleton_append, lookup_cons]
    split
    next => exact congrArg some (content_over _ _ _)
    next => exact ih

/-- When a row came to be. -/
def SfFact.born (f : SfFact) : String × String := (f.extractedAt, f.createdAt)

/-- The first write under a key, or the row that was there, says when it came to be. -/
theorem born_writeAll (rows : List SfFact) (ws : List (String × SfFact)) (k : FactKey) :
    (lookupFact (writeAll rows ws) k).map SfFact.born =
      ((lookupFact rows k).map SfFact.born).or
        ((lookupFact (ws.map Prod.snd) k).map SfFact.born) := by
  induction ws using List.reverseRecOn with
  | nil => exact (Option.or_none).symm
  | append_singleton ws w ih =>
    rw [writeAll, List.foldl_append, List.foldl_cons, List.foldl_nil, lookup_upsertFact,
      List.map_append, List.map_singleton, lookup_append, lookup_cons]
    rw [writeAll] at ih
    split
    next hk =>
      cases hfind : lookupFact (ws.foldl (fun rows w => upsertFact w.1 rows w.2) rows) k with
      | none =>
        rw [hfind, Option.map_none, eq_comm, Option.or_eq_none_iff, Option.map_eq_none_iff,
          Option.map_eq_none_iff] at ih
        rw [ih.1, ih.2]
        rfl
      | some old =>
        rw [hfind, Option.map_some] at ih
        change some old.born = _
        rw [ih]
        cases hrows : lookupFact rows k with
        | some old' => rfl
        | none =>
          rw [hrows] at ih
          cases hws : lookupFact (ws.map Prod.snd) k with
          | some old' => rfl
          | none =>
            rw [hws] at ih
            cases ih
    next hk =>
      rw [ih]
      exact congrArg _ (congrArg _ Option.or_none.symm)

/-! ### Any extractions -/

/-- The rows that a task stores. -/
def FactTask.stored : FactTask → List SfFact
  | .delete _ => []
  | .upsert values => if values.all Option.isSome then values.reduceOption else []

def FactTask.deletes (ticker : String) : FactTask → Bool
  | .delete t => decide (t = ticker)
  | .upsert _ => false

/-- The tasks are carried out in their order, each at its time. -/
def timed (clock : Nat → String) (tasks : List FactTask) : List (String × FactTask) :=
  tasks.zipIdx.map fun p => (clock p.2, p.1)

def applyTasks (rows : List SfFact) (ts : List (String × FactTask)) : List SfFact :=
  ts.foldl (fun rows t => t.2.apply t.1 rows) rows

/-- The rows that were stored since those of the company were last deleted. -/
def storedSince (ticker : String) (ts : List (String × FactTask)) : List SfFact :=
  ts.foldl (fun stored t => if t.2.deletes ticker then [] else stored ++ t.2.stored) []

/-- The row that was there, unless it was deleted. -/
def leftOf (rows : List SfFact) (ts : List (String × FactTask)) (k : FactKey) : Option SfFact :=
  if ts.any fun t => t.2.deletes k.1 then none else lookupFact rows k

theorem apply_upsert (now : String) (rows : List SfFact) (values : List (Option SfFact)) :
    (FactTask.upsert values).apply now rows =
      writeAll rows ((FactTask.upsert values).stored.map fun f => (now, f)) := by
  rw [FactTask.apply, FactTask.stored, writeAll]
  split
  next => rw [List.foldl_map]
  next => rfl

theorem lookup_delete (ticker : String) (rows : List SfFact) (k : FactKey) :
    lookupFact (rows.filter fun f => decide (f.ticker ≠ ticker)) k =
      if ticker = k.1 then none else lookupFact rows k := by
  induction rows with
  | nil => split <;> rfl
  | cons f rows ih =>
    rw [lookup_cons, List.filter_cons]
    by_cases hf : f.ticker = ticker
    · rw [if_neg (by simpa using hf), ih]
      split
      next => rfl
      next hne =>
        rw [if_neg]
        rintro rfl
        exact hne hf.symm
    · rw [if_pos (by simpa using hf), lookup_cons, ih]
      by_cases hk : f.key = k
      · subst hk
        rw [if_pos rfl, if_pos rfl, if_neg fun he => hf he.symm]
      · rw [if_neg hk, if_neg hk]

/-- Under a key is found the last row that was stored since its company was deleted. -/
theorem content_applyTasks (rows : List SfFact) (ts : List (String × FactTask)) (k : FactKey) :
    (lookupFact (applyTasks rows ts) k).map SfFact.content =
      ((lookupFact (storedSince k.1 ts).reverse k).map SfFact.content).or
        ((leftOf rows ts k).map SfFact.content) := by
  induction ts using List.reverseRecOn with
  | nil => rfl
  | append_singleton ts t ih =>
    obtain ⟨now, task⟩ := t
    rw [leftOf, storedSince] at ih ⊢
    rw [applyTasks, List.foldl_append, List.foldl_cons, List.foldl_nil, ← applyTasks,
      List.foldl_append, List.foldl_cons, List.foldl_nil, List.any_append, List.any_cons,
      List.any_nil, Bool.or_false]
    dsimp only
    cases task with
    | delete ticker =>
      rw [FactTask.apply, lookup_delete, FactTask.deletes]
      by_cases he : ticker = k.1
      · rw [if_pos he, decide_eq_true he, Bool.or_true, if_pos rfl, if_pos rfl]
        rfl
      · rw [if_neg he, decide_eq_false he, Bool.or_false, if_neg Bool.false_ne_true,
          FactTask.stored, List.append_nil]
        exact ih
    | upsert values =>
      rw [apply_upsert, content_writeAll, FactTask.deletes, Bool.or_false,
        if_neg Bool.false_ne_true, List.reverse_append, lookup_append, Option.map_or,
        Option.or_assoc, ← ih, List.map_map]
      congr 4
      exact List.map_id _

/-- When the row came to be is said by the row that was there, or by the first that was stored. -/
theorem born_applyTasks (rows : List SfFact) (ts : List (String × FactTask)) (k : FactKey) :
    (lookupFact (applyTasks rows ts) k).map SfFact.born =
      ((leftOf rows ts k).map SfFact.born).or
        ((lookupFact (storedSince k.1 ts) k).map SfFact.born) := by
  induction ts using List.reverseRecOn with
  | nil => exact Option.or_none.symm
  | append_singleton ts t ih =>
    obtain ⟨now, task⟩ := t
    rw [leftOf, storedSince] at ih ⊢
    rw [applyTasks, List.foldl_append, List.foldl_cons, List.foldl_nil, ← applyTasks,
      List.foldl_append, List.foldl_cons, List.foldl_nil, List.any_append, List.any_cons,
      List.any_nil, Bool.or_false]
    dsimp only
    cases task with
    | delete ticker =>
      rw [FactTask.apply, lookup_delete, FactTask.deletes]
      by_cases he : ticker = k.1
      · rw [if_pos he, decide_eq_true he, Bool.or_true, if_pos rfl, if_pos rfl]
        rfl
      · rw [if_neg he, decide_eq_false he, Bool.or_false, if_neg Bool.false_ne_true,
          FactTask.stored, List.append_nil]
        exact ih
    | upsert values =>
      rw [apply_upsert, born_writeAll, FactTask.deletes, Bool.or_false,
        if_neg Bool.false_ne_true, lookup_append, Option.map_or, ← Option.or_assoc, ← ih,
        List.map_map]
      congr 3
      exact List.map_id _

/-- A call of the extraction. -/
structure FactCall where
  company : Company
  numQuarters : Int
  refresh : Bool

section
variable (str : ℚ → String) (md5 : String → String) (dates : Dates)

def callTasks (calls : List FactCall) : List FactTask :=
  calls.flatMap fun c => extractAndPersist str md5 dates c.company c.numQuarters c.refresh

variable {str md5 dates}

/-- An extraction writes rows of its company only, and deletes no others. -/
theorem ticker_extractAndPersist {company : Company} {task : FactTask}
    (h : task ∈ extractAndPersist str md5 dates company numQuarters refresh) :
    (∀ f ∈ task.stored, f.ticker = company.ticker) ∧
      ∀ ticker, task.deletes ticker = true → ticker = company.ticker := by
  rw [extractAndPersist, List.mem_append, List.mem_flatMap] at h
  rcases h with h | ⟨p, -, h⟩
  · split at h
    next =>
      obtain rfl := List.mem_singleton.1 h
      exact ⟨fun f hf => (by cases hf), fun ticker ht => (of_decide_eq_true ht).symm⟩
    next => cases h
  · cases hrecords : p.2 with
    | none =>
      rw [hrecords] at h
      cases h
    | some records =>
      rw [hrecords] at h
      obtain ⟨chunk, -, rfl⟩ := List.mem_map.1 h
      refine ⟨fun f hf => ?_, fun ticker ht => absurd ht Bool.false_ne_true⟩
      rw [FactTask.stored] at hf
      split at hf
      next =>
        obtain ⟨r, -, hr⟩ := List.mem_map.1 (List.reduceOption_mem_iff.1 hf)
        rw [factValues] at hr
        split at hr
        next =>
          cases hr
          rfl
        next => cases hr
      next => cases hf

theorem mem_timed {clock : Nat → String} {tasks : List FactTask} {t : String × FactTask}
    (h : t ∈ timed clock tasks) : t.2 ∈ tasks := by
  obtain ⟨p, hp, rfl⟩ := List.mem_map.1 h
  exact List.fst_mem_of_mem_zipIdx hp

/-- Tasks of other companies leave a row as it is. -/
theorem lookup_applyTasks_other {ts : List (String × FactTask)}
    (h : ∀ t ∈ ts, (∀ f ∈ t.2.stored, f.ticker ≠ k.1) ∧ t.2.deletes k.1 = false)
    (rows : List SfFact) : lookupFact (applyTasks rows ts) k = lookupFact rows k := by
  induction ts generalizing rows with
  | nil => rfl
  | cons t ts ih =>
    rw [applyTasks, List.foldl_cons, ← applyTasks,
      ih fun t' ht' => h t' (List.mem_cons_of_mem t ht')]
    obtain ⟨hstored, hdeletes⟩ := h t List.mem_cons_self
    obtain ⟨now, task⟩ := t
    cases task with
    | delete ticker =>
      have hne : ¬ ticker = k.1 := of_decide_eq_false hdeletes
      change lookupFact (rows.filter fun f => decide (f.ticker ≠ ticker)) k = _
      rw [lookup_delete, if_neg hne]
    | upsert values =>
      change lookupFact ((FactTask.upsert values).apply now rows) k = _
      rw [apply_upsert]
      dsimp only at hstored
      generalize (FactTask.upsert values).stored = fs at hstored
      induction fs generalizing rows with
      | nil => rfl
      | cons f fs ihf =>
        have hne : ¬ f.key = k := fun he => hstored f List.mem_cons_self (by rw [← he]; rfl)
        rw [List.map_cons, writeAll, List.foldl_cons, ← writeAll,
          ihf _ fun f' hf' => hstored f' (List.mem_cons_of_mem f hf'), lookup_upsertFact,
          if_neg hne]

theorem length_stored_le (values : List (Option SfFact)) :
    (FactTask.upsert values).stored.length ≤ values.length ∧
      ((FactTask.upsert values).stored.length = values.length ↔
        values.all Option.isSome = true) := by
  rw [FactTask.stored]
  split
  next h =>
    have hlen : values.reduceOption.length = values.length :=
      List.reduceOption_length_eq_iff.2 fun o ho => List.all_eq_true.1 h o ho
    exact ⟨hlen.le, iff_of_true hlen h⟩
  next h =>
    refine ⟨Nat.zero_le _, iff_of_false (fun hlen => ?_) h⟩
    rw [List.length_nil, eq_comm, List.length_eq_zero_iff] at hlen
    subst hlen
    exact h rfl

theorem length_flatMap_stored {chunks : List (List (Option SfFact))} :
    ((chunks.map FactTask.upsert).flatMap FactTask.stored).length = chunks.flatten.length ↔
      ∀ chunk ∈ chunks, chunk.all Option.isSome = true := by
  have hle (cs : List (List (Option SfFact))) :
      ((cs.map FactTask.upsert).flatMap FactTask.stored).length ≤ cs.flatten.length := by
    induction cs with
    | nil => exact Nat.le_refl 0
    | cons c cs ih =>
      have hc := (length_stored_le c).1
      rw [List.map_cons, List.flatMap_cons, List.length_append, List.flatten_cons,
        List.length_append]
      omega
  induction chunks with
  | nil => exact iff_of_true rfl fun chunk h => absurd h List.not_mem_nil
  | cons c cs ih =>
    obtain ⟨hc, hiff⟩ := length_stored_le c
    have hcs := hle cs
    rw [List.map_cons, List.flatMap_cons, List.length_append, List.flatten_cons,
      List.length_append, List.forall_mem_cons, ← hiff]
    refine Iff.trans ?_ (and_congr_right' ih)
    omega

end

end StockFinancials
