import Mathlib.Data.List.AList
import AnythingTools.Machine
import AnythingTools.Relational.Row

namespace JobItems
open Relational
set_option autoImplicit true

inductive ItemStatus where
  | pending
  | running
  | completed
  | failed
  | skipped
deriving DecidableEq, Repr

/-- The dictionary in `item_metadata`, its values as `json_extract` shows them. -/
abbrev Metadata := AList fun _ : String => Value

/-- A key that the dictionary lacks reads as NULL. -/
def jsonExtract (m : Metadata) (key : String) : Value := (m.lookup key).getD .null

/-- `if text:` -/
def given (text : Option String) : Bool := text.any (· ≠ "")

/-- `make_metadata`; the extra members come last and replace those of the same name. -/
def makeMetadata (now stepType : String) (ulid : Option String) (retry : Int := 0)
    (model : Option String := none) (error : Option String := none) (isTop10 : Bool := false)
    (extra : List (String × Value) := []) : Metadata :=
  let fields : Metadata := ((((∅ : Metadata).insert "step" (.text stepType)).insert "ulid"
    ((ulid.map Value.text).getD .null)).insert "retry" (.int retry)).insert "timestamp" (.text now)
  let fields := if given model then fields.insert "model" (.text (model.getD "")) else fields
  let fields := if given error then fields.insert "error" (.text (error.getD "")) else fields
  let fields := if isTop10 then fields.insert "is_top10" (.int 1) else fields
  extra.foldl (fun fields e => fields.insert e.1 e.2) fields

/-- The step and the ULID that the queries know an item by. -/
def itemKey (m : Metadata) : Value × Value := (jsonExtract m "step", jsonExtract m "ulid")

/-- `=` of both in SQL: no NULL equals anything. -/
def sameItem (m m' : Metadata) : Bool :=
  decide (itemKey m = itemKey m' ∧ (itemKey m).1 ≠ .null ∧ (itemKey m).2 ≠ .null)

/-- A row of `job_items`. -/
structure Item (ω : Type) where
  jobId : String
  itemMetadata : Metadata
  status : ItemStatus := .pending
  outputData : Option ω := none
  updatedAt : String

/-- The statements on `job_items` in the queue of the writer. -/
inductive ItemWrite (ω : Type) where
  | add (jobId : String) (itemMetadata : Metadata) (now : String)
  | update (jobId : String) (itemMetadata : Metadata) (status : ItemStatus) (outputData : ω)
      (now : String)
  | insert (jobId : String) (itemMetadata : Metadata) (now : String)
  | mark (jobId stepIdentifier : String) (status : ItemStatus) (outputData : Option ω)
      (now : String)

def Item.sameAs (i : Item ω) (jobId : String) (itemMetadata : Metadata) : Bool :=
  decide (i.jobId = jobId) && sameItem i.itemMetadata itemMetadata

def Item.onBlackboard (i : Item ω) (jobId stepIdentifier : String) : Bool :=
  decide (i.jobId = jobId ∧ itemKey i.itemMetadata = (.text "blackboard", .text stepIdentifier))

def commit (items : List (Item ω)) : ItemWrite ω → List (Item ω)
  | .add jobId itemMetadata now =>
    -- WHERE NOT EXISTS
    if items.any fun i => i.sameAs jobId itemMetadata then items
    else items ++ [{ jobId, itemMetadata, updatedAt := now }]
  | .update jobId itemMetadata status outputData now =>
    items.map fun i =>
      if i.sameAs jobId itemMetadata then
        { i with status, outputData := some outputData, updatedAt := now, itemMetadata }
      else i
  | .insert jobId itemMetadata now => items ++ [{ jobId, itemMetadata, updatedAt := now }]
  | .mark jobId stepIdentifier status outputData now =>
    items.map fun i =>
      if i.onBlackboard jobId stepIdentifier then
        { i with status, outputData := outputData.or i.outputData, updatedAt := now }
      else i

/-- The calls that write `job_items`, with the time that they take. -/
inductive Op (ω : Type) where
  | addJobItem (jobId : String) (itemMetadata : Metadata)
  | updateItemStatus (jobId : String) (itemMetadata : Metadata) (status : ItemStatus)
      (outputData : ω)
  | initializeChecklist (jobId : String) (steps : List String)
  | claimStep (jobId stepIdentifier : String)
  | completeStep (jobId stepIdentifier : String) (outputData : ω)
  | failStep (jobId stepIdentifier : String) (error : ω)

def Op.writes (now : String) : Op ω → List (ItemWrite ω)
  | .addJobItem jobId itemMetadata => [.add jobId itemMetadata now]
  | .updateItemStatus jobId itemMetadata status outputData =>
    [.update jobId itemMetadata status outputData now]
  | .initializeChecklist jobId steps =>
    steps.map fun step => .insert jobId (makeMetadata now "blackboard" (some step)) now
  | .claimStep jobId stepIdentifier => [.mark jobId stepIdentifier .running none now]
  | .completeStep jobId stepIdentifier outputData =>
    [.mark jobId stepIdentifier .completed (some outputData) now]
  | .failStep jobId stepIdentifier error =>
    [.mark jobId stepIdentifier .failed (some error) now]

/-- The rows and the queue of the writer. -/
structure State (ω : Type) where
  items : List (Item ω) := []
  queue : List (ItemWrite ω) := []

inductive Event (ω : Type) where
  | call (now : String) (op : Op ω)
  | write

def step (s : State ω) : Event ω → Option (State ω)
  | .call now op => some { s with queue := s.queue ++ op.writes now }
  | .write =>
    match s.queue with
    | w :: queue => some { items := commit s.items w, queue }
    | [] => none

/-- At most one row for each job, step and ULID. -/
def OnePerKey (items : List (Item ω)) : Prop :=
  items.Pairwise fun i i' => ¬ i'.sameAs i.jobId i.itemMetadata = true

instance (items : List (Item ω)) : Decidable (OnePerKey items) :=
  inferInstanceAs (Decidable (items.Pairwise _))

/-- An unconditional insert finds no row of its key. -/
def ItemWrite.Fresh (items : List (Item ω)) : ItemWrite ω → Prop
  | .insert jobId m _ => (items.any fun i => i.sameAs jobId m) = false
  | _ => True

instance (items : List (Item ω)) (w : ItemWrite ω) : Decidable (w.Fresh items) :=
  match w with
  | .add .. => isTrue trivial
  | .update .. => isTrue trivial
  | .insert .. => inferInstanceAs (Decidable (_ = _))
  | .mark .. => isTrue trivial

/-- An unconditional insert is committed while the job has no row of its key. -/
def InsertsFresh (s : State ω) : Event ω → Prop
  | .call _ _ => True
  | .write => ∀ w ∈ s.queue.head?, w.Fresh s.items

instance (s : State ω) (e : Event ω) : Decidable (InsertsFresh s e) :=
  match e with
  | .call _ _ => isTrue trivial
  | .write => inferInstanceAs (Decidable (∀ w ∈ s.queue.head?, _))

theorem sameAs_iff {i : Item ω} : i.sameAs jobId m = true ↔ i.jobId = jobId ∧
    itemKey i.itemMetadata = itemKey m ∧ (itemKey m).1 ≠ .null ∧ (itemKey m).2 ≠ .null := by
  rw [Item.sameAs, sameItem, Bool.and_eq_true, decide_eq_true_eq, decide_eq_true_eq]
  constructor
  · rintro ⟨hj, hk, h₁, h₂⟩
    rw [hk] at h₁ h₂
    exact ⟨hj, hk, h₁, h₂⟩
  · rintro ⟨hj, hk, h₁, h₂⟩
    rw [hk]
    exact ⟨hj, rfl, h₁, h₂⟩

/-- A statement that leaves the job and the key of every row leaves the keys apart. -/
theorem onePerKey_map {items : List (Item ω)} {f : Item ω → Item ω}
    (hf : ∀ i, (f i).jobId = i.jobId ∧ itemKey (f i).itemMetadata = itemKey i.itemMetadata)
    (h : OnePerKey items) : OnePerKey (items.map f) := by
  rw [OnePerKey, List.pairwise_map]
  apply h.imp
  intro i i' hne hsame
  apply hne
  rw [sameAs_iff] at hsame ⊢
  rw [(hf i).1, (hf i).2, (hf i').1, (hf i').2] at hsame
  exact hsame

theorem onePerKey_concat {items : List (Item ω)} (h : OnePerKey items)
    (hfresh : (items.any fun i' => i'.sameAs i.jobId i.itemMetadata) = false) :
    OnePerKey (items ++ [i]) := by
  rw [OnePerKey, List.pairwise_append]
  refine ⟨h, List.pairwise_singleton _ _, ?_⟩
  intro i₁ h₁ i₂ h₂ hsame
  rw [List.mem_singleton.1 h₂] at hsame
  rw [List.any_eq_false] at hfresh
  apply hfresh i₁ h₁
  rw [sameAs_iff] at hsame ⊢
  obtain ⟨hj, hk, hstep, hulid⟩ := hsame
  rw [hk]
  exact ⟨hj.symm, rfl, hstep, hulid⟩

theorem onePerKey_commit {items : List (Item ω)} {w : ItemWrite ω} (h : OnePerKey items)
    (hfresh : w.Fresh items) : OnePerKey (commit items w) := by
  cases w with
  | add jobId m now =>
    rw [commit]
    split
    next => exact h
    next hnone => exact onePerKey_concat h (Bool.eq_false_iff.2 hnone)
  | update jobId m status out now =>
    apply onePerKey_map _ h
    intro i
    split
    next hsame => exact ⟨rfl, (sameAs_iff.1 hsame).2.1.symm⟩
    next => exact ⟨rfl, rfl⟩
  | insert jobId m now => exact onePerKey_concat h hfresh
  | mark jobId stepIdentifier status out now =>
    apply onePerKey_map _ h
    intro i
    split
    next => exact ⟨rfl, rfl⟩
    next => exact ⟨rfl, rfl⟩

theorem onePerKey_step {s s' : State ω} (e : Event ω) (hc : InsertsFresh s e)
    (h : step s e = some s') (hs : OnePerKey s.items) : OnePerKey s'.items := by
  cases e with
  | call now op =>
    cases h
    exact hs
  | write =>
    rw [step] at h
    split at h
    next w queue hq =>
      cases h
      apply onePerKey_commit hs
      apply hc w
      rw [hq]
      rfl
    next => cases h

/-- As long as no checklist is written for a step that the job has already, the rows stay apart. -/
theorem onePerKey_run {s : State ω} (hm : Machine.Meets step InsertsFresh {} es)
    (hr : Machine.run step {} es = some s) : OnePerKey s.items := by
  have hstep (s : State ω) (e : Event ω) (s' : State ω) (hc : InsertsFresh s e)
      (h : step s e = some s') : OnePerKey s.items → OnePerKey s'.items := onePerKey_step e hc h
  have hinv := Machine.run_invariant hstep hm hr
  exact hinv List.Pairwise.nil

/-- A checklist with an item of another step, worked through. -/
def checklistRun : List (Event String) :=
  [.call "t" (.initializeChecklist "j1" ["fetch", "report"]),
    .call "t" (.addJobItem "j1" (makeMetadata "t" "scrape" (some "fetch"))), .write, .write,
    .call "t" (.claimStep "j1" "fetch"), .write,
    .call "t" (.addJobItem "j1" (makeMetadata "t" "scrape" (some "fetch"))), .write, .write]

theorem onePerKey_run_checklist : ∃ s, Machine.run step {} checklistRun = some s ∧
    s.items.length = 3 ∧ OnePerKey s.items := by
  have hm : Machine.Meets step InsertsFresh {} checklistRun := by decide
  exact ⟨_, rfl, by decide, onePerKey_run hm rfl⟩

/-- A step that is written down again when the job is resumed has two rows. -/
theorem checklist_twice : ¬ ∀ (es : List (Event String)) (s : State String),
    Machine.run step {} es = some s → OnePerKey s.items := by
  intro h
  have hrun := h [.call "t" (.initializeChecklist "j1" ["fetch"]),
    .call "t" (.initializeChecklist "j1" ["fetch"]), .write, .write] _ rfl
  exact absurd hrun (by decide)

end JobItems
