import Mathlib.Data.List.Count
import AnythingTools.Machine
import AnythingTools.Publisher.Run

namespace Publisher
open JobItems
set_option autoImplicit true

/-! ### The draft editor -/

inductive SwapTarget where
  | index (n : Int)
  | ulid (s : String)
deriving DecidableEq, Repr

structure SwapOperation where
  indexTop10 : Int
  target : SwapTarget
deriving DecidableEq, Repr

/-- The ranked articles and the others, as the tool holds them. -/
structure Draft where
  top10 : List Detail
  inventory : List Detail

/-- `x.get("top10_rank")`, or 999, and then the detail's id. -/
def Detail.ranksBefore (a b : Detail) : Bool :=
  let rank (d : Detail) : Int := d.top10Rank.getD 999
  decide (rank a < rank b) || (decide (rank a = rank b) && decide (a.detailId ≤ b.detailId))

def Draft.load (b : Batch) : Draft :=
  let articles := getBatchArticles b
  { top10 := (articles.filter Detail.isTop10).insertionSort fun a b => a.ranksBefore b = true
    inventory := articles.filter fun d => !d.isTop10 }

/-- One swap; an index or a target that does not exist is passed over. -/
def Draft.swap (draft : Draft) (op : SwapOperation) : Draft :=
  if op.indexTop10 < 0 then draft
  else
    match draft.top10[op.indexTop10.toNat]? with
    | none => draft
    | some old =>
      match op.target with
      | .index n =>
        if n < 0 then draft
        else
          match draft.top10[n.toNat]? with
          | none => draft
          | some other =>
            { draft with
              top10 := (draft.top10.set op.indexTop10.toNat other).set n.toNat old }
      | .ulid target =>
        match draft.inventory.find? fun d => d.ulid = target with
        | none => draft
        | some replacement =>
          { top10 := draft.top10.set op.indexTop10.toNat replacement
            inventory := (draft.inventory ++ [old]).filter fun d => d.ulid ≠ target }

/-- The statements of the transaction: the rank of each article, or none. -/
def Draft.ranks (draft : Draft) : List (String × Option Int) :=
  (draft.top10.zipIdx.map fun p => (p.1.ulid, some (p.2 : Int))) ++
    draft.inventory.map fun d => (d.ulid, none)

/-- The statuses that the editor works on. -/
def editable (status : BatchStatus) : Bool :=
  decide (status ∈ [.pending, .partialResult, .failed])

/-! ### The tools and the writer -/

/-- Where a call of the publisher is. -/
inductive Stage where
  | started (args : Args)
  | checked (args : Args) (status : BatchStatus)
  | finalizing
  | loading (args : Args)
  | depleted
  | locking
  | delivering
  | computed (status : Option BatchStatus)
  | crashed
  | returning
  | done
deriving DecidableEq, Repr

/-- Where a call of the draft editor is. -/
inductive EditStage where
  | started (ops : List SwapOperation)
  | checked (ops : List SwapOperation)
  | loaded (ranks : List (String × Option Int))
  | done
deriving DecidableEq, Repr

/-- One batch with everything that works on it. -/
structure System where
  db : Db
  queue : List Write := []
  calls : List Stage := []
  edits : List EditStage := []

inductive SystemEvent where
  | publish (args : Args)
  | edit (ops : List SwapOperation)
  | act (i : Nat)
  | emit (i : Nat) (w : Write)
  | raise (i : Nat)
  | actEdit (i : Nat)
  | write
  | restart

/-- The next step of a call, what it queues, and whether it takes the lock. -/
def Stage.act (db : Db) : Stage → Option (Stage × List Write × Bool)
  | .started args => some (.checked args db.batch.status, [], false)
  | .checked args status =>
    match route args status with
    | .alreadyPublished => some (.done, [], false)
    | .finalize => some (.finalizing, [.skipUnpublished], false)
    | .proceed => some (.loading args, queued (resetEffects args), false)
  | .finalizing => some (.done, [.setBatchStatus .completed], false)
  | .loading _ =>
    if (getBatchArticles db.batch).any Detail.isTop10 then some (.locking, [], false)
    else some (.depleted, [], false)
  | .depleted => some (.done, [.setBatchStatus .failed], false)
  | .locking =>
    if lockable db.batch.status then some (.delivering, [], true) else some (.done, [], false)
  | .delivering => some (.computed (statusFromDetails db.batch.details), [], false)
  | .computed status => some (.returning, (status.map Write.setBatchStatus).toList, false)
  | .crashed => some (.done, [.setBatchStatus .partialResult], false)
  | .returning => some (.done, [], false)
  | .done => none

/-- The next step of an edit. Its check is not repeated when the transaction is queued. -/
def EditStage.act (db : Db) : EditStage → Option (EditStage × List Write)
  | .started ops => some (if editable db.batch.status then .checked ops else .done, [])
  | .checked ops => some (.loaded (ops.foldl Draft.swap (Draft.load db.batch)).ranks, [])
  | .loaded ranks => some (.done, [.editTop10 ranks])
  | .done => none

/-- What a pipeline queues while it delivers: changes of details and of items. -/
def Write.ofPipeline : Write → Bool
  | .setDetail .. => true
  | .item _ => true
  | _ => false

def System.step (s : System) : SystemEvent → Option System
  | .publish args => some { s with calls := s.calls ++ [.started args] }
  | .edit ops => some { s with edits := s.edits ++ [.started ops] }
  | .act i => do
    let stage ← s.calls[i]?
    let (stage', ws, lock) ← stage.act s.db
    return { s with
      db := if lock then s.db.withStatus .publishing else s.db
      queue := s.queue ++ ws
      calls := s.calls.set i stage' }
  | .emit i w =>
    if s.calls[i]? = some .delivering ∧ w.ofPipeline = true then
      some { s with queue := s.queue ++ [w] }
    else none
  | .raise i =>
    if s.calls[i]? = some .delivering then some { s with calls := s.calls.set i .crashed } else none
  | .actEdit i => do
    let stage ← s.edits[i]?
    let (stage', ws) ← stage.act s.db
    return { s with queue := s.queue ++ ws, edits := s.edits.set i stage' }
  | .write =>
    match s.queue with
    | w :: queue => some { s with db := s.db.commit w, queue }
    | [] => none
  | .restart => some { db := s.db }

/-- Only the check-and-set takes the lock, and only from a status that it names. -/
theorem act_lock {stage stage' : Stage} (h : stage.act db = some (stage', ws, true)) :
    stage = .locking ∧ stage' = .delivering ∧ lockable db.batch.status = true := by
  cases stage with
  | locking =>
    rw [Stage.act] at h
    split at h
    next hl =>
      cases h
      exact ⟨rfl, rfl, hl⟩
    next => cases h
  | checked args status =>
    rw [Stage.act] at h
    split at h
    next => cases h
    next => cases h
    next => cases h
  | loading args =>
    rw [Stage.act] at h
    split at h
    next => cases h
    next => cases h
  | _ => cases h

end Publisher
