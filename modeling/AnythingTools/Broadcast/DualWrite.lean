import AnythingTools.Machine
import AnythingTools.Sync.SafetyNet

namespace Broadcast
open Relational Relational.Database Schemas Sync
set_option autoImplicit true

/-- A call with the time it carries. -/
structure Call where
  op : Op
  now : String
deriving DecidableEq, Repr

/-- The row that a change of status is about, and the cells that it writes. -/
structure Change where
  batchId : String
  articleId : String
  cells : Row
deriving DecidableEq, Repr

def Call.change (call : Call) : Option Change :=
  match call.op with
  | .updateDetailPublishStatus b a status translated =>
    some ⟨b, a, statusCells status translated call.now⟩
  | .markDetailPublished b a phase =>
    (statusMap phase).map fun status => ⟨b, a, statusCells status none call.now⟩
  | _ => none

def Change.hits (ch : Change) (r : Row) : Bool := ofArticle ch.batchId ch.articleId r

def Change.apply (ch : Change) (r : Row) : Row := if ch.hits r then r.assign ch.cells else r

/-- The database as the reads see it, the writer's queue, the call that has still to read its row,
and the records queued for the cloud. -/
structure DualState where
  db : Database
  queue : List Call := []
  inFlight : Option Call := none
  records : List Row := []

inductive DualStep where
  | call (call : Call)
  | read
  | write
deriving DecidableEq, Repr

def DualState.enqueue (s : DualState) (call : Call) : DualState :=
  { s with queue := s.queue ++ [call], inFlight := some call }

def dualStep (s : DualState) : DualStep → Option DualState
  | .call call =>
    match s.inFlight, call.op with
    | none, .updateDetailPublishStatus .. => some (s.enqueue call)
    | none, .markDetailPublished _ _ phase =>
      -- an invalid phase is logged
      if (statusMap phase).isSome then some (s.enqueue call) else some s
    | _, _ => none
  | .read =>
    match s.inFlight with
    | some call =>
      some { s with inFlight := none, records := s.records ++ call.op.records call.now s.db }
    | none => none
  | .write =>
    match s.queue with
    | call :: queue => some { s with db := (call.op.write call.now s.db).toOption.getD s.db, queue }
    | [] => none

/-- The last record of a row among those queued for the cloud. -/
def lastRecord (records : List Row) (r : Row) : Option Row :=
  (records.filter fun q => Row.sameKey ["detail_id"] q r).getLast?

/-- Once everything is written and queued, the last record of each row is the row. -/
def Agreed (s : DualState) : Prop :=
  s.queue = [] → s.inFlight = none → ∀ r ∈ s.db.rows "broadcast_details",
    ∀ rec, lastRecord s.records r = some rec → ∀ c, rec.get c = r.get c

/-- What the call overwrites of an earlier one for the same row: all of it. -/
def Overrides (call earlier : Call) : Prop :=
  ∀ ch ∈ call.change, ∀ ch' ∈ earlier.change, ch'.batchId = ch.batchId →
    ch'.articleId = ch.articleId → ∀ c ∈ ch'.cells.columns, c ∈ ch.cells.columns

instance (call earlier : Call) : Decidable (Overrides call earlier) :=
  inferInstanceAs (Decidable (∀ ch ∈ call.change, ∀ ch' ∈ earlier.change, _ → _ → _))

/-- A row is read when the call overwrites what is still queued before it, and an update is
accepted when it is written. -/
def ReadsFresh (s : DualState) : DualStep → Prop
  | .call _ => True
  | .read => ∀ call ∈ s.inFlight, ∀ earlier ∈ s.queue.dropLast, Overrides call earlier
  | .write => ∀ call ∈ s.queue.head?, (call.op.write call.now s.db).toOption.isSome = true

instance (s : DualState) (a : DualStep) : Decidable (ReadsFresh s a) :=
  match a with
  | .call _ => isTrue trivial
  | .read => inferInstanceAs (Decidable (∀ call ∈ s.inFlight, _))
  | .write => inferInstanceAs (Decidable (∀ call ∈ s.queue.head?, _))

/-- The details have their schema, and no two of them have a key in common. -/
def Keyed (db : Database) : Prop :=
  ∀ T, db.find "broadcast_details" = some T → T.schema = broadcastDetails.schema ∧
    T.rows.Pairwise fun r r' => ¬ T.schema.conflicts r r' = true

variable {call : Call} {ch : Change}

theorem change_cells (h : call.change = some ch) :
    ∃ status translated now, ch.cells = statusCells status translated now := by
  rw [Call.change] at h
  split at h
  · cases h
    exact ⟨_, _, _, rfl⟩
  · obtain ⟨status, _, he⟩ := Option.map_eq_some_iff.1 h
    subst he
    exact ⟨status, none, call.now, rfl⟩
  · cases h

theorem statusCells_columns (status : String) (translated : Option Translation) (now : String)
    (hc : c ∈ ["detail_id", "batch_id", "article_id"]) :
    c ∉ (statusCells status translated now).columns := by
  revert c
  cases translated with
  | none =>
    change ∀ {c}, c ∈ ["detail_id", "batch_id", "article_id"] →
      c ∉ ["publish_status", "updated_at"]
    decide
  | some t =>
    change ∀ {c}, c ∈ ["detail_id", "batch_id", "article_id"] → c ∉ ["publish_status",
      "translated_title", "translated_summary", "translated_conclusion", "updated_at"]
    decide

/-- A change leaves the keys of the row. -/
theorem key_change (h : call.change = some ch) (hc : c ∈ ["detail_id", "batch_id", "article_id"])
    (r : Row) : (r.assign ch.cells).get c = r.get c := by
  obtain ⟨status, translated, now, he⟩ := change_cells h
  rw [he]
  exact Row.get_assign (statusCells_columns status translated now hc) r

theorem key_apply (h : call.change = some ch) (hc : c ∈ ["detail_id", "batch_id", "article_id"])
    (r : Row) : (ch.apply r).get c = r.get c := by
  rw [Change.apply]
  split
  · exact key_change h hc r
  · rfl

theorem write_eq (h : call.change = some ch) (db : Database) :
    call.op.write call.now db = db.updateRows "broadcast_details" ch.cells ch.hits := by
  rw [Call.change] at h
  split at h
  next b a status translated hop =>
    cases h
    rw [hop]
    rfl
  next b a phase hop =>
    obtain ⟨status, hs, he⟩ := Option.map_eq_some_iff.1 h
    subst he
    rw [hop, Op.write, hs]
    rfl
  · cases h

theorem records_eq (h : call.change = some ch) (db : Database) :
    call.op.records call.now db =
      (((db.rows "broadcast_details").find? ch.hits).map fun r => r.assign ch.cells).toList := by
  rw [Call.change] at h
  split at h
  next b a status translated hop =>
    cases h
    rw [hop]
    rfl
  next b a phase hop =>
    obtain ⟨status, hs, he⟩ := Option.map_eq_some_iff.1 h
    subst he
    rw [hop, Op.records, hs]
    rfl
  · cases h

theorem hits_iff {r : Row} : ch.hits r = true ↔
    r.get "batch_id" = .text ch.batchId ∧ r.get "article_id" = .text ch.articleId := by
  rw [Change.hits, ofArticle, ofBatch, Bool.and_eq_true, decide_eq_true_eq, decide_eq_true_eq]

/-- What the queued calls will make of a row. -/
def pending (queue : List Call) (r : Row) : Row :=
  queue.foldl (fun r call => (call.change.map fun ch => ch.apply r).getD r) r

theorem pending_append (queue : List Call) (h : call.change = some ch) (r : Row) :
    pending (queue ++ [call]) r = ch.apply (pending queue r) := by
  rw [pending, List.foldl_append, List.foldl_cons, h]
  rfl

theorem pending_cons (queue : List Call) (h : call.change = some ch) (r : Row) :
    pending (call :: queue) r = pending queue (ch.apply r) := by
  rw [pending, List.foldl_cons, h]
  rfl

@[simp] theorem columns_apply (ch : Change) (r : Row) : (ch.apply r).columns = r.columns := by
  rw [Change.apply]
  split
  · exact Row.columns_assign r ch.cells
  · rfl

theorem columns_pending (queue : List Call) (r : Row) : (pending queue r).columns = r.columns := by
  induction queue generalizing r with
  | nil => rfl
  | cons call queue ih =>
    cases h : call.change with
    | none =>
      rw [pending, List.foldl_cons, h]
      exact ih r
    | some ch =>
      rw [pending_cons queue h, ih, columns_apply]

theorem key_pending (queue : List Call) (hc : c ∈ ["detail_id", "batch_id", "article_id"])
    (r : Row) : (pending queue r).get c = r.get c := by
  induction queue generalizing r with
  | nil => rfl
  | cons call queue ih =>
    cases h : call.change with
    | none =>
      rw [pending, List.foldl_cons, h]
      exact ih r
    | some ch =>
      rw [pending_cons queue h, ih, key_apply h hc]

theorem hits_congr {r r' : Row} (hb : r.get "batch_id" = r'.get "batch_id")
    (ha : r.get "article_id" = r'.get "article_id") : ch.hits r = ch.hits r' := by
  rw [Bool.eq_iff_iff, hits_iff, hits_iff, hb, ha]

theorem hits_pending (queue : List Call) (ch : Change) (r : Row) :
    ch.hits (pending queue r) = ch.hits r :=
  hits_congr (key_pending queue (by decide) r) (key_pending queue (by decide) r)

theorem hits_apply (h : call.change = some ch) (ch' : Change) (r : Row) :
    ch'.hits (ch.apply r) = ch'.hits r :=
  hits_congr (key_apply h (by decide) r) (key_apply h (by decide) r)

/-- A column that none of the queued changes of the row writes keeps its cell. -/
theorem get_pending {r : Row} (h : ∀ call ∈ queue, ∀ ch ∈ Call.change call, ch.hits r = true →
    c ∉ ch.cells.columns) : (pending queue r).get c = r.get c := by
  induction queue generalizing r with
  | nil => rfl
  | cons call queue ih =>
    have hrest := fun call hm => h call (List.mem_cons_of_mem _ hm)
    cases hch : call.change with
    | none =>
      rw [pending, List.foldl_cons, hch]
      exact ih hrest
    | some ch =>
      rw [pending_cons queue hch, ih]
      · rw [Change.apply]
        split
        next hh => exact Row.get_assign (h call List.mem_cons_self ch hch hh) r
        next => rfl
      · intro call' hm ch' hch' hh
        rw [hits_apply hch] at hh
        exact hrest call' hm ch' hch' hh

/-- A change that is made again changes nothing. -/
theorem apply_apply (h : call.change = some ch) (r : Row) (c : String) :
    (ch.apply (ch.apply r)).get c = (ch.apply r).get c := by
  by_cases hh : ch.hits r = true
  · have hagain : ch.hits (ch.apply r) = true := by
      rw [hits_apply h]
      exact hh
    rw [Change.apply, if_pos hagain, Change.apply, if_pos hh]
    apply Row.assign_agree (Row.columns_assign r ch.cells)
    intro c hc
    exact Row.get_assign hc r
  · have hnot : ch.apply r = r := if_neg hh
    rw [hnot, hnot]

theorem conflicts_pair {S : Schema} (hk : key ∈ S.keys) (h : Row.sameKey key r r' = true) :
    S.conflicts r r' = true :=
  Schema.conflicts_iff.2 ⟨key, hk, h⟩

theorem unique_of_pairwise {R : α → α → Prop} {l : List α} (h : l.Pairwise fun a b => ¬ R a b)
    (hsymm : ∀ a b, R a b → R b a) (ha : a ∈ l) (hb : b ∈ l) (hr : R a b) : a = b := by
  by_contra hne
  have : Std.Symm fun a b => a ≠ b → ¬ R a b :=
    ⟨fun a b hab hba hr => hab hba.symm (hsymm b a hr)⟩
  have hpair : l.Pairwise fun a b => a ≠ b → ¬ R a b := by
    apply h.imp
    intro a b hab _
    exact hab
  have hall := List.Pairwise.forall_of_forall (R := fun a b => a ≠ b → ¬ R a b)
    (fun a _ hne => absurd rfl hne) hpair
  exact hall ha hb hne hr

theorem keyed_unique (key : List String) (hk : Keyed db) (hkey : key ∈ broadcastDetails.schema.keys)
    (hr : r ∈ db.rows "broadcast_details") (hr' : r' ∈ db.rows "broadcast_details")
    (h : Row.sameKey key r r' = true) : r = r' := by
  obtain ⟨T, hT, hr⟩ := mem_rows hr
  rw [rows_of_find hT] at hr'
  obtain ⟨hS, hpair⟩ := hk T hT
  rw [hS] at hpair
  apply unique_of_pairwise hpair _ hr hr' (conflicts_pair hkey h)
  intro a b hab
  rw [Schema.conflicts_comm]
  exact hab

/-- One row is hit at most. -/
theorem hits_unique (hk : Keyed db) (hr : r ∈ db.rows "broadcast_details")
    (hr' : r' ∈ db.rows "broadcast_details") (h : ch.hits r = true) (h' : ch.hits r' = true) :
    r = r' := by
  apply keyed_unique ["batch_id", "article_id"] hk (by decide) hr hr'
  rw [hits_iff] at h h'
  rw [Row.sameKey_iff]
  intro c hc
  simp only [List.mem_cons, List.not_mem_nil, or_false] at hc
  rcases hc with rfl | rfl
  · rw [h.1, h'.1]
    exact ⟨Value.noConfusion, rfl⟩
  · rw [h.2, h'.2]
    exact ⟨Value.noConfusion, rfl⟩

/-- Every call of the queue and the one in flight is a change of status, the call in flight is the
last of the queue or written, and the last record of a row that it does not hit is what the queue
will make of the row. -/
structure Synced (s : DualState) : Prop where
  keyed : Keyed s.db
  changes : ∀ call ∈ s.queue, ∃ ch, call.change = some ch
  flight : ∀ call, s.inFlight = some call → ∃ ch, call.change = some ch ∧
    ((s.queue = [] ∧ ∀ r ∈ s.db.rows "broadcast_details", ∀ c, (ch.apply r).get c = r.get c) ∨
      ∃ queue, s.queue = queue ++ [call])
  records : ∀ r ∈ s.db.rows "broadcast_details",
    (∀ call ch, s.inFlight = some call → call.change = some ch → ch.hits r = false) →
      ∀ rec, lastRecord s.records r = some rec → ∀ c, rec.get c = (pending s.queue r).get c

theorem synced_enqueue (hs : Synced s) (hidle : s.inFlight = none) (h : call.change = some ch) :
    Synced (s.enqueue call) where
  keyed := hs.keyed
  changes call' hm := by
    rcases List.mem_append.1 hm with hm | hm
    · exact hs.changes call' hm
    · rw [List.mem_singleton.1 hm]
      exact ⟨ch, h⟩
  flight call' hf := by
    cases hf
    exact ⟨ch, h, .inr ⟨s.queue, rfl⟩⟩
  records r hr hmiss rec hrec c := by
    have hold : ∀ call ch, s.inFlight = some call → call.change = some ch → ch.hits r = false := by
      intro call' ch' hf
      rw [hidle] at hf
      cases hf
    have hnot : ¬ ch.hits (pending s.queue r) = true := by
      rw [hits_pending, hmiss call ch rfl h]
      exact Bool.false_ne_true
    rw [DualState.enqueue, pending_append s.queue h, Change.apply, if_neg hnot]
    exact hs.records r hr hold rec hrec c

theorem lastRecord_append (records : List Row) (rec r : Row) :
    lastRecord (records ++ [rec]) r =
      if Row.sameKey ["detail_id"] rec r = true then some rec else lastRecord records r := by
  rw [lastRecord, List.filter_append, List.filter_singleton]
  cases Row.sameKey ["detail_id"] rec r with
  | true => exact List.getLast?_concat
  | false =>
    rw [cond_false, List.append_nil, if_neg Bool.false_ne_true]
    rfl

/-- A record keeps the identity of its row. -/
theorem sameKey_record (h : call.change = some ch) (q r : Row) :
    Row.sameKey ["detail_id"] (q.assign ch.cells) r = Row.sameKey ["detail_id"] q r := by
  apply Row.sameKey_agree
  intro c hc
  rw [List.mem_singleton.1 hc]
  exact key_change h (by decide) q

/-- What the call in flight makes of its row is what the queue will make of it. -/
theorem read_pending (hs : Synced s) (hf : s.inFlight = some call) (h : call.change = some ch)
    (hfresh : ∀ earlier ∈ s.queue.dropLast, Overrides call earlier)
    (hr : r ∈ s.db.rows "broadcast_details") (hh : ch.hits r = true) (c : String) :
    (r.assign ch.cells).get c = (pending s.queue r).get c := by
  have happly : ch.apply r = r.assign ch.cells := if_pos hh
  obtain ⟨ch', hch', hor⟩ := hs.flight call hf
  rw [h, Option.some.injEq] at hch'
  subst hch'
  rcases hor with ⟨hq, hwritten⟩ | ⟨queue, hq⟩
  · rw [hq, ← happly]
    exact hwritten r hr c
  · rw [hq, List.dropLast_concat] at hfresh
    have hh' : ch.hits (pending queue r) = true := by
      rw [hits_pending]
      exact hh
    rw [hq, pending_append queue h, Change.apply, if_pos hh']
    apply Row.assign_agree (columns_pending queue r).symm
    intro d hd
    apply Eq.symm
    apply get_pending
    intro earlier hm ch' hch' hhit hd'
    rw [hits_iff] at hh hhit
    have hb : ch'.batchId = ch.batchId := Value.text.inj (hhit.1.symm.trans hh.1)
    have ha : ch'.articleId = ch.articleId := Value.text.inj (hhit.2.symm.trans hh.2)
    exact hd (hfresh earlier hm ch h ch' hch' hb ha d hd')

theorem synced_read (hs : Synced s) (hf : s.inFlight = some call)
    (hfresh : ∀ earlier ∈ s.queue.dropLast, Overrides call earlier) :
    Synced { s with inFlight := none, records := s.records ++ call.op.records call.now s.db } where
  keyed := hs.keyed
  changes := hs.changes
  flight call' hf' := by cases hf'
  records r hr _ rec hrec c := by
    obtain ⟨ch, h, _⟩ := hs.flight call hf
    have hmiss (hno : ch.hits r = false) : ∀ call' ch', s.inFlight = some call' →
        call'.change = some ch' → ch'.hits r = false := by
      intro call' ch' hf' h'
      rw [hf, Option.some.injEq] at hf'
      subst hf'
      rw [h, Option.some.injEq] at h'
      subst h'
      exact hno
    dsimp only at hr hrec
    rw [records_eq h] at hrec
    cases hq : (s.db.rows "broadcast_details").find? ch.hits with
    | none =>
      rw [hq, Option.map_none, Option.toList_none, List.append_nil] at hrec
      have hno : ch.hits r = false := by
        rw [← Bool.not_eq_true]
        exact List.find?_eq_none.1 hq r hr
      exact hs.records r hr (hmiss hno) rec hrec c
    | some q =>
      have hqm := List.mem_of_find?_eq_some hq
      have hqh := List.find?_some hq
      rw [hq, Option.map_some, Option.toList_some, lastRecord_append, sameKey_record h] at hrec
      split at hrec
      next hk =>
        have he : q = r := keyed_unique ["detail_id"] hs.keyed (by decide) hqm hr hk
        subst he
        rw [← Option.some.inj hrec]
        exact read_pending hs hf h hfresh hqm hqh c
      next hk =>
        by_cases hh : ch.hits r = true
        · -- a row without an identity has no record
          have he : q = r := hits_unique hs.keyed hqm hr hqh hh
          subst he
          have hnull : q.get "detail_id" = .null := by
            by_contra hn
            exact hk (Row.sameKey_self (by simpa using hn))
          have hlast := List.mem_of_getLast? hrec
          have hid := Row.sameKey_iff.1 (List.mem_filter.1 hlast).2 "detail_id"
            (List.mem_singleton_self _)
          exact absurd (hid.2.trans hnull) hid.1
        · rw [Bool.not_eq_true] at hh
          exact hs.records r hr (hmiss hh) rec hrec c

theorem keyed_write (hk : Keyed db)
    (h : db.updateRows "broadcast_details" ch.cells ch.hits = .ok db') : Keyed db' := by
  intro T' hT'
  rw [updateRows_ok h, find_update_self, Option.map_eq_some_iff] at hT'
  obtain ⟨T, hT, he⟩ := hT'
  subst he
  exact ⟨(hk T hT).1, updateRows_keys h hT⟩

theorem rows_write {db db' : Database}
    (h : db.updateRows "broadcast_details" ch.cells ch.hits = .ok db') :
    db'.rows "broadcast_details" = (db.rows "broadcast_details").map ch.apply := by
  rw [updateRows_ok h, rows, find_update_self]
  cases hT : db.find "broadcast_details" with
  | none =>
    rw [rows_of_none hT]
    rfl
  | some T =>
    rw [rows_of_find hT]
    rfl

theorem synced_write (hs : Synced s) (hq : s.queue = call :: queue)
    (hw : call.op.write call.now s.db = .ok db) : Synced { s with db, queue } := by
  obtain ⟨ch, h⟩ := hs.changes call (hq ▸ List.mem_cons_self)
  rw [write_eq h] at hw
  constructor
  · exact keyed_write hs.keyed hw
  · intro call' hm
    exact hs.changes call' (hq ▸ List.mem_cons_of_mem call hm)
  · intro call' hf
    obtain ⟨ch', h', hor⟩ := hs.flight call' hf
    refine ⟨ch', h', ?_⟩
    rcases hor with ⟨hnil, _⟩ | ⟨front, hfront⟩
    · rw [hq] at hnil
      cases hnil
    · rw [hq] at hfront
      cases front with
      | nil =>
        cases hfront
        rw [h, Option.some.injEq] at h'
        subst h'
        refine .inl ⟨rfl, ?_⟩
        intro r hr c
        dsimp only at hr
        rw [rows_write hw] at hr
        obtain ⟨r₀, _, he⟩ := List.mem_map.1 hr
        rw [← he]
        exact apply_apply h r₀ c
      | cons call₀ front =>
        cases hfront
        exact .inr ⟨front, rfl⟩
  · intro r hr hmiss rec hrec c
    dsimp only at hr hrec
    rw [rows_write hw] at hr
    obtain ⟨r₀, hr₀, he⟩ := List.mem_map.1 hr
    subst he
    have hid (q : Row) : Row.sameKey ["detail_id"] q (ch.apply r₀) =
        Row.sameKey ["detail_id"] q r₀ := by
      apply Row.sameKey_agree_right
      intro c hc
      rw [List.mem_singleton.1 hc]
      exact key_apply h (by decide) r₀
    rw [lastRecord] at hrec
    simp only [hid] at hrec
    rw [← pending_cons queue h, ← hq]
    apply hs.records r₀ hr₀ _ rec hrec
    intro call' ch' hf h'
    rw [← hits_apply h ch' r₀]
    exact hmiss call' ch' hf h'

theorem synced_step (hcond : ReadsFresh s a) (h : dualStep s a = some s') (hs : Synced s) :
    Synced s' := by
  cases a with
  | call call =>
    rw [dualStep] at h
    split at h
    next hidle hop =>
      cases h
      apply synced_enqueue hs hidle
      rw [Call.change, hop]
    next b a phase hidle hop =>
      split at h
      next hphase =>
        cases h
        obtain ⟨status, hstatus⟩ := Option.isSome_iff_exists.1 hphase
        apply synced_enqueue hs hidle
        rw [Call.change, hop]
        dsimp only
        rw [hstatus]
        rfl
      next =>
        cases h
        exact hs
    next => cases h
  | read =>
    rw [dualStep] at h
    split at h
    next call hf =>
      cases h
      exact synced_read hs hf (hcond call hf)
    next => cases h
  | write =>
    rw [dualStep] at h
    split at h
    next call queue hq =>
      cases h
      have hok := hcond call (by rw [hq]; rfl)
      cases hw : call.op.write call.now s.db with
      | error e =>
        rw [hw] at hok
        cases hok
      | ok db => exact synced_write hs hq hw
    next => cases h

/-- In every run whose reads are fresh, the last record of each row is the row in the end. -/
theorem agreed_run {db : Database} (hk : Keyed db)
    (hm : Machine.Meets dualStep ReadsFresh { db } as)
    (hr : Machine.run dualStep { db } as = some s) : Agreed s := by
  have hs : Synced s := by
    refine Machine.run_invariant (fun _ _ _ => synced_step) hm hr ⟨hk, ?_, ?_, ?_⟩
    · intro call hm
      cases hm
    · intro call hf
      cases hf
    · intro r hr _ rec hrec
      cases hrec
  intro hq hf r hr rec hrec c
  have hpending := hs.records r hr (fun call ch hsome => by rw [hf] at hsome; cases hsome) rec hrec c
  rw [hq] at hpending
  exact hpending

/-- A batch with one detail. -/
def detailedDb : Database :=
  (((Op.addDetail "b1" "a1" false none).write "2024-05-01T09:00:00+00:00"
    beforePublishing.db).toOption).getD beforePublishing.db

def translate : Call :=
  ⟨.updateDetailPublishStatus "b1" "a1" "TRANSLATING" (some ⟨"title", some "summary", none⟩),
    "2024-05-01T10:00:00+00:00"⟩

def publish : Call := ⟨.markDetailPublished "b1" "a1" "archive", "2024-05-01T10:00:01+00:00"⟩

/-- The publication reads the row before the translation is written. -/
def readEarly : List DualStep :=
  [.call translate, .read, .call publish, .read, .write, .write]

def readLate : List DualStep :=
  [.call translate, .read, .write, .call publish, .read, .write]

def dualEnd (as : List DualStep) : DualState :=
  (Machine.run dualStep { db := detailedDb } as).getD { db := detailedDb }

def titles (s : DualState) : List Value :=
  (s.db.rows "broadcast_details").map fun r => r.get "translated_title"

/-- The last record takes the translation away that the row has. -/
theorem translation_lost :
    Machine.run dualStep { db := detailedDb } readEarly = some (dualEnd readEarly) ∧
      (dualEnd readEarly).queue = [] ∧ (dualEnd readEarly).inFlight = none ∧
      titles (dualEnd readEarly) = [.text "title"] ∧
      ((dualEnd readEarly).records.map fun r => r.get "translated_title") =
        [.text "title", .null] ∧
      ¬ Agreed (dualEnd readEarly) := by
  refine ⟨by rfl, by decide +kernel, by decide +kernel, by decide +kernel, by decide +kernel, ?_⟩
  intro h
  have hall : ∃ r ∈ (dualEnd readEarly).db.rows "broadcast_details",
      ∃ rec ∈ lastRecord (dualEnd readEarly).records r,
        rec.get "translated_title" ≠ r.get "translated_title" := by decide +kernel
  obtain ⟨r, hr, rec, hrec, hne⟩ := hall
  exact hne (h (by decide +kernel) (by decide +kernel) r hr rec hrec "translated_title")

theorem keyed_detailedDb : Keyed detailedDb := by
  have hall : ∀ T ∈ detailedDb.find "broadcast_details", T.schema = broadcastDetails.schema ∧
      T.rows.Pairwise fun r r' => ¬ T.schema.conflicts r r' = true := by decide +kernel
  exact hall

theorem agreed_readLate : Agreed (dualEnd readLate) := by
  have hrun : Machine.run dualStep { db := detailedDb } readLate = some (dualEnd readLate) := by rfl
  exact agreed_run keyed_detailedDb (by decide +kernel) hrun

end Broadcast
