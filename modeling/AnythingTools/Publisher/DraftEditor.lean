import AnythingTools.Publisher.System

namespace Publisher
open JobItems
set_option autoImplicit true

def Write.edits : Write → Bool
  | .editTop10 _ => true
  | _ => false

/-- The statuses that the editor keeps away from, as far as the publisher sets them. -/
def shut (status : BatchStatus) : Bool := decide (status ∈ [.publishing, .completed])

def Write.shuts : Write → Bool
  | .setBatchStatus status => shut status
  | _ => false

/-- The edit has checked the status and not queued its transaction. -/
def EditStage.between : EditStage → Bool
  | .checked _ => true
  | .loaded _ => true
  | _ => false

/-- An edit is between its check and its commit. -/
def System.editing (s : System) : Bool :=
  s.edits.any EditStage.between || s.queue.any Write.edits

/-- The transaction of an edit is committed to a batch that is open for it. -/
def EditsOpen (s : System) (e : SystemEvent) (_ : System) : Prop :=
  e = .write → ∀ w ∈ s.queue.head?, w.edits = true → shut s.db.batch.status = false

/-- The lock is not taken, and no `PUBLISHING` or `COMPLETED` committed, while an edit is between
its check and its commit. -/
def EditsAlone (s : System) : SystemEvent → Prop
  | .write => ∀ w ∈ s.queue.head?, w.shuts = true → s.editing = false
  | .act i => s.calls[i]? = some .locking → lockable s.db.batch.status = true → s.editing = false
  | _ => True

instance (s : System) (e : SystemEvent) : Decidable (EditsAlone s e) :=
  match e with
  | .write => inferInstanceAs (Decidable (∀ w ∈ s.queue.head?, _))
  | .act _ => inferInstanceAs (Decidable (_ → _ → _))
  | .publish _ => isTrue trivial
  | .edit _ => isTrue trivial
  | .emit _ _ => isTrue trivial
  | .raise _ => isTrue trivial
  | .actEdit _ => isTrue trivial
  | .restart => isTrue trivial

/-- The batch stays open for an edit that has checked it. -/
def KeptOpen (s : System) : Prop := s.editing = true → shut s.db.batch.status = false

/-- A call of the publisher edits nothing. -/
theorem act_edits {stage stage' : Stage} (h : stage.act db = some (stage', ws, lock)) :
    ws.any Write.edits = false := by
  cases stage with
  | checked args status =>
    rw [Stage.act] at h
    split at h
    next =>
      cases h
      rfl
    next =>
      cases h
      rfl
    next =>
      cases h
      rw [resetEffects]
      split
      next => rfl
      next => rfl
  | loading args =>
    rw [Stage.act] at h
    split at h
    next =>
      cases h
      rfl
    next =>
      cases h
      rfl
  | locking =>
    rw [Stage.act] at h
    split at h
    next =>
      cases h
      rfl
    next =>
      cases h
      rfl
  | computed status =>
    cases h
    cases status with
    | none => rfl
    | some status => rfl
  | done => cases h
  | _ =>
    cases h
    rfl

theorem any_edits_append {ws : List Write} (h : ws.any Write.edits = false) (queue : List Write) :
    (queue ++ ws).any Write.edits = queue.any Write.edits := by
  rw [List.any_append, h, Bool.or_false]

theorem keptOpen_act {s s' : System} (hc : EditsAlone s (.act i)) (h : s.step (.act i) = some s')
    (hs : KeptOpen s) : KeptOpen s' := by
  rw [System.step] at h
  obtain ⟨stage, hi, h⟩ := Option.bind_eq_some_iff.1 h
  obtain ⟨⟨stage', ws, lock⟩, hact, h⟩ := Option.bind_eq_some_iff.1 h
  cases h
  intro he
  rw [System.editing, any_edits_append (act_edits hact)] at he
  cases lock with
  | false => exact hs he
  | true =>
    obtain ⟨hstage, _, hl⟩ := act_lock hact
    have hfree := hc (by rw [hi, hstage]) hl
    rw [System.editing] at hfree
    rw [hfree] at he
    cases he

/-- An edit that passes the check finds the batch open; it queues nothing else. -/
theorem between_act {stage stage' : EditStage} (h : stage.act db = some (stage', ws))
    (he : stage'.between = true ∨ ws.any Write.edits = true) :
    stage.between = true ∨ shut db.batch.status = false := by
  cases stage with
  | started ops =>
    rw [EditStage.act] at h
    cases h
    refine .inr ?_
    rcases he with he | he
    · split at he
      next hopen =>
        cases hst : db.batch.status with
        | publishing =>
          rw [hst] at hopen
          cases hopen
        | completed =>
          rw [hst] at hopen
          cases hopen
        | _ => rfl
      next => cases he
    · cases he
  | checked ops => exact .inl rfl
  | loaded ranks => exact .inl rfl
  | done => cases h

theorem keptOpen_actEdit {s s' : System} (h : s.step (.actEdit i) = some s') (hs : KeptOpen s) :
    KeptOpen s' := by
  rw [System.step] at h
  obtain ⟨stage, hi, h⟩ := Option.bind_eq_some_iff.1 h
  obtain ⟨⟨stage', ws⟩, hact, h⟩ := Option.bind_eq_some_iff.1 h
  cases h
  intro he
  rw [System.editing, Bool.or_eq_true, List.any_append, Bool.or_eq_true, List.any_eq_true] at he
  have hstage (hb : stage.between = true) : s.editing = true := by
    rw [System.editing, Bool.or_eq_true, List.any_eq_true]
    exact .inl ⟨stage, List.mem_of_getElem? hi, hb⟩
  have hnew (hb : stage'.between = true ∨ ws.any Write.edits = true) :
      shut s.db.batch.status = false := by
    rcases between_act hact hb with hb | hb
    · exact hs (hstage hb)
    · exact hb
  rcases he with ⟨stage₁, hm, hb⟩ | hq | hw
  · rcases List.mem_or_eq_of_mem_set hm with hm | he
    · apply hs
      rw [System.editing, Bool.or_eq_true, List.any_eq_true]
      exact .inl ⟨stage₁, hm, hb⟩
    · rw [he] at hb
      exact hnew (.inl hb)
  · apply hs
    rw [System.editing, hq, Bool.or_true]
  · exact hnew (.inr hw)

theorem keptOpen_write {s s' : System} (hc : EditsAlone s .write) (h : s.step .write = some s')
    (hs : KeptOpen s) : KeptOpen s' ∧ EditsOpen s .write s' := by
  rw [System.step] at h
  split at h
  next w queue hq =>
    cases h
    have hless (he : (s.edits.any EditStage.between || queue.any Write.edits) = true) :
        s.editing = true := by
      rw [System.editing, hq, List.any_cons]
      rw [Bool.or_eq_true] at he ⊢
      exact he.imp_right fun hq => by rw [hq, Bool.or_true]
    constructor
    · intro he
      have hopen := hs (hless he)
      cases w with
      | setBatchStatus status =>
        change shut status = false
        rw [Bool.eq_false_iff]
        intro hshut
        have hfree := hc (.setBatchStatus status) (by rw [hq]; rfl) hshut
        rw [hless he] at hfree
        cases hfree
      | _ => exact hopen
    · intro _ w' hw' hedits
      rw [hq] at hw'
      cases hw'
      apply hs
      rw [System.editing, hq, List.any_cons, hedits, Bool.true_or, Bool.or_true]
  next => cases h

theorem keptOpen_step (s : System) (e : SystemEvent) (s' : System) (hc : EditsAlone s e)
    (h : s.step e = some s') (hs : KeptOpen s) : KeptOpen s' ∧ EditsOpen s e s' := by
  cases e with
  | publish args =>
    cases h
    exact ⟨hs, SystemEvent.noConfusion⟩
  | edit ops =>
    cases h
    refine ⟨?_, SystemEvent.noConfusion⟩
    intro he
    rw [System.editing, List.any_append] at he
    apply hs
    rw [System.editing]
    simpa only [List.any_cons, List.any_nil, EditStage.between, Bool.or_false] using he
  | act i => exact ⟨keptOpen_act hc h hs, SystemEvent.noConfusion⟩
  | emit i w =>
    rw [System.step] at h
    split at h
    next hw =>
      cases h
      refine ⟨?_, SystemEvent.noConfusion⟩
      have hedits : [w].any Write.edits = false := by
        cases w with
        | editTop10 ranks => cases hw.2
        | _ => rfl
      intro he
      rw [System.editing, any_edits_append hedits] at he
      exact hs he
    next => cases h
  | raise i =>
    rw [System.step] at h
    split at h
    next =>
      cases h
      exact ⟨hs, SystemEvent.noConfusion⟩
    next => cases h
  | actEdit i => exact ⟨keptOpen_actEdit h hs, SystemEvent.noConfusion⟩
  | write => exact keptOpen_write hc h hs
  | restart =>
    cases h
    exact ⟨fun he => absurd he Bool.false_ne_true, SystemEvent.noConfusion⟩

/-- As long as edits are alone between their check and their commit, each is committed to a batch
that is open for it. -/
theorem edits_open_run (db : Db) (es : List SystemEvent)
    (hm : Machine.Meets System.step EditsAlone { db } es) :
    Machine.Always System.step EditsOpen { db } es := by
  have hinit : KeptOpen { db } := fun he => absurd he Bool.false_ne_true
  exact Machine.always_of_invariant keptOpen_step hm hinit

/-- A swap that is committed, and then a call that publishes. -/
def editedThenPublished : List SystemEvent :=
  [.edit [⟨0, .index 0⟩], .actEdit 0, .actEdit 0, .actEdit 0, .write,
    .publish {}, .act 0, .act 0, .act 0, .act 0]

theorem edits_open_editedThenPublished :
    Machine.Always System.step EditsOpen { db := oneArticle .pending .pending }
      editedThenPublished := by
  have hm : Machine.Meets System.step EditsAlone { db := oneArticle .pending .pending }
      editedThenPublished := by decide
  exact edits_open_run _ _ hm

/-- The lock is taken between the check of an edit and its commit. -/
theorem edit_while_publishing : ¬ ∀ (db : Db) (es : List SystemEvent),
    Machine.Always System.step EditsOpen { db } es := by
  intro h
  have hs := h (oneArticle .pending .pending)
    ([.edit [⟨0, .index 0⟩], .actEdit 0, .actEdit 0, .actEdit 0,
      .publish {}, .act 0, .act 0, .act 0, .act 0] ++ [.write])
  have hopen := Machine.always_at hs rfl rfl
  exact absurd (hopen rfl _ rfl rfl) (by decide)

end Publisher
