import AnythingTools.Jobs.Items

namespace JobItems
open Relational
set_option autoImplicit true

theorem jsonExtract_insert (m : Metadata) (key key' : String) (v : Value) :
    jsonExtract (m.insert key v) key' = if key' = key then v else jsonExtract m key' := by
  rw [jsonExtract]
  by_cases h : key' = key
  · rw [h, AList.lookup_insert, if_pos rfl, Option.getD_some]
  · rw [AList.lookup_insert_ne h, if_neg h, jsonExtract]

theorem itemKey_insert (m : Metadata) (v : Value) (h : key ≠ "step") (h' : key ≠ "ulid") :
    itemKey (m.insert key v) = itemKey m := by
  rw [itemKey, itemKey, jsonExtract_insert, jsonExtract_insert, if_neg h.symm, if_neg h'.symm]

theorem itemKey_optional (c : Prop) [Decidable c] (m : Metadata) (v : Value) (h : key ≠ "step")
    (h' : key ≠ "ulid") : itemKey (if c then m.insert key v else m) = itemKey m := by
  split
  next => exact itemKey_insert m v h h'
  next => rfl

/-- Without extra members the key is what the caller gives. -/
@[simp] theorem itemKey_makeMetadata (now step ulid : String) (retry : Int)
    (model error : Option String) (isTop10 : Bool) :
    itemKey (makeMetadata now step (some ulid) retry model error isTop10) =
      (.text step, .text ulid) := by
  simp only [makeMetadata, List.foldl_nil]
  rw [itemKey_optional _ _ _ (by decide) (by decide), itemKey_optional _ _ _ (by decide) (by decide),
    itemKey_optional _ _ _ (by decide) (by decide), itemKey_insert _ _ (by decide) (by decide),
    itemKey_insert _ _ (by decide) (by decide), itemKey, jsonExtract_insert, jsonExtract_insert,
    jsonExtract_insert]
  rfl

/-- The item of a job for a step and a ULID. -/
def Item.isOf (i : Item ω) (jobId stepType ulid : String) : Bool :=
  decide (i.jobId = jobId) && decide (itemKey i.itemMetadata = (.text stepType, .text ulid))

/-- The first row of the item, as `fetchone` gives it. -/
def itemRow (items : List (Item ω)) (jobId stepType ulid : String) : Option (Item ω) :=
  items.find? fun i => i.isOf jobId stepType ulid

theorem isOf_iff {i : Item ω} : i.isOf jobId stepType ulid = true ↔
    i.jobId = jobId ∧ itemKey i.itemMetadata = (.text stepType, .text ulid) := by
  rw [Item.isOf, Bool.and_eq_true, decide_eq_true_eq, decide_eq_true_eq]

theorem sameAs_isOf {i : Item ω} (hm : itemKey m = (.text stepType, .text ulid)) :
    i.sameAs jobId m = i.isOf jobId stepType ulid := by
  rw [Bool.eq_iff_iff, sameAs_iff, isOf_iff, hm]
  exact ⟨fun h => ⟨h.1, h.2.1⟩, fun h => ⟨h.1, h.2, Value.noConfusion, Value.noConfusion⟩⟩

/-- An item has one key. -/
theorem isOf_inj {i : Item ω} (h : i.isOf jobId stepType ulid = true)
    (h' : i.isOf jobId' stepType' ulid' = true) : jobId = jobId' ∧ stepType = stepType' ∧ ulid = ulid' := by
  rw [isOf_iff] at h h'
  have hkey := h.2.symm.trans h'.2
  rw [Prod.mk.injEq] at hkey
  exact ⟨h.1.symm.trans h'.1, Value.text.inj hkey.1, Value.text.inj hkey.2⟩

theorem isOf_itemRow {items : List (Item ω)} (h : itemRow items jobId stepType ulid = some i) :
    i.isOf jobId stepType ulid = true :=
  List.find?_some (p := fun i : Item ω => i.isOf jobId stepType ulid) h

/-- A row after an update of one key. -/
def Item.assign (jobId : String) (m : Metadata) (status : ItemStatus) (output : ω) (now : String)
    (i : Item ω) : Item ω :=
  if i.sameAs jobId m then
    { i with status, outputData := some output, updatedAt := now, itemMetadata := m }
  else i

/-- An update gives no row another job or key. -/
theorem isOf_assign (jobId : String) (m : Metadata) (status : ItemStatus) (output : ω) (now : String)
    (i : Item ω) (jobId' stepType ulid : String) :
    (i.assign jobId m status output now).isOf jobId' stepType ulid = i.isOf jobId' stepType ulid := by
  rw [Item.assign]
  split
  next h => rw [Item.isOf, Item.isOf, (sameAs_iff.1 h).2.1]
  next => rfl

theorem itemRow_update (items : List (Item ω)) (jobId : String) (m : Metadata) (status : ItemStatus)
    (output : ω) (now jobId' stepType ulid : String) :
    itemRow (commit items (.update jobId m status output now)) jobId' stepType ulid =
      (itemRow items jobId' stepType ulid).map (Item.assign jobId m status output now) := by
  change itemRow (items.map (Item.assign jobId m status output now)) jobId' stepType ulid = _
  rw [itemRow, List.find?_map, itemRow]
  congr 2
  funext i
  rw [Function.comp_apply, isOf_assign]

/-- The update of another item leaves the row. -/
theorem itemRow_update_ne (items : List (Item ω)) (status : ItemStatus) (output : ω) (now : String)
    (hm : itemKey m = (.text stepType, .text ulid))
    (hne : ¬ (jobId' = jobId ∧ stepType' = stepType ∧ ulid' = ulid)) :
    itemRow (commit items (.update jobId m status output now)) jobId' stepType' ulid' =
      itemRow items jobId' stepType' ulid' := by
  rw [itemRow_update]
  cases h : itemRow items jobId' stepType' ulid' with
  | none => rfl
  | some i =>
    have hi := isOf_itemRow h
    have hsame : ¬ i.sameAs jobId m = true := by
      rw [sameAs_isOf hm]
      exact fun hs => hne (isOf_inj hi hs)
    rw [Option.map_some, Item.assign, if_neg hsame]

/-- The update of the item itself. -/
theorem itemRow_update_self (items : List (Item ω)) (status : ItemStatus) (output : ω) (now : String)
    (hm : itemKey m = (.text stepType, .text ulid)) :
    itemRow (commit items (.update jobId m status output now)) jobId stepType ulid =
      (itemRow items jobId stepType ulid).map fun i =>
        { i with status, outputData := some output, updatedAt := now, itemMetadata := m } := by
  rw [itemRow_update]
  cases h : itemRow items jobId stepType ulid with
  | none => rfl
  | some i =>
    rw [Option.map_some, Option.map_some, Item.assign, sameAs_isOf hm, if_pos (isOf_itemRow h)]

theorem itemRow_add (items : List (Item ω)) (jobId : String) (m : Metadata)
    (now jobId' stepType ulid : String) :
    itemRow (commit items (.add jobId m now)) jobId' stepType ulid = itemRow items jobId' stepType ulid ∨
      itemRow items jobId' stepType ulid = none ∧
        itemRow (commit items (.add jobId m now)) jobId' stepType ulid =
          some { jobId, itemMetadata := m, updatedAt := now } := by
  rw [commit]
  split
  next => exact .inl rfl
  next =>
    rw [itemRow, itemRow, List.find?_append]
    cases items.find? fun i => i.isOf jobId' stepType ulid with
    | some i => exact .inl rfl
    | none =>
      rw [Option.none_or, List.find?_singleton]
      split
      next => exact .inr ⟨rfl, rfl⟩
      next => exact .inl rfl

/-- A row that is there stays when another is added. -/
theorem itemRow_add_of_some (items : List (Item ω)) (jobId : String) (m : Metadata) (now : String)
    (h : itemRow items jobId' stepType ulid = some i) :
    itemRow (commit items (.add jobId m now)) jobId' stepType ulid = some i := by
  rcases itemRow_add items jobId m now jobId' stepType ulid with he | ⟨hnone, _⟩
  · rw [he, h]
  · rw [h] at hnone
    cases hnone

end JobItems
