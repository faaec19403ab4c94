import AnythingTools.Logging.Payload

namespace Logging
set_option autoImplicit true

def oversized (s : Text) : Bool := decide (maxPayloadChars < (redact s).length)

/-- The text that an unknown object is logged as. -/
def objectText (modelDump toDict : Option (Option Payload)) (repr : Option Text) : Option Text :=
  match returned modelDump toDict with
  | some _ => none
  | none => repr

/-- The spooling of a part raises, and no dictionary is around it. -/
def raises (sp : Spooler) : Nat → List Step → Payload → Bool
  | 0, _, _ => false
  | levels + 1, path, p =>
    match p with
    | .str s => oversized s && decide (sp.disk path = .raised)
    | .object modelDump toDict repr =>
      (objectText modelDump toDict repr).any oversized && decide (sp.disk path = .raised)
    | .list xs => xs.zipIdx.any fun q => raises sp levels (path ++ [.element q.2]) q.1
    | .tuple xs => xs.zipIdx.any fun q => raises sp levels (path ++ [.element q.2]) q.1
    | _ => false

/-- The notice of a spooling that failed. -/
def failedNotice (sp : Spooler) (path : List Step) (s : Text) : List Leaf :=
  if oversized s = true ∧ sp.disk path = .failed then [.text (spoolFailedText (redact s))] else []

/-- What reaches the result past the redaction: the masked strings, what objects return of
themselves, and the notices of spooling that failed. -/
def handedOver (sp : Spooler) : Nat → List Step → Payload → List Leaf
  | 0, _, _ => []
  | levels + 1, path, p =>
    match p with
    | .maskable masked _ => masked.toList.map .text
    | .str s => failedNotice sp path s
    | .object modelDump toDict repr =>
      match returned modelDump toDict with
      | some v => v.leaves
      | none => repr.toList.flatMap (failedNotice sp path)
    | .dict members => members.zipIdx.flatMap fun q =>
      if raises sp levels (path ++ [.member q.2]) q.1.2 then []
      else handedOver sp levels (path ++ [.member q.2]) q.1.2
    | .list xs => xs.zipIdx.flatMap fun q => handedOver sp levels (path ++ [.element q.2]) q.1
    | .tuple xs => xs.zipIdx.flatMap fun q => handedOver sp levels (path ++ [.element q.2]) q.1
    | _ => []

/-- No secret in a string, and no MaskableData or bytes. -/
def Leaf.Safe : Leaf → Prop
  | .text s => Clean s
  | .guarded => False
  | .other => True

def AllSafe (leaves : List Leaf) : Prop := ∀ leaf ∈ leaves, leaf.Safe

theorem elementLeaves_serialized (xs : List Serialized) :
    serializedElementLeaves xs = xs.flatMap Serialized.leaves := by
  induction xs with
  | nil => rfl
  | cons x xs ih => rw [serializedElementLeaves, ih, List.flatMap_cons]

theorem memberLeaves_serialized (members : List (Text × Serialized)) :
    serializedMemberLeaves members = members.flatMap fun r => r.2.leaves := by
  induction members with
  | nil => rfl
  | cons r members ih => rw [serializedMemberLeaves, ih, List.flatMap_cons]

theorem allSafe_flatMap {xs : List α} {f : α → List Leaf} :
    AllSafe (xs.flatMap f) ↔ ∀ x ∈ xs, AllSafe (f x) := by
  simp only [AllSafe, List.mem_flatMap]
  exact ⟨fun h x hx leaf hl => h leaf ⟨x, hx, hl⟩, fun h leaf ⟨x, hx, hl⟩ => h x hx leaf hl⟩

theorem allSafe_text : AllSafe [.text s] ↔ Clean s := by
  simp [AllSafe, Leaf.Safe]

theorem allSafe_other : AllSafe [.other] := by
  simp [AllSafe, Leaf.Safe]

theorem allSafe_nil : AllSafe [] := List.forall_mem_nil _

theorem inOrder_some {rs : List (Option α × Writes)} (h : (inOrder rs).1 = some ys) :
    rs.map Prod.fst = ys.map some := by
  induction rs generalizing ys with
  | nil =>
    cases h
    rfl
  | cons r rs ih =>
    obtain ⟨y, ws⟩ := r
    cases y with
    | none => cases h
    | some y =>
      rw [inOrder, Option.map_eq_some_iff] at h
      obtain ⟨ys', hys, rfl⟩ := h
      rw [List.map_cons, List.map_cons, ih hys]

theorem inOrder_none_iff {rs : List (Option α × Writes)} :
    (inOrder rs).1 = none ↔ ∃ r ∈ rs, r.1 = none := by
  induction rs with
  | nil => simp [inOrder]
  | cons r rs ih =>
    obtain ⟨y, ws⟩ := r
    cases y with
    | none => simp [inOrder]
    | some y => simp [inOrder, ih]

theorem redactAndHandleSize_none_iff :
    (redactAndHandleSize sp path s).1 = none ↔
      (oversized s && decide (sp.disk path = .raised)) = true := by
  rw [redactAndHandleSize, oversized]
  split
  next h => simp [Nat.not_lt.2 h]
  next h =>
    rw [spoolLargePayload]
    cases hd : sp.disk path with
    | written => simp
    | failed => simp
    | raised => simp [Nat.not_le.1 h]

theorem allSafe_redactAndHandleSize (h : (redactAndHandleSize sp path s).1 = some out) :
    AllSafe out.leaves ↔ AllSafe (failedNotice sp path s) := by
  rw [redactAndHandleSize] at h
  rw [failedNotice, oversized]
  split at h
  next hle =>
    cases h
    rw [Serialized.leaves, allSafe_text]
    simp [Nat.not_lt.2 hle, clean_redact, AllSafe]
  next hlt =>
    rw [spoolLargePayload] at h
    cases hd : sp.disk path with
    | written =>
      rw [hd] at h
      cases h
      rw [Serialized.leaves, allSafe_text]
      simp [clean_pointerText, AllSafe]
    | failed =>
      rw [hd] at h
      cases h
      rw [Serialized.leaves]
      simp [Nat.not_le.1 hlt]
    | raised =>
      rw [hd] at h
      cases h

/-- The exceptions of a payload. -/
theorem serialize_none_iff (sp : Spooler) (levels : Nat) (path : List Step) (p : Payload) :
    (serialize sp levels path p).1 = none ↔ raises sp levels path p = true := by
  induction levels generalizing path p with
  | zero => simp [serialize, raises]
  | succ levels ih =>
    have helements (xs : List Payload) :
        (inOrder (xs.zipIdx.map fun q => serialize sp levels (path ++ [.element q.2]) q.1)).1 =
            none ↔
          (xs.zipIdx.any fun q => raises sp levels (path ++ [.element q.2]) q.1) = true := by
      rw [inOrder_none_iff, List.any_eq_true]
      simp only [List.mem_map, exists_exists_and_eq_and, ih]
    cases p with
    | str s =>
      rw [serialize, raises]
      exact redactAndHandleSize_none_iff
    | object modelDump toDict repr =>
      simp only [serialize, raises, objectText]
      cases returned modelDump toDict with
      | some v => simp
      | none =>
        cases repr with
        | none => simp
        | some s => simpa using redactAndHandleSize_none_iff
    | list xs =>
      rw [serialize, raises, ← helements]
      exact Option.map_eq_none_iff
    | tuple xs =>
      rw [serialize, raises, ← helements]
      exact Option.map_eq_none_iff
    | _ => simp [serialize, raises]

/-- Where the parts in order all have results, these are safe when what is handed over is. -/
theorem allSafe_inOrder {qs : List α} {f : α → Option Serialized × Writes} {g : α → List Leaf}
    (h : (inOrder (qs.map f)).1 = some ys)
    (hfg : ∀ q ∈ qs, ∀ y, (f q).1 = some y → (AllSafe y.leaves ↔ AllSafe (g q))) :
    (∀ y ∈ ys, AllSafe y.leaves) ↔ ∀ q ∈ qs, AllSafe (g q) := by
  have hys := inOrder_some h
  rw [List.map_map] at hys
  have hmem (y : Serialized) : y ∈ ys ↔ ∃ q ∈ qs, (f q).1 = some y := by
    have hsome : y ∈ ys ↔ some y ∈ ys.map some := by simp
    rw [hsome, ← hys]
    simp
  apply Iff.intro
  · intro hall q hq
    have hsome : (f q).1 ∈ ys.map some := by
      rw [← hys]
      exact List.mem_map_of_mem (f := Prod.fst ∘ f) hq
    obtain ⟨y, hy, hfy⟩ := List.mem_map.1 hsome
    exact (hfg q hq y hfy.symm).1 (hall y hy)
  · intro hall y hy
    obtain ⟨q, hq, hfy⟩ := (hmem y).1 hy
    exact (hfg q hq y hfy).2 (hall q hq)

/-- The result is safe exactly when what is handed over to it is. -/
theorem allSafe_serialize (sp : Spooler) (levels : Nat) (path : List Step) (p : Payload)
    (h : (serialize sp levels path p).1 = some out) :
    AllSafe out.leaves ↔ AllSafe (handedOver sp levels path p) := by
  induction levels generalizing path p out with
  | zero =>
    cases h
    rw [Serialized.leaves, allSafe_text, handedOver]
    have hno : ∀ c ∈ codes "[MAX_DEPTH_EXCEEDED]", isDelim c = false := by decide
    simp [clean_of_no_delim hno, AllSafe]
  | succ levels ih =>
    have hunserializable : Clean (codes "<unserializable>") := by
      have hno : ∀ c ∈ codes "<unserializable>", isDelim c = false := by decide
      exact clean_of_no_delim hno
    have helements {xs : List Payload} {ys : List Serialized}
        (hys : (inOrder (xs.zipIdx.map fun q =>
          serialize sp levels (path ++ [.element q.2]) q.1)).1 = some ys) :
        AllSafe (serializedElementLeaves ys) ↔
          AllSafe (xs.zipIdx.flatMap fun q =>
            handedOver sp levels (path ++ [.element q.2]) q.1) := by
      rw [elementLeaves_serialized, allSafe_flatMap, allSafe_flatMap]
      exact allSafe_inOrder hys fun q _ y hy => ih _ _ hy
    cases p with
    | null =>
      cases h
      simp [Serialized.leaves, handedOver, allSafe_other, allSafe_nil]
    | scalar value =>
      cases h
      simp [Serialized.leaves, handedOver, allSafe_other, allSafe_nil]
    | str s =>
      rw [serialize] at h
      exact allSafe_redactAndHandleSize h
    | bytes content =>
      cases h
      simp [Serialized.leaves, handedOver, allSafe_text, clean_maskedBytesText, allSafe_nil]
    | maskable masked content =>
      cases h
      cases masked with
      | none =>
        have hno : ∀ c ∈ codes "[MASKED]", isDelim c = false := by decide
        simp [Serialized.leaves, handedOver, allSafe_text, clean_of_no_delim hno, allSafe_nil]
      | some s => exact Iff.rfl
    | object modelDump toDict repr =>
      simp only [serialize] at h
      simp only [handedOver]
      cases hr : returned modelDump toDict with
      | some v =>
        rw [hr] at h
        cases h
        exact Iff.rfl
      | none =>
        rw [hr] at h
        cases repr with
        | none =>
          cases h
          rw [Serialized.leaves, allSafe_text]
          simp [hunserializable, AllSafe]
        | some s => simpa using allSafe_redactAndHandleSize h
    | dict members =>
      cases h
      rw [Serialized.leaves, memberLeaves_serialized, handedOver, allSafe_flatMap,
        allSafe_flatMap]
      simp only [List.forall_mem_map]
      refine forall₂_congr fun q _ => ?_
      cases hq : (serialize sp levels (path ++ [.member q.2]) q.1.2).1 with
      | none =>
        rw [if_pos ((serialize_none_iff _ _ _ _).1 hq), Option.getD_none, Serialized.leaves,
          allSafe_text]
        simp [hunserializable, AllSafe]
      | some y =>
        have hnot : raises sp levels (path ++ [.member q.2]) q.1.2 ≠ true := by
          rw [Ne, ← serialize_none_iff, hq]
          exact Option.some_ne_none y
        rw [if_neg hnot, Option.getD_some]
        exact ih _ _ hq
    | list xs =>
      rw [serialize, Option.map_eq_some_iff] at h
      obtain ⟨ys, hys, rfl⟩ := h
      rw [Serialized.leaves, handedOver]
      exact helements hys
    | tuple xs =>
      rw [serialize, Option.map_eq_some_iff] at h
      obtain ⟨ys, hys, rfl⟩ := h
      rw [Serialized.leaves, handedOver]
      exact helements hys

theorem eraseElements_eq (xs : List Payload) : eraseElements xs = xs.map Payload.erase := by
  induction xs with
  | nil => rfl
  | cons x xs ih => rw [eraseElements, ih, List.map_cons]

theorem eraseMembers_eq (members : List (Text × Payload)) :
    eraseMembers members = members.map fun r => (r.1, r.2.erase) := by
  induction members with
  | nil => rfl
  | cons r members ih => rw [eraseMembers, ih, List.map_cons]

/-- Nothing depends on the contents of the MaskableData and bytes that are reached. -/
theorem serialize_erase (sp : Spooler) (levels : Nat) (path : List Step) (p : Payload) :
    serialize sp levels path p.erase = serialize sp levels path p := by
  induction levels generalizing path p with
  | zero => rfl
  | succ levels ih =>
    cases p with
    | bytes content => simp only [Payload.erase, serialize, List.length_replicate]
    | dict members =>
      simp only [Payload.erase, serialize, eraseMembers_eq, List.zipIdx_map, List.map_map]
      simp [Function.comp_def, ih]
    | list xs =>
      simp only [Payload.erase, serialize, eraseElements_eq, List.zipIdx_map, List.map_map]
      simp [Function.comp_def, ih]
    | tuple xs =>
      simp only [Payload.erase, serialize, eraseElements_eq, List.zipIdx_map, List.map_map]
      simp [Function.comp_def, ih]
    | _ => rfl

/-- The result has no secret in a string, no MaskableData and no bytes, and is the same whatever the
contents of those in the payload are. -/
def Guarded (sp : Spooler) (p : Payload) : Prop :=
  serializePayload sp p.erase = serializePayload sp p ∧
    ∀ out, (serializePayload sp p).1 = some out → AllSafe out.leaves

/-- A process whose disk takes everything. -/
def working : Spooler where
  eventId := some (codes "01HX")
  clock := fun _ => codes "20240501T100000000000"
  disk := fun _ => .written

end Logging
