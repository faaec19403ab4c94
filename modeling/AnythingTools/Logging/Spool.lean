import AnythingTools.Logging.Guarded

namespace Logging
set_option autoImplicit true

/-- One step into a payload; what an object returns of itself is inside it. -/
def Payload.part : Payload → Step → Option Payload
  | .dict members, .member i => members[i]?.map Prod.snd
  | .list xs, .element i => xs[i]?
  | .tuple xs, .element i => xs[i]?
  | .object modelDump toDict _, .dumped => returned modelDump toDict
  | _, _ => none

def Payload.locate (p : Payload) : List Step → Option Payload
  | [] => some p
  | step :: path =>
    match p.part step with
    | some q => q.locate path
    | none => none

def Serialized.part : Serialized → Step → Option Serialized
  | .dict members, .member i => members[i]?.map Prod.snd
  | .list xs, .element i => xs[i]?
  | .tuple xs, .element i => xs[i]?
  | _, _ => none

def Serialized.locate (out : Serialized) : List Step → Option Serialized
  | [] => some out
  | step :: path =>
    match out.part step with
    | some q => q.locate path
    | none => none

/-- A string, or the text of an unknown object. -/
def Payload.leafText : Payload → Option Text
  | .str s => some s
  | .object modelDump toDict repr => objectText modelDump toDict repr
  | _ => none

/-- There is a leaf at the path whose redacted form is too long to be stored. -/
def Oversized (p : Payload) (path : List Step) (s : Text) : Prop :=
  ∃ q, p.locate path = some q ∧ q.leafText = some s ∧ oversized s = true

/-- What the file holds in the end. -/
def contentOf (ws : Writes) (name : Text) : Option Text :=
  (ws.reverse.find? fun w => decide (w.1 = name)).map Prod.snd

/-- Every oversized leaf is replaced by a pointer to a file with its redacted text. -/
def Recoverable (sp : Spooler) (p : Payload) : Prop :=
  ∃ out, (serializePayload sp p).1 = some out ∧ ∀ path s, Oversized p path s →
    ∃ name, out.locate path = some (.pointer (redact s).length name) ∧
      contentOf (serializePayload sp p).2 name = some (redact s)

/-- The recursion gets to the path. -/
def Reached (levels : Nat) (path : List Step) : Prop := path.length < levels ∧ .dumped ∉ path

theorem reached_cons (levels : Nat) (step : Step) (path : List Step) :
    Reached (levels + 1) (step :: path) ↔ step ≠ .dumped ∧ Reached levels path := by
  simp only [Reached, List.length_cons, Nat.add_lt_add_iff_right, List.mem_cons, not_or]
  rw [and_left_comm, ne_comm]

section
variable {sp : Spooler} (hdisk : ∀ path, sp.disk path = .written)
include hdisk

theorem raises_of_written (levels : Nat) (path : List Step) (p : Payload) :
    raises sp levels path p = false := by
  induction levels generalizing path p with
  | zero => rfl
  | succ levels ih =>
    cases p with
    | _ => simp [raises, hdisk, ih]

theorem exists_serialize (levels : Nat) (path : List Step) (p : Payload) :
    ∃ out, (serialize sp levels path p).1 = some out := by
  rw [← Option.isSome_iff_exists, Option.isSome_iff_ne_none, Ne, serialize_none_iff,
    raises_of_written hdisk]
  exact Bool.false_ne_true

theorem redactAndHandleSize_eq (h : oversized s = true) (path : List Step) :
    redactAndHandleSize sp path s = (some (.pointer (redact s).length (fileName sp path)),
      [(fileName sp path, redact s)]) := by
  rw [redactAndHandleSize, if_neg (Nat.not_le.2 (of_decide_eq_true h)), spoolLargePayload, hdisk]

theorem redactAndHandleSize_writes (path : List Step) (s : Text) :
    (redactAndHandleSize sp path s).2 =
      if oversized s then [(fileName sp path, redact s)] else [] := by
  split
  next h => rw [redactAndHandleSize_eq hdisk h]
  next h =>
    rw [oversized, decide_eq_true_eq, Nat.not_lt] at h
    rw [redactAndHandleSize, if_pos h]

end

/-- The parts in order keep their places. -/
theorem inOrder_getElem {f : α × Nat → Option Serialized × Writes} {xs : List α}
    (h : (inOrder (xs.zipIdx.map f)).1 = some ys) (hx : xs[i]? = some x) :
    ∃ y, ys[i]? = some y ∧ (f (x, i)).1 = some y := by
  have hys := congrArg (·[i]?) (inOrder_some h)
  simp only [List.getElem?_map, List.getElem?_zipIdx, hx, Option.map_some, Nat.zero_add] at hys
  cases hy : ys[i]? with
  | none =>
    rw [hy] at hys
    cases hys
  | some y =>
    rw [hy, Option.map_some, Option.some.injEq] at hys
    exact ⟨y, rfl, hys⟩

theorem inOrder_writes {rs : List (Option α × Writes)} (h : ∀ r ∈ rs, r.1 ≠ none) :
    (inOrder rs).2 = rs.flatMap Prod.snd := by
  induction rs with
  | nil => rfl
  | cons r rs ih =>
    obtain ⟨y, ws⟩ := r
    rw [List.forall_mem_cons] at h
    cases y with
    | none => exact absurd rfl h.1
    | some y => rw [inOrder, ih h.2, List.flatMap_cons]

/-- A leaf is a string, or the representation of an object that returns nothing of itself. -/
theorem leafText_cases (h : Payload.leafText p = some s) :
    p = .str s ∨ ∃ modelDump toDict, p = .object modelDump toDict (some s) ∧
      returned modelDump toDict = none := by
  cases p with
  | str t =>
    cases h
    exact .inl rfl
  | object modelDump toDict repr =>
    rw [Payload.leafText, objectText] at h
    cases hr : returned modelDump toDict with
    | some v =>
      rw [hr] at h
      cases h
    | none =>
      rw [hr] at h
      cases h
      exact .inr ⟨modelDump, toDict, rfl, hr⟩
  | _ => cases h

theorem serialize_leaf (sp : Spooler) (levels : Nat) (path : List Step)
    (h : Payload.leafText p = some s) :
    serialize sp (levels + 1) path p = redactAndHandleSize sp path s := by
  rcases leafText_cases h with rfl | ⟨modelDump, toDict, rfl, hr⟩
  · rw [serialize]
  · rw [serialize, hr]

theorem oversized_cons :
    Oversized p (step :: path) s ↔ ∃ q, p.part step = some q ∧ Oversized q path s := by
  rw [Oversized, Payload.locate]
  cases p.part step with
  | none => simp
  | some q => simp [Oversized]

theorem oversized_nil : Oversized p [] s ↔ p.leafText = some s ∧ oversized s = true := by
  simp [Oversized, Payload.locate]

/-- What becomes of a part: an object's own account is handed back, the others are serialized. -/
theorem serialize_part {sp : Spooler} (hdisk : ∀ path, sp.disk path = .written)
    (h : (serialize sp (levels + 1) path p).1 = some out) (hq : p.part step = some q) :
    (step = .dumped ∧ ∃ v, out = .raw v) ∨
      step ≠ .dumped ∧ ∃ out', out.part step = some out' ∧
        (serialize sp levels (path ++ [step]) q).1 = some out' := by
  rw [Payload.part.eq_def] at hq
  split at hq
  next members i =>
    cases h
    obtain ⟨r, hr, rfl⟩ := Option.map_eq_some_iff.1 hq
    obtain ⟨out', hout'⟩ := exists_serialize hdisk levels (path ++ [.member i]) r.2
    refine .inr ⟨Step.noConfusion, out', ?_, hout'⟩
    simp [Serialized.part, List.getElem?_zipIdx, hr, hout']
  next xs i =>
    rw [serialize, Option.map_eq_some_iff] at h
    obtain ⟨ys, hys, rfl⟩ := h
    exact .inr ⟨Step.noConfusion, inOrder_getElem hys hq⟩
  next xs i =>
    rw [serialize, Option.map_eq_some_iff] at h
    obtain ⟨ys, hys, rfl⟩ := h
    exact .inr ⟨Step.noConfusion, inOrder_getElem hys hq⟩
  next modelDump toDict repr =>
    simp only [serialize, hq] at h
    cases h
    exact .inl ⟨rfl, q, rfl⟩
  next => cases hq

/-- An oversized leaf becomes a pointer where the recursion gets to it, and nowhere else. -/
theorem locate_serialize {sp : Spooler} (hdisk : ∀ path, sp.disk path = .written)
    (h : (serialize sp levels path p).1 = some out) (ho : Oversized p rest s) :
    (Reached levels rest →
      out.locate rest = some (.pointer (redact s).length (fileName sp (path ++ rest)))) ∧
    (¬ Reached levels rest → ∀ chars name, out.locate rest ≠ some (.pointer chars name)) := by
  induction levels generalizing path p out rest with
  | zero =>
    cases h
    refine ⟨fun hr => absurd hr.1 (Nat.not_lt_zero _), fun _ chars name => ?_⟩
    cases rest with
    | nil => simp [Serialized.locate]
    | cons step rest => simp [Serialized.locate, Serialized.part]
  | succ levels ih =>
    cases rest with
    | nil =>
      obtain ⟨hs, hlong⟩ := oversized_nil.1 ho
      rw [serialize_leaf sp levels path hs, redactAndHandleSize_eq hdisk hlong] at h
      cases h
      rw [List.append_nil]
      exact ⟨fun _ => rfl, fun hr => absurd ⟨Nat.succ_pos levels, List.not_mem_nil⟩ hr⟩
    | cons step rest =>
      obtain ⟨q, hq, ho⟩ := oversized_cons.1 ho
      rw [reached_cons, Serialized.locate]
      rcases serialize_part hdisk h hq with ⟨rfl, v, rfl⟩ | ⟨hstep, out', hpart, hout'⟩
      · exact ⟨fun hr => absurd rfl hr.1, fun _ chars name => nofun⟩
      · have hrest := ih hout' ho
        rw [List.append_assoc, List.singleton_append] at hrest
        rw [hpart]
        exact ⟨fun hr => hrest.1 hr.2, fun hr => hrest.2 fun hr' => hr ⟨hstep, hr'⟩⟩

theorem mem_elements_iff {xs : List Payload} (P : Text → Prop) (Q : Step → Payload → Prop)
    (hs : Payload.leafText p = none) (he : ∀ i, p.part (.element i) = xs[i]?)
    (hm : ∀ i, p.part (.member i) = none) (hd : p.part .dumped = none) :
    (∃ i q, xs[i]? = some q ∧ Q (.element i) q) ↔
      (∃ s, p.leafText = some s ∧ P s) ∨ ∃ step q, step ≠ .dumped ∧ p.part step = some q ∧
        Q step q := by
  apply Iff.intro
  · rintro ⟨i, q, hq, hw⟩
    exact .inr ⟨.element i, q, Step.noConfusion, (he i).trans hq, hw⟩
  · rintro (⟨s, hs', -⟩ | ⟨step, q, -, hq, hw⟩)
    · rw [hs] at hs'
      cases hs'
    · cases step with
      | member i =>
        rw [hm] at hq
        cases hq
      | element i => exact ⟨i, q, (he i).symm.trans hq, hw⟩
      | dumped =>
        rw [hd] at hq
        cases hq

/-- The files of a payload: its own, or those of its parts. -/
theorem mem_writes_succ {sp : Spooler} (hdisk : ∀ path, sp.disk path = .written) {w : Text × Text} :
    w ∈ (serialize sp (levels + 1) path p).2 ↔
      (∃ s, p.leafText = some s ∧ oversized s = true ∧ w = (fileName sp path, redact s)) ∨
        ∃ step q, step ≠ .dumped ∧ p.part step = some q ∧
          w ∈ (serialize sp levels (path ++ [step]) q).2 := by
  have helements (xs : List Payload) :
      w ∈ (inOrder (xs.zipIdx.map fun q =>
          serialize sp levels (path ++ [.element q.2]) q.1)).2 ↔
        ∃ i q, xs[i]? = some q ∧ w ∈ (serialize sp levels (path ++ [.element i]) q).2 := by
    rw [inOrder_writes, List.mem_flatMap]
    · apply Iff.intro
      · rintro ⟨r, hr, hw⟩
        obtain ⟨q, hq, rfl⟩ := List.mem_map.1 hr
        exact ⟨q.2, q.1, List.mem_zipIdx_iff_getElem?.1 hq, hw⟩
      · rintro ⟨i, q, hq, hw⟩
        have hmem : (q, i) ∈ xs.zipIdx := List.mem_zipIdx_iff_getElem?.2 hq
        exact ⟨_, List.mem_map_of_mem hmem, hw⟩
    · intro r hr
      obtain ⟨q, -, rfl⟩ := List.mem_map.1 hr
      obtain ⟨out, hout⟩ := exists_serialize hdisk levels (path ++ [.element q.2]) q.1
      rw [hout]
      exact Option.some_ne_none out
  cases p with
  | str s =>
    rw [serialize, redactAndHandleSize_writes hdisk]
    simp [Payload.leafText, Payload.part]
  | object modelDump toDict repr =>
    have hpart (step : Step) (hstep : step ≠ .dumped) :
        (Payload.object modelDump toDict repr).part step = none := by
      cases step with
      | dumped => exact absurd rfl hstep
      | _ => rfl
    simp only [serialize, Payload.leafText, objectText]
    cases returned modelDump toDict with
    | some v => simp +contextual [hpart]
    | none =>
      cases repr with
      | none => simp +contextual [hpart]
      | some s =>
        simp only [redactAndHandleSize_writes hdisk]
        simp +contextual [hpart]
  | dict members =>
    simp only [serialize, List.mem_flatMap, List.mem_map]
    apply Iff.intro
    · rintro ⟨r, ⟨q, hq, rfl⟩, hw⟩
      refine .inr ⟨.member q.2, q.1.2, Step.noConfusion, ?_, hw⟩
      rw [Payload.part, List.mem_zipIdx_iff_getElem?.1 hq, Option.map_some]
    · rintro (⟨s, hs, -⟩ | ⟨step, q, -, hq, hw⟩)
      · cases hs
      · cases step with
        | member i =>
          obtain ⟨r, hr, rfl⟩ := Option.map_eq_some_iff.1 hq
          exact ⟨_, ⟨(r, i), List.mem_zipIdx_iff_getElem?.2 hr, rfl⟩, hw⟩
        | _ => cases hq
  | list xs =>
    rw [serialize, helements]
    exact mem_elements_iff (p := .list xs)
      (fun s => oversized s = true ∧ w = (fileName sp path, redact s))
      (fun step q => w ∈ (serialize sp levels (path ++ [step]) q).2)
      rfl (fun _ => rfl) (fun _ => rfl) rfl
  | tuple xs =>
    rw [serialize, helements]
    exact mem_elements_iff (p := .tuple xs)
      (fun s => oversized s = true ∧ w = (fileName sp path, redact s))
      (fun step q => w ∈ (serialize sp levels (path ++ [step]) q).2)
      rfl (fun _ => rfl) (fun _ => rfl) rfl
  | _ => simp [serialize, Payload.leafText, Payload.part]

theorem mem_writes {sp : Spooler} (hdisk : ∀ path, sp.disk path = .written) {w : Text × Text} :
    w ∈ (serialize sp levels path p).2 ↔
      ∃ rest s, Oversized p rest s ∧ Reached levels rest ∧
        w = (fileName sp (path ++ rest), redact s) := by
  induction levels generalizing path p with
  | zero => simp [serialize, Reached]
  | succ levels ih =>
    rw [mem_writes_succ hdisk]
    apply Iff.intro
    · rintro (⟨s, hs, hlong, rfl⟩ | ⟨step, q, hstep, hq, hw⟩)
      · refine ⟨[], s, oversized_nil.2 ⟨hs, hlong⟩, ⟨Nat.succ_pos levels, List.not_mem_nil⟩, ?_⟩
        rw [List.append_nil]
      · obtain ⟨rest, s, ho, hr, rfl⟩ := ih.1 hw
        refine ⟨step :: rest, s, oversized_cons.2 ⟨q, hq, ho⟩,
          (reached_cons _ _ _).2 ⟨hstep, hr⟩, ?_⟩
        rw [List.append_assoc, List.singleton_append]
    · rintro ⟨rest, s, ho, hr, rfl⟩
      cases rest with
      | nil =>
        obtain ⟨hs, hlong⟩ := oversized_nil.1 ho
        exact .inl ⟨s, hs, hlong, by rw [List.append_nil]⟩
      | cons step rest =>
        obtain ⟨q, hq, ho⟩ := oversized_cons.1 ho
        obtain ⟨hstep, hr⟩ := (reached_cons _ _ _).1 hr
        refine .inr ⟨step, q, hstep, hq, ih.2 ⟨rest, s, ho, hr, ?_⟩⟩
        rw [List.append_assoc, List.singleton_append]

theorem mem_of_contentOf {ws : Writes} (h : contentOf ws name = some t) : (name, t) ∈ ws := by
  rw [contentOf, Option.map_eq_some_iff] at h
  obtain ⟨w, hw, rfl⟩ := h
  have hname := List.find?_some hw
  rw [← of_decide_eq_true hname]
  exact List.mem_reverse.1 (List.mem_of_find?_eq_some hw)

theorem exists_contentOf {ws : Writes} (h : (name, t) ∈ ws) :
    ∃ t', contentOf ws name = some t' := by
  have hsome : (ws.reverse.find? fun w => decide (w.1 = name)).isSome = true :=
    List.find?_isSome.2 ⟨(name, t), List.mem_reverse.2 h, decide_eq_true rfl⟩
  obtain ⟨w, hw⟩ := Option.isSome_iff_exists.1 hsome
  exact ⟨w.2, by rw [contentOf, hw, Option.map_some]⟩

/-- The pointer of an oversized leaf leads to the file of its path. -/
theorem contentOf_of_recoverable {sp : Spooler} (hdisk : ∀ path, sp.disk path = .written)
    (hr : Recoverable sp p) (ho : Oversized p path s) :
    Reached (maxDepth + 1) path ∧
      contentOf (serializePayload sp p).2 (fileName sp path) = some (redact s) := by
  obtain ⟨out, hout, hall⟩ := hr
  obtain ⟨name, hname, hcontent⟩ := hall path s ho
  obtain ⟨hreached, hnot⟩ := locate_serialize hdisk hout ho
  by_cases h : Reached (maxDepth + 1) path
  · rw [hreached h, Option.some.injEq, Serialized.pointer.injEq] at hname
    rw [← hname.2] at hcontent
    exact ⟨h, hcontent⟩
  · exact absurd hname (hnot h _ name)

/-- Where the disk takes everything, each oversized leaf can be recovered exactly when none is
deeper than the recursion goes or inside what an object returns of itself, and those that go to one
file have the same redacted text. -/
theorem recoverable_iff {sp : Spooler} (hdisk : ∀ path, sp.disk path = .written) (p : Payload) :
    Recoverable sp p ↔
      (∀ path s, Oversized p path s → path.length ≤ maxDepth ∧ .dumped ∉ path) ∧
        ∀ path s path' s', Oversized p path s → Oversized p path' s' →
          fileName sp path = fileName sp path' → redact s = redact s' := by
  apply Iff.intro
  · intro hr
    constructor
    · intro path s ho
      obtain ⟨hlen, hdumped⟩ := (contentOf_of_recoverable hdisk hr ho).1
      exact ⟨Nat.lt_succ_iff.1 hlen, hdumped⟩
    · intro path s path' s' ho ho' hname
      have hs := (contentOf_of_recoverable hdisk hr ho).2
      rw [hname, (contentOf_of_recoverable hdisk hr ho').2, Option.some.injEq] at hs
      exact hs.symm
  · rintro ⟨hreach, hsame⟩
    obtain ⟨out, hout⟩ := exists_serialize hdisk (maxDepth + 1) [] p
    refine ⟨out, hout, ?_⟩
    intro path s ho
    have hr : Reached (maxDepth + 1) path :=
      ⟨Nat.lt_succ_iff.2 (hreach path s ho).1, (hreach path s ho).2⟩
    refine ⟨fileName sp path, (locate_serialize hdisk hout ho).1 hr, ?_⟩
    have hwritten : (fileName sp path, redact s) ∈ (serializePayload sp p).2 :=
      (mem_writes hdisk).2 ⟨path, s, ho, hr, rfl⟩
    -- The last of the writes to the file decides.
    obtain ⟨t, ht⟩ := exists_contentOf hwritten
    obtain ⟨path', s', ho', -, heq⟩ := (mem_writes hdisk).1 (mem_of_contentOf ht)
    rw [Prod.mk.injEq, List.nil_append] at heq
    rw [ht, heq.2, hsame path s path' s' ho ho' heq.1]

/-- A text of one letter. -/
def repeated (c : Nat) : Text := List.replicate (maxPayloadChars + 1) c

theorem redact_repeated (h : isDelim c = false) : redact (repeated c) = repeated c :=
  redact_eq_self fun _ hx => List.eq_of_mem_replicate hx ▸ h

theorem oversized_repeated (h : isDelim c = false) : oversized (repeated c) = true := by
  rw [oversized, redact_repeated h, repeated, List.length_replicate]
  exact decide_eq_true (Nat.lt_succ_self _)

/-- One long string can be recovered. -/
theorem one_recoverable : Recoverable working (.str (repeated 120)) := by
  have honly (path : List Step) (s : Text) (ho : Oversized (.str (repeated 120)) path s) :
      path = [] ∧ s = repeated 120 := by
    cases path with
    | nil =>
      have hs := (oversized_nil.1 ho).1
      rw [Payload.leafText, Option.some.injEq] at hs
      exact ⟨rfl, hs.symm⟩
    | cons step path =>
      obtain ⟨q, hq, -⟩ := oversized_cons.1 ho
      cases hq
  refine (recoverable_iff (fun _ => rfl) _).2 ⟨?_, ?_⟩
  · intro path s ho
    rw [(honly path s ho).1]
    exact ⟨Nat.zero_le _, List.not_mem_nil⟩
  · intro path s path' s' ho ho' _
    rw [(honly path s ho).2, (honly path' s' ho').2]

/-- Of two long strings in one payload, the second overwrites the first. -/
theorem second_overwrites_first :
    ¬ Recoverable working
      (.dict [(codes "a", .str (repeated 120)), (codes "b", .str (repeated 121))]) := by
  intro hr
  have hfirst : Oversized
      (.dict [(codes "a", .str (repeated 120)), (codes "b", .str (repeated 121))])
      [.member 0] (repeated 120) := ⟨_, rfl, rfl, oversized_repeated rfl⟩
  have hsecond : Oversized
      (.dict [(codes "a", .str (repeated 120)), (codes "b", .str (repeated 121))])
      [.member 1] (repeated 121) := ⟨_, rfl, rfl, oversized_repeated rfl⟩
  have hname : fileName working [.member 0] = fileName working [.member 1] := by decide
  have hone := (contentOf_of_recoverable (fun _ => rfl) hr hfirst).2
  have htwo := (contentOf_of_recoverable (fun _ => rfl) hr hsecond).2
  rw [hname, htwo, redact_repeated rfl, redact_repeated rfl, Option.some.injEq] at hone
  have hhead := congrArg List.head? hone
  rw [repeated, repeated, List.replicate_succ, List.replicate_succ] at hhead
  cases hhead

end Logging
