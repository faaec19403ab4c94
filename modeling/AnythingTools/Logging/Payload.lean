import AnythingTools.Logging.Redaction

namespace Logging
set_option autoImplicit true

/-- What is logged. A MaskableData has its `to_masked_string`, unless that raises, and its content;
an object the results of `model_dump` and `to_dict`, where it offers them and they do not raise, and
of `repr`. -/
inductive Payload where
  | null
  | scalar (value : String)
  | str (s : Text)
  | bytes (content : List UInt8)
  | maskable (masked : Option Text) (content : Text)
  | dict (members : List (Text × Payload))
  | list (xs : List Payload)
  | tuple (xs : List Payload)
  | object (modelDump toDict : Option (Option Payload)) (repr : Option Text)

/-- What `_serialize_payload` makes of it. A pointer has the length of what is spooled and the name
of the file; what an object returns of itself is not looked at. -/
inductive Serialized where
  | null
  | scalar (value : String)
  | text (s : Text)
  | pointer (chars : Nat) (name : Text)
  | raw (v : Payload)
  | dict (members : List (Text × Serialized))
  | list (xs : List Serialized)
  | tuple (xs : List Serialized)

/-- From a value to a part of it. -/
inductive Step where
  | member (i : Nat)
  | element (i : Nat)
  | dumped
deriving DecidableEq

/-- The spool file is written, or `write_text` raises an `OSError`, or something else raises. -/
inductive DiskOutcome where
  | written
  | failed
  | raised
deriving DecidableEq

/-- The event id, and what the clock and the disk do when a part of the payload is spooled. -/
structure Spooler where
  eventId : Option Text
  clock : List Step → Text
  disk : List Step → DiskOutcome

def maxPayloadChars : Nat := 10000

def decimal (n : Nat) : Text := (Nat.toDigits 10 n).map Char.toNat

/-- What is left of a character in the name of a spool file. -/
def fileChar (c : Nat) : Nat :=
  if 65 ≤ c ∧ c ≤ 90 ∨ 97 ≤ c ∧ c ≤ 122 ∨ 48 ≤ c ∧ c ≤ 57 ∨ c = 45 then c else 95

/-- `safe_id`. -/
def fileName (sp : Spooler) (path : List Step) : Text :=
  match sp.eventId with
  | some (c :: cs) => (c :: cs).map fileChar
  | _ => (codes "noid_" ++ sp.clock path).map fileChar

def pointerText (chars : Nat) (name : Text) : Text :=
  codes "[SPOOLED: " ++ decimal chars ++ codes " chars -> artifacts/log_spool/" ++ name ++
    codes ".txt]"

def spoolFailedText (t : Text) : Text :=
  codes "[SPOOL_FAILED: " ++ decimal t.length ++ codes " chars, truncated to " ++
    decimal maxPayloadChars ++ codes ": " ++ t.take maxPayloadChars ++ codes "...[TRUNCATED: " ++
    decimal (t.length - maxPayloadChars) ++ codes " more chars]]"

def maskedBytesText (n : Nat) : Text :=
  codes "[MASKED: Binary Data | " ++ decimal n ++ codes " bytes]"

/-- The files that are written, in order, with their contents. -/
abbrev Writes := List (Text × Text)

/-- There is no result where an exception is raised. -/
def spoolLargePayload (sp : Spooler) (path : List Step) (t : Text) : Option Serialized × Writes :=
  match sp.disk path with
  | .written => (some (.pointer t.length (fileName sp path)), [(fileName sp path, t)])
  | .failed => (some (.text (spoolFailedText t)), [])
  | .raised => (none, [])

def redactAndHandleSize (sp : Spooler) (path : List Step) (s : Text) :
    Option Serialized × Writes :=
  if (redact s).length ≤ maxPayloadChars then (some (.text (redact s)), [])
  else spoolLargePayload sp path (redact s)

/-- What the object returns of itself. -/
def returned (modelDump toDict : Option (Option Payload)) : Option Payload :=
  match modelDump with
  | some (some v) => some v
  | _ =>
    match toDict with
    | some (some v) => some v
    | _ => none

/-- The results one after another, up to one that raises. -/
def inOrder : List (Option α × Writes) → Option (List α) × Writes
  | [] => (some [], [])
  | (none, ws) :: _ => (none, ws)
  | (some y, ws) :: rest => ((inOrder rest).1.map (y :: ·), ws ++ (inOrder rest).2)

/-- `_serialize_payload` of the part of a payload at the path, with the levels that are left. -/
def serialize (sp : Spooler) : Nat → List Step → Payload → Option Serialized × Writes
  | 0, _, _ => (some (.text (codes "[MAX_DEPTH_EXCEEDED]")), [])
  | levels + 1, path, p =>
    match p with
    | .null => (some .null, [])
    | .maskable masked _ => (some (.text (masked.getD (codes "[MASKED]"))), [])
    | .str s => redactAndHandleSize sp path s
    | .bytes content => (some (.text (maskedBytesText content.length)), [])
    | .scalar value => (some (.scalar value), [])
    | .object modelDump toDict repr =>
      match returned modelDump toDict with
      | some v => (some (.raw v), [])
      | none =>
        match repr with
        | some s => redactAndHandleSize sp path s
        | none => (some (.text (codes "<unserializable>")), [])
    | .dict members =>
      let rs := members.zipIdx.map fun q =>
        (q.1.1, serialize sp levels (path ++ [.member q.2]) q.1.2)
      (some (.dict (rs.map fun r => (r.1, r.2.1.getD (.text (codes "<unserializable>"))))),
        rs.flatMap fun r => r.2.2)
    | .list xs =>
      let r := inOrder (xs.zipIdx.map fun q => serialize sp levels (path ++ [.element q.2]) q.1)
      (r.1.map .list, r.2)
    | .tuple xs =>
      let r := inOrder (xs.zipIdx.map fun q => serialize sp levels (path ++ [.element q.2]) q.1)
      (r.1.map .tuple, r.2)

/-- Depths from 0 to 10. -/
def maxDepth : Nat := 10

def serializePayload (sp : Spooler) (p : Payload) : Option Serialized × Writes :=
  serialize sp (maxDepth + 1) [] p

/-- A leaf is a string, or a MaskableData or bytes, or something else. -/
inductive Leaf where
  | text (s : Text)
  | guarded
  | other

mutual

def Payload.leaves : Payload → List Leaf
  | .str s => [.text s]
  | .bytes _ => [.guarded]
  | .maskable _ _ => [.guarded]
  | .dict members => memberLeaves members
  | .list xs => elementLeaves xs
  | .tuple xs => elementLeaves xs
  | _ => [.other]

def elementLeaves : List Payload → List Leaf
  | [] => []
  | x :: xs => x.leaves ++ elementLeaves xs

def memberLeaves : List (Text × Payload) → List Leaf
  | [] => []
  | (_, v) :: members => v.leaves ++ memberLeaves members

end

mutual

def Serialized.leaves : Serialized → List Leaf
  | .text s => [.text s]
  | .pointer chars name => [.text (pointerText chars name)]
  | .raw v => v.leaves
  | .dict members => serializedMemberLeaves members
  | .list xs => serializedElementLeaves xs
  | .tuple xs => serializedElementLeaves xs
  | _ => [.other]

def serializedElementLeaves : List Serialized → List Leaf
  | [] => []
  | x :: xs => x.leaves ++ serializedElementLeaves xs

def serializedMemberLeaves : List (Text × Serialized) → List Leaf
  | [] => []
  | (_, v) :: members => v.leaves ++ serializedMemberLeaves members

end

mutual

/-- The payload without the contents of its MaskableData and bytes. -/
def Payload.erase : Payload → Payload
  | .bytes content => .bytes (List.replicate content.length 0)
  | .maskable masked _ => .maskable masked []
  | .dict members => .dict (eraseMembers members)
  | .list xs => .list (eraseElements xs)
  | .tuple xs => .tuple (eraseElements xs)
  | p => p

def eraseElements : List Payload → List Payload
  | [] => []
  | x :: xs => x.erase :: eraseElements xs

def eraseMembers : List (Text × Payload) → List (Text × Payload)
  | [] => []
  | (k, v) :: members => (k, v.erase) :: eraseMembers members

end

theorem decimal_no_delim (n : Nat) : ∀ c ∈ decimal n, isDelim c = false := by
  intro c hc
  obtain ⟨d, hd, rfl⟩ := List.mem_map.1 hc
  have hdigit := Nat.isDigit_of_mem_toDigits (by decide) (by decide) hd
  rw [Char.isDigit, Bool.and_eq_true, decide_eq_true_eq, decide_eq_true_eq] at hdigit
  have hle : d.toNat ≤ 57 := hdigit.2
  rw [isDelim, decide_eq_false_iff_not]
  omega

theorem fileName_no_delim (sp : Spooler) (path : List Step) :
    ∀ c ∈ fileName sp path, isDelim c = false := by
  have hchar (c : Nat) : isDelim (fileChar c) = false := by
    rw [isDelim, decide_eq_false_iff_not, fileChar]
    split <;> omega
  have hmap (t : Text) : ∀ c ∈ t.map fileChar, isDelim c = false := by
    intro c hc
    obtain ⟨x, -, rfl⟩ := List.mem_map.1 hc
    exact hchar x
  rw [fileName]
  split
  next => exact hmap _
  next => exact hmap _

theorem clean_pointerText (sp : Spooler) (path : List Step) (chars : Nat) :
    Clean (pointerText chars (fileName sp path)) := by
  have hstart : codes "[SPOOLED: " = codes "[SPOOLED" ++ 58 :: codes " " := by decide
  have hdir : ∀ c ∈ codes " chars -> artifacts/log_spool/", isDelim c = false := by decide
  have hext : ∀ c ∈ codes ".txt]", isDelim c = false := by decide
  have hblank : ∀ c ∈ codes " ", isDelim c = false := by decide
  have hbefore : ∀ c ∈ codes "[SPOOLED", isDelim c = false := by decide
  rw [pointerText, hstart]
  simp only [List.append_assoc, List.cons_append]
  refine clean_of_one_delim hbefore ?_ (by decide)
  simp only [List.forall_mem_append]
  exact ⟨hblank, decimal_no_delim chars, hdir, fileName_no_delim sp path, hext⟩

theorem clean_maskedBytesText (n : Nat) : Clean (maskedBytesText n) := by
  have hstart : codes "[MASKED: Binary Data | " =
      codes "[MASKED" ++ 58 :: codes " Binary Data | " := by decide
  have hdata : ∀ c ∈ codes " Binary Data | ", isDelim c = false := by decide
  have hunit : ∀ c ∈ codes " bytes]", isDelim c = false := by decide
  have hbefore : ∀ c ∈ codes "[MASKED", isDelim c = false := by decide
  rw [maskedBytesText, hstart]
  simp only [List.append_assoc, List.cons_append]
  refine clean_of_one_delim hbefore ?_ (by decide)
  simp only [List.forall_mem_append]
  exact ⟨hdata, decimal_no_delim n, hunit⟩

end Logging
