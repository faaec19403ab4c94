import AnythingTools.Json
import AnythingTools.Relational.Affinity

namespace Python
open Relational
set_option autoImplicit true

/-- The exceptions that leave the modelled functions. -/
inductive Error where
  | typeError
  | valueError
  | attributeError
  | overflow
  | unicodeEncode
  | programming
  | database
  | runtime
deriving DecidableEq, Repr

def hexChar (n : Nat) : Char := Nat.digitChar n

/-- One byte inside `b'...'`. -/
def byteRepr (quote : Char) (b : UInt8) : List Char :=
  let n := b.toNat
  if n = quote.toNat ∨ n = 92 then ['\\', Char.ofNat n]
  else if n = 9 then ['\\', 't']
  else if n = 10 then ['\\', 'n']
  else if n = 13 then ['\\', 'r']
  else if 32 ≤ n ∧ n < 127 then [Char.ofNat n]
  else ['\\', 'x', hexChar (n / 16), hexChar (n % 16)]

def bytesRepr (bs : List UInt8) : String :=
  let quote := if 39 ∈ bs ∧ 34 ∉ bs then '"' else '\''
  String.ofList (['b', quote] ++ bs.flatMap (byteRepr quote) ++ [quote])

/-- `str(v)`. -/
def str : Value → String
  | .null => "None"
  | .int n => toString n
  | .real r => r
  | .text s => s
  | .blob bs => bytesRepr bs

def truthy : Value → Bool
  | .null => false
  | .int n => n ≠ 0
  | .real r => r ≠ "0.0" && r ≠ "-0.0"
  | .text s => s ≠ ""
  | .blob bs => bs ≠ []

/-- `str(v or "")`. -/
def strOr (v : Value) : String := if truthy v then str v else ""

@[simp] theorem str_text (s : String) : str (.text s) = s := rfl

@[simp] theorem strOr_text (s : String) : strOr (.text s) = s := by
  by_cases h : s = ""
  · subst s
    rfl
  · have ht : truthy (.text s) = true := decide_eq_true h
    rw [strOr, if_pos ht, str_text]

/-- The text with the given code points, unless one of them is a surrogate. -/
def encode (us : List Nat) : Except Error String :=
  if us.all fun u => decide (u.isValidChar) then .ok (String.ofList (us.map Char.ofNat))
  else .error .unicodeEncode

/-- A decoded value as a parameter of a statement. -/
def bind : Json → Except Error Value
  | .null => .ok .null
  | .bool b => .ok (.int (if b then 1 else 0))
  | .int n => if -2 ^ 63 ≤ n ∧ n < 2 ^ 63 then .ok (.int n) else .error .overflow
  | .float r => .ok (if r = "nan" then .null else .real r)
  | .str us => (encode us).map .text
  | .list _ => .error .programming
  | .dict _ => .error .programming

theorem encode_eq (h : encode us = .ok s) : us = s.toList.map Char.toNat := by
  rw [encode] at h
  split at h
  case isFalse => cases h
  case isTrue ha =>
    cases h
    rw [List.all_eq_true] at ha
    rw [String.toList_ofList, List.map_map]
    conv_lhs => rw [← List.map_id us]
    apply List.map_congr_left
    intro u hu
    have hv : u.isValidChar := by simpa only [decide_eq_true_eq] using ha u hu
    rw [Function.comp_apply, Char.ofNat, dif_pos hv]
    rfl

/-- Only a string with its characters is bound as a text. -/
theorem bind_text (h : bind x = .ok (.text s)) : x = Json.text s := by
  cases x with
  | str us =>
    rw [bind] at h
    cases he : encode us with
    | error e =>
      rw [he] at h
      cases h
    | ok s' =>
      rw [he] at h
      cases h
      rw [Json.text, ← encode_eq he]
  | null => cases h
  | bool b => cases h
  | int n =>
    rw [bind] at h
    split at h <;> cases h
  | float r =>
    rw [bind] at h
    split at h <;> cases h
  | list xs => cases h
  | dict ms => cases h

theorem mapM_eq_map {f : α → Except ε β} {g : α → β} {l : List α}
    (h : ∀ a ∈ l, f a = .ok (g a)) : l.mapM f = .ok (l.map g) := by
  induction l with
  | nil => rfl
  | cons a l ih =>
    rw [List.mapM_cons, h a List.mem_cons_self, ih fun b hb => h b (List.mem_cons_of_mem a hb)]
    rfl

theorem mapM_cons_ok {f : α → Except ε β} {xs : List α} {ys : List β} (h : (x :: xs).mapM f = .ok ys) :
    ∃ y ys', f x = .ok y ∧ xs.mapM f = .ok ys' ∧ ys = y :: ys' := by
  rw [List.mapM_cons] at h
  cases hx : f x with
  | error e =>
    rw [hx] at h
    cases h
  | ok y =>
    cases hxs : xs.mapM f with
    | error e =>
      rw [hx, hxs] at h
      cases h
    | ok ys' =>
      rw [hx, hxs] at h
      cases h
      exact ⟨y, ys', rfl, rfl, rfl⟩

theorem length_mapM_ok {f : α → Except ε β} {xs : List α} {ys : List β} (h : xs.mapM f = .ok ys) :
    ys.length = xs.length := by
  induction xs generalizing ys with
  | nil =>
    cases h
    rfl
  | cons x xs ih =>
    obtain ⟨y, ys', hx, hxs, he⟩ := mapM_cons_ok h
    rw [he, List.length_cons, List.length_cons, ih hxs]

theorem mem_mapM_ok {f : α → Except ε β} {xs : List α} {ys : List β} (h : xs.mapM f = .ok ys) :
    y ∈ ys ↔ ∃ x ∈ xs, f x = .ok y := by
  induction xs generalizing ys with
  | nil =>
    have he : ys = [] := by
      cases h
      rfl
    subst he
    simp only [List.not_mem_nil, false_and, exists_false]
  | cons x xs ih =>
    obtain ⟨y', ys', hx, hxs, he⟩ := mapM_cons_ok h
    subst he
    simp only [List.mem_cons, ih hxs, exists_eq_or_imp, hx, Except.ok.injEq, eq_comm (a := y)]

theorem mapM_ok_total {f : α → Except ε β} {xs : List α} {ys : List β} (h : xs.mapM f = .ok ys)
    (hx : x ∈ xs) : ∃ y, f x = .ok y := by
  induction xs generalizing ys with
  | nil => cases hx
  | cons x' xs ih =>
    obtain ⟨y, ys', hx', hxs, he⟩ := mapM_cons_ok h
    rcases List.mem_cons.1 hx with he' | hm
    · exact ⟨y, he' ▸ hx'⟩
    · exact ih hxs hm

def slices (n : Nat) : Nat → List α → List (List α)
  | 0, _ => []
  | _ + 1, [] => []
  | f + 1, a :: l => (a :: l).take n :: slices n f ((a :: l).drop n)

/-- `l[i:i+n] for i in range(0, len(l), n)`. -/
def chunks (n : Nat) (l : List α) : List (List α) := slices n l.length l

theorem flatten_slices (hn : 0 < n) (h : l.length ≤ f) : (slices n f l).flatten = l := by
  induction f generalizing l with
  | zero => exact (List.length_eq_zero_iff.1 (Nat.le_zero.1 h)).symm
  | succ f ih =>
    cases l with
    | nil => rfl
    | cons a l =>
      have hd : ((a :: l).drop n).length ≤ f := by
        rw [List.length_drop]
        simp only [List.length_cons] at h ⊢
        omega
      rw [slices, List.flatten_cons, ih hd, List.take_append_drop]

theorem flatten_chunks (hn : 0 < n) (l : List α) : (chunks n l).flatten = l :=
  flatten_slices hn (Nat.le_refl _)

theorem mem_chunks (hn : 0 < n) : (∃ c ∈ chunks n l, a ∈ c) ↔ a ∈ l := by
  rw [← List.mem_flatten, flatten_chunks hn]

end Python
