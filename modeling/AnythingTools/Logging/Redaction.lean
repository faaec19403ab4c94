import Mathlib.Data.List.Infix
import Mathlib.Data.List.TakeWhile

namespace Logging
set_option autoImplicit true

/-- A Python string, as its code points. -/
abbrev Text := List Nat

def codes (s : String) : Text := s.toList.map Char.toNat

/-- What `\s` matches. -/
def isSpace (c : Nat) : Bool :=
  decide (9 ≤ c ∧ c ≤ 13 ∨ 28 ≤ c ∧ c ≤ 32 ∨ c = 0x85 ∨ c = 0xA0 ∨ c = 0x1680 ∨
    0x2000 ≤ c ∧ c ≤ 0x200A ∨ c = 0x2028 ∨ c = 0x2029 ∨ c = 0x202F ∨ c = 0x205F ∨ c = 0x3000)

/-- What `[=:]` matches. -/
def isDelim (c : Nat) : Bool := decide (c = 58 ∨ c = 61)

/-- The letter of the pattern that matches the character where case is ignored: four characters
outside ASCII match one. -/
def fold (c : Nat) : Nat :=
  if 65 ≤ c ∧ c ≤ 90 then c + 32
  else if c = 0x130 ∨ c = 0x131 then 105
  else if c = 0x17F then 115
  else if c = 0x212A then 107
  else c

/-- The names that the pattern spells. -/
def keys : List Text :=
  ["api_key", "api-key", "apikey", "secret", "password", "passwd", "token", "credential", "auth",
    "private_key", "private-key", "privatekey"].map codes

/-- A match with the name at the front of the text: its first group, and what follows that, which
the value starts. -/
def peekKey (t key : Text) : Option (Text × Text) :=
  if (t.take key.length).map fold = key then
    match (t.drop key.length).dropWhile isSpace with
    | [] => none
    | d :: rest =>
      if isDelim d = true ∧ rest.dropWhile isSpace ≠ [] then
        some (t.take key.length ++ (t.drop key.length).takeWhile isSpace ++
          d :: rest.takeWhile isSpace, rest.dropWhile isSpace)
      else none
  else none

/-- A match of `_REDACT_PEEK_PATTERN` at the front of the text. -/
def peek (t : Text) : Option (Text × Text) := keys.findSome? (peekKey t)

def redacted : Text := codes "[REDACTED]"

/-- The text is a name, a delimiter and blanks around that. -/
def IsHead (head : Text) : Prop :=
  ∃ key before d after, head = (key ++ before) ++ d :: after ∧ key.map fold ∈ keys ∧
    (∀ c ∈ before, isSpace c = true) ∧ isDelim d = true ∧ ∀ c ∈ after, isSpace c = true

/-- The text starts with a character that is not blank. -/
def StartsWord (t : Text) : Prop := ∃ c rest, t = c :: rest ∧ isSpace c = false

theorem startsWord_dropWhile (h : (t : Text).dropWhile isSpace ≠ []) :
    StartsWord (t.dropWhile isSpace) := by
  cases hd : t.dropWhile isSpace with
  | nil => exact absurd hd h
  | cons c rest =>
    have hhead := List.head?_dropWhile_not isSpace t
    rw [hd] at hhead
    exact ⟨c, rest, rfl, by simpa using hhead⟩

theorem peek_some (h : peek t = some (head, v)) : t = head ++ v ∧ IsHead head ∧ StartsWord v := by
  rw [peek, List.findSome?_eq_some_iff] at h
  obtain ⟨before, key, after, hkeys, h, -⟩ := h
  have hkey : key ∈ keys := by
    rw [hkeys]
    exact List.mem_append_right _ List.mem_cons_self
  rw [peekKey] at h
  split at h
  next hfold =>
    split at h
    next => cases h
    next d rest hrest =>
      split at h
      next hd =>
        cases h
        have hblank (s : Text) : ∀ c ∈ s.takeWhile isSpace, isSpace c = true :=
          fun c hc => List.mem_takeWhile_imp hc
        refine ⟨?_, ⟨_, _, d, _, rfl, by rw [hfold]; exact hkey, hblank _, hd.1, hblank _⟩,
          startsWord_dropWhile hd.2⟩
        rw [List.append_assoc, List.cons_append, List.takeWhile_append_dropWhile,
          List.append_assoc, ← hrest, List.takeWhile_append_dropWhile, List.take_append_drop]
      next => cases h
  next => cases h

theorem isKey_spec (c : Nat) (h : 97 ≤ fold c ∧ fold c ≤ 122 ∨ fold c = 95 ∨ fold c = 45) :
    isSpace c = false ∧ isDelim c = false ∧ c ≠ 91 := by
  simp only [isSpace, isDelim, decide_eq_false_iff_not]
  rw [fold] at h
  split_ifs at h
  · omega
  · omega
  · omega
  · omega
  · omega

/-- A character of a name is no blank, no delimiter and no bracket. -/
theorem of_mem_key (h : (key : Text).map fold ∈ keys) (hc : c ∈ key) :
    isSpace c = false ∧ isDelim c = false ∧ c ≠ 91 := by
  have hletters : ∀ key ∈ keys, ∀ x ∈ key, 97 ≤ x ∧ x ≤ 122 ∨ x = 95 ∨ x = 45 := by decide
  exact isKey_spec c (hletters _ h _ (List.mem_map_of_mem hc))

theorem not_space_of_delim (h : isDelim c = true) : isSpace c = false := by
  simp only [isDelim, decide_eq_true_eq] at h
  simp only [isSpace, decide_eq_false_iff_not]
  omega

/-- The pattern matches wherever its parts are. -/
theorem peek_of_head (hh : IsHead head) (hv : StartsWord v) : peek (head ++ v) ≠ none := by
  obtain ⟨key, before, d, after, rfl, hkey, hbefore, hd, hafter⟩ := hh
  obtain ⟨c, rest, rfl, hc⟩ := hv
  have htake : ((key ++ before) ++ d :: after ++ c :: rest).take (key.map fold).length = key := by
    rw [List.append_assoc, List.append_assoc, List.length_map, List.take_left]
  have hdrop : ((key ++ before) ++ d :: after ++ c :: rest).drop (key.map fold).length =
      before ++ d :: (after ++ c :: rest) := by
    rw [List.append_assoc, List.append_assoc, List.length_map, List.drop_left, List.cons_append]
  have hbefore' : (before ++ d :: (after ++ c :: rest)).dropWhile isSpace =
      d :: (after ++ c :: rest) := by
    rw [List.dropWhile_append_of_pos hbefore, List.dropWhile_cons_of_neg]
    rw [not_space_of_delim hd]
    exact Bool.noConfusion
  have hafter' : (after ++ c :: rest).dropWhile isSpace = c :: rest := by
    rw [List.dropWhile_append_of_pos hafter, List.dropWhile_cons_of_neg]
    rw [hc]
    exact Bool.noConfusion
  intro hnone
  have hkeyNone := List.findSome?_eq_none_iff.1 hnone _ hkey
  rw [peekKey, htake, if_pos rfl, hdrop, hbefore'] at hkeyNone
  simp only [hafter'] at hkeyNone
  rw [if_pos ⟨hd, List.cons_ne_nil c rest⟩] at hkeyNone
  cases hkeyNone

theorem ne_nil_of_isHead (h : IsHead head) : head ≠ [] := by
  obtain ⟨key, before, d, after, rfl, -⟩ := h
  simp

/-- What `\S+` matches of the value. -/
def word (v : Text) : Text := v.takeWhile fun c => !isSpace c

def afterWord (v : Text) : Text := v.dropWhile fun c => !isSpace c

theorem afterWord_length (h : peek t = some (head, v)) : (afterWord v).length < t.length := by
  obtain ⟨rfl, hhead, -⟩ := peek_some h
  have hle : (afterWord v).length ≤ v.length := List.length_dropWhile_le _ v
  have hpos : 0 < head.length := List.length_pos_iff.2 (ne_nil_of_isHead hhead)
  rw [List.length_append]
  omega

/-- `_redact_secrets_in_string`. -/
def redact (t : Text) : Text :=
  match h : peek t with
  | some (head, v) =>
    have := afterWord_length h
    head ++ (redacted ++ redact (afterWord v))
  | none =>
    match t with
    | [] => []
    | c :: cs => c :: redact cs
termination_by t.length

/-- Every match of the pattern in the text has the placeholder for its value. -/
def Clean (t : Text) : Prop :=
  ∀ u, u <:+ t → ∀ head v, peek u = some (head, v) → word v = redacted

/-- The text is empty or starts with a blank. -/
def EndsWord (t : Text) : Prop := ∀ c ∈ t.head?, isSpace c = true

theorem endsWord_afterWord (v : Text) : EndsWord (afterWord v) := by
  intro c hc
  have hhead := List.head?_dropWhile_not (fun c => !isSpace c) v
  rw [Option.mem_def] at hc
  rw [afterWord] at hc
  rw [hc] at hhead
  simpa using hhead

theorem word_redacted (h : EndsWord r) : word (redacted ++ r) = redacted := by
  have hall : ∀ c ∈ redacted, (!isSpace c) = true := by decide
  rw [word, List.takeWhile_append_of_pos hall]
  cases r with
  | nil => rfl
  | cons c r =>
    rw [List.takeWhile_cons_of_neg, List.append_nil]
    rw [h c rfl]
    exact Bool.noConfusion

theorem not_space_of_isHead (h : IsHead (c :: head)) : isSpace c = false := by
  obtain ⟨key, before, d, after, heq, hkey, -⟩ := h
  cases key with
  | nil =>
    have hnot : List.map fold [] ∉ keys := by decide
    exact absurd hkey hnot
  | cons x key =>
    cases heq
    exact (of_mem_key hkey List.mem_cons_self).1

theorem endsWord_redact (h : EndsWord t) : EndsWord (redact t) := by
  fun_cases redact t with
  | case1 _ head v hp =>
    obtain ⟨rfl, hhead, -⟩ := peek_some hp
    cases head with
    | nil => exact absurd rfl (ne_nil_of_isHead hhead)
    | cons c head =>
      have hc := h c rfl
      rw [not_space_of_isHead hhead] at hc
      cases hc
  | case2 => exact h
  | case3 c cs hp => exact h

/-- Up to the first value that it replaces, redaction leaves the text as it is. -/
theorem redact_agrees (t : Text) :
    redact t = t ∨ ∃ a b r, t = a ++ b ∧ StartsWord b ∧ redact t = a ++ (redacted ++ r) ∧
      EndsWord r := by
  fun_induction redact t with
  | case1 t head v hp _ ih =>
    obtain ⟨rfl, -, hv⟩ := peek_some hp
    exact .inr ⟨head, v, _, rfl, hv, rfl, endsWord_redact (endsWord_afterWord v)⟩
  | case2 => exact .inl rfl
  | case3 c cs hp ih =>
    rcases ih with heq | ⟨a, b, r, heq, hb, hr, hends⟩
    · exact .inl (congrArg (c :: ·) heq)
    · exact .inr ⟨c :: a, b, r, by rw [heq, List.cons_append], hb, by rw [hr, List.cons_append],
        hends⟩

theorem bracket_not_mem (h : IsHead head) : 91 ∉ head := by
  obtain ⟨key, before, d, after, rfl, hkey, hbefore, hd, hafter⟩ := h
  have hspace : isSpace 91 = false := by decide
  simp only [List.mem_append, List.mem_cons, not_or]
  refine ⟨⟨fun hc => (of_mem_key hkey hc).2.2 rfl, fun hc => ?_⟩, ?_, fun hc => ?_⟩
  · rw [hbefore 91 hc] at hspace
    cases hspace
  · rintro rfl
    revert hd
    decide
  · rw [hafter 91 hc] at hspace
    cases hspace

/-- A match that starts before a placeholder does not reach into it. -/
theorem head_split (hh : IsHead head) (h : p ++ (redacted ++ r) = head ++ v) :
    ∃ m, p = head ++ m ∧ v = m ++ (redacted ++ r) := by
  rcases List.append_eq_append_iff.1 h with ⟨m, rfl, hm⟩ | ⟨m, rfl, hm⟩
  · cases m with
    | nil => exact ⟨[], by rw [List.append_nil, List.append_nil], hm.symm⟩
    | cons c m =>
      have hfirst : redacted.head? = some 91 := by decide
      have hc := congrArg List.head? hm
      rw [List.head?_append, hfirst, Option.some_or, List.cons_append, List.head?_cons,
        Option.some.injEq] at hc
      refine absurd ?_ (bracket_not_mem hh)
      rw [hc]
      exact List.mem_append_right p List.mem_cons_self
  · exact ⟨m, rfl, hm⟩

/-- After the delimiter of a match there are only blanks before its value. -/
theorem space_after_delim (hh : IsHead head) (h : head = a ++ d :: b) (hd : isDelim d = true) :
    ∀ c ∈ b, isSpace c = true := by
  obtain ⟨key, before, d', after, heq, hkey, hbefore, hd', hafter⟩ := hh
  have hnot : d ∉ key ++ before := by
    rw [List.mem_append, not_or]
    refine ⟨fun hc => ?_, fun hc => ?_⟩
    · rw [(of_mem_key hkey hc).2.1] at hd
      cases hd
    · have hspace := hbefore d hc
      rw [not_space_of_delim hd] at hspace
      cases hspace
  rw [heq] at h
  rcases List.append_eq_append_iff.1 h with ⟨m, rfl, hm⟩ | ⟨m, hm, hm'⟩
  · cases m with
    | nil =>
      cases hm
      exact hafter
    | cons x m =>
      cases hm
      intro c hc
      exact hafter c (List.mem_append_right m (List.mem_cons_of_mem d hc))
  · cases m with
    | nil =>
      cases hm'
      exact hafter
    | cons x m =>
      cases hm'
      rw [hm] at hnot
      exact absurd (List.mem_append_right a List.mem_cons_self) hnot

/-- No name starts inside a placeholder, and none ends with it. -/
theorem not_isHead_of_redacted (hw : w <:+ redacted) (hne : w ≠ []) (h : w ++ r = head ++ v) :
    ¬ IsHead head := by
  rintro ⟨key, before, d, after, rfl, hkey, -⟩
  have hnone : ∀ w ∈ redacted.tails, w ≠ [] → ∀ k ∈ keys,
      ¬ w.map fold <+: k ∧ ¬ k <+: w.map fold := by decide
  obtain ⟨hlong, hshort⟩ := hnone w ((List.mem_tails _ _).2 hw) hne _ hkey
  have hkeyPrefix : key <+: w ++ r := by
    rw [h, List.append_assoc, List.append_assoc]
    exact List.prefix_append key _
  rcases List.prefix_or_prefix_of_prefix hkeyPrefix (List.prefix_append w r) with hp | hp
  · exact hshort (hp.map fold)
  · exact hlong (hp.map fold)

theorem clean_nil : Clean [] := by
  intro u hu head v hp
  obtain ⟨heq, hhead, -⟩ := peek_some hp
  rw [List.suffix_nil.1 hu] at heq
  exact absurd (List.append_eq_nil_iff.1 heq.symm).1 (ne_nil_of_isHead hhead)

/-- A match in front of a placeholder ends before that, or has it for its value. -/
theorem word_before_redacted (hr : EndsWord r) (hh : IsHead head) (hv : StartsWord v)
    (h : p ++ (redacted ++ r) = head ++ v) :
    word v = redacted ∨ ∃ c m, p = head ++ c :: m ∧ isSpace c = false := by
  obtain ⟨m, hp, rfl⟩ := head_split hh h
  cases m with
  | nil => exact .inl (word_redacted hr)
  | cons c m =>
    obtain ⟨c', rest, heq, hc'⟩ := hv
    cases heq
    exact .inr ⟨c, m, hp, hc'⟩

/-- A match of the pattern is made harmless, whatever follows the blank after its value. -/
theorem clean_replaced (hh : IsHead head) (hr : EndsWord r) (hc : Clean r) :
    Clean (head ++ (redacted ++ r)) := by
  rintro u ⟨p, hu⟩ head' v hp
  obtain ⟨heq, hhead', hv⟩ := peek_some hp
  rcases List.append_eq_append_iff.1 hu with ⟨m, hm, hm'⟩ | ⟨m, -, hm⟩
  · rw [hm'] at heq
    rcases word_before_redacted hr hhead' hv heq with hword | ⟨c, m', hm'', hspace⟩
    · exact hword
    -- Before the placeholder there is no room for the value of another match.
    · obtain ⟨key, before, d, after, rfl, -, -, hd, -⟩ := hhead'
      have hsplit : head = (p ++ (key ++ before)) ++ d :: (after ++ c :: m') := by
        rw [hm, hm'']
        simp
      have hall := space_after_delim hh hsplit hd c (List.mem_append_right after List.mem_cons_self)
      rw [hspace] at hall
      cases hall
  · rcases List.append_eq_append_iff.1 hm with ⟨w, hw, hu'⟩ | ⟨w, hw, hu'⟩
    · exact hc u ⟨w, hu'.symm⟩ head' v hp
    · by_cases hnil : w = []
      · rw [hnil, List.nil_append] at hu'
        exact hc u (by rw [hu']) head' v hp
      · rw [hu'] at heq
        exact absurd hhead' (not_isHead_of_redacted ⟨m, hw.symm⟩ hnil heq)

/-- After redaction every value that the pattern finds is the placeholder. -/
theorem clean_redact (t : Text) : Clean (redact t) := by
  fun_induction redact t with
  | case1 t head v hp _ ih =>
    obtain ⟨-, hhead, -⟩ := peek_some hp
    exact clean_replaced hhead (endsWord_redact (endsWord_afterWord v)) ih
  | case2 => exact clean_nil
  | case3 c cs hnone ih =>
    intro u hu head v hp
    rcases List.suffix_cons_iff.1 hu with rfl | hu
    · obtain ⟨heq, hhead, hv⟩ := peek_some hp
      rcases redact_agrees cs with hsame | ⟨a, b, r, hcs, hb, hr, hends⟩
      · rw [hsame, hnone] at hp
        cases hp
      · rw [hr, ← List.cons_append] at heq
        rcases word_before_redacted hends hhead hv heq with hword | ⟨x, m, hm, hx⟩
        · exact hword
        -- The same match was there before.
        · have hsplit : c :: cs = head ++ (x :: m ++ b) := by
            rw [hcs, ← List.cons_append, hm, List.append_assoc]
          rw [hsplit] at hnone
          exact absurd hnone (peek_of_head hhead ⟨x, m ++ b, rfl, hx⟩)
    · exact ih u hu head v hp

/-- Without a delimiter there is nothing to redact. -/
theorem peek_eq_none (h : ∀ c ∈ t, isDelim c = false) : peek t = none := by
  cases hp : peek t with
  | none => rfl
  | some m =>
    obtain ⟨rfl, ⟨key, before, d, after, hhead, -, -, hd, -⟩, -⟩ := peek_some hp
    have hmem : d ∈ m.1 ++ m.2 := by
      rw [hhead]
      simp
    rw [h d hmem] at hd
    cases hd

theorem redact_eq_self (h : ∀ c ∈ t, isDelim c = false) : redact t = t := by
  fun_induction redact t with
  | case1 t head v hp =>
    rw [peek_eq_none h] at hp
    cases hp
  | case2 => rfl
  | case3 c cs _ ih => rw [ih fun x hx => h x (List.mem_cons_of_mem c hx)]

/-- A text is clean where each delimiter stands directly after `ED`, which no name ends with. -/
theorem clean_of_delims (h : ∀ a d b, t = a ++ d :: b → isDelim d = true → codes "ED" <:+ a) :
    Clean t := by
  rintro u ⟨p, rfl⟩ head v hp
  obtain ⟨rfl, ⟨key, before, d, after, rfl, hkey, hbefore, hd, -⟩, -⟩ := peek_some hp
  have hend := h (p ++ (key ++ before)) d (after ++ v) (by simp) hd
  have hlast : (p ++ (key ++ before)).getLast? = some 68 := by
    obtain ⟨a, ha⟩ := hend
    rw [← ha, List.getLast?_append]
    rfl
  rcases List.eq_nil_or_concat before with rfl | ⟨b, x, rfl⟩
  · have hnone : ∀ k ∈ keys, ¬ (codes "ED").map fold <:+ k ∧ ¬ k <:+ (codes "ED").map fold := by
      decide
    obtain ⟨hlong, hshort⟩ := hnone _ hkey
    rw [List.append_nil] at hend
    rcases List.suffix_or_suffix_of_suffix hend (List.suffix_append p key) with hs | hs
    · exact absurd (hs.map fold) hlong
    · exact absurd (hs.map fold) hshort
  · have hx : x = 68 := by
      rw [List.concat_eq_append, ← List.append_assoc, ← List.append_assoc,
        List.getLast?_append] at hlast
      simpa using hlast
    have hspace := hbefore x (by simp)
    rw [hx] at hspace
    exact absurd hspace (by decide)

theorem clean_of_no_delim (h : ∀ c ∈ t, isDelim c = false) : Clean t := by
  intro u hu head v hp
  rw [peek_eq_none fun c hc => h c (hu.subset hc)] at hp
  cases hp

theorem clean_of_one_delim (ha : ∀ c ∈ a, isDelim c = false) (hb : ∀ c ∈ b, isDelim c = false)
    (hend : codes "ED" <:+ a) : Clean (a ++ d :: b) := by
  apply clean_of_delims
  intro a' d' b' heq hd'
  rcases List.append_eq_append_iff.1 heq with ⟨m, rfl, hm⟩ | ⟨m, rfl, hm⟩
  · cases m with
    | nil => rwa [List.append_nil]
    | cons x m =>
      cases hm
      rw [hb d' (List.mem_append_right m List.mem_cons_self)] at hd'
      cases hd'
  · cases m with
    | nil => rwa [List.append_nil] at hend
    | cons x m =>
      cases hm
      rw [ha d' (List.mem_append_right a' List.mem_cons_self)] at hd'
      cases hd'

end Logging
