import Mathlib.Data.List.Infix

namespace UrlParse
set_option autoImplicit true

/-- The code points of a text; `urllib.parse` is modelled on these. -/
def codes (s : String) : List Nat := s.toList.map Char.toNat

/-- What the parser asks of `str.lower`, of `unicodedata.normalize` with NFKC, and of
`_check_bracketed_host`. -/
structure Text where
  lower : List Nat → List Nat
  nfkc : List Nat → List Nat
  bracketsOk : List Nat → Bool

def isAsciiAlpha (c : Nat) : Bool := decide (65 ≤ c ∧ c ≤ 90 ∨ 97 ≤ c ∧ c ≤ 122)

def asciiLower (c : Nat) : Nat := if 65 ≤ c ∧ c ≤ 90 then c + 32 else c

/-- Letters, digits, `+`, `-` and `.`. -/
def isSchemeChar (c : Nat) : Bool :=
  isAsciiAlpha c || decide (48 ≤ c ∧ c ≤ 57) || decide (c ∈ codes "+-.")

/-- Leading control characters and spaces go, and tabs and line breaks everywhere. -/
def clean (url : List Nat) : List Nat :=
  (url.dropWhile fun c => decide (c ≤ 32)).filter fun c => decide (c ∉ [9, 10, 13])

def colon : Nat := 58

/-- The scheme, if there is one, and what follows it. -/
def splitScheme (url : List Nat) : List Nat × List Nat :=
  let scheme := url.takeWhile fun c => decide (c ≠ colon)
  match url.dropWhile fun c => decide (c ≠ colon) with
  | [] => ([], url)
  | _ :: rest =>
    if scheme.head?.any isAsciiAlpha = true ∧ scheme.all isSchemeChar = true then
      (scheme.map asciiLower, rest)
    else ([], url)

/-- The network location of what follows the scheme. -/
def splitNetloc (url : List Nat) : List Nat :=
  if codes "//" <+: url then (url.drop 2).takeWhile fun c => decide (c ∉ codes "/?#") else []

def openBracket : Nat := 91

def closeBracket : Nat := 93

/-- No character of the location expands to one that ends it. -/
def checkNetloc (text : Text) (netloc : List Nat) : Bool :=
  let n := netloc.filter fun c => decide (c ∉ codes "@:#?")
  netloc.all (fun c => decide (c < 128)) || decide (n = text.nfkc n) ||
    (text.nfkc n).all fun c => decide (c ∉ codes "/?#@:")

structure ParseResult where
  scheme : List Nat
  netloc : List Nat

/-- `urlparse`; there is no result where it raises `ValueError`. -/
def urlparse (text : Text) (url : List Nat) : Option ParseResult :=
  let (scheme, rest) := splitScheme (clean url)
  let netloc := splitNetloc rest
  if decide (openBracket ∈ netloc) ≠ decide (closeBracket ∈ netloc) then none
  else if openBracket ∈ netloc ∧ text.bracketsOk netloc = false then none
  else if checkNetloc text netloc = false then none
  else some { scheme, netloc }

/-- `netloc.rpartition('@')[2]`. -/
def afterUserinfo (netloc : List Nat) : List Nat :=
  (netloc.reverse.takeWhile fun c => decide (c ∉ codes "@")).reverse

/-- `_hostinfo[0]`. -/
def hostinfo (netloc : List Nat) : List Nat :=
  match (afterUserinfo netloc).dropWhile fun c => decide (c ≠ openBracket) with
  | _ :: bracketed => bracketed.takeWhile fun c => decide (c ≠ closeBracket)
  | [] => (afterUserinfo netloc).takeWhile fun c => decide (c ≠ colon)

/-- `hostname`. The zone of a scoped address is left as it is. -/
def ParseResult.hostname (text : Text) (p : ParseResult) : Option (List Nat) :=
  let host := hostinfo p.netloc
  if host = [] then none
  else
    some (text.lower (host.takeWhile fun c => decide (c ∉ codes "%")) ++
      host.dropWhile fun c => decide (c ∉ codes "%"))

/-- The text, cleaned, starts with `http://` or `https://` in some case. -/
def spelledAsUrl (url : List Nat) : Bool :=
  [codes "http://", codes "https://"].any fun p =>
    decide (((clean url).take p.length).map asciiLower = p)

theorem spelledAsUrl_of_start (h : clean url = start ++ rest)
    (hp : p ∈ [codes "http://", codes "https://"]) (hs : start.map asciiLower = p) :
    spelledAsUrl url = true := by
  refine List.any_eq_true.2 ⟨p, hp, decide_eq_true ?_⟩
  have hlen : p.length = start.length := by rw [← hs, List.length_map]
  rw [h, hlen, List.take_left, hs]

theorem splitScheme_cases (url : List Nat) :
    (splitScheme url).1 = [] ∨
      ∃ scheme, url = scheme ++ colon :: (splitScheme url).2 ∧
        (splitScheme url).1 = scheme.map asciiLower := by
  have hsplit := List.takeWhile_append_dropWhile (p := fun c => decide (c ≠ colon)) (l := url)
  simp only [splitScheme]
  split
  next => exact .inl rfl
  next c rest hrest =>
    have hc : c = colon := by
      have hhead := List.head?_dropWhile_not (fun c => decide (c ≠ colon)) url
      rw [hrest] at hhead
      simpa using hhead
    split
    next =>
      refine .inr ⟨_, ?_, rfl⟩
      rw [hrest, hc] at hsplit
      exact hsplit.symm
    next => exact .inl rfl

theorem ne_nil_of_hostname {text : Text} {p : ParseResult} (h : p.hostname text = some host) :
    p.netloc ≠ [] := by
  intro hnil
  rw [ParseResult.hostname, hnil] at h
  cases h

/-- What the parser reads as a URL of a host with one of the two schemes starts with that scheme,
a colon and two slashes. -/
theorem spelledAsUrl_of_urlparse {text : Text} (h : urlparse text url = some p)
    (hs : p.scheme = codes "http" ∨ p.scheme = codes "https") (hh : p.hostname text = some host) :
    spelledAsUrl url = true := by
  have hnetloc := ne_nil_of_hostname hh
  simp only [urlparse] at h
  split_ifs at h
  cases h
  simp only at hs hnetloc
  rcases splitScheme_cases (clean url) with hnone | ⟨scheme, hurl, hscheme⟩
  · rw [hnone] at hs
    rcases hs with hs | hs
    · cases hs
    · cases hs
  · rw [splitNetloc] at hnetloc
    split at hnetloc
    next hslashes =>
      obtain ⟨rest, hrest⟩ := hslashes
      have hstart : clean url = (scheme ++ colon :: codes "//") ++ rest := by
        rw [hurl, ← hrest, List.append_assoc, List.cons_append]
      rw [hscheme] at hs
      rcases hs with hs | hs
      · refine spelledAsUrl_of_start hstart (List.mem_cons_self) ?_
        rw [List.map_append, hs]
        rfl
      · refine spelledAsUrl_of_start hstart (List.mem_cons_of_mem _ List.mem_cons_self) ?_
        rw [List.map_append, hs]
        rfl
    next => exact absurd rfl hnetloc

end UrlParse
