import AnythingTools.Json
import AnythingTools.Security.UrlParse

namespace Security
open UrlParse
set_option autoImplicit true

/-- What `ipaddress.ip_address` says of an address. -/
structure IpAddress where
  isPrivate : Bool
  isLoopback : Bool
  isLinkLocal : Bool

/-- What the validator asks of the system: `socket.getaddrinfo`, with the text of its exception, and
`ipaddress.ip_address`, which raises where there is none. -/
structure Platform extends Text where
  getaddrinfo : List Nat → Except String (List String)
  ipAddress : String → Option IpAddress

/-- The exceptions of `validate_public_url`. -/
inductive ScanError where
  | invalidUrl
  | unsupportedScheme
  | missingHostname
  | dns (e : String)
  | privateAddress (addr : String)

/-- The text of the exception, where `urlparse` has not raised it. -/
def ScanError.text : ScanError → Option String
  | .invalidUrl => none
  | .unsupportedScheme => some "Unsupported URL scheme"
  | .missingHostname => some "URL missing hostname"
  | .dns e => some ("DNS resolution failed: " ++ e)
  | .privateAddress addr => some ("Resolved IP " ++ addr ++ " is private or loopback")

def isIpPrivate (pf : Platform) (addr : String) : Bool :=
  match pf.ipAddress addr with
  | some ip => ip.isPrivate || ip.isLoopback || ip.isLinkLocal
  | none => true

def validatePublicUrl (pf : Platform) (url : List Nat) : Except ScanError Unit :=
  match urlparse pf.toText url with
  | none => .error .invalidUrl
  | some parsed =>
    if parsed.scheme ∉ [codes "http", codes "https"] then .error .unsupportedScheme
    else
      match parsed.hostname pf.toText with
      | none => .error .missingHostname
      | some host =>
        match pf.getaddrinfo host with
        | .error e => .error (.dns e)
        | .ok infos =>
          match infos.find? (isIpPrivate pf) with
          | some addr => .error (.privateAddress addr)
          | none => .ok ()

/-- `v.startswith("http://") or v.startswith("https://")`. -/
def startsAsUrl (s : List Nat) : Bool :=
  (codes "http://").isPrefixOf s || (codes "https://").isPrefixOf s

/-- `"url" in k.lower()`. -/
def isUrlKey (pf : Platform) (k : List Nat) : Bool := decide (codes "url" <:+: pf.lower k)

/-- The string that the scan of a member validates. -/
def directUrl (pf : Platform) (k : List Nat) : Json → Option (List Nat)
  | .str s => if isUrlKey pf k || startsAsUrl s then some s else none
  | _ => none

mutual

def scanArgsForUrls (pf : Platform) : Json → Except ScanError Unit
  | .dict members => scanMembers pf members
  | .list xs => scanElements pf xs
  | .str s => if startsAsUrl s then validatePublicUrl pf s else .ok ()
  | _ => .ok ()

def scanElements (pf : Platform) : List Json → Except ScanError Unit
  | [] => .ok ()
  | x :: xs => do
    scanArgsForUrls pf x
    scanElements pf xs

def scanMembers (pf : Platform) : List (List Nat × Json) → Except ScanError Unit
  | [] => .ok ()
  | (k, v) :: members => do
    match directUrl pf k v with
    | some url => validatePublicUrl pf url
    | none => scanArgsForUrls pf v
    scanMembers pf members

end

mutual

/-- The strings of a value, at any depth, each with the key that it stands under. -/
def leaves (key : Option (List Nat)) : Json → List (Option (List Nat) × List Nat)
  | .str s => [(key, s)]
  | .list xs => elementLeaves xs
  | .dict members => memberLeaves members
  | _ => []

def elementLeaves : List Json → List (Option (List Nat) × List Nat)
  | [] => []
  | x :: xs => leaves none x ++ elementLeaves xs

def memberLeaves : List (List Nat × Json) → List (Option (List Nat) × List Nat)
  | [] => []
  | (k, v) :: members => leaves (some k) v ++ memberLeaves members

end

/-- The host of what `urlparse` reads as an http or https URL. -/
def urlHost (pf : Platform) (s : List Nat) : Option (List Nat) :=
  match urlparse pf.toText s with
  | none => none
  | some parsed =>
    if parsed.scheme ∈ [codes "http", codes "https"] then parsed.hostname pf.toText else none

/-- The address is not private, loopback or link-local. -/
def Public (pf : Platform) (addr : String) : Prop :=
  ∀ ip ∈ pf.ipAddress addr, ip.isPrivate = false ∧ ip.isLoopback = false ∧ ip.isLinkLocal = false

/-- Where the text is a URL with a host, this resolves to public addresses only. -/
def PublicOnly (pf : Platform) (s : List Nat) : Prop :=
  ∀ host ∈ urlHost pf s, ∀ infos, pf.getaddrinfo host = .ok infos → ∀ addr ∈ infos, Public pf addr

/-- The text is a URL with a host, which resolves, and to addresses that `_is_ip_private` passes. -/
def IsPublicUrl (pf : Platform) (s : List Nat) : Prop :=
  ∃ host, urlHost pf s = some host ∧
    ∃ infos, pf.getaddrinfo host = .ok infos ∧ ∀ addr ∈ infos, isIpPrivate pf addr = false

/-- The scan takes the leaf for a URL, by its first characters or by its key. -/
def isTested (pf : Platform) (leaf : Option (List Nat) × List Nat) : Bool :=
  leaf.1.any (isUrlKey pf) || startsAsUrl leaf.2

theorem isPublicUrl_iff {pf : Platform} (h : urlHost pf s = some host)
    (hi : pf.getaddrinfo host = .ok infos) :
    IsPublicUrl pf s ↔ ∀ addr ∈ infos, isIpPrivate pf addr = false := by
  simp [IsPublicUrl, h, hi]

theorem validatePublicUrl_ok (pf : Platform) (url : List Nat) :
    validatePublicUrl pf url = .ok () ↔ IsPublicUrl pf url := by
  have hhost (parsed : ParseResult) (h : urlparse pf.toText url = some parsed)
      (hs : ¬ parsed.scheme ∉ [codes "http", codes "https"]) :
      urlHost pf url = parsed.hostname pf.toText := by
    rw [urlHost, h]
    exact if_pos (not_not.1 hs)
  fun_cases validatePublicUrl pf url with
  | case1 h => simp [IsPublicUrl, urlHost, h]
  | case2 parsed h hs => simp [IsPublicUrl, urlHost, h, hs]
  | case3 parsed h hs hh => simp [IsPublicUrl, hhost parsed h hs, hh]
  | case4 parsed h hs host hh e he => simp [IsPublicUrl, hhost parsed h hs, hh, he]
  | case5 parsed h hs host hh infos hi addr ha =>
    rw [isPublicUrl_iff ((hhost parsed h hs).trans hh) hi]
    have hbad := List.find?_some ha
    refine ⟨nofun, fun hall => ?_⟩
    rw [hall addr (List.mem_of_find?_eq_some ha)] at hbad
    cases hbad
  | case6 parsed h hs host hh infos hi ha =>
    rw [isPublicUrl_iff ((hhost parsed h hs).trans hh) hi]
    simpa using ha

theorem public_of_isIpPrivate {pf : Platform} (h : isIpPrivate pf addr = false) :
    Public pf addr := by
  intro ip hip
  rw [Option.mem_def] at hip
  rw [isIpPrivate, hip] at h
  simpa [Bool.or_eq_false_iff, and_assoc] using h

theorem publicOnly_of_isPublicUrl {pf : Platform} (h : IsPublicUrl pf s) : PublicOnly pf s := by
  obtain ⟨host, hhost, infos, hinfos, hall⟩ := h
  intro host' hhost' infos' hinfos' addr haddr
  rw [Option.mem_def, hhost, Option.some.injEq] at hhost'
  subst hhost'
  rw [hinfos, Except.ok.injEq] at hinfos'
  subst hinfos'
  exact public_of_isIpPrivate (hall addr haddr)

theorem then_ok (first second : Except ScanError Unit) :
    (first >>= fun _ => second) = .ok () ↔ first = .ok () ∧ second = .ok () := by
  cases first with
  | error e => simp [bind, Except.bind]
  | ok u => simp [bind, Except.bind]

/-- The scan of a member also looks at the key. -/
theorem scanMember_ok (pf : Platform) (k : List Nat) (v : Json)
    (h : scanArgsForUrls pf v = .ok () ↔
      ∀ leaf ∈ leaves none v, isTested pf leaf = true → IsPublicUrl pf leaf.2) :
    (match directUrl pf k v with
      | some url => validatePublicUrl pf url
      | none => scanArgsForUrls pf v) = .ok () ↔
      ∀ leaf ∈ leaves (some k) v, isTested pf leaf = true → IsPublicUrl pf leaf.2 := by
  cases v with
  | str s =>
    rw [directUrl, leaves]
    simp only [List.mem_singleton, forall_eq, isTested, Option.any_some]
    split_ifs with htest
    · simp only [htest, forall_const, validatePublicUrl_ok]
    · rw [Bool.or_eq_true, not_or, Bool.not_eq_true, Bool.not_eq_true] at htest
      simp [scanArgsForUrls, htest.1, htest.2]
  | list xs => exact h
  | dict members => exact h
  | _ => exact h

mutual

/-- The scan returns exactly when each leaf that it takes for a URL is a public one. -/
theorem scanArgsForUrls_ok (pf : Platform) (v : Json) :
    scanArgsForUrls pf v = .ok () ↔
      ∀ leaf ∈ leaves none v, isTested pf leaf = true → IsPublicUrl pf leaf.2 := by
  cases v with
  | str s =>
    rw [scanArgsForUrls, leaves]
    simp only [List.mem_singleton, forall_eq, isTested, Option.any_none, Bool.false_or]
    split
    next h => simp only [h, forall_const, validatePublicUrl_ok]
    next h => simp [h]
  | list xs =>
    rw [scanArgsForUrls, leaves]
    exact scanElements_ok pf xs
  | dict members =>
    rw [scanArgsForUrls, leaves]
    exact scanMembers_ok pf members
  | _ => simp [scanArgsForUrls, leaves]

theorem scanElements_ok (pf : Platform) (xs : List Json) :
    scanElements pf xs = .ok () ↔
      ∀ leaf ∈ elementLeaves xs, isTested pf leaf = true → IsPublicUrl pf leaf.2 := by
  cases xs with
  | nil => simp [scanElements, elementLeaves]
  | cons x xs =>
    rw [scanElements, elementLeaves, List.forall_mem_append, ← scanArgsForUrls_ok pf x,
      ← scanElements_ok pf xs]
    exact then_ok _ _

theorem scanMembers_ok (pf : Platform) (members : List (List Nat × Json)) :
    scanMembers pf members = .ok () ↔
      ∀ leaf ∈ memberLeaves members, isTested pf leaf = true → IsPublicUrl pf leaf.2 := by
  match members with
  | [] => simp [scanMembers, memberLeaves]
  | (k, v) :: members =>
    rw [scanMembers, memberLeaves, List.forall_mem_append, ← scanMembers_ok pf members,
      ← scanMember_ok pf k v (scanArgsForUrls_ok pf v)]
    cases directUrl pf k v with
    | none => exact then_ok _ _
    | some url => exact then_ok _ _

end

/-- Every string at any depth is safe, once the scan returns. -/
def SafeScan (pf : Platform) (args : Json) : Prop :=
  scanArgsForUrls pf args = .ok () → ∀ leaf ∈ leaves none args, PublicOnly pf leaf.2

theorem publicOnly_of_not_spelled {pf : Platform} (h : spelledAsUrl s = false) :
    PublicOnly pf s := by
  intro host hhost
  rw [Option.mem_def, urlHost] at hhost
  split at hhost
  next => cases hhost
  next parsed hp =>
    split at hhost
    next hs =>
      simp only [List.mem_cons, List.not_mem_nil, or_false] at hs
      rw [spelledAsUrl_of_urlparse hp hs hhost] at h
      cases h
    next => cases hhost

/-- The scan is safe exactly when it refuses a leaf, or each leaf that it passes over resolves to
public addresses only, in so far as it is spelled as a URL, by blanks, line breaks or capitals that
the parser accepts. -/
theorem safeScan_iff (pf : Platform) (args : Json) :
    SafeScan pf args ↔
      (∃ leaf ∈ leaves none args, isTested pf leaf = true ∧ ¬ IsPublicUrl pf leaf.2) ∨
        ∀ leaf ∈ leaves none args, isTested pf leaf = false → spelledAsUrl leaf.2 = true →
          PublicOnly pf leaf.2 := by
  rw [SafeScan, scanArgsForUrls_ok]
  apply Iff.intro
  · intro h
    by_cases hall : ∀ leaf ∈ leaves none args, isTested pf leaf = true → IsPublicUrl pf leaf.2
    · exact .inr fun leaf hleaf _ _ => h hall leaf hleaf
    · simp only [not_forall, exists_prop] at hall
      exact .inl hall
  · rintro (⟨bad, hbad, htest, hnot⟩ | hpassed) hall leaf hleaf
    · exact absurd (hall bad hbad htest) hnot
    · cases htest : isTested pf leaf with
      | true => exact publicOnly_of_isPublicUrl (hall leaf hleaf htest)
      | false =>
        cases hspell : spelledAsUrl leaf.2 with
        | true => exact hpassed leaf hleaf htest hspell
        | false => exact publicOnly_of_not_spelled hspell

/-- A system on which the loopback address is known as such. -/
def loopback : Platform where
  lower := List.map asciiLower
  nfkc := id
  bracketsOk := fun _ => true
  getaddrinfo := fun host =>
    if host = codes "127.0.0.1" then .ok ["127.0.0.1"] else .error "Name or service not known"
  ipAddress := fun addr =>
    if addr = "127.0.0.1" then
      some { isPrivate := true, isLoopback := true, isLinkLocal := false }
    else none

/-- The parser accepts the scheme in capitals, the scan does not look at it. -/
theorem capitals_pass_scan :
    ¬ SafeScan loopback (.dict [(codes "targets", .list [.str (codes "HTTP://127.0.0.1/")])]) := by
  intro h
  have hpublic := h (by rfl) (none, codes "HTTP://127.0.0.1/") (by decide +kernel)
    (codes "127.0.0.1") (by decide +kernel) ["127.0.0.1"] (by rfl) "127.0.0.1"
    List.mem_cons_self _ rfl
  exact absurd hpublic.1 (by decide)

end Security
