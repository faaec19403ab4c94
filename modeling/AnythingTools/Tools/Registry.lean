import AnythingTools.Dict
import AnythingTools.Jobs.Items
import AnythingTools.Jobs.Delivery

namespace Tools
open JobItems (given)
open Jobs (truthy)
set_option autoImplicit true

/-! ### The packages of the tools -/

/-- A concrete subclass of `BaseTool` that its module defines: the name that it has as an attribute,
and what an instance of it has. -/
structure ToolClass where
  className : String
  name : Option String := none
  instanceName : Except String (Option String) := .ok none

/-- A module, with its classes in the order of their names. -/
structure ToolModule where
  inputSchema : Option Json := none
  doc : Option String := none
  classes : List ToolClass

/-- The directory of a tool: what the imports of its package and of the module `tool` in it come to.
The module need not be there. -/
structure Package where
  found : Bool := true
  path : String
  package : Except String ToolModule
  tool : Except (Option String) ToolModule

def Package.modules (p : Package) : List ToolModule :=
  p.package.toOption.toList ++ p.tool.toOption.toList

/-- `getattr(obj, "name", None)`, and that of an instance where it is empty. -/
def ToolClass.toolName (c : ToolClass) : Except String (Option String) :=
  if given c.name then .ok c.name else c.instanceName

def isNameChar (c : Char) : Bool := c.isAlphanum || c == '_' || c == '-'

/-- `re.match(r'^[a-zA-Z0-9_-]+$', name)`; `$` also stands before a last line end. -/
def validName (name : String) : Bool :=
  let cs := name.toList
  let body := if cs.getLast? = some '\n' then cs.dropLast else cs
  !body.isEmpty && body.all isNameChar

/-- The name that a class is registered under. -/
def ToolClass.accepted (c : ToolClass) : Option String :=
  match c.toolName with
  | .ok (some name) => if validName name then some name else none
  | _ => none

/-! ### The registry -/

inductive DiscoveryStatus where
  | loaded
  | failed
  | rejected
  | missing
deriving DecidableEq, Repr

structure Discovery where
  status : DiscoveryStatus
  moduleName : String
  error : Option String := none

structure ToolMeta where
  cls : ToolClass
  inputSchema : Option Json
  moduleName : String
  description : Option String

structure Registry where
  tools : List (String × ToolMeta) := []
  discovery : List (String × Discovery) := []

namespace Registry

def note (r : Registry) (key : String) (status : DiscoveryStatus) (moduleName : String)
    (error : Option String) : Registry :=
  { r with discovery := Dict.set r.discovery key { status, moduleName, error } }

/-- A class of a module, and whether one was found. -/
def registerClass (primaryTool moduleName : String) (m : ToolModule) (s : Registry × Bool)
    (c : ToolClass) : Registry × Bool :=
  match c.toolName with
  | .error e =>
    (s.1.note primaryTool .rejected moduleName (some ("Skipping tool class <class \x27" ++ moduleName ++
      "." ++ c.className ++ "\x27> - instantiation failed: " ++ e)), s.2)
  | .ok name =>
    match c.accepted with
    | none =>
      (s.1.note (if given name then name.getD "" else primaryTool) .rejected moduleName
        (some ("Invalid tool name \x27" ++ name.getD "None" ++
          "\x27. Must match ^[a-zA-Z0-9_-]+$")), s.2)
    | some name =>
      (({ s.1 with
        tools := Dict.set s.1.tools name
          { cls := c, inputSchema := m.inputSchema, moduleName, description := m.doc } }
        : Registry).note name .loaded moduleName none, true)

def registerModuleTools (r : Registry) (primaryTool moduleName : String) (m : ToolModule) :
    Registry × Bool :=
  m.classes.foldl (registerClass primaryTool moduleName m) (r, false)

def registerPackage (r : Registry) (dir : String) : Except String ToolModule → Registry × Bool
  | .ok m => r.registerModuleTools dir ("tools." ++ dir) m
  | .error e => (r.note dir .failed ("tools." ++ dir) (some e), false)

def registerSubmodule (r : Registry) (dir : String) :
    Except (Option String) ToolModule → Registry × Bool
  | .ok m => r.registerModuleTools dir ("tools." ++ dir ++ ".tool") m
  | .error none => (r, false)
  | .error (some e) => (r.note dir .failed ("tools." ++ dir ++ ".tool") (some e), false)

def discoverTool (packages : String → Package) (r : Registry) (dir : String) : Registry :=
  let p := packages dir
  if p.found = false then
    r.note dir .missing ("tools." ++ dir) (some ("Directory not found: " ++ p.path))
  else
    let first := r.registerPackage dir p.package
    let second := first.1.registerSubmodule dir p.tool
    if (first.2 || second.2) = false ∧ dir ∉ second.1.discovery.map Prod.fst then
      second.1.note dir .rejected ("tools." ++ dir)
        (some "No valid BaseTool subclasses found in module")
    else second.1

end Registry

def coreTools : List String :=
  ["scraper", "draft_editor", "publisher", "batch_reader", "stock_notes", "stock_financials"]

/-- `load_all`; the registry that is there is replaced at the end. -/
def loadAll (packages : String → Package) : Registry :=
  coreTools.foldl (Registry.discoverTool packages) {}

/-! ### What the API answers -/

/-- Whether a request for a tool goes on to the check of its arguments. -/
inductive Answer where
  | accepted (tool : ToolMeta)
  | degraded (detail : String)
  | notFound

def Registry.enqueueTool (r : Registry) (toolName : String) : Answer :=
  match Dict.get r.tools toolName with
  | some found => .accepted found
  | none =>
    match Dict.get r.discovery toolName with
    | some d =>
      if d.status = .failed ∨ d.status = .rejected then
        .degraded ("Tool " ++ toolName ++ " is currently degraded: " ++ d.error.getD "None")
      else .notFound
    | none => .notFound

structure ManifestEntry where
  name : String
  description : String
  inputSchema : Json

/-- `schema_list` -/
def Registry.schemaList (r : Registry) : List ManifestEntry :=
  r.tools.map fun t =>
    { name := t.1
      description := (if given t.2.description then t.2.description.getD ""
          else "Dynamically discovered tool " ++ t.1) ++
        if t.1 = "scraper" ∨ t.1 = "browser_task" then
          " This tool uses SoM element targeting. Use data-ai-id attributes."
        else ""
      inputSchema :=
        if (t.2.inputSchema.any truthy) = true then t.2.inputSchema.getD .null
        else .dict [(Jobs.key "type", Json.text "object"), (Jobs.key "properties", .dict []),
          (Jobs.key "required", .list [])] }

/-! ### What a load leaves -/

/-- A class of the package takes the name. -/
def Registers (p : Package) (name : String) : Prop :=
  p.found = true ∧ ∃ m ∈ p.modules, ∃ c ∈ m.classes, c.accepted = some name

theorem validName_of_accepted {c : ToolClass} (h : c.accepted = some name) :
    validName name = true := by
  rw [ToolClass.accepted] at h
  split at h
  next n _ =>
    split at h
    next hn =>
      cases h
      exact hn
    next => cases h
  next => cases h

/-- What some steps of a directory do: tools are added, and a record that is new there and not of a
tool is one of a failure. -/
structure Adds (dir : String) (names : String → Prop) (r r' : Registry) : Prop where
  tools : ∀ name, (Dict.get r'.tools name).isSome = true ↔
    (Dict.get r.tools name).isSome = true ∨ names name
  named : (∀ name t, Dict.get r.tools name = some t → t.cls.accepted = some name) →
    ∀ name t, Dict.get r'.tools name = some t → t.cls.accepted = some name
  nodup : (r.tools.map Prod.fst).Nodup → (r'.tools.map Prod.fst).Nodup
  kept : ∀ key, (Dict.get r.discovery key).isSome = true → (Dict.get r'.discovery key).isSome = true
  new : ∀ key d, validName key = true → Dict.get r'.discovery key = some d →
    Dict.get r.discovery key = some d ∨ (Dict.get r'.tools key).isSome = true ∨
      key = dir ∧ (d.status = .failed ∨ d.status = .rejected)

theorem Adds.refl (dir : String) (r : Registry) : Adds dir (fun _ => False) r r where
  tools name := (or_iff_left id).symm
  named h := h
  nodup h := h
  kept _ h := h
  new _ _ _ h := .inl h

theorem Adds.trans (h : Adds dir names r r') (h' : Adds dir names' r' r'') :
    Adds dir (fun name => names name ∨ names' name) r r'' where
  tools name := by rw [h'.tools, h.tools, or_assoc]
  named hr := h'.named (h.named hr)
  nodup hr := h'.nodup (h.nodup hr)
  kept key hkey := h'.kept key (h.kept key hkey)
  new key d hv hd := by
    rcases h'.new key d hv hd with hd | htool | hown
    · rcases h.new key d hv hd with hd | htool | hown
      · exact .inl hd
      · exact .inr (.inl ((h'.tools key).2 (.inl htool)))
      · exact .inr (.inr hown)
    · exact .inr (.inl htool)
    · exact .inr (.inr hown)

theorem Adds.congr (h : Adds dir names r r') (hn : ∀ name, names name ↔ names' name) :
    Adds dir names' r r' := by
  rw [← funext fun name => propext (hn name)]
  exact h

/-- A failure is noted under the directory or under a name that no tool can have. -/
theorem adds_note (dir : String) (r : Registry) (moduleName : String) (error : Option String)
    (hkey : key = dir ∨ validName key = false)
    (hstatus : status = .failed ∨ status = .rejected) :
    Adds dir (fun _ => False) r (r.note key status moduleName error) where
  tools name := (or_iff_left id).symm
  named h := h
  nodup h := h
  kept key' h := by
    rw [Registry.note, Dict.get_isSome_set]
    exact .inr h
  new key' d hv hd := by
    rw [Registry.note, Dict.get_set] at hd
    split at hd
    next he =>
      cases hd
      rcases hkey with rfl | hinvalid
      · exact .inr (.inr ⟨he, hstatus⟩)
      · rw [he, hinvalid] at hv
        cases hv
    next => exact .inl hd

/-- A class that is registered. -/
theorem adds_tool (dir : String) (r : Registry) (tool : ToolMeta) (moduleName : String)
    (h : tool.cls.accepted = some name) : Adds dir (· = name) r
      (({ r with tools := Dict.set r.tools name tool } : Registry).note name .loaded moduleName none)
    where
  tools name' := by
    change (Dict.get (Dict.set r.tools name tool) name').isSome = true ↔ _
    rw [Dict.get_isSome_set, or_comm]
  named hr name' t ht := by
    change Dict.get (Dict.set r.tools name tool) name' = some t at ht
    rw [Dict.get_set] at ht
    split at ht
    next he =>
      cases ht
      rw [he, h]
    next => exact hr name' t ht
  nodup hr := Dict.nodup_keys_set hr name tool
  kept key hkey := by
    change (Dict.get (Dict.set r.discovery name _) key).isSome = true
    rw [Dict.get_isSome_set]
    exact .inr hkey
  new key d hv hd := by
    change Dict.get (Dict.set r.discovery name _) key = some d at hd
    rw [Dict.get_set] at hd
    split at hd
    next he =>
      refine .inr (.inl ?_)
      change (Dict.get (Dict.set r.tools name tool) key).isSome = true
      rw [Dict.get_isSome_set]
      exact .inl he
    next => exact .inl hd

theorem adds_class (dir moduleName : String) (m : ToolModule) (s : Registry × Bool) (c : ToolClass) :
    Adds dir (fun name => c.accepted = some name) s.1
        (Registry.registerClass dir moduleName m s c).1 ∧
      ((Registry.registerClass dir moduleName m s c).2 = true ↔
        s.2 = true ∨ c.accepted.isSome = true) := by
  rw [Registry.registerClass]
  split
  next e he =>
    have hnone : c.accepted = none := by
      rw [ToolClass.accepted, he]
    rw [hnone]
    refine ⟨(adds_note dir s.1 _ _ (.inl rfl) (.inr rfl)).congr fun name => ?_, ?_⟩
    · exact iff_of_false id (Option.some_ne_none name).symm
    · exact (or_iff_left Bool.false_ne_true).symm
  next name he =>
    cases ha : c.accepted with
    | none =>
      refine ⟨(adds_note dir s.1 _ _ ?_ (.inr rfl)).congr fun name => ?_, ?_⟩
      · split
        next hgiven =>
          right
          cases name with
          | none => cases hgiven
          | some n =>
            rw [ToolClass.accepted, he] at ha
            dsimp only at ha
            split at ha
            next => cases ha
            next hv => exact Bool.eq_false_iff.2 hv
        next => exact .inl rfl
      · exact iff_of_false id (Option.some_ne_none name).symm
      · exact (or_iff_left Bool.false_ne_true).symm
    | some n =>
      refine ⟨(adds_tool dir s.1 _ moduleName ha).congr fun name => ?_, ?_⟩
      · rw [Option.some.injEq, eq_comm]
      · exact iff_of_true rfl (.inr rfl)

theorem adds_module (dir moduleName : String) (m : ToolModule) (r : Registry) :
    Adds dir (fun name => ∃ c ∈ m.classes, c.accepted = some name) r
        (r.registerModuleTools dir moduleName m).1 ∧
      ((r.registerModuleTools dir moduleName m).2 = true ↔
        ∃ c ∈ m.classes, c.accepted.isSome = true) := by
  have hrun (cs : List ToolClass) (s : Registry × Bool) :
      Adds dir (fun name => ∃ c ∈ cs, c.accepted = some name) s.1
          (cs.foldl (Registry.registerClass dir moduleName m) s).1 ∧
        ((cs.foldl (Registry.registerClass dir moduleName m) s).2 = true ↔
          s.2 = true ∨ ∃ c ∈ cs, c.accepted.isSome = true) := by
    induction cs generalizing s with
    | nil =>
      constructor
      · exact (Adds.refl dir s.1).congr fun name => by simp
      · simp
    | cons c cs ih =>
      obtain ⟨hadds, hfound⟩ := adds_class dir moduleName m s c
      obtain ⟨hrest, hfounds⟩ := ih (Registry.registerClass dir moduleName m s c)
      rw [List.foldl_cons]
      refine ⟨(hadds.trans hrest).congr fun name => ?_, ?_⟩
      · rw [List.exists_mem_cons_iff]
      · rw [hfounds, hfound, List.exists_mem_cons_iff, or_assoc]
  obtain ⟨hadds, hfound⟩ := hrun m.classes (r, false)
  exact ⟨hadds, hfound.trans (or_iff_right Bool.false_ne_true)⟩

theorem adds_package (r : Registry) (dir : String) (package : Except String ToolModule) :
    Adds dir (fun name => ∃ m ∈ package.toOption.toList, ∃ c ∈ m.classes, c.accepted = some name) r
        (r.registerPackage dir package).1 ∧
      ((r.registerPackage dir package).2 = true ↔
        ∃ m ∈ package.toOption.toList, ∃ c ∈ m.classes, c.accepted.isSome = true) := by
  cases package with
  | ok m =>
    obtain ⟨hadds, hfound⟩ := adds_module dir ("tools." ++ dir) m r
    exact ⟨hadds.congr fun name => by simp [Except.toOption], hfound.trans (by simp [Except.toOption])⟩
  | error e =>
    exact ⟨(adds_note dir r _ _ (.inl rfl) (.inl rfl)).congr fun name => by simp [Except.toOption],
      by simp [Registry.registerPackage, Except.toOption]⟩

theorem adds_submodule (r : Registry) (dir : String) (tool : Except (Option String) ToolModule) :
    Adds dir (fun name => ∃ m ∈ tool.toOption.toList, ∃ c ∈ m.classes, c.accepted = some name) r
        (r.registerSubmodule dir tool).1 ∧
      ((r.registerSubmodule dir tool).2 = true ↔
        ∃ m ∈ tool.toOption.toList, ∃ c ∈ m.classes, c.accepted.isSome = true) := by
  cases tool with
  | ok m =>
    obtain ⟨hadds, hfound⟩ := adds_module dir ("tools." ++ dir ++ ".tool") m r
    exact ⟨hadds.congr fun name => by simp [Except.toOption], hfound.trans (by simp [Except.toOption])⟩
  | error e =>
    cases e with
    | none =>
      exact ⟨(Adds.refl dir r).congr fun name => by simp [Except.toOption],
        by simp [Registry.registerSubmodule, Except.toOption]⟩
    | some e =>
      exact ⟨(adds_note dir r _ _ (.inl rfl) (.inl rfl)).congr fun name => by simp [Except.toOption],
        by simp [Registry.registerSubmodule, Except.toOption]⟩

/-- A directory that is there: its classes are registered, and if there are none a record says so. -/
theorem discoverTool_found (packages : String → Package) (r : Registry) (dir : String)
    (h : (packages dir).found = true) :
    Adds dir (Registers (packages dir)) r (r.discoverTool packages dir) ∧
      ((Dict.get (r.discoverTool packages dir).discovery dir).isSome = true ∨
        ∃ name, Registers (packages dir) name) := by
  obtain ⟨hfirst, hfound⟩ := adds_package r dir (packages dir).package
  obtain ⟨hsecond, hfound'⟩ := adds_submodule (r.registerPackage dir (packages dir).package).1 dir
    (packages dir).tool
  have hboth : Adds dir (Registers (packages dir)) r
      ((r.registerPackage dir (packages dir).package).1.registerSubmodule dir
        (packages dir).tool).1 := by
    refine (hfirst.trans hsecond).congr fun name => ?_
    rw [Registers, Package.modules, h]
    simp only [List.mem_append, or_and_right, exists_or, true_and]
  have hany : ((r.registerPackage dir (packages dir).package).2 ||
      ((r.registerPackage dir (packages dir).package).1.registerSubmodule dir
        (packages dir).tool).2) = true → ∃ name, Registers (packages dir) name := by
    intro hany
    rw [Bool.or_eq_true, hfound, hfound'] at hany
    obtain ⟨m, hm, c, hc, hsome⟩ | ⟨m, hm, c, hc, hsome⟩ := hany
    · obtain ⟨name, hname⟩ := Option.isSome_iff_exists.1 hsome
      exact ⟨name, h, m, List.mem_append_left _ hm, c, hc, hname⟩
    · obtain ⟨name, hname⟩ := Option.isSome_iff_exists.1 hsome
      exact ⟨name, h, m, List.mem_append_right _ hm, c, hc, hname⟩
  rw [Registry.discoverTool]
  dsimp only
  rw [h, if_neg Bool.true_eq_false.mp]
  split
  next hnone =>
    refine ⟨(hboth.trans (adds_note dir _ _ _ (.inl rfl) (.inr rfl))).congr fun name =>
      or_iff_left id, .inl ?_⟩
    rw [Registry.note, Dict.get_isSome_set]
    exact .inl rfl
  next hsome =>
    refine ⟨hboth, ?_⟩
    rw [not_and_or, Bool.not_eq_false, Decidable.not_not] at hsome
    exact hsome.symm.imp (Dict.get_isSome _ dir).2 hany

/-- After some directories: the tools are those of their classes, and each directory is told of. -/
structure Told (packages : String → Package) (dirs : List String) (r : Registry) : Prop where
  tools : ∀ name, (Dict.get r.tools name).isSome = true ↔
    ∃ dir ∈ dirs, Registers (packages dir) name
  named : ∀ name t, Dict.get r.tools name = some t → t.cls.accepted = some name
  nodup : (r.tools.map Prod.fst).Nodup
  records : ∀ key d, validName key = true → Dict.get r.discovery key = some d →
    (Dict.get r.tools key).isSome = true ∨ d.status = .failed ∨ d.status = .rejected ∨
      (packages key).found = false
  told : ∀ dir ∈ dirs, (Dict.get r.discovery dir).isSome = true ∨
    ∃ name, Registers (packages dir) name

theorem Told.init (packages : String → Package) : Told packages [] {} where
  tools name := by simp
  named name t ht := by cases ht
  nodup := List.nodup_nil
  records key d _ hd := by cases hd
  told dir hdir := absurd hdir List.not_mem_nil

theorem Told.step (h : Told packages dirs r) (dir : String) :
    Told packages (dirs ++ [dir]) (r.discoverTool packages dir) := by
  have hlast (name : String) : (∃ dir' ∈ dirs ++ [dir], Registers (packages dir') name) ↔
      (∃ dir' ∈ dirs, Registers (packages dir') name) ∨ Registers (packages dir) name := by
    simp only [List.mem_append, List.mem_singleton, or_and_right, exists_or, exists_eq_left]
  cases hfound : (packages dir).found with
  | true =>
    obtain ⟨hadds, htold⟩ := discoverTool_found packages r dir hfound
    refine ⟨fun name => ?_, hadds.named h.named, hadds.nodup h.nodup, fun key d hv hd => ?_,
      fun dir' hdir' => ?_⟩
    · rw [hadds.tools, h.tools, hlast]
    · rcases hadds.new key d hv hd with hd | htool | ⟨-, hstatus⟩
      · rcases h.records key d hv hd with htool | hrest
        · exact .inl ((hadds.tools key).2 (.inl htool))
        · exact .inr hrest
      · exact .inl htool
      · exact .inr (hstatus.imp_right .inl)
    · rcases List.mem_append.1 hdir' with hdir' | hdir'
      · exact (h.told dir' hdir').imp_left (hadds.kept dir')
      · rw [List.mem_singleton.1 hdir']
        exact htold
  | false =>
    have hnot (name : String) : ¬ Registers (packages dir) name := by
      intro hreg
      rw [Registers, hfound] at hreg
      cases hreg.1
    have hstep : r.discoverTool packages dir = r.note dir .missing ("tools." ++ dir)
        (some ("Directory not found: " ++ (packages dir).path)) := by
      rw [Registry.discoverTool]
      dsimp only
      rw [hfound, if_pos rfl]
    rw [hstep]
    refine ⟨fun name => ?_, h.named, h.nodup, fun key d hv hd => ?_, fun dir' hdir' => ?_⟩
    · rw [hlast, or_iff_left (hnot name)]
      exact h.tools name
    · rw [Registry.note, Dict.get_set] at hd
      split at hd
      next he =>
        rw [he]
        exact .inr (.inr (.inr hfound))
      next => exact h.records key d hv hd
    · rw [Registry.note, Dict.get_isSome_set]
      rcases List.mem_append.1 hdir' with hdir' | hdir'
      · exact (h.told dir' hdir').imp_left .inr
      · exact .inl (.inl (List.mem_singleton.1 hdir'))

theorem Told.run (h : Told packages dirs r) (dirs' : List String) :
    Told packages (dirs ++ dirs') (dirs'.foldl (Registry.discoverTool packages) r) := by
  induction dirs' generalizing dirs r with
  | nil =>
    rw [List.append_nil]
    exact h
  | cons dir dirs' ih =>
    have hrest := ih (h.step dir)
    rw [List.append_assoc] at hrest
    exact hrest

theorem validName_coreTools : ∀ dir ∈ coreTools, validName dir = true := by decide

theorem accepted_iff (r : Registry) (name : String) :
    (∃ t, r.enqueueTool name = .accepted t) ↔ (Dict.get r.tools name).isSome = true := by
  rw [Registry.enqueueTool]
  cases Dict.get r.tools name with
  | some t => exact iff_of_true ⟨t, rfl⟩ rfl
  | none =>
    refine iff_of_false ?_ Bool.false_ne_true
    rintro ⟨t, ht⟩
    dsimp only at ht
    split at ht
    next =>
      split at ht
      next => cases ht
      next => cases ht
    next => cases ht

/-- Whatever the imports come to: the names that a request is accepted for are those that a class of
the tools' packages takes, and the manifest lists just these, each once. A tool whose name no class
takes is answered as degraded, unless its directory is missing or its classes have other names. -/
theorem core_tools_answered (packages : String → Package) :
    (∀ name, (∃ t, (loadAll packages).enqueueTool name = .accepted t ∧ t.cls.accepted = some name) ↔
      ∃ dir ∈ coreTools, Registers (packages dir) name) ∧
    (∀ name, name ∈ (loadAll packages).schemaList.map ManifestEntry.name ↔
      ∃ t, (loadAll packages).enqueueTool name = .accepted t) ∧
    ((loadAll packages).schemaList.map ManifestEntry.name).Nodup ∧
    ∀ dir ∈ coreTools, (∃ t, (loadAll packages).enqueueTool dir = .accepted t) ∨
      (∃ detail, (loadAll packages).enqueueTool dir = .degraded detail) ∨
      (packages dir).found = false ∨ ∃ name, name ≠ dir ∧ Registers (packages dir) name := by
  have h : Told packages coreTools (loadAll packages) := (Told.init packages).run coreTools
  generalize loadAll packages = r at h
  have hnames : r.schemaList.map ManifestEntry.name = r.tools.map Prod.fst := by
    rw [Registry.schemaList, List.map_map]
    rfl
  rw [hnames]
  refine ⟨fun name => ?_, fun name => ?_, h.nodup, fun dir hdir => ?_⟩
  · rw [← h.tools, ← accepted_iff]
    constructor
    · rintro ⟨t, ht, -⟩
      exact ⟨t, ht⟩
    · rintro ⟨t, ht⟩
      refine ⟨t, ht, h.named name t ?_⟩
      obtain ⟨t', ht'⟩ := Option.isSome_iff_exists.1 ((accepted_iff r name).1 ⟨t, ht⟩)
      rw [Registry.enqueueTool, ht'] at ht
      cases ht
      exact ht'
  · rw [accepted_iff, Dict.get_isSome]
  · rw [accepted_iff]
    by_cases htool : (Dict.get r.tools dir).isSome = true
    · exact .inl htool
    · have hother (name : String) (hreg : Registers (packages dir) name) : name ≠ dir := by
        rintro rfl
        exact htool ((h.tools name).2 ⟨name, hdir, hreg⟩)
      refine .inr ?_
      rcases h.told dir hdir with hsome | ⟨name, hreg⟩
      · obtain ⟨d, hd⟩ := Option.isSome_iff_exists.1 hsome
        rcases h.records dir d (validName_coreTools dir hdir) hd with hin | hstatus
        · exact absurd hin htool
        · rw [← or_assoc] at hstatus
          rcases hstatus with hstatus | hmissing
          · left
            refine ⟨"Tool " ++ dir ++ " is currently degraded: " ++ d.error.getD "None", ?_⟩
            rw [Registry.enqueueTool, Option.not_isSome_iff_eq_none.1 htool, hd]
            exact if_pos hstatus
          · exact .inr (.inl hmissing)
      · exact .inr (.inr ⟨name, hother name hreg, hreg⟩)

end Tools
