import ControllerUniffi.Text.Basic

/-!
# The binding generators

The commands that generate the C++, C# and Go bindings run a tool on the paths that they read in their arguments
(`main_eq_run_iff`).  They read these in two passes over one list: the positional arguments are those that do not begin
with `--`, and the configuration is what stands behind `--config`.  So the value of `--config` is read as a positional
argument too, and the paths are right iff it stands behind both positional arguments or agrees with what it displaces
(`paths_eq_iff`).
-/

namespace ControllerUniffi.Bindgen

/-! ### The commands -/

/-- `arg.starts_with("--")` -/
def isOption (arg : String) : Bool := "--".toList <+: arg.toList

/-- What the three commands differ in. -/
structure Generator where
  tool : String
  defaultInput : String
  defaultOut : String
  defaultConfig : String
  /-- The error text for a missing input. -/
  notFound : String
  /-- The arguments of the tool before the configuration, from the input, the output directory and all arguments. -/
  arguments : String → String → List String → List String

def uniffiBindgenCpp : Generator where
  tool := "uniffi-bindgen-cpp"
  defaultInput := "src/controller.udl"
  defaultOut := "../../bindings/cpp"
  defaultConfig := "uniffi.toml"
  notFound := "Error: UDL file not found: "
  arguments udlPath outDir _ := [udlPath, "--out-dir", outDir]

/-- The extension of libraries depends on the platform. -/
def uniffiBindgenCsharp (libExt : String) : Generator where
  tool := "uniffi-bindgen-cs"
  defaultInput := "target/release/libcontroller_uniffi." ++ libExt
  defaultOut := "bindings/csharp"
  defaultConfig := "crates/uniffi/uniffi.toml"
  notFound := "Error: Library file not found: "
  arguments libraryPath outDir args :=
    [libraryPath, "--library", "--out-dir", outDir] ++ if "--no-format" ∈ args then ["--no-format"] else []

def uniffiBindgenGo : Generator where
  tool := "uniffi-bindgen-go"
  defaultInput := "crates/uniffi/src/controller.udl"
  defaultOut := "bindings/go"
  defaultConfig := "crates/uniffi/uniffi.toml"
  notFound := "Error: UDL file not found: "
  arguments udlPath _ _ := [udlPath]

/-- The arguments behind the name of the program that do not begin with `--`. -/
def positionalArgs (args : List String) : List String := (args.drop 1).filter fun arg => ! isOption arg

/-- What stands behind the first `--config`, if there is one. -/
def configArg (args : List String) : Option (Option String) :=
  (args.findIdx? (· = "--config")).map fun configIdx => args[configIdx + 1]?

structure Paths where
  input : String
  outDir : String
  config : Option String
  deriving DecidableEq, Repr

/-- The paths that the arguments name. -/
def Generator.paths (g : Generator) (args : List String) : Paths where
  input := (positionalArgs args)[0]?.getD g.defaultInput
  outDir := (positionalArgs args)[1]?.getD g.defaultOut
  config := (configArg args).join

/-- What a command finds: installed tools, files, and whether directories can be created. -/
structure Environment where
  installed : String → Bool
  pathExists : String → Bool
  createDirAll : String → Except String Unit

/-- How a command goes on: it shows its help, stops with an error text, or runs the tool with arguments. -/
inductive Plan where
  | help
  | stop (message : String)
  | run (tool : String) (arguments : List String)
  deriving DecidableEq, Repr

/-- Without `--config` the default configuration is used if it exists; a `--config` at the end is ignored. -/
def Generator.configArguments (g : Generator) (env : Environment) (args : List String) : List String :=
  match configArg args with
  | some (some configPath) => ["--config", configPath]
  | some none => []
  | none => if env.pathExists g.defaultConfig then ["--config", g.defaultConfig] else []

def Generator.main (g : Generator) (env : Environment) (args : List String) : Plan :=
  if args[1]? = some "--help" ∨ args[1]? = some "-h" then .help
  else if env.installed g.tool = false then
    .stop ("Error: " ++ g.tool ++ " is not installed or not in PATH")
  else
    let paths := g.paths args
    if env.pathExists paths.input = false then .stop (g.notFound ++ paths.input)
    else
      match env.createDirAll paths.outDir with
      | .error e => .stop ("Error: Failed to create output directory " ++ paths.outDir ++ ": " ++ e)
      | .ok () => .run g.tool (g.arguments paths.input paths.outDir args ++ g.configArguments env args)

section

variable {g : Generator} {env : Environment} {args : List String}

/-- The tool is given the configuration that the arguments name, or the default one when they have no `--config`. -/
theorem configArguments_eq : g.configArguments env args =
    match (g.paths args).config with
    | some configPath => ["--config", configPath]
    | none =>
      if configArg args = none ∧ env.pathExists g.defaultConfig = true then ["--config", g.defaultConfig] else [] := by
  unfold Generator.configArguments Generator.paths
  rcases configArg args with _ | _ | configPath
  · simp
  · simp
  · simp

/-- A command that is not asked for help runs its tool, when this is installed, the input exists and the output
directory can be created, on the paths that the arguments name. -/
theorem main_eq_run_iff {tool : String} {arguments : List String} :
    g.main env args = .run tool arguments ↔
      (args[1]? ≠ some "--help" ∧ args[1]? ≠ some "-h") ∧ env.installed g.tool = true ∧
      env.pathExists (g.paths args).input = true ∧ env.createDirAll (g.paths args).outDir = .ok () ∧ g.tool = tool ∧
      g.arguments (g.paths args).input (g.paths args).outDir args ++ g.configArguments env args = arguments := by
  unfold Generator.main
  by_cases hhelp : args[1]? = some "--help" ∨ args[1]? = some "-h"
  · rw [if_pos hhelp]
    tauto
  · rw [if_neg hhelp]
    have hnot := not_or.1 hhelp
    cases hinstalled : env.installed g.tool with
    | false => simp
    | true =>
      cases hinput : env.pathExists (g.paths args).input with
      | false => simp [hinput]
      | true =>
        cases hdir : env.createDirAll (g.paths args).outDir with
        | error e => simp [hinput, hdir]
        | ok _ => simp [hinput, hdir, hnot]

end

/-! ### Command lines -/

/-- A part of a command line. -/
inductive Item where
  | path (path : String)
  | flag (flag : String)
  | config (value : String)
  deriving DecidableEq, Repr

namespace Item

def render : Item → List String
  | path p => [p]
  | flag f => [f]
  | config v => ["--config", v]

def path? : Item → Option String
  | path p => some p
  | _ => none

def config? : Item → Option String
  | config v => some v
  | _ => none

/-- No path begins with `--`, and every flag does; a flag is not the mark of a configuration. -/
def WellFormed : Item → Prop
  | path p => isOption p = false
  | flag f => isOption f = true ∧ f ≠ "--config"
  | config v => isOption v = false

end Item

/-- The positional paths among the items, in order. -/
def positionals (items : List Item) : List String := items.filterMap Item.path?

/-- At most two positional paths, at most one configuration, and flags, in any order, behind the name of the program;
not a request for help. -/
structure CommandLine where
  program : String
  items : List Item
  program_ne : program ≠ "--config"
  wellFormed : ∀ item ∈ items, item.WellFormed
  two_paths : (positionals items).length ≤ 2
  one_config : (items.filterMap Item.config?).length ≤ 1
  not_help : ∀ arg, (items.flatMap Item.render)[0]? = some arg → arg ≠ "--help" ∧ arg ≠ "-h"

def CommandLine.args (c : CommandLine) : List String := c.program :: c.items.flatMap Item.render

/-- The paths as they stand in the command line: the positional ones by position, the configuration by its mark. -/
def CommandLine.expected (c : CommandLine) (g : Generator) : Paths where
  input := (positionals c.items)[0]?.getD g.defaultInput
  outDir := (positionals c.items)[1]?.getD g.defaultOut
  config := (c.items.filterMap Item.config?).head?

/-! ### What the two passes read -/

theorem isOption_config : isOption "--config" = true := by decide

/-- The first pass also reads the value of the configuration. -/
def Item.positional? : Item → Option String
  | .path p => some p
  | .config v => some v
  | .flag _ => none

theorem positionalArgs_render {items : List Item} (h : ∀ item ∈ items, item.WellFormed) (program : String) :
    positionalArgs (program :: items.flatMap Item.render) = items.filterMap Item.positional? := by
  show (items.flatMap Item.render).filter _ = _
  induction items with
  | nil => rfl
  | cons item items ih =>
    have hitem : item.WellFormed := h item List.mem_cons_self
    have hrest := ih fun i hi => h i (List.mem_cons_of_mem item hi)
    rw [List.flatMap_cons, List.filter_append, hrest]
    cases item with
    | path p =>
      have hp : isOption p = false := hitem
      simp [Item.render, Item.positional?, hp]
    | flag f =>
      have hf : isOption f = true := hitem.1
      rw [List.filterMap_cons_none rfl]
      simp [Item.render, hf]
    | config v =>
      have hv : isOption v = false := hitem
      simp [Item.render, Item.positional?, hv, isOption_config]

theorem configArg_cons (arg : String) (rest : List String) :
    configArg (arg :: rest) = if arg = "--config" then some rest[0]? else configArg rest := by
  unfold configArg
  rw [List.findIdx?_cons]
  by_cases h : arg = "--config"
  · simp [h]
  · simp only [h, decide_false, Bool.false_eq_true, ↓reduceIte, Option.map_map]
    rfl

theorem configArg_render {items : List Item} (h : ∀ item ∈ items, item.WellFormed) :
    (configArg (items.flatMap Item.render)).join = (items.filterMap Item.config?).head? := by
  induction items with
  | nil => rfl
  | cons item items ih =>
    have hitem : item.WellFormed := h item List.mem_cons_self
    have hrest := ih fun i hi => h i (List.mem_cons_of_mem item hi)
    rw [List.flatMap_cons]
    cases item with
    | path p =>
      have hp : p ≠ "--config" := by
        rintro rfl
        exact absurd (hitem.symm.trans isOption_config) (by decide)
      show (configArg (p :: items.flatMap Item.render)).join = _
      rw [configArg_cons, if_neg hp, hrest]
      rfl
    | flag f =>
      show (configArg (f :: items.flatMap Item.render)).join = _
      rw [configArg_cons, if_neg hitem.2, hrest]
      rfl
    | config v =>
      show (configArg ("--config" :: v :: items.flatMap Item.render)).join = _
      rw [configArg_cons, if_pos rfl]
      rfl

/-! ### When the paths are right -/

/-- The value `v` of the configuration stands behind the positional paths `before` and ahead of `after`, and reading it
as a positional path too makes no difference. -/
def Harmless (g : Generator) (before : List String) (v : String) (after : List String) : Prop :=
  before.length = 2 ∨
  (before.length = 1 ∧ v = after[0]?.getD g.defaultOut) ∨
  (before = [] ∧ v = after[0]?.getD g.defaultInput ∧ after[0]?.getD g.defaultOut = after[1]?.getD g.defaultOut)

theorem harmless_iff {g : Generator} {before after : List String} {v : String}
    (h : before.length + after.length ≤ 2) :
    ((before ++ v :: after)[0]?.getD g.defaultInput = (before ++ after)[0]?.getD g.defaultInput ∧
      (before ++ v :: after)[1]?.getD g.defaultOut = (before ++ after)[1]?.getD g.defaultOut) ↔
    Harmless g before v after := by
  unfold Harmless
  match before, after, h with
  | [], after, _ => simp
  | [p], after, _ => simp
  | [p, q], after, _ => simp
  | p :: q :: r :: before, after, h => simp at h; omega

section

variable {items : List Item}

/-- Without a configuration both passes agree. -/
theorem positional_of_no_config (h : items.filterMap Item.config? = []) :
    items.filterMap Item.positional? = positionals items := by
  refine List.filterMap_congr fun item hitem => ?_
  cases item with
  | config v =>
    have hv : v ∈ items.filterMap Item.config? := List.mem_filterMap.2 ⟨.config v, hitem, rfl⟩
    rw [h] at hv
    cases hv
  | _ => rfl

theorem configs_split (before : List Item) (v : String) (after : List Item) :
    (before ++ .config v :: after).filterMap Item.config? =
      before.filterMap Item.config? ++ v :: after.filterMap Item.config? := by
  rw [List.filterMap_append]
  rfl

theorem positional_split (before : List Item) (v : String) (after : List Item) :
    (before ++ .config v :: after).filterMap Item.positional? =
      before.filterMap Item.positional? ++ v :: after.filterMap Item.positional? := by
  rw [List.filterMap_append]
  rfl

theorem positionals_split (before : List Item) (v : String) (after : List Item) :
    positionals (before ++ .config v :: after) = positionals before ++ positionals after := by
  rw [positionals, List.filterMap_append]
  rfl

/-- There is a place of the configuration, or none. -/
theorem config_or_none (items : List Item) :
    items.filterMap Item.config? = [] ∨ ∃ before v after, items = before ++ .config v :: after := by
  by_cases h : ∃ v, Item.config v ∈ items
  · obtain ⟨v, hv⟩ := h
    obtain ⟨before, after, hitems⟩ := List.append_of_mem hv
    exact .inr ⟨before, v, after, hitems⟩
  · left
    refine List.filterMap_eq_nil_iff.2 fun item hitem => ?_
    cases item with
    | config v => exact absurd ⟨v, hitem⟩ h
    | _ => rfl

end

theorem paths_eq_expected_iff (g : Generator) (c : CommandLine) :
    g.paths c.args = c.expected g ↔
      (c.items.filterMap Item.positional?)[0]?.getD g.defaultInput = (positionals c.items)[0]?.getD g.defaultInput ∧
      (c.items.filterMap Item.positional?)[1]?.getD g.defaultOut = (positionals c.items)[1]?.getD g.defaultOut := by
  have hpositional : positionalArgs c.args = c.items.filterMap Item.positional? :=
    positionalArgs_render c.wellFormed c.program
  have hconfig : (configArg c.args).join = (c.items.filterMap Item.config?).head? := by
    rw [CommandLine.args, configArg_cons, if_neg c.program_ne, configArg_render c.wellFormed]
  rw [Generator.paths, CommandLine.expected, Paths.mk.injEq, hpositional, hconfig]
  simp only [and_true]

theorem paths_eq_iff_of_split (g : Generator) (c : CommandLine) {before after : List Item} {v : String}
    (h : c.items = before ++ .config v :: after) :
    g.paths c.args = c.expected g ↔ Harmless g (positionals before) v (positionals after) := by
  have hone : (before.filterMap Item.config?).length + ((after.filterMap Item.config?).length + 1) ≤ 1 := by
    have := c.one_config
    rwa [h, configs_split, List.length_append, List.length_cons] at this
  have htwo : (positionals before).length + (positionals after).length ≤ 2 := by
    have := c.two_paths
    rwa [h, positionals_split, List.length_append] at this
  have hbefore : before.filterMap Item.config? = [] := List.length_eq_zero_iff.1 (by omega)
  have hafter : after.filterMap Item.config? = [] := List.length_eq_zero_iff.1 (by omega)
  rw [paths_eq_expected_iff, h, positional_split, positionals_split, positional_of_no_config hbefore,
    positional_of_no_config hafter]
  exact harmless_iff htwo

/-- The commands read the paths as they stand in the command line iff every configuration in it is harmless. -/
theorem paths_eq_iff (g : Generator) (c : CommandLine) :
    g.paths c.args = c.expected g ↔
      ∀ before v after, c.items = before ++ .config v :: after →
        Harmless g (positionals before) v (positionals after) := by
  constructor
  · intro h before v after hitems
    exact (paths_eq_iff_of_split g c hitems).1 h
  · intro h
    rcases config_or_none c.items with hnone | ⟨before, v, after, hitems⟩
    · rw [paths_eq_expected_iff, positional_of_no_config hnone]
      exact ⟨rfl, rfl⟩
    · exact (paths_eq_iff_of_split g c hitems).2 (h before v after hitems)

/-- A configuration and nothing else. -/
def configOnly : CommandLine where
  program := "uniffi-bindgen-cpp"
  items := [.config "uniffi.toml"]
  program_ne := by decide
  wellFormed item h := by
    cases List.mem_singleton.1 h
    show isOption "uniffi.toml" = false
    decide
  two_paths := by decide
  one_config := by decide
  not_help arg h := by
    cases h
    exact ⟨by decide, by decide⟩

/-- The value of the configuration is taken for the input. -/
theorem paths_configOnly : uniffiBindgenCpp.paths configOnly.args ≠ configOnly.expected uniffiBindgenCpp := by
  decide

end ControllerUniffi.Bindgen
