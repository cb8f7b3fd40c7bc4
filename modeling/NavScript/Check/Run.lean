import NavScript.Analysis
import NavScript.Check.Arguments
import NavScript.Check.Files
import NavScript.Diagnostic.Report
import NavScript.Setup.Basic
import NavScript.Setup.Options

/-!
# The check of a compilation unit

Everything is read first: options, manifests, the unit, its source. Then the unit is analysed and
what there is to say is reported. The result goes to the exit status and to two texts; nothing but
reading needs the world, and how a path is read is a parameter.
-/

namespace NavScript

/-- What a call ends with: exit status, standard output and standard error. -/
structure Outcome where
  status : Nat
  out : String := ""
  err : String := ""

/-- How the text at a path is read. -/
abbrev FileReader (m : Type → Type) := String → m (Except ReadFailure String)

namespace CheckCommand

def mode (c : CheckCommand) : ReportMode :=
  if c.json then .json else if c.color then .color else .plain

/-- All that an analysis needs. -/
structure Loaded where
  setup : Setup
  source : String
  unit : SourceUnit

/-- The options file that is taken when none is named, if it is there. -/
def defaultConfig (c : CheckCommand) : String :=
  Path.join ((Path.parent? c.tree).getD ".") "trail.toml"

section

variable {m : Type → Type} [Monad m] (read : FileReader m)

def unreadable (path : String) (why : ReadFailure) : String :=
  s!"Failed to read '{path}': {why.message}"

def loadConfig (c : CheckCommand) : ExceptT String m Config := do
  let path := c.config.getD c.defaultConfig
  let failed (e : SetupFailure) : String := s!"config {path}: {e.message}"
  match ← (read path : m _) with
  | .ok text =>
    match Config.read text with
    | .ok config => return config
    | .error e => throw (failed e)
  | .error why =>
    if c.config.isSome || why.isFile then throw (failed (.unreadable path why)) else return {}

def loadManifest (setup : Setup) (path : String) : ExceptT String m Setup := do
  let failed (e : SetupFailure) : String := s!"manifest {path}: {e.message}"
  match ← (read path : m _) with
  | .error why => throw (failed (.unreadable path why))
  | .ok text =>
    match Manifest.read path text with
    | .ok manifest => return setup.install manifest
    | .error e => throw (failed e)

def loadText (path : String) : ExceptT String m String := do
  match ← (read path : m _) with
  | .ok text => return text
  | .error why => throw (unreadable path why)

def load (c : CheckCommand) : ExceptT String m Loaded := do
  let config ← loadConfig read c
  let setup ← c.manifests.foldlM (loadManifest read) (.ofConfig config)
  let text ← loadText read c.tree
  match SourceUnit.read? text with
  | none => throw s!"'{c.tree}' is not a valid compilation unit: unexpected text or shape"
  | some unit =>
    let source ← match c.source with
      | some path => loadText read path
      | none => pure (unit.source.getD "")
    return ⟨setup, source, unit⟩

end

/-- The report that the check came to nothing. -/
def failure (c : CheckCommand) (message : String) : String :=
  if c.json then
    (Json.object [("code", .string "C0001"), ("severity", .string "error"),
      ("message", .string message), ("file", .string c.tree), ("spans", .array []),
      ("fix", .null)]).sorted.render ++ "\n"
  else s!"error: {message}\n"

/-- The analysis and its reports. -/
def analysis (c : CheckCommand) (l : Loaded) : Outcome :=
  match analyze (l.setup.context .standard l.unit.env) l.unit.root with
  | .error fault => { status := 1, err := c.failure s!"internal error: {fault.message}" }
  | .ok a =>
    let all := l.setup.warnings ++ a.diagnostics
    let err := String.join (all.map (·.report c.mode l.source (c.source.getD c.tree)))
    if all.any (·.isError) then
      { status := 1, err := err ++ c.failure "Analysis failed due to errors above." }
    else if !c.printTree then { status := 0, err }
    else
      let tree := if c.typed then a.root.renderTyped else a.root.render
      { status := 0, err, out := tree ++ "\n" }

def run {m : Type → Type} [Monad m] (read : FileReader m) (c : CheckCommand) : m Outcome := do
  match ← (c.load read).run with
  | .ok l => return c.analysis l
  | .error message => return { status := 1, err := c.failure message }

end CheckCommand

def helpText : String :=
  "Resolve a compilation unit and report its diagnostics

Usage: trailc check [OPTIONS] <TREE>

Arguments:
  <TREE>  Path to the compilation unit (JSON, as written by the front end)

Options:
      --manifest <PATH>  Navigator manifest to load (may be given more than once)
      --config <CONFIG>  Analysis configuration (TOML)
      --source <SOURCE>  Source text for rendering diagnostics; overrides the unit's own
      --print-tree       Print the resolved tree to stdout
      --typed            Annotate the printed tree with resolved types
      --json             Output diagnostics as JSON (one object per line) instead of human-readable
                         format
      --no-color         Disable colorized output
  -h, --help             Print help
"

/-- What a call with these arguments ends with. -/
def check {m : Type → Type} [Monad m] (read : FileReader m) (arguments : List String) :
    m Outcome :=
  match Invocation.ofTexts? arguments with
  | some (.check c) => c.run read
  | some .help => return { status := 0, out := helpText }
  | none => return { status := 2 }

end NavScript
