import NavScript.Operator.Table
import NavScript.Setup.Manifest
import NavScript.SourceUnit

/-!
# The setup of an analysis

The classes and navigators that scripts are analysed against: the built-in ones, then those of each
manifest in turn. Navigators that found their slot taken are kept as warnings.
-/

namespace NavScript

structure Setup where
  config : Config := {}
  classes : ClassTable := .builtin
  navigators : Registry
  warnings : List Diagnostic := []

namespace Setup

/-- What is there without any manifest. -/
def ofConfig (config : Config) : Setup :=
  { config, navigators := .standard config.conflictPolicy }

def addClasses (s : Setup) (ds : List ClassDef) : Setup :=
  { s with classes := ds.foldl ClassTable.add s.classes }

def addNavigators (s : Setup) (gs : List Registration) : Setup :=
  let (navigators, new) := s.navigators.load gs
  { s with navigators, warnings := s.warnings ++ new }

def install (s : Setup) (m : Manifest) : Setup :=
  (s.addClasses m.classes).addNavigators m.registrations

def context (s : Setup) (operators : OperatorTable) (env : Environment) : Context :=
  ⟨s.classes, s.navigators, operators, s.config, env⟩

end Setup

end NavScript
