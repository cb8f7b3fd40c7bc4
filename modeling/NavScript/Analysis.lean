import NavScript.Leftover
import NavScript.Returns
import NavScript.Widening

/-!
# The analysis of a script

Five passes over the tree: navigations, operators, widening, results of methods, and the report of
what is left. Diagnostics add up; a fault ends the analysis.
-/

namespace NavScript

inductive Pass where
  | navigation | operators | widening | returns | unresolved
deriving DecidableEq, Inhabited, Repr

namespace Pass

/-- All passes in the order in which an analysis runs them. -/
def standard : List Pass := [navigation, operators, widening, returns, unresolved]

def name : Pass → String
  | navigation => "navigation"
  | operators => "operators"
  | widening => "widening"
  | returns => "returns"
  | unresolved => "unresolved"

def ofName? (s : String) : Option Pass := standard.find? (·.name == s)

/-- The tree a pass makes, or its fault, and the diagnostics it adds. -/
def run (cx : Context) (pass : Pass) (root : Node) : Except Fault Node × List Diagnostic :=
  match pass with
  | navigation => resolveNavigation cx root
  | operators => (.ok (resolveOperators cx root), [])
  | widening => (.ok (widenNumbers cx root), [])
  | returns =>
    let (root, new) := checkReturns cx root
    (.ok root, new)
  | unresolved => (.ok root, leftovers root)

end Pass

/-- An analysed tree and what there is to say about it. -/
structure Analysis where
  root : Node
  diagnostics : List Diagnostic

namespace Analysis

/-- Code can be made from the tree unless there is an error; warnings do not count. -/
def canEmit (a : Analysis) : Bool := !a.diagnostics.any (·.isError)

end Analysis

/-- Runs passes one after another. -/
def runPasses (cx : Context) : List Pass → Analysis → Except Fault Analysis
  | [], a => .ok a
  | pass :: rest, a =>
    match pass.run cx a.root with
    | (.ok root, new) => runPasses cx rest ⟨root, a.diagnostics ++ new⟩
    | (.error fault, _) => .error fault

/-- The analysis of a tree. -/
def analyze (cx : Context) (root : Node) : Except Fault Analysis :=
  runPasses cx Pass.standard ⟨root, []⟩

end NavScript
