import NavScript.Analysis
import NavScript.Check.Run
import NavScript.Main
import NavScript.Tree.Equality
import NavScript.Proofs.Locals
import NavScript.Proofs.Alarms
import NavScript.Proofs.Composites
import NavScript.Proofs.Balance
import NavScript.Proofs.Expressions
import NavScript.Proofs.Views
import NavScript.Proofs.Meaning
import NavScript.Proofs.Faultless
import NavScript.Proofs.Depth
import NavScript.Proofs.Discipline
import NavScript.Proofs.Faithful
import NavScript.Proofs.Folding
import NavScript.Proofs.Registrations
import NavScript.Proofs.Subtyping
import NavScript.Proofs.Arguments
import NavScript.Proofs.Kept
import NavScript.Proofs.Unanswered
import NavScript.Proofs.Performed
import NavScript.Proofs.TypeNotation
import NavScript.Proofs.Serialized
import NavScript.Proofs.ScopeChain
import NavScript.Proofs.VoidPasses
import NavScript.Proofs.Inheritance
import NavScript.Proofs.Overloads
import NavScript.Proofs.Regions
import NavScript.Proofs.OwnOperands
import NavScript.Proofs.Results
import NavScript.Proofs.Rejected
import NavScript.Proofs.Numerals
import NavScript.Proofs.Decimals
import NavScript.Proofs.Abandoned
import NavScript.Proofs.Prefixed
import NavScript.Proofs.Marks
import NavScript.Proofs.Placing
