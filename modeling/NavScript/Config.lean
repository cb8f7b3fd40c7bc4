import NavScript.Navigator.Registry

/-!
# Options of the analysis
-/

namespace NavScript

structure Config where
  conflictPolicy : ConflictPolicy := .firstWins
  /-- Whether primitives in a chain are boxed and guarded like references. -/
  boxPrimitiveGuards : Bool := true
  /-- Whether arithmetic over constants is done at compile time. -/
  foldLiterals : Bool := true
deriving DecidableEq

end NavScript
