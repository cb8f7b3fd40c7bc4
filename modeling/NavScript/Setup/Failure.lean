/-!
# Failures of a setup

What can be wrong with a file of options or a manifest, before any script is looked at.
-/

namespace NavScript

/-- Why the text of a file could not be had. -/
inductive ReadFailure where
  | missing
  | isDirectory
  /-- The path goes on behind a file. -/
  | notDirectory
  /-- The path or one of its names is too long. -/
  | tooLong
  | notText
  | other (reason : String)
deriving DecidableEq, Inhabited, Repr

def ReadFailure.message : ReadFailure → String
  | missing => "No such file or directory (os error 2)"
  | isDirectory => "Is a directory (os error 21)"
  | notDirectory => "Not a directory (os error 20)"
  | tooLong => "File name too long (os error 36)"
  | notText => "stream did not contain valid UTF-8"
  | other reason => reason

/-- Whether a path without a readable text may still be a file. -/
def ReadFailure.isFile : ReadFailure → Bool
  | missing | isDirectory | notDirectory | tooLong => false
  | notText | other _ => true

/-- What is wrong with a navigator of a manifest. -/
inductive NavigatorFlaw where
  | noTests
  | notOneTarget
deriving DecidableEq, Inhabited, Repr

def NavigatorFlaw.message : NavigatorFlaw → String
  | noTests => "no tests given"
  | notOneTarget => "exactly one of `property` or `method` is required"

inductive SetupFailure where
  | unreadable (path : String) (why : ReadFailure)
  /-- Not a table of options, or not one of the expected shape. -/
  | malformed
  | badType (text : String)
  | unknownClass (name manifest : String)
  | badNavigator (declaring : String) (flaw : NavigatorFlaw)
deriving DecidableEq, Inhabited, Repr

def SetupFailure.message : SetupFailure → String
  | unreadable path why => s!"failed to read {path}: {why.message}"
  | malformed => "invalid TOML: unexpected text, key or value"
  | badType text => s!"malformed type name `{text}`"
  | unknownClass name manifest => s!"unknown class `{name}` referenced by manifest `{manifest}`"
  | badNavigator declaring flaw => s!"navigator on `{declaring}`: {flaw.message}"

end NavScript
