/-!
# Arguments of the check

One path, and options before or after it: some take a value, in the next argument or behind an
equals sign, and the others are switches. Every option but the manifest is given once at most. A
request for help ends the arguments, and what is wrong before it goes first.
-/

namespace NavScript

structure CheckCommand where
  /-- The compilation unit. -/
  tree : String
  manifests : List String := []
  config : Option String := none
  /-- A text that takes the place of the unit's own source. -/
  source : Option String := none
  printTree : Bool := false
  /-- Whether printed trees show types. -/
  typed : Bool := false
  json : Bool := false
  color : Bool := true
deriving DecidableEq

/-- What a call asks for. -/
inductive Invocation where
  | check (command : CheckCommand)
  | help
deriving DecidableEq

inductive Argument where
  | help
  | path (path : String)
  | switch (name : String)
  | option (name value : String)
deriving DecidableEq

namespace Argument

def switches : List String := ["print-tree", "typed", "json", "no-color"]

def options : List String := ["manifest", "config", "source"]

/-- The short form may have further letters behind it. -/
def isHelp (text : String) : Bool := text == "--help" || text.startsWith "-h"

/-- An argument that begins like an option. A lone dash is a value. -/
def isOptionLike (text : String) : Bool := text.startsWith "-" && text != "-"

/-- Name and value of an option with two dashes. -/
def named? (text : String) : Option (String × Option String) :=
  match text.toList with
  | '-' :: '-' :: cs =>
    let name := String.ofList (cs.takeWhile (· != '='))
    match cs.dropWhile (· != '=') with
    | [] => some (name, none)
    | _ :: value => some (name, some (String.ofList value))
  | _ => none

/-- Sorts arguments into paths, switches and options. Behind two dashes all are paths. -/
def ofTexts? : List String → Option (List Argument)
  | [] => some []
  | text :: rest =>
    if text == "--" then some (rest.map path)
    else if isHelp text then some [help]
    else
      match named? text with
      | none => if isOptionLike text then none else (ofTexts? rest).map (path text :: ·)
      | some (name, value) =>
        if switches.contains name then
          if value.isSome then none else (ofTexts? rest).map (switch name :: ·)
        else if options.contains name then
          match value, rest with
          | some value, rest => (ofTexts? rest).map (option name value :: ·)
          | none, value :: rest =>
            if isOptionLike value then none else (ofTexts? rest).map (option name value :: ·)
          | none, [] => none
        else none

/-- Paths and values are never empty. -/
def isEmpty : Argument → Bool
  | path text | option _ text => text.isEmpty
  | switch _ | help => false

def path? : Argument → Option String
  | path p => some p
  | _ => none

def value? (name : String) : Argument → Option String
  | option n value => if n == name then some value else none
  | _ => none

end Argument

namespace CheckCommand

/-- The value of an option that is given once at most. -/
def single? (arguments : List Argument) (name : String) : Option (Option String) :=
  match arguments.filterMap (Argument.value? name) with
  | [] => some none
  | [value] => some (some value)
  | _ => none

/-- Whether a switch is given; not twice. -/
def switch? (arguments : List Argument) (name : String) : Option Bool :=
  match arguments.count (.switch name) with
  | 0 => some false
  | 1 => some true
  | _ => none

end CheckCommand

namespace Invocation

open CheckCommand (single? switch?)

def ofArguments? (arguments : List Argument) : Option Invocation := do
  guard (!arguments.any (·.isEmpty))
  let paths := arguments.filterMap Argument.path?
  guard (paths.length ≤ 1)
  let command : CheckCommand := {
    tree := paths.headD ""
    manifests := arguments.filterMap (Argument.value? "manifest")
    config := ← single? arguments "config"
    source := ← single? arguments "source"
    printTree := ← switch? arguments "print-tree"
    typed := ← switch? arguments "typed"
    json := ← switch? arguments "json"
    color := !(← switch? arguments "no-color") }
  if arguments.contains .help then return help
  guard (!paths.isEmpty && (!command.typed || command.printTree))
  return check command

/-- Reads the arguments of a call, the word `check` first. -/
def ofTexts? : List String → Option Invocation
  | "check" :: rest => (Argument.ofTexts? rest).bind ofArguments?
  | _ => none

end Invocation

end NavScript
