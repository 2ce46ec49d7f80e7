import ApiClients.Text.Ranges

/-!
# Paths

A path is a way to a file or a folder, step by step from where it starts.  Steps that lead nowhere
(empty ones and `.`) are left out; the step `..` is kept, for where it leads depends on the folders
that there are.
-/

namespace ApiClients

/-- Where a path starts. -/
inductive PathStart where
  | here
  | root
  | doubleRoot
  deriving DecidableEq, Repr, Inhabited

def PathStart.text : PathStart → String
  | .here => ""
  | .root => "/"
  | .doubleRoot => "//"

/-- A way to a file or a folder. -/
structure Path where
  start : PathStart := .here
  steps : List String := []
  deriving DecidableEq, Repr, Inhabited

namespace Path

/-- The start of a path as it is written.  Three slashes and more count as one. -/
def startOf : List Char → PathStart
  | '/' :: '/' :: '/' :: _ => .root
  | '/' :: '/' :: _ => .doubleRoot
  | '/' :: _ => .root
  | _ => .here

/-- The path that a text writes. -/
def ofText (text : String) : Path where
  start := startOf text.toList
  steps := (Text.split '/' text).filter fun step => !step.isEmpty && step != "."

/-- The text of a path.  The working folder itself is written as a dot. -/
def text (path : Path) : String :=
  if path.start = .here && path.steps.isEmpty then "."
  else path.start.text ++ String.intercalate "/" path.steps

/-- The path to an entry of a folder. -/
def entry (path : Path) (name : String) : Path := { path with steps := path.steps ++ [name] }

end Path

end ApiClients
