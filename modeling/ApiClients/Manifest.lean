import ApiClients.Manifest.Record

/-!
# The manifest as a file

A manifest is one file, in one of two formats, that carries the format in its name: what
`ClientModelGenerator.generate` makes of a report.
-/

namespace ApiClients.Manifest

/-- The formats of a manifest. -/
inductive Format where
  | markdown
  | json
  deriving DecidableEq, Repr, Inhabited

namespace Format

def all : List Format := [.markdown, .json]

def word : Format → String
  | .markdown => "markdown"
  | .json => "json"

def ofWord (w : String) : Except Failure Format :=
  match all.find? (·.word == w) with
  | some format => .ok format
  | none => .error (.unknownFormat w)

def fileName : Format → String
  | .markdown => "clients.md"
  | .json => "clients.json"

end Format

def file (format : Format) (content : Content) : Except Failure (String × String) :=
  match format with
  | .markdown => (markdown content).map (format.fileName, ·)
  | .json => .ok (format.fileName, (record content).indented ++ "\n")

end ApiClients.Manifest
