import ApiClients.Model
import ApiClients.Text.Blank

/-!
# Lines of the manifest

How single values are shown: a description as a block quote, a value in a table cell, and the
signature of an operation in a notation of no particular language.
-/

namespace ApiClients.Manifest

open ApiClients.Text

def quoteMark : String := "> "

/-- A line of a block quote; one with nothing in it is the bare mark. -/
def quoteLine (mark : String) (line : List Char) : List Char :=
  match stripBoth line with
  | [] => stripEnd mark.toList
  | cs => mark.toList ++ cs

/-- A text as a block quote (`doc_comment`), its blank lines inside. -/
def blockQuote (mark text : String) : String :=
  if text.isEmpty then ""
  else
    "\n".intercalate (((stripBoth text.toList).splitOn '\n').map
      fun line => String.ofList (quoteLine mark line))

/-- A character inside a table cell: bars are escaped and line feeds become blanks. -/
def cellChar (c : Char) : List Char :=
  if c = '|' then ['\\', '|'] else if c = '\n' then [' '] else [c]

/-- Characters inside a table cell (`markdown_cell`). -/
def cellChars (cs : List Char) : List Char := stripBoth (cs.flatMap cellChar)

def textCell (text : String) : String := String.ofList (cellChars text.toList)

def cell : Json → String
  | .null => ""
  | value => textCell value.plain

/-- A parameter in a signature (`parameter_declaration`), with its default if it may be left out. -/
def declaration (parameter : ParameterModel) : String :=
  let head := parameter.variableName ++ ": " ++ parameter.type
  if parameter.isRequired then head else head ++ " = " ++ parameter.default.compact

def signature (model : OperationModel) : String :=
  model.methodName ++ "(" ++ ", ".intercalate (model.parameters.map declaration) ++ ") -> "
    ++ model.result

/-- Whether a type definition is an enumeration or an object (`schema_kind`). -/
def typeKind (graph : Graph) (id : NodeId) : String :=
  if (graph.actualNode id).isEnum then "enum" else "object"

def propertyNames (graph : Graph) (id : NodeId) : List String :=
  (graph.actualNode id).properties.map (·.1)

def interfaceName (className : String) : String := "I" ++ className

def yesNo (b : Bool) : String := if b then "yes" else "no"

end ApiClients.Manifest
