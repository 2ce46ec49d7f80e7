import ApiClients.Command.Arguments
import ApiClients.Document
import ApiClients.Files
import ApiClients.Json.Reader
import ApiClients.Report

/-!
# What a command produces

From the content of the specification file and the choices comes the file to be written, or the
trouble that prevents it, without any look at other files: `OASParser.parse_file` and what
`generate_client_models_from_spec` does with the document.  What is to be said on the way is kept
in order beside it.
-/

namespace ApiClients.Command

/-- Why a command ends without a file. -/
inductive Trouble where
  | noValue
  | noSpecification (path : Path)
  | notJson
  | longInteger (digits : Nat)
  | notText
  | files (problem : FileProblem)
  | inDocument (failure : Failure)
  deriving DecidableEq, Repr, Inhabited

namespace Trouble

def text : Trouble → String
  | .noValue => Failure.message .malformed
  | .noSpecification path => "Specification file not found: " ++ path.text
  | .notJson => "Invalid JSON in specification file"
  | .longInteger digits =>
    "Exceeds the limit (" ++ toString Json.maxDigits
      ++ " digits) for integer string conversion: value has " ++ toString digits
      ++ " digits; use sys.set_int_max_str_digits() to increase the limit"
  | .notText => Failure.message .malformed
  | .files problem => problem.text
  | .inDocument failure => failure.message

def code : Trouble → UInt8
  | .noValue => 3
  | .noSpecification _ => 1
  | .notJson => 2
  | .longInteger _ => 3
  | .notText => 3
  | .files _ => 3
  | .inDocument _ => 3

/-- The trouble with a file.  Whatever is missing, the specification file is said to be, which is
at the given path. -/
def ofProblem (path : Path) : FileProblem → Trouble
  | .missing _ => .noSpecification path
  | problem => .files problem

end Trouble

/-- A file that is to be written, with the report that it shows. -/
structure Product where
  name : String
  text : String
  report : Report
  deriving DecidableEq, Repr, Inhabited

/-- What comes of a specification file: the product or the trouble, what is said about the document
if it could be read, and the journal. -/
structure Production where
  result : Except Trouble Product
  remarks : List String := []
  journal : Journal := []

/-- What is said about a document. -/
def remarks (document : Document) : List String :=
  ["Parsed " ++ toString document.operations.length ++ " operations",
   "Found " ++ toString document.schemas.length ++ " schemas"]

/-- Whether a report names classes by a name that was withheld. -/
def lacksClassName (choices : Choices) (language : Language) (report : Report) : Bool :=
  choices.lacks .className && !report.models.isEmpty
    || choices.lacks .responseClass && choices.settings.wrapResponses
      && report.models.any (·.unwrappedResult != language.fileResponse)

/-- The product that shows a report on a document.  A format that was withheld is unknown. -/
def productOf (choices : Choices) (document : Document) (report : Report) :
    Except Failure Product := do
  let language ← choices.settings.targetLanguage
  if lacksClassName choices language report then throw .malformed
  let title ← document.title
  if choices.lacks .format then throw (.unknownFormat "[]")
  let (name, text) ← Manifest.file choices.format
    ⟨title, choices.settings, language, report, document.graph⟩
  return ⟨name, text, report⟩

/-- The JSON value that the content of a file writes. -/
def jsonOf (content : ByteArray) : Except Trouble Json :=
  match String.fromUTF8? content with
  | none => .error .notText
  | some text =>
    match Json.ofText text with
    | .error .malformed => .error .notJson
    | .error (.longInteger digits) => .error (.longInteger digits)
    | .ok data => .ok data

/-- What comes of a document that is read. -/
def produceFrom (choices : Choices) (data : Json) : Production :=
  match Reading.read {} data with
  | (.error failure, reader) =>
    { result := .error (.inDocument failure), journal := reader.journal }
  | (.ok document, reader) =>
    if choices.lacks .language then
      { result := .error .noValue, remarks := remarks document, journal := reader.journal }
    else
      let (report, journal) := Generation.report choices.settings document.graph
        document.definitions document.operations reader.journal
      { result := (report.bind (productOf choices document)).mapError .inDocument
        remarks := remarks document
        journal := journal }

/-- What comes of the content of a specification file. -/
def produce (choices : Choices) (content : ByteArray) : Production :=
  match jsonOf content with
  | .error trouble => { result := .error trouble }
  | .ok data => produceFrom choices data

end ApiClients.Command
