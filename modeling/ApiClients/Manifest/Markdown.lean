import ApiClients.Manifest.Line
import ApiClients.Report

/-!
# The manifest as markdown

The report of a pass for readers, as `render_template` fills the manifest's template: the settings,
a section for each client with its operations, a table of the emitted types, and the operations that
could not be built.  A manifest is a list of lines, each of which ends with a line feed; a section
brings the empty line in front of it along.
-/

namespace ApiClients.Manifest

/-- What a manifest shows. -/
structure Content where
  title : String
  settings : Settings
  language : Language
  report : Report
  graph : Graph

/-- The clients by class name (`_client_groups`), clients of one class name in the order of first
use. -/
def clientGroups (report : Report) : List (String × List OperationModel) :=
  Entries.sortByKey (report.clients.map fun (_, models) =>
    (((models.head?).map (·.clientClass)).getD "", models))

def code (text : String) : String := "`" ++ text ++ "`"

def headLines (content : Content) : List String :=
  ["# " ++ content.title ++ " client models",
   "",
   "- Target language: " ++ code content.language.name,
   "- Required parameters first: " ++ yesNo content.settings.requiredFirst,
   "- Wrapped responses: "
    ++ (if content.settings.wrapResponses then code content.settings.responseClass else "no")]

def parameterRow (parameter : ParameterModel) : String :=
  "| " ++ cell parameter.name ++ " | " ++ code parameter.variableName ++ " | "
    ++ code (textCell parameter.type) ++ " | " ++ parameter.location.word ++ " | "
    ++ yesNo parameter.isRequired ++ " |"

def parameterLines (model : OperationModel) : List String :=
  if model.parameters.isEmpty then []
  else
    ["",
     "| Parameter | Variable | Type | In | Required |",
     "|-----------|----------|------|----|----------|"] ++ model.parameters.map parameterRow

/-- The part that a response plays. -/
def responseKind (response : ResponseModel) : String :=
  if response.isSuccess then if response.isPrimary then "primary" else "success" else "error"

def responseRow (response : ResponseModel) : String :=
  "| " ++ response.statusCode ++ " | " ++ code (textCell response.type) ++ " | "
    ++ responseKind response ++ " |"

def responseLines (model : OperationModel) : List String :=
  if model.responses.isEmpty then []
  else
    ["",
     "| Status | Type | Kind |",
     "|--------|------|------|"] ++ model.responses.map responseRow

/-- The summary of an operation, if one is given; it has to be a text. -/
def summaryLines (model : OperationModel) : Except Failure (List String) :=
  if !model.summary.given then .ok []
  else
    match model.summary with
    | .str text => .ok ["", blockQuote quoteMark text]
    | _ => .error .malformed

def operationLines (model : OperationModel) : Except Failure (List String) := do
  let summary ← summaryLines model
  return ["", "### " ++ model.methodName, "", "```", signature model, "```"] ++ summary
    ++ ["",
        "- Operation: " ++ code model.key,
        "- Result: " ++ code model.result ++ " (unwrapped " ++ code model.unwrappedResult ++ ")",
        "- Exception: " ++ code model.exception]
    ++ (if model.isDeprecated then ["- Deprecated"] else [])
    ++ parameterLines model ++ responseLines model

/-- The heading of a client: its class, its interface, or both. -/
def clientHeading (settings : Settings) (className : String) : List String :=
  ["", "## " ++ if settings.showClasses then className else interfaceName className]
    ++ if settings.showClasses && settings.showInterfaces then
      ["", "Implements " ++ code (interfaceName className) ++ "."] else []

/-- The sections of the clients, if the settings show classes or interfaces. -/
def clientLines (content : Content) : Except Failure (List String) := do
  if content.settings.showClasses || content.settings.showInterfaces then
    let sections ← (clientGroups content.report).mapM fun (className, models) => do
      let operations ← models.mapM operationLines
      return clientHeading content.settings className ++ operations.flatten
    return sections.flatten
  else return []

def typeRow (graph : Graph) (name : String) (id : NodeId) : String :=
  "| " ++ code name ++ " | " ++ typeKind graph id ++ " | "
    ++ textCell (", ".intercalate (propertyNames graph id)) ++ " |"

/-- The table of the emitted types by name, if there are any and the settings show them. -/
def typeLines (content : Content) : List String :=
  if content.settings.showTypes && !content.report.namedTypes.isEmpty then
    ["", "## Types", "", "| Name | Kind | Properties |", "|------|------|------------|"]
      ++ content.report.sortedTypes.map fun (name, id) => typeRow content.graph name id
  else []

def failureLines (report : Report) : List String :=
  if report.failures.isEmpty then []
  else
    ["", "## Failed operations", ""]
      ++ report.failures.map fun failure => "- " ++ code failure.key ++ ": " ++ failure.reason

def lines (content : Content) : Except Failure (List String) := do
  let clients ← clientLines content
  return headLines content ++ clients ++ typeLines content ++ failureLines content.report

def markdown (content : Content) : Except Failure String :=
  (lines content).map fun lines => String.join (lines.map (· ++ "\n"))

end ApiClients.Manifest
