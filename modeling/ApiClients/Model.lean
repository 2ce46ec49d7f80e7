import ApiClients.Naming.Variables
import ApiClients.Responses
import ApiClients.Settings

/-!
# Operation models

The model of an operation is all that a client needs to call it in the target language: names,
parameters with their types, responses, and the types of result and exception.  `Builder.build`
makes it from what the naming pass and the registry have settled before; it is the `build` of
`OperationModelBuilder`.
-/

namespace ApiClients

/-- A parameter with its variable name and its type. -/
structure ParameterModel where
  name : Json
  variableName : String
  type : String
  location : Location
  isRequired : Bool
  isNullable : Bool
  isDeprecated : Bool
  isFile : Bool
  isArray : Bool
  default : Json
  description : Json
  deriving DecidableEq, Repr, Inhabited

/-- A resolved operation. -/
structure OperationModel where
  key : String
  method : String
  path : String
  client : String
  methodName : String
  clientClass : String
  parameters : List ParameterModel
  responses : List ResponseModel
  primary : Option ResponseModel
  unwrappedResult : String
  result : String
  exception : String
  summary : Json
  isDeprecated : Bool
  deriving DecidableEq, Repr, Inhabited

namespace OperationModel

/-- The parameters that are sent in a place. -/
def parametersIn (model : OperationModel) (location : Location) : List ParameterModel :=
  model.parameters.filter fun p => decide (p.location = location)

/-- The parameter that is sent as the body. -/
def body? (model : OperationModel) : Option ParameterModel := (model.parametersIn .body).head?

def hasResult (model : OperationModel) : Bool := model.primary.any (·.hasType)

def hasOnlyDefault (model : OperationModel) : Bool :=
  match model.responses with
  | [response] => StatusCode.isDefault response.statusCode
  | _ => false

end OperationModel

/-- What models are built with. -/
structure Builder where
  settings : Settings
  resolver : Resolver
  graph : Graph
  names : List (String × Naming.OperationName)

namespace Builder

def language (builder : Builder) : Language := builder.resolver.language

/-- Whether the schema of a parameter, or what it stands for, admits null. -/
def admitsNull (graph : Graph) (schema : Option NodeId) : Bool :=
  schema.any fun id => (graph.node id).isNullable || (graph.actualNode id).isNullable

/-- The model of a parameter (`_parameter_model`).  A parameter that may be left out admits null. -/
def parameterModel (builder : Builder) (parameter : Parameter) (variableName : String) :
    TypingM ParameterModel := do
  let language := builder.language
  let isNullable := !parameter.required || admitsNull builder.graph parameter.schema
  let type ← builder.resolver.resolve builder.graph parameter.schema
    { nullable := isNullable
      fallbackName := language.typeName (Identifier.normalize parameter.name.plain)
      collectionFormat := parameter.collectionFormat }
  return {
    name := parameter.name
    variableName := variableName
    type := if parameter.schema.isNone then language.any else type
    location := parameter.location
    isRequired := parameter.required
    isNullable := isNullable
    isDeprecated := parameter.deprecated
    isFile := parameter.schema.any fun id => (builder.graph.actualNode id).isFile
    isArray := parameter.schema.any fun id => (builder.graph.actualNode id).isArray
    default := parameter.default
    description := parameter.description }

/-- The models of parameters with the required ones before the others, if the settings ask for it;
the order is kept otherwise. -/
def arrange (settings : Settings) (models : List ParameterModel) : List ParameterModel :=
  if settings.requiredFirst then
    models.filter (·.isRequired) ++ models.filter (! ·.isRequired)
  else models

/-- The type of a result to come (`result_type`), wrapped if the settings ask for it; a file is
never wrapped. -/
def resultType (settings : Settings) (language : Language) (unwrapped client : String) : String :=
  if unwrapped = language.fileResponse then language.asyncOf language.fileResponse
  else if settings.wrapResponses then
    let wrapper := settings.responseClassName client
    if unwrapped = language.void then language.asyncOf wrapper
    else language.asyncOf (Language.genericOf wrapper unwrapped)
  else language.asyncOf unwrapped

def build (builder : Builder) (operation : Operation) : TypingM OperationModel := do
  let language := builder.language
  match operation.parameters with
  | none => throw (.invalidOperation operation.key .noParameterList)
  | some parameters =>
    match Entries.get? builder.names operation.key with
    | none => throw (.invalidOperation operation.key .unnamed)
    | some name =>
      let variableNames ← Typing.lift (Naming.variableNames language parameters operation.key)
      let models ← (parameters.zip variableNames).mapM fun (parameter, variableName) =>
        builder.parameterModel parameter variableName
      let responses ← Responses.models builder.resolver builder.graph operation
      let primary := Responses.primary? responses
      let unwrapped := match primary with
        | some response => response.type
        | none => language.void
      let exception ← Responses.exceptionType builder.resolver builder.graph operation
      return {
        key := operation.key
        method := Text.upper operation.method
        path := operation.path
        client := name.client
        methodName := language.methodName name.method
        clientClass := builder.settings.clientClassName name.client
        parameters := arrange builder.settings models
        responses := responses
        primary := primary
        unwrappedResult := unwrapped
        result := resultType builder.settings language unwrapped name.client
        exception := exception
        summary := operation.summary
        isDeprecated := operation.deprecated }

end Builder

end ApiClients
