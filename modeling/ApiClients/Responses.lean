import ApiClients.StatusCode
import ApiClients.Types.Expression

/-!
# Responses

The responses of an operation fall into successes and errors.  A success is a response with a
success code or, if there is none, the default response.  Each response gets its type; the most
specific success is the primary one; and the one error that an operation declares, if it declares
just one, gives the exception type.
-/

namespace ApiClients

/-- A response with its type. -/
structure ResponseModel where
  statusCode : String
  type : String
  isSuccess : Bool
  isPrimary : Bool
  isNullable : Bool
  isFile : Bool
  voidType : String
  description : Json
  deriving DecidableEq, Repr, Inhabited

/-- Whether a response has a type other than that of an absent result. -/
def ResponseModel.hasType (model : ResponseModel) : Bool := model.type != model.voidType

namespace Responses

/-- The entries of a response map with their codes checked, an entry at a time. -/
def checkEntries (key : String) :
    List (String × Option Response) → Except Failure (List (String × Response))
  | [] => .ok []
  | (code, response) :: rest =>
    if !StatusCode.isAccepted code then .error (.invalidOperation key (.badStatusCode code))
    else
      match response with
      | none => .error (.invalidOperation key (.notAResponse code))
      | some response => (checkEntries key rest).map ((code, response) :: ·)

/-- The responses of an operation (`_validated_responses`), all of which have to be responses under
status codes. -/
def checked (operation : Operation) : Except Failure (List (String × Response)) :=
  match operation.responses with
  | none => .error (.invalidOperation operation.key .noResponseMap)
  | some entries => checkEntries operation.key entries

/-- The codes that stand for success among some codes (`_success_codes`). -/
def successCodes (codes : List String) : List String :=
  let explicit := codes.filter StatusCode.isSuccess
  if explicit.isEmpty then codes.filter StatusCode.isDefault else explicit

/-- The model of one response. -/
def model (resolver : Resolver) (graph : Graph) (successes : List String)
    (primary : Option String) (code : String) (response : Response) : TypingM ResponseModel := do
  let isSuccess := successes.contains code
  let type ← resolver.resolve graph response.schema
    { nullable := response.nullable
      fallbackName := if isSuccess then "Response" else "Exception"
      isResponse := true }
  return {
    statusCode := code
    type := type
    isSuccess := isSuccess
    isPrimary := decide (primary = some code)
    isNullable := response.nullable || (response.schema.any fun id => (graph.node id).isNullable)
    isFile := type == resolver.language.fileResponse
    voidType := resolver.language.void
    description := response.description }

/-- The models of all responses of an operation (`ResponseModelBuilder.build`), in declared
order. -/
def models (resolver : Resolver) (graph : Graph) (operation : Operation) :
    TypingM (List ResponseModel) := do
  let responses ← Typing.lift (checked operation)
  let successes := successCodes (responses.map (·.1))
  let primary := StatusCode.mostSpecific? successes
  responses.mapM fun (code, response) => model resolver graph successes primary code response

/-- The primary response among some models. -/
def primary? (models : List ResponseModel) : Option ResponseModel := models.find? (·.isPrimary)

/-- The exception type of an operation (`ResponseModelBuilder.exception_type`). -/
def exceptionType (resolver : Resolver) (graph : Graph) (operation : Operation) :
    TypingM String := do
  let language := resolver.language
  let responses ← Typing.lift (checked operation)
  let successes := successCodes (responses.map (·.1))
  match responses.filter fun (code, _) => !successes.contains code with
  | [(_, error)] =>
    match error.schema with
    | none => return language.exceptionFallback
    | some id =>
      if graph.isEmpty id then return language.exceptionFallback
      else
        resolver.resolve graph (some id)
          { nullable := error.nullable, fallbackName := "Exception", isResponse := true }
  | errors =>
    if !errors.isEmpty then
      Typing.note (.severalErrors operation.key errors.length language.genericException)
    return language.genericException

end Responses

end ApiClients
