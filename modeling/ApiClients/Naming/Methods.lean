import ApiClients.Identifier
import ApiClients.Operation
import ApiClients.Types.Registry

/-!
# Names of clients and methods

A policy gives every operation the name of a client, which may be empty, and the name of a method,
as an `OperationNameGenerator` is made of the functions for both.  Within a client no two methods
have the same name, letter case apart: a name met again gets a number at its end.  Case is left out
of the comparison because the target language may change it.
-/

namespace ApiClients.Naming

open ApiClients.Text

/-! ### Names from paths -/

def segments (path : String) : List String := (split '/' path).filter (! ·.isEmpty)

/-- Whether a segment of a path stands for a parameter: it is written in braces. -/
def isParameter (segment : String) : Bool :=
  let cs := segment.toList
  cs.head? == some '\x7b' && cs.getLast? == some '\x7d'

/-- The name of the parameter in a segment, without its braces. -/
def parameterName (segment : String) : String :=
  String.ofList (segment.toList.drop 1).dropLast

/-- A method name from the verb and some segments (`_segments_method_name`): the verb, the literal
segments, and the name of the parameter that ends the path. -/
def verbName (method : String) (segments : List String) : String :=
  let literal := (segments.filter (! isParameter ·)).map Identifier.pascalNormalized
  let ending := match segments.getLast? with
    | some last =>
      if isParameter last then "By" ++ Identifier.pascalNormalized (parameterName last) else ""
    | none => ""
  Identifier.pascal (lower method) ++ String.join literal ++ ending

def pathMethodName (operation : Operation) : String :=
  verbName operation.method (segments operation.path)

/-- The segments behind the first literal one; all segments if none is literal. -/
def remainingSegments (segments : List String) : List String :=
  match segments.dropWhile isParameter with
  | [] => segments
  | _ :: rest => rest

/-! ### Names from operation ids -/

/-- The parts of an operation id before and after its first underscore, if one stands behind some
other character. -/
def idParts? (id : String) : Option (String × String) :=
  let cs := id.toList
  let before := cs.takeWhile (· != '_')
  match cs.drop before.length with
  | [] => none
  | _ :: after =>
    if before.isEmpty then none else some (String.ofList before, String.ofList after)

/-- A method name from the operation id (`operation_id_method_name`), or from the path if there is
none. -/
def idMethodName (operation : Operation) : String :=
  match operation.operationId with
  | some id => if id.isEmpty then pathMethodName operation else Identifier.pascalNormalized id
  | none => pathMethodName operation

/-! ### Policies -/

/-- A way of naming operations. -/
inductive Policy where
  /-- The client from the first tag, the method from the operation id. -/
  | firstTag
  | operationId
  | singleClient
  /-- The client from the first literal segment of the path, the method from the others. -/
  | pathSegments
  deriving DecidableEq, Repr, Inhabited

namespace Policy

def all : List Policy := [.firstTag, .operationId, .singleClient, .pathSegments]

def word : Policy → String
  | .firstTag => "first-tag"
  | .operationId => "operation-id"
  | .singleClient => "single-client"
  | .pathSegments => "path-segments"

def ofWord? (w : String) : Option Policy := all.find? (·.word == w)

def clientName (policy : Policy) (operation : Operation) : String :=
  match policy with
  | .firstTag =>
    match operation.tags with
    | [] => ""
    | tag :: _ => Identifier.pascalNormalized tag
  | .operationId =>
    match idParts? (operation.operationId.getD "") with
    | none => ""
    | some (before, _) => Identifier.pascalNormalized before
  | .singleClient => ""
  | .pathSegments =>
    match (segments operation.path).dropWhile isParameter with
    | [] => ""
    | literal :: _ => Identifier.pascalNormalized literal

/-- The method name that a policy asks for, which may be empty. -/
def wantedName (policy : Policy) (operation : Operation) : String :=
  match policy with
  | .firstTag => idMethodName operation
  | .operationId =>
    match idParts? (operation.operationId.getD "") with
    | none => idMethodName operation
    | some (_, after) =>
      if after.isEmpty then idMethodName operation else Identifier.pascalNormalized after
  | .singleClient => idMethodName operation
  | .pathSegments => verbName operation.method (remainingSegments (segments operation.path))

/-- The method name of an operation before it is told apart from others. -/
def baseName (policy : Policy) (operation : Operation) : String :=
  let wanted := policy.wantedName operation
  if wanted.isEmpty then pathMethodName operation else wanted

end Policy

/-! ### The naming pass -/

/-- The client and the method name of an operation. -/
structure OperationName where
  client : String
  method : String
  deriving DecidableEq, Repr, Inhabited

/-- The names given to operations, with the methods taken in each client in lower case. -/
structure Assignment where
  names : List (String × OperationName) := []
  taken : List (String × String) := []
  deriving Repr, Inhabited

namespace Assignment

def isTaken (assignment : Assignment) (client method : String) : Bool :=
  assignment.taken.contains (lower client, lower method)

/-- The assignment with a name for one operation more. -/
def add (policy : Policy) (assignment : Assignment) (operation : Operation) : Assignment :=
  let client := policy.clientName operation
  let method := freeName (assignment.isTaken client) assignment.taken.length
    (policy.baseName operation)
  { names := Entries.put operation.key ⟨client, method⟩ assignment.names
    taken := assignment.taken ++ [(lower client, lower method)] }

end Assignment

/-- The names of some operations by their keys (`OperationNameGenerator.assign`), in the order of
first use; of operations with one key the last gives the name. -/
def assign (policy : Policy) (operations : List Operation) : List (String × OperationName) :=
  (operations.foldl (Assignment.add policy) {}).names
end ApiClients.Naming
