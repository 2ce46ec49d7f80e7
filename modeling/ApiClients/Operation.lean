import ApiClients.Schema.Graph
import ApiClients.Text.Letter

/-!
# Operations

An operation as a document declares it (`Operation`, `Parameter`, `Response`): where it is called,
what it takes and what it answers.
Values that only pass through to the report are kept as the document has them.
-/

namespace ApiClients

/-- Where a parameter is sent. -/
inductive Location where
  | path
  | query
  | header
  | cookie
  | body
  | formData
  deriving DecidableEq, Repr, Inhabited

namespace Location

def all : List Location := [.path, .query, .header, .cookie, .body, .formData]

def word : Location → String
  | .path => "path"
  | .query => "query"
  | .header => "header"
  | .cookie => "cookie"
  | .body => "body"
  | .formData => "formData"

def ofWord? (w : String) : Option Location := all.find? (·.word == w)

end Location

/-- How the items of an array parameter are put together. -/
inductive CollectionFormat where
  | csv
  | ssv
  | tsv
  | pipes
  | multi
  deriving DecidableEq, Repr, Inhabited

namespace CollectionFormat

def all : List CollectionFormat := [.csv, .ssv, .tsv, .pipes, .multi]

def word : CollectionFormat → String
  | .csv => "csv"
  | .ssv => "ssv"
  | .tsv => "tsv"
  | .pipes => "pipes"
  | .multi => "multi"

def ofWord? (w : String) : Option CollectionFormat := all.find? (·.word == w)

end CollectionFormat

/-- A parameter of an operation.  Its name is any value that a document may give. -/
structure Parameter where
  name : Json
  location : Location := .query
  required : Bool := false
  schema : Option NodeId := none
  collectionFormat : Option CollectionFormat := none
  deprecated : Bool := false
  default : Json := .null
  description : Json := .null
  deriving DecidableEq, Repr, Inhabited

/-- A response of an operation. -/
structure Response where
  schema : Option NodeId := none
  nullable : Bool := false
  description : Json := .str ""
  contentTypes : List Json := []
  deriving DecidableEq, Repr, Inhabited

/-- An operation.  It has no parameters (`none`) when its parameter list is malformed, no responses
(`none`) when its response map is, and an entry of the map is missing when it is no response. -/
structure Operation where
  method : String
  path : String
  operationId : Option String := none
  tags : List String := []
  parameters : Option (List Parameter) := some []
  responses : Option (List (String × Option Response)) := some []
  summary : Json := .null
  description : Json := .null
  deprecated : Bool := false
  deriving DecidableEq, Repr, Inhabited

namespace Operation

/-- What identifies an operation: its method in capitals and its path. -/
def key (operation : Operation) : String := Text.upper operation.method ++ " " ++ operation.path

/-- The schemas that an operation refers to, those of its parameters first. -/
def schemas (operation : Operation) : List NodeId :=
  ((operation.parameters.getD []).filterMap (·.schema))
    ++ ((operation.responses.getD []).filterMap fun (_, response) => response.bind (·.schema))

end Operation

end ApiClients
