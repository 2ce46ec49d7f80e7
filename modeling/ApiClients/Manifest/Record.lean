import ApiClients.Json.Writer
import ApiClients.Manifest.Markdown

/-!
# The manifest as JSON

The report of a pass as one JSON object (`_render_json`): the models with all they hold, the
failures, and the emitted names.
-/

namespace ApiClients.Manifest

def parameterRecord (p : ParameterModel) : Json :=
  .obj
    [("name", p.name), ("variable_name", .str p.variableName), ("type", .str p.type),
     ("location", .str p.location.word), ("is_required", .bool p.isRequired),
     ("is_nullable", .bool p.isNullable), ("is_deprecated", .bool p.isDeprecated),
     ("is_file", .bool p.isFile), ("is_array", .bool p.isArray), ("default", p.default),
     ("description", p.description)]

def responseRecord (r : ResponseModel) : Json :=
  .obj
    [("status_code", .str r.statusCode), ("type", .str r.type), ("is_success", .bool r.isSuccess),
     ("is_primary", .bool r.isPrimary), ("is_nullable", .bool r.isNullable),
     ("is_file", .bool r.isFile), ("void_type", .str r.voidType), ("description", r.description)]

def modelMembers (m : OperationModel) : List (String × Json) :=
  [("operation_key", .str m.key), ("method", .str m.method), ("path", .str m.path),
   ("client_name", .str m.client), ("method_name", .str m.methodName),
   ("client_class_name", .str m.clientClass),
   ("parameters", .arr (m.parameters.map parameterRecord)),
   ("responses", .arr (m.responses.map responseRecord)),
   ("primary_response", (m.primary.map responseRecord).getD .null),
   ("unwrapped_result_type", .str m.unwrappedResult), ("result_type", .str m.result),
   ("exception_type", .str m.exception), ("summary", m.summary),
   ("is_deprecated", .bool m.isDeprecated)]

def failureRecord (f : OperationFailure) : Json :=
  .obj [("operation_key", .str f.key), ("reason", .str f.reason)]

def record (content : Content) : Json :=
  let report := content.report
  .obj
    [("title", .str content.title), ("language", .str content.language.name),
     ("models", .arr (report.models.map fun m => .obj (modelMembers m))),
     ("failures", .arr (report.failures.map failureRecord)),
     ("named_types", .arr (report.sortedTypes.map fun t => .str t.1))]

end ApiClients.Manifest
