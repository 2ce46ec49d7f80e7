import ApiClients.Proofs.RepeatedTypes
import ApiClients.Proofs.ResponseTable

/-!
# The exception type of a model

The type of the one error of an operation is resolved twice: for its row of the response table and
for the exception type.  The rows come first, and their types are settled when the table is complete
(`settled_rows`), so the second time the same type comes out, also where the first time a name has
been given for it (`exception_of_build`).
-/

namespace ApiClients

namespace Responses

section

variable {resolver : Resolver} {graph : Graph} {operation : Operation}
  {responses : List (String × Response)} {table : List ResponseModel} {s t : Typing}

/-- After the table has been made the types of its rows come out again. -/
theorem settled_rows (hstateless : resolver.Stateless) (h : checked operation = .ok responses)
    (hrun : runStep (models resolver graph operation) s = (.ok table, t)) :
    List.Forall₂ (fun entry model => Settled t.registry
      (resolver.resolve graph entry.2.schema (usage model.isSuccess entry.2)) model.type)
      responses table := by
  rw [models_of_checked h, types, ← mapM_map] at hrun
  refine (settled_mapM (fun entry => ?step) hrun).2.imp ?row
  case step =>
    rw [map_eq_pure_bind]
    exact settles_bind (hstateless.settles_resolve graph _ _) fun _ => settles_pure _
  case row =>
    intro entry model hsettled u hu
    obtain ⟨v, hagain, hv⟩ := hsettled u hu
    obtain ⟨type, htype, rfl⟩ := runStep_map_ok.mp hagain
    exact ⟨v, htype, hv⟩

/-- The exception type that the errors of a table declare, given with their responses: the type of
the error if it is one alone and its schema says anything. -/
def declaredException (language : Language) (graph : Graph) :
    List ((String × Response) × ResponseModel) → String
  | [((_, error), model)] =>
    if error.schema.any fun id => !graph.isEmpty id then model.type else language.exceptionFallback
  | _ => language.genericException

/-- Where the types of some errors are settled they are what the exception type is made from. -/
theorem declared_of_errorType {key : String}
    {found : List ((String × Response) × ResponseModel)} {type : String}
    (hsettled : ∀ entry ∈ found, Settled s.registry
      (resolver.resolve graph entry.1.2.schema (usage false entry.1.2)) entry.2.type)
    (hrun : runStep (errorType resolver graph key (found.map (·.1.2))) s = (.ok type, t)) :
    type = declaredException resolver.language graph found := by
  -- only an error that is one alone is resolved
  match found with
  | [] =>
    cases hrun
    rfl
  | _ :: _ :: _ =>
    simp only [List.map_cons, errorType] at hrun
    obtain ⟨_, _, -, hrun⟩ := runStep_bind_ok.mp hrun
    cases hrun
    rfl
  | [((_, error), model)] =>
    have htype := hsettled _ List.mem_cons_self
    simp only [List.map_cons, List.map_nil, errorType] at hrun
    cases hschema : error.schema with
    | none =>
      simp only [hschema] at hrun
      cases hrun
      simp [declaredException, hschema]
    | some id =>
      simp only [hschema] at hrun htype
      by_cases hempty : graph.isEmpty id = true
      · rw [if_pos hempty] at hrun
        cases hrun
        simp [declaredException, hschema, hempty]
      · rw [if_neg hempty] at hrun
        obtain ⟨_, hagain, -⟩ := htype s (.refl _)
        rw [hrun] at hagain
        cases hagain
        simp [declaredException, hschema, hempty]

end

end Responses

namespace Builder

variable {builder : Builder} {operation : Operation} {model : OperationModel} {s t : Typing}

/-- The exception type of a model, whatever names have been given before and on the way: the type of
the one response that is no success in the table, the fallback of the language if the schema of this
response is missing or says nothing, and the general type if no response or several are no
successes. -/
theorem exception_of_build (hstateless : builder.resolver.Stateless)
    (h : runStep (builder.build operation) s = (.ok model, t)) :
    ∃ responses,
      operation.responses = some (responses.map fun (code, response) => (code, some response))
      ∧ model.responses.map (·.statusCode) = responses.map (·.1)
      ∧ model.exception = Responses.declaredException builder.language builder.graph
        (Responses.errors responses model.responses) := by
  obtain ⟨-, u, v, hmodels, hexception⟩ := build_run h
  obtain ⟨responses, hchecked⟩ := Responses.checked_of_models hmodels
  have htable := Responses.tabulated_of_models hchecked hmodels
  have hrows := Responses.settled_rows hstateless hchecked hmodels
  refine ⟨responses, Responses.declared_of_checked hchecked, htable.codes_eq, ?_⟩
  rw [Responses.exceptionType_of_errors hchecked htable] at hexception
  refine Responses.declared_of_errorType ?_ hexception
  rintro ⟨entry, row⟩ hmem
  obtain ⟨hzip, herror⟩ := List.mem_filter.mp hmem
  have hrow := List.forall₂_zip hrows hzip
  have hfalse : row.isSuccess = false := by simpa using herror
  rwa [hfalse] at hrow

/-- A definition, and something that stands for it. -/
def problemGraph : Graph where
  nodes := #[{ typeName := .str "problem", kinds := Kinds.ofList [.object] }, { reference := some 0 }]

/-- A builder for an operation with one error, of a type that has no name yet. -/
def problemBuilder : Builder where
  settings := {}
  resolver := Resolver.ofLanguage Language.csharp
  graph := problemGraph
  names := [("GET /pets", ⟨"Pets", "get"⟩)]

def problemOperation : Operation :=
  { method := "get", path := "/pets"
    responses := some [("200", some {}), ("404", some { schema := some 1 })] }

theorem exception_of_build_problem :
    problemBuilder.resolver.Stateless
      ∧ ∃ model t, runStep (problemBuilder.build problemOperation) {} = (.ok model, t)
        ∧ t.registry.frozen = false
        ∧ model.exception = "Problem"
        ∧ ∃ responses, problemOperation.responses
            = some (responses.map fun (code, response) => (code, some response))
          ∧ model.exception = Responses.declaredException Language.csharp problemGraph
            (Responses.errors responses model.responses) := by
  have hstateless : problemBuilder.resolver.Stateless :=
    Resolver.stateless_ofLanguage Language.csharp
  have hexception : (runStep (problemBuilder.build problemOperation) {}).1.toOption.map
      (·.exception) = some "Problem" := by decide +kernel
  have hfrozen : (runStep (problemBuilder.build problemOperation) {}).2.registry.frozen = false := by
    decide +kernel
  obtain ⟨model, hmodel, hexception⟩ := Except.ok_of_toOption_map hexception
  have hrun : runStep (problemBuilder.build problemOperation) {} = (.ok model, _) :=
    Prod.ext hmodel rfl
  obtain ⟨responses, hdeclares, -, hdeclared⟩ := exception_of_build hstateless hrun
  exact ⟨hstateless, model, _, hrun, hfrozen, hexception, responses, hdeclares, hdeclared⟩

end Builder

end ApiClients
