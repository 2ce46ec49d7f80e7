import ApiClients.Proofs.FrozenResolution
import ApiClients.Proofs.Nullability

/-!
# The parameter table of an operation

Each parameter of an operation gets a row of the table (`parameterRow`), made from its variable name
and from the type that its schema has in one use (`parameterUsage`).  Its flag is what this type is
resolved with (`ParameterRow.typed`).  The rows stand in the order of the parameters until they are
arranged (`Stages.parameterRows`, `arrange_perm`).
-/

namespace ApiClients.Builder

section

variable {builder : Builder} {operation : Operation} {model : OperationModel}
  {parameters : List Parameter} {identifiers : List String} {models : List ParameterModel}
  {s u v t : Typing}

/-- The use that the type of a parameter is asked for in. -/
def parameterUsage (builder : Builder) (parameter : Parameter) : Usage where
  nullable := !parameter.required || admitsNull builder.graph parameter.schema
  fallbackName := builder.language.typeName (Identifier.normalize parameter.name.plain)
  collectionFormat := parameter.collectionFormat

/-- The row of a parameter with its variable name and the type of its schema. -/
def parameterRow (builder : Builder) (parameter : Parameter) (identifier type : String) :
    ParameterModel where
  name := parameter.name
  variableName := identifier
  type := if parameter.schema.isNone then builder.language.any else type
  location := parameter.location
  isRequired := parameter.required
  isNullable := !parameter.required || admitsNull builder.graph parameter.schema
  isDeprecated := parameter.deprecated
  isFile := parameter.schema.any fun id => (builder.graph.actualNode id).isFile
  isArray := parameter.schema.any fun id => (builder.graph.actualNode id).isArray
  default := parameter.default
  description := parameter.description

theorem parameterModel_eq (parameter : Parameter) (identifier : String) :
    builder.parameterModel parameter identifier = builder.parameterRow parameter identifier
      <$> builder.resolver.resolve builder.graph parameter.schema
        (builder.parameterUsage parameter) := by
  rw [map_eq_pure_bind]
  rfl

/-- A row of the table: made from the variable name of the parameter and from the type that its
schema has come to between two states with a property `P`. -/
structure ParameterRow (builder : Builder) (P : Typing → Prop) (parameters : List Parameter)
    (parameter : Parameter) (model : ParameterModel) : Prop where
  identifier : Naming.variableName builder.language parameters parameter = .ok model.variableName
  resolved : ∃ s type t, P s ∧ P t
    ∧ runStep (builder.resolver.resolve builder.graph parameter.schema
        (builder.parameterUsage parameter)) s = (.ok type, t)
    ∧ model = builder.parameterRow parameter model.variableName type

theorem ParameterRow.isNullable_eq {P : Typing → Prop} {parameter : Parameter}
    {row : ParameterModel} (h : builder.ParameterRow P parameters parameter row) :
    row.isNullable = (!parameter.required || admitsNull builder.graph parameter.schema) := by
  obtain ⟨-, _, _, _, -, -, -, hrow⟩ := h
  exact congrArg ParameterModel.isNullable hrow

/-- A parameter and its schema admit null in the use of the parameter by one rule. -/
theorem admitsNull_parameterUsage {parameter : Parameter} {id : NodeId}
    (hschema : parameter.schema = some id) :
    Resolver.admitsNull builder.graph id (builder.parameterUsage parameter)
      = (!parameter.required || admitsNull builder.graph parameter.schema) := by
  simp only [Resolver.admitsNull, parameterUsage, admitsNull, hschema, Option.any_some]
  cases (builder.graph.node id).isNullable <;> cases (builder.graph.actualNode id).isNullable <;>
    simp

/-- The type of a row with a schema is the one that the schema has with null admitted as the flag of
the row says. -/
theorem ParameterRow.typed {P : Typing → Prop} {parameter : Parameter} {row : ParameterModel}
    (h : builder.ParameterRow P parameters parameter row) {id : NodeId}
    (hschema : parameter.schema = some id) :
    row.isNullable = Resolver.admitsNull builder.graph id (builder.parameterUsage parameter)
      ∧ ∃ s t, P s ∧ P t ∧ runStep (builder.resolver.typeAs builder.graph row.isNullable id
          (builder.parameterUsage parameter)) s = (.ok row.type, t) := by
  have hused : row.isNullable =
      Resolver.admitsNull builder.graph id (builder.parameterUsage parameter) := by
    rw [h.isNullable_eq, admitsNull_parameterUsage hschema]
  obtain ⟨-, s, type, t, hs, ht, htype, hrow⟩ := h
  have hresolved : row.type = type := by
    rw [hrow, parameterRow, hschema]
    rfl
  rw [hschema, Resolver.resolve_eq_typeAs, ← hused, ← hresolved] at htype
  exact ⟨hused, s, t, hs, ht, htype⟩

/-- Arranging leaves out no row and adds none. -/
theorem arrange_perm (settings : Settings) (models : List ParameterModel) :
    (arrange settings models).Perm models := by
  unfold arrange
  split
  · exact List.filter_append_perm (·.isRequired) models
  · exact List.Perm.refl models

theorem forall₂_of_zip {α β γ : Type} {R : α → β → Prop} {S : α × β → γ → Prop} {as : List α}
    {bs : List β} {cs : List γ} (h : List.Forall₂ R as bs) (hzip : List.Forall₂ S (as.zip bs) cs) :
    List.Forall₂ (fun a c => ∃ b, R a b ∧ S (a, b) c) as cs := by
  induction h generalizing cs with
  | nil =>
    cases hzip
    exact .nil
  | cons hfirst _ ih =>
    cases hzip with
    | cons hentry hrest => exact .cons ⟨_, hfirst, hentry⟩ (ih hrest)

theorem variableNames_ok {language : Language} {key : String}
    (h : Naming.variableNames language parameters key = .ok identifiers) :
    List.Forall₂ (fun parameter identifier =>
      Naming.variableName language parameters parameter = .ok identifier)
      parameters identifiers := by
  unfold Naming.variableNames at h
  obtain ⟨names, hnames, h⟩ := Except.bind_ok.mp h
  split at h
  · cases h
  · cases h
    have hsame := List.forall₂_eq_eq_eq ▸ Generation.map_of_mapM_ok hnames
    exact List.forall₂_map_right_iff.mp (List.forall₂_map_left_iff.mp hsame)

theorem Stages.parameterRows {P : Typing → Prop}
    (h : builder.Stages operation model parameters identifiers models s u v t)
    (hkept : builder.resolver.Keeps builder.graph P) (hs : P s) :
    P u ∧ List.Forall₂ (builder.ParameterRow P parameters) parameters models := by
  obtain ⟨hu, hrows⟩ := runStep_mapM_ok (P := P) (R := fun entry model => ∃ s type t, P s ∧ P t
      ∧ runStep (builder.resolver.resolve builder.graph entry.1.schema
        (builder.parameterUsage entry.1)) s = (.ok type, t)
      ∧ model = builder.parameterRow entry.1 entry.2 type) (fun entry _ s t model hs hmodel => by
    rw [parameterModel_eq] at hmodel
    obtain ⟨type, htype, rfl⟩ := runStep_map_ok.mp hmodel
    exact ⟨hkept hs htype, s, type, t, hs, hkept hs htype, htype, rfl⟩) hs h.modelled
  refine ⟨hu, (forall₂_of_zip (variableNames_ok h.named) hrows).imp ?_⟩
  rintro parameter model ⟨identifier, hidentifier, s, type, t, hs, ht, htype, rfl⟩
  exact ⟨hidentifier, s, type, t, hs, ht, htype, rfl⟩

end

end ApiClients.Builder
