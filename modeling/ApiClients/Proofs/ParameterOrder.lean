import ApiClients.Proofs.ParameterTable
import ApiClients.Proofs.VariableNames

/-!
# The order of the parameters of a model

A model has one row for each parameter of its operation.  Names are given to all parameters at once
and rows are made one after another, so row and name of a parameter stand in its own place until the
rows are arranged.  Arranging moves each row together with that place (`placed`): nothing is lost and
nothing comes twice, and rows of one kind keep the order of their places.  So a model shows its
parameters in declared order, or the required ones first and in declared order among themselves, each
with its own name (`parameters_reordered`).
-/

namespace ApiClients.Builder

section

variable {builder : Builder} {operation : Operation} {model : OperationModel}
  {parameters : List Parameter} {identifiers : List String} {rows : List ParameterModel}
  {s t u v : Typing}

/-! ### Rows with their places -/

/-- The rows of a model as they are shown, each with the place at which it was made. -/
def placed (settings : Settings) (rows : List ParameterModel) : List (ParameterModel × Nat) :=
  if settings.requiredFirst then
    rows.zipIdx.filter (·.1.isRequired) ++ rows.zipIdx.filter (! ·.1.isRequired)
  else rows.zipIdx

theorem map_fst_placed (settings : Settings) (rows : List ParameterModel) :
    (placed settings rows).map (·.1) = arrange settings rows := by
  have hfilter : ∀ p : ParameterModel → Bool,
      (rows.zipIdx.filter fun entry => p entry.1).map (·.1) = rows.filter p := by
    intro p
    have hrows : rows.zipIdx.map (·.1) = rows := List.zipIdx_map_fst 0 rows
    conv => rhs; rw [← hrows]
    rw [List.filter_map]
    rfl
  unfold placed arrange
  split
  · rw [List.map_append, hfilter (·.isRequired), hfilter (! ·.isRequired)]
  · exact List.zipIdx_map_fst 0 rows

theorem placed_perm (settings : Settings) (rows : List ParameterModel) :
    (placed settings rows).Perm rows.zipIdx := by
  unfold placed
  split
  · exact List.filter_append_perm (·.1.isRequired) rows.zipIdx
  · exact List.Perm.refl _

theorem map_snd_zipIdx (rows : List ParameterModel) :
    rows.zipIdx.map (·.2) = List.range rows.length := by
  rw [List.range_eq_range']
  exact List.zipIdx_map_snd 0 rows

theorem zipIdx_increasing (rows : List ParameterModel) :
    rows.zipIdx.Pairwise fun a b => a.2 < b.2 := by
  apply List.pairwise_map.mp
  rw [map_snd_zipIdx]
  exact List.pairwise_lt_range

/-- With the required rows first, rows of one kind keep the order of their places. -/
theorem placed_stable {settings : Settings} (h : settings.requiredFirst = true)
    (rows : List ParameterModel) :
    (placed settings rows).Pairwise fun a b => (b.1.isRequired = true → a.1.isRequired = true)
      ∧ (a.1.isRequired = b.1.isRequired → a.2 < b.2) := by
  have hkept : ∀ p : ParameterModel × Nat → Bool,
      (rows.zipIdx.filter p).Pairwise fun a b => a.2 < b.2 :=
    fun p => (zipIdx_increasing rows).sublist List.filter_sublist
  rw [placed, if_pos h, List.pairwise_append]
  refine ⟨?required, ?others, ?across⟩
  case required =>
    refine (hkept _).imp_of_mem ?_
    intro a b ha _ hlt
    have hrequired := (List.mem_filter.mp ha).2
    exact ⟨fun _ => hrequired, fun _ => hlt⟩
  case others =>
    refine (hkept _).imp_of_mem ?_
    intro a b _ hb hlt
    have hoptional := (List.mem_filter.mp hb).2
    refine ⟨fun hrequired => ?_, fun _ => hlt⟩
    simp [hrequired] at hoptional
  case across =>
    intro a ha b hb
    have hrequired := (List.mem_filter.mp ha).2
    have hoptional := (List.mem_filter.mp hb).2
    refine ⟨fun _ => hrequired, fun hsame => ?_⟩
    simp [← hsame, hrequired] at hoptional

/-! ### The parameter of a row -/

/-- A row belongs to the parameter at a place: it says what that parameter says, and its variable
name is the one at the same place among the names. -/
structure BelongsTo (parameters : List Parameter) (identifiers : List String) (place : Nat)
    (row : ParameterModel) : Prop where
  identifier : identifiers[place]? = some row.variableName
  declared : ∃ parameter, parameters[place]? = some parameter
    ∧ row.name = parameter.name ∧ row.location = parameter.location
    ∧ row.isRequired = parameter.required ∧ row.isDeprecated = parameter.deprecated
    ∧ row.default = parameter.default ∧ row.description = parameter.description

theorem named_of_variableNames {language : Language} {key : String}
    (h : Naming.variableNames language parameters key = .ok identifiers) :
    Naming.Named parameters := by
  intro parameter hparameter
  obtain ⟨identifier, -, hidentifier⟩ :=
    Reading.exists_of_mem_right (variableNames_ok h).flip hparameter
  cases hname : parameter.name with
  | str text => exact ⟨text, rfl⟩
  | null | bool | int | real | arr | obj =>
    simp [Naming.variableName, Naming.baseVariableName, hname, Except.map] at hidentifier

theorem Stages.rows_made
    (h : builder.Stages operation model parameters identifiers rows s u v t) :
    List.Forall₂ (fun entry row => ∃ type, row = builder.parameterRow entry.1 entry.2 type)
      (parameters.zip identifiers) rows := by
  refine (runStep_mapM_ok (P := fun _ => True) ?_ trivial h.modelled).2
  intro entry _ s t row _ hrow
  rw [parameterModel_eq] at hrow
  obtain ⟨type, -, rfl⟩ := runStep_map_ok.mp hrow
  exact ⟨trivial, type, rfl⟩

theorem Stages.length_rows
    (h : builder.Stages operation model parameters identifiers rows s u v t) :
    identifiers.length = parameters.length ∧ rows.length = parameters.length := by
  have hnames := (variableNames_ok h.named).length_eq
  have hrows := h.rows_made.length_eq
  rw [List.length_zip] at hrows
  omega

theorem Stages.belongsTo
    (h : builder.Stages operation model parameters identifiers rows s u v t)
    {row : ParameterModel} {place : Nat} (hrow : (row, place) ∈ rows.zipIdx) :
    BelongsTo parameters identifiers place row := by
  have hat : rows[place]? = some row := List.mem_zipIdx_iff_getElem?.mp hrow
  obtain ⟨hlt, hget⟩ := List.getElem?_eq_some_iff.mp hat
  have hzip : place < (parameters.zip identifiers).length := by
    rw [h.rows_made.length_eq]
    exact hlt
  obtain ⟨type, hmade⟩ := h.rows_made.get hzip hlt
  rw [List.get_eq_getElem, hget, List.get_eq_getElem, List.getElem_zip] at hmade
  rw [List.length_zip] at hzip
  subst hmade
  constructor
  · exact List.getElem?_eq_getElem (by omega)
  · exact ⟨_, List.getElem?_eq_getElem (by omega), rfl, rfl, rfl, rfl, rfl, rfl⟩

theorem Stages.map_variableName
    (h : builder.Stages operation model parameters identifiers rows s u v t) :
    rows.map (·.variableName) = identifiers := by
  apply List.ext_getElem?
  intro place
  by_cases hlt : place < rows.length
  · have hrow := (h.belongsTo (List.mem_zipIdx_iff_getElem?.mpr
      (List.getElem?_eq_getElem hlt))).identifier
    rw [List.getElem?_map, List.getElem?_eq_getElem hlt, hrow]
    rfl
  · have hlength := h.length_rows
    rw [List.getElem?_eq_none (by simpa using hlt), List.getElem?_eq_none (by omega)]

/-- The rows of a model with the places of their parameters: each place comes just once, and the row
belongs to the parameter there.  The places are in declared order, or, with the required ones first,
every required row stands before every other one and the places increase among the rows of one
kind. -/
structure Reordered (requiredFirst : Bool) (parameters : List Parameter)
    (identifiers : List String) (entries : List (ParameterModel × Nat)) : Prop where
  oneToOne : (entries.map (·.2)).Perm (List.range parameters.length)
  belong : ∀ row place, (row, place) ∈ entries → BelongsTo parameters identifiers place row
  declaredOrder : requiredFirst = false → entries.map (·.2) = List.range parameters.length
  requiredOrder : requiredFirst = true → entries.Pairwise fun a b =>
    (b.1.isRequired = true → a.1.isRequired = true)
      ∧ (a.1.isRequired = b.1.isRequired → a.2 < b.2)

end

/-- The rows of a model are those of the parameters of its operation, one for each, with the variable
name that the parameter itself was given.  They stand in declared order, or the required ones first
and otherwise in declared order.  No two of them have one variable name. -/
theorem parameters_reordered {builder : Builder} {operation : Operation} {model : OperationModel}
    {s t : Typing} (h : runStep (builder.build operation) s = (.ok model, t)) :
    ∃ parameters identifiers entries, operation.parameters = some parameters
      ∧ Naming.variableNames builder.language parameters operation.key = .ok identifiers
      ∧ identifiers.length = parameters.length
      ∧ model.parameters = entries.map (·.1)
      ∧ Reordered builder.settings.requiredFirst parameters identifiers entries
      ∧ (model.parameters.map (·.variableName)).Nodup := by
  obtain ⟨-, parameters, identifiers, rows, u, v, hstages⟩ := build_stages h
  obtain ⟨hidentifiers, hrows⟩ := hstages.length_rows
  have hperm := placed_perm builder.settings rows
  refine ⟨parameters, identifiers, placed builder.settings rows, hstages.declared, hstages.named,
    hidentifiers, ?shown, ?reordered, ?apart⟩
  case shown => rw [hstages.arranged, map_fst_placed]
  case reordered =>
    constructor
    · rw [← hrows, ← map_snd_zipIdx]
      exact hperm.map _
    · intro row place hentry
      exact hstages.belongsTo (hperm.mem_iff.mp hentry)
    · intro hdeclared
      rw [placed, hdeclared, if_neg (by decide), map_snd_zipIdx, hrows]
    · intro hfirst
      exact placed_stable hfirst rows
  case apart =>
    have hnodup : identifiers.Nodup :=
      ((named_of_variableNames hstages.named).returned_iff operation.key |>.mp hstages.named).2
    rw [hstages.arranged]
    refine ((arrange_perm builder.settings rows).map _).nodup_iff.mpr ?_
    rw [hstages.map_variableName]
    exact hnodup

/-- Two parameters that may be left out, and between and behind them two required ones of one
name. -/
def mixedOperation : Operation where
  method := "GET"
  path := "/pets"
  parameters := some [
    { name := .str "limit" },
    { name := .str "id", location := .path, required := true },
    { name := .str "tags" },
    { name := .str "id", required := true }]

def mixedBuilder : Builder where
  settings := { requiredFirst := true }
  resolver := .ofLanguage Language.csharp
  graph := {}
  names := [("GET /pets", ⟨"Pets", "List"⟩)]

theorem parameters_reordered_mixed :
    ∃ model t, runStep (mixedBuilder.build mixedOperation) {} = (.ok model, t)
      ∧ model.parameters.map (·.variableName) = ["idPath", "idQuery", "limit", "tags"]
      ∧ ∃ parameters identifiers entries, mixedOperation.parameters = some parameters
        ∧ Naming.variableNames Language.csharp parameters "GET /pets" = .ok identifiers
        ∧ model.parameters = entries.map (·.1)
        ∧ Reordered true parameters identifiers entries := by
  have hnames : (runStep (mixedBuilder.build mixedOperation) {}).1.toOption.map
      (fun model => model.parameters.map (·.variableName)) =
        some ["idPath", "idQuery", "limit", "tags"] := by decide +kernel
  obtain ⟨model, hmodel, hnames⟩ := Except.ok_of_toOption_map hnames
  have hrun : runStep (mixedBuilder.build mixedOperation) {} = (.ok model, _) :=
    Prod.ext hmodel rfl
  obtain ⟨parameters, identifiers, entries, hdeclared, hnamed, -, hshown, hreordered, -⟩ :=
    parameters_reordered hrun
  have hkey : mixedOperation.key = "GET /pets" := by decide +kernel
  rw [hkey] at hnamed
  exact ⟨model, _, hrun, hnames, parameters, identifiers, entries, hdeclared, hnamed, hshown,
    hreordered⟩

end ApiClients.Builder
