import ApiClients.Proofs.BuiltModels
import ApiClients.Proofs.ClientGroups
import ApiClients.Proofs.OrderedEntries
import ApiClients.Proofs.ParameterOrder
import ApiClients.Proofs.ResponseTable
import ApiClients.Proofs.TableCells
import ApiClients.Proofs.VariableIdentifiers

/-!
# Table rows of a manifest

The rows of a manifest mix values that are escaped with some that are not: variable names, status
codes and the names of types.  Those that a pass makes have no bar and no line feed, a status code
apart that is accepted with a line feed behind it.  So all rows of a report are intact but for those
of such status codes, and each table stands in the manifest as consecutive lines
(`tables_intact`).
-/

namespace ApiClients

open ApiClients.Manifest ApiClients.Text

/-! ### Values that are not escaped -/

namespace Identifier

theorem isIdentifierChar_of_isIdentifier {text : String} (h : isIdentifier text = true) :
    ∀ c ∈ text.toList, isIdentifierChar c = true := by
  unfold isIdentifier at h
  split at h
  · cases h
  · rename_i c rest htext
    simp only [Bool.and_eq_true, List.all_eq_true] at h
    rw [htext]
    exact List.forall_mem_cons.mpr ⟨h.1.1, h.2⟩

theorem plain_of_isIdentifier {text : String} (h : isIdentifier text = true) :
    Plain text.toList :=
  plain_of_forall (isIdentifierChar_of_isIdentifier h) (by decide) (by decide)

end Identifier

theorem Language.plain_escape {language : Language} (h : language ∈ Language.known)
    {identifier : String} (hidentifier : Identifier.isIdentifier identifier = true) :
    Plain (language.escape identifier).toList := by
  have hmarks : ∀ language ∈ Language.known,
      Plain language.fallbackMark.toList ∧ Plain language.escapeMark.toList := by decide +kernel
  have hplain := Identifier.plain_of_isIdentifier hidentifier
  rw [escape]
  split
  · exact hplain
  · split <;> rw [String.toList_append]
    · exact (hmarks language h).1.append hplain
    · exact (hmarks language h).2.append hplain

/-- No bar can stand in an accepted status code. -/
theorem StatusCode.bar_notMem {code : String} (h : isAccepted code = true) :
    '|' ∉ code.toList := by
  rcases isAccepted_iff.mp h with ⟨form, hreads⟩ | ⟨word, ⟨form, hreads⟩, rfl⟩
  · exact foreign_of_reads hreads (by decide +kernel) (by decide)
  · have hword : '|' ∉ word.toList := foreign_of_reads hreads (by decide +kernel) (by decide)
    rw [String.toList_append, List.mem_append, not_or]
    exact ⟨hword, by decide⟩

namespace Builder

variable {builder : Builder} {operation : Operation} {model : OperationModel}
  {parameters : List Parameter} {identifiers : List String} {rows : List ParameterModel}
  {s u v t : Typing}

theorem Stages.plain_variableName
    (h : builder.Stages operation model parameters identifiers rows s u v t)
    (hlanguage : builder.language ∈ Language.known) :
    ∀ row ∈ model.parameters, Plain row.variableName.toList := by
  intro row hrow
  rw [h.arranged, (arrange_perm builder.settings rows).mem_iff] at hrow
  have hnamed : row.variableName ∈ identifiers := by
    rw [← h.map_variableName]
    exact List.mem_map_of_mem hrow
  obtain ⟨parameter, hparameter, hname⟩ :=
    Reading.exists_of_mem_right (variableNames_ok h.named) hnamed
  obtain ⟨text, htext⟩ := named_of_variableNames h.named parameter hparameter
  simp only [Naming.variableName, Naming.baseVariableName, htext, Except.map,
    Except.ok.injEq] at hname
  rw [← hname]
  exact Language.plain_escape hlanguage (Naming.isIdentifier_baseIdentifier hlanguage _ _ _)

theorem Stages.accepted
    (h : builder.Stages operation model parameters identifiers rows s u v t) :
    ∀ row ∈ model.responses, StatusCode.isAccepted row.statusCode = true := by
  intro row hrow
  obtain ⟨responses, hchecked⟩ := Responses.checked_of_models h.responses
  have hcodes := (Responses.tabulated_of_models hchecked h.responses).codes_eq
  apply Responses.accepted_of_checked hchecked
  rw [← hcodes]
  exact List.mem_map_of_mem hrow

end Builder

namespace Manifest

/-! ### Rows -/

def parameterHeader : String := "| Parameter | Variable | Type | In | Required |"

def responseHeader : String := "| Status | Type | Kind |"

def typeHeader : String := "| Name | Kind | Properties |"

theorem columns_parameterHeader : columns parameterHeader = 5 := by decide

theorem columns_responseHeader : columns responseHeader = 3 := by decide

theorem columns_typeHeader : columns typeHeader = 3 := by decide

theorem closed_yesNo (b : Bool) : Closed (yesNo b).toList := by
  apply Plain.closed
  cases b <;> decide

theorem closed_word (location : Location) : Closed location.word.toList := by
  apply Plain.closed
  cases location <;> decide

theorem closed_responseKind (response : ResponseModel) :
    Closed (responseKind response).toList := by
  apply Plain.closed
  unfold responseKind
  cases response.isSuccess <;> cases response.isPrimary <;> decide

theorem closed_typeKind (graph : Graph) (id : NodeId) : Closed (typeKind graph id).toList := by
  apply Plain.closed
  unfold typeKind
  cases (graph.actualNode id).isEnum <;> decide

theorem intact_parameterRow {parameter : ParameterModel}
    (h : Closed parameter.variableName.toList) :
    Intact parameterHeader (parameterRow parameter) := by
  have hrow : (parameterRow parameter).toList = rowChars [(cell parameter.name).toList,
      (code parameter.variableName).toList, (code (textCell parameter.type)).toList,
      parameter.location.word.toList, (yesNo parameter.isRequired).toList] := by
    simp [parameterRow, rowChars, String.toList_append]
  apply intact_of_cells hrow columns_parameterHeader
  simp only [List.forall_mem_cons, List.not_mem_nil, false_implies, implies_true, and_true]
  exact ⟨closed_cell _, h.code, (closed_textCell _).code, closed_word _, closed_yesNo _⟩

theorem intact_responseRow {response : ResponseModel} (h : Closed response.statusCode.toList) :
    Intact responseHeader (responseRow response) := by
  have hrow : (responseRow response).toList = rowChars [response.statusCode.toList,
      (code (textCell response.type)).toList, (responseKind response).toList] := by
    simp [responseRow, rowChars, String.toList_append]
  apply intact_of_cells hrow columns_responseHeader
  simp only [List.forall_mem_cons, List.not_mem_nil, false_implies, implies_true, and_true]
  exact ⟨h, (closed_textCell _).code, closed_responseKind _⟩

theorem intact_typeRow {graph : Graph} {name : String} {id : NodeId} (h : Closed name.toList) :
    Intact typeHeader (typeRow graph name id) := by
  have hrow : (typeRow graph name id).toList = rowChars [(code name).toList,
      (typeKind graph id).toList,
      (textCell (", ".intercalate (propertyNames graph id))).toList] := by
    simp [typeRow, rowChars, String.toList_append]
  apply intact_of_cells hrow columns_typeHeader
  simp only [List.forall_mem_cons, List.not_mem_nil, false_implies, implies_true, and_true]
  exact ⟨h.code, closed_typeKind _ _, closed_textCell _⟩

/-! ### Tables in the text -/

/-- A table with a header and some rows stands in a text: its lines come one after another. -/
def HasTable (text header : String) (rows : List String) : Prop :=
  ∃ rule, (header :: rule :: rows.flatMap (split '\n')) <:+: split '\n' text

variable {content : Content} {model : OperationModel} {block ls : List String} {text : String}

/-- Lines of a manifest that come one after another do so in its text. -/
theorem infix_split {part : List String} (h : part <:+: ls) :
    part.flatMap (split '\n') <:+: split '\n' (String.join (ls.map (· ++ "\n"))) := by
  obtain ⟨before, after, rfl⟩ := h
  rw [split_join]
  exact ⟨before.flatMap (split '\n'), after.flatMap (split '\n') ++ [""], by simp⟩

theorem hasTable_of_infix {header rule : String} {rows : List String}
    (hheader : '\n' ∉ header.toList) (hrule : '\n' ∉ rule.toList)
    (h : (["", header, rule] ++ rows) <:+: ls) :
    HasTable (String.join (ls.map (· ++ "\n"))) header rows := by
  have hlines := infix_split h
  have htable : (["", header, rule] ++ rows).flatMap (split '\n') =
      [""] ++ (header :: rule :: rows.flatMap (split '\n')) := by
    simp [split_of_notMem hheader, split_of_notMem hrule, split_of_notMem]
  rw [htable] at hlines
  exact ⟨rule, (List.suffix_append _ _).isInfix.trans hlines⟩

/-- The tables of an operation are in its section. -/
theorem infix_operationLines (h : operationLines model = .ok block) :
    parameterLines model <:+: block ∧ responseLines model <:+: block := by
  unfold operationLines at h
  obtain ⟨summary, -, h⟩ := Except.bind_ok.mp h
  cases h
  exact ⟨⟨_, _, rfl⟩, (List.suffix_append _ _).isInfix⟩

/-- Each model is in the group of its client. -/
theorem mem_clientGroups {report : Report} (h : model ∈ report.models) :
    ∃ group ∈ clientGroups report, model ∈ group.2 := by
  have hclient : (model.client, report.models.filter (·.client = model.client)) ∈
      report.clients := by
    rw [Report.clients_eq]
    exact List.mem_map_of_mem (Report.mem_clientNames.mpr ⟨model, h, rfl⟩)
  refine ⟨_, Entries.mem_sortByKey.mpr (List.mem_map_of_mem hclient), ?_⟩
  exact List.mem_filter.mpr ⟨h, by simp⟩

/-- The section of each model is among the sections of the clients, if these are shown. -/
theorem infix_clientLines (h : clientLines content = .ok ls)
    (hshown : (content.settings.showClasses || content.settings.showInterfaces) = true)
    (hmodel : model ∈ content.report.models) :
    ∃ block, operationLines model = .ok block ∧ block <:+: ls := by
  unfold clientLines at h
  rw [if_pos hshown] at h
  obtain ⟨sections, hsections, h⟩ := Except.bind_ok.mp h
  cases h
  obtain ⟨⟨className, models⟩, hgroup, hmember⟩ := mem_clientGroups hmodel
  obtain ⟨section', hsection, hlines⟩ := Generation.exists_of_mapM_ok hsections hgroup
  obtain ⟨blocks, hblocks, hlines⟩ := Except.bind_ok.mp hlines
  cases hlines
  obtain ⟨block, hblock, hoperation⟩ := Generation.exists_of_mapM_ok hblocks hmember
  have hgroup : block <:+: clientHeading content.settings className ++ blocks.flatten :=
    (List.infix_of_mem_flatten hblock).trans (List.suffix_append _ _).isInfix
  exact ⟨block, hoperation, hgroup.trans (List.infix_of_mem_flatten hsection)⟩

theorem lines_of_markdown (h : markdown content = .ok text) :
    ∃ ls, lines content = .ok ls ∧ String.join (ls.map (· ++ "\n")) = text := by
  unfold markdown at h
  cases hlines : lines content with
  | error failure =>
    rw [hlines] at h
    cases h
  | ok ls =>
    rw [hlines] at h
    exact ⟨ls, rfl, Except.ok.inj h⟩

/-- A manifest is made of the sections of the clients, the table of types, and other lines. -/
theorem infix_lines (h : lines content = .ok ls) :
    (∃ clients, clientLines content = .ok clients ∧ clients <:+: ls)
      ∧ typeLines content <:+: ls := by
  unfold lines at h
  obtain ⟨clients, hclients, h⟩ := Except.bind_ok.mp h
  cases h
  constructor
  · refine ⟨clients, hclients, ?_⟩
    rw [List.append_assoc]
    exact List.infix_append _ _ _
  · exact List.infix_append _ _ _

theorem hasTable_parameters (h : parameterLines model <:+: ls) (hsome : model.parameters ≠ []) :
    HasTable (String.join (ls.map (· ++ "\n"))) parameterHeader
      (model.parameters.map parameterRow) := by
  rw [parameterLines, if_neg (by simpa using hsome)] at h
  exact hasTable_of_infix (by decide) (by decide) h

theorem hasTable_responses (h : responseLines model <:+: ls) (hsome : model.responses ≠ []) :
    HasTable (String.join (ls.map (· ++ "\n"))) responseHeader
      (model.responses.map responseRow) := by
  rw [responseLines, if_neg (by simpa using hsome)] at h
  exact hasTable_of_infix (by decide) (by decide) h

theorem hasTable_types (h : typeLines content <:+: ls)
    (hshown : content.settings.showTypes = true) (hsome : content.report.namedTypes ≠ []) :
    HasTable (String.join (ls.map (· ++ "\n"))) typeHeader
      (content.report.sortedTypes.map fun entry => typeRow content.graph entry.1 entry.2) := by
  rw [typeLines, if_pos (by simpa [hshown] using hsome)] at h
  have htable : (["", typeHeader, "|------|------|------------|"] ++
      content.report.sortedTypes.map fun entry => typeRow content.graph entry.1 entry.2) <:+: ls :=
    (List.suffix_append ["", "## Types"] _).isInfix.trans h
  exact hasTable_of_infix (by decide) (by decide) htable

/-- The tables of a manifest: their rows are intact, those of status codes with a line feed apart, and
the tables that are shown stand in the text. -/
structure TablesIntact (content : Content) (text : String) : Prop where
  parameterRows : ∀ model ∈ content.report.models, ∀ parameter ∈ model.parameters,
    Intact parameterHeader (parameterRow parameter)
  responseRows : ∀ model ∈ content.report.models, ∀ response ∈ model.responses,
    '\n' ∉ response.statusCode.toList → Intact responseHeader (responseRow response)
  typeRows : ∀ entry ∈ content.report.sortedTypes,
    Intact typeHeader (typeRow content.graph entry.1 entry.2)
  parameterTables : (content.settings.showClasses || content.settings.showInterfaces) = true →
    ∀ model ∈ content.report.models, model.parameters ≠ [] →
      HasTable text parameterHeader (model.parameters.map parameterRow)
  responseTables : (content.settings.showClasses || content.settings.showInterfaces) = true →
    ∀ model ∈ content.report.models, model.responses ≠ [] →
      HasTable text responseHeader (model.responses.map responseRow)
  typeTable : content.settings.showTypes = true → content.report.namedTypes ≠ [] →
    HasTable text typeHeader
      (content.report.sortedTypes.map fun entry => typeRow content.graph entry.1 entry.2)

/-- The rows of all tables in the manifest of a report are intact but for those of status codes with
a line feed, whatever bars, backslashes, line feeds and blanks there are in the names of parameters
and properties.  Where the settings show clients, the tables of each operation stand in the text of
the manifest, and where they show types, the table of types does. -/
theorem tables_intact (settings : Settings) (graph : Graph) (schemas : List NodeId)
    (operations : List Operation) (journal : Journal) (report : Report) (title : String)
    (language : Language) (text : String)
    (hreport : (Generation.report settings graph schemas operations journal).1 = .ok report)
    (htext : markdown ⟨title, settings, language, report, graph⟩ = .ok text) :
    TablesIntact ⟨title, settings, language, report, graph⟩ text := by
  have hrun : runStep (Generation.run settings graph schemas operations) { journal := journal } =
      (.ok report, _) := Prod.ext hreport rfl
  obtain ⟨target, builder, htarget, rfl, -, hbuilt⟩ := Generation.built_of_run hrun
  have hknown := Settings.mem_known htarget
  obtain ⟨ls, hlines, rfl⟩ := lines_of_markdown htext
  obtain ⟨⟨clients, hclients, hsections⟩, htypes⟩ := infix_lines hlines
  constructor
  case parameterRows =>
    intro model hmodel parameter hparameter
    obtain ⟨operation, -, u, v, -, hbuild⟩ := hbuilt model hmodel
    obtain ⟨-, parameters, identifiers, rows, x, y, hstages⟩ := Builder.build_stages hbuild
    exact intact_parameterRow (hstages.plain_variableName hknown parameter hparameter).closed
  case responseRows =>
    intro model hmodel response hresponse hfeed
    obtain ⟨operation, -, u, v, -, hbuild⟩ := hbuilt model hmodel
    obtain ⟨-, parameters, identifiers, rows, x, y, hstages⟩ := Builder.build_stages hbuild
    have hbar := StatusCode.bar_notMem (hstages.accepted response hresponse)
    exact intact_responseRow (Plain.closed ⟨hbar, hfeed⟩)
  case typeRows =>
    rintro ⟨name, id⟩ hentry
    obtain ⟨language', hlanguage', hnamed, hspelled⟩ := Generation.spelled_of_run hrun
    cases htarget.symm.trans hlanguage'
    have hlisted := Entries.mem_sortByKey.mp hentry
    rw [hnamed] at hlisted
    have hword := (hspelled.word hknown hlisted).1
    exact intact_typeRow (plain_of_forall hword (by decide) (by decide)).closed
  case parameterTables =>
    intro hshown model hmodel hsome
    obtain ⟨block, hblock, hinside⟩ := infix_clientLines hclients hshown hmodel
    have htable := (infix_operationLines hblock).1
    exact hasTable_parameters ((htable.trans hinside).trans hsections) hsome
  case responseTables =>
    intro hshown model hmodel hsome
    obtain ⟨block, hblock, hinside⟩ := infix_clientLines hclients hshown hmodel
    have htable := (infix_operationLines hblock).2
    exact hasTable_responses ((htable.trans hinside).trans hsections) hsome
  case typeTable => exact fun hshown hsome => hasTable_types htypes hshown hsome

/-- Pets with bars, backslashes, line feeds and blanks in the names of properties. -/
def barGraph : Graph where
  nodes := #[
    { kinds := Kinds.ofList [.object], typeName := .str "Pet",
      properties := [("a|b", 1), (" c\\", 1), ("d\ne ", 1)] },
    { kinds := Kinds.ofList [.string] }]

def barOperations : List Operation :=
  [{ method := "GET", path := "/pets",
     parameters := some [{ name := .str "x|y\\" }, { name := .str "\n z ", location := .header }],
     responses := some [("200", some { schema := some 0 }), ("404\n", some {})] }]

theorem tables_intact_bars : ∃ report text,
    (Generation.report {} barGraph [] barOperations []).1 = .ok report
      ∧ markdown ⟨"Pets", {}, Language.csharp, report, barGraph⟩ = .ok text
      ∧ TablesIntact ⟨"Pets", {}, Language.csharp, report, barGraph⟩ text
      ∧ (report.models.flatMap fun model => model.parameters.map parameterRow) =
        ["| x\\|y\\ | `x_y_` | `object` | query | no |", "| z | `_z` | `object` | header | no |"]
      ∧ (report.sortedTypes.map fun entry => typeRow barGraph entry.1 entry.2) =
        ["| `Pet` | object | a\\|b,  c\\, d e |"] := by
  have hvisit : barGraph.typeDefinitions (Generation.roots [] barOperations) = [0] := by
    have hwalk : barGraph.visit [] (Generation.roots [] barOperations) = [0, 1] := by
      simp [Graph.visit, barGraph, Graph.node, Node.children, Generation.roots, barOperations,
        Operation.schemas]
    rw [Graph.typeDefinitions, hwalk]
    decide +kernel
  have hrows : (Generation.report {} barGraph [] barOperations []).1.toOption.map (fun report =>
      ((markdown ⟨"Pets", {}, Language.csharp, report, barGraph⟩).toOption.isSome,
        report.models.flatMap fun model => model.parameters.map parameterRow,
        report.sortedTypes.map fun entry => typeRow barGraph entry.1 entry.2)) =
      some (true,
        ["| x\\|y\\ | `x_y_` | `object` | query | no |", "| z | `_z` | `object` | header | no |"],
        ["| `Pet` | object | a\\|b,  c\\, d e |"]) := by
    unfold Generation.report Generation.run Generation.prepare
    rw [hvisit]
    decide +kernel
  obtain ⟨report, hreport, hrows⟩ := Except.ok_of_toOption_map hrows
  simp only [Prod.mk.injEq] at hrows
  obtain ⟨hshown, hparameters, htypes⟩ := hrows
  cases htext : markdown ⟨"Pets", {}, Language.csharp, report, barGraph⟩ with
  | error failure =>
    rw [htext] at hshown
    cases hshown
  | ok text =>
    exact ⟨report, text, hreport, htext,
      tables_intact {} barGraph [] barOperations [] report "Pets" Language.csharp text hreport htext,
      hparameters, htypes⟩

end Manifest

end ApiClients
