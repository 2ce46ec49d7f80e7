import ApiClients.Proofs.Coverage
import ApiClients.Proofs.StatusCodes

/-!
# The response table of an operation

Each response of an operation gets a row of the table (`row`), made from its type and from the codes
of all of them; so nothing can go wrong with a table but that a type cannot be resolved
(`models_of_checked`).  The codes alone settle which rows are successes and which of these is the
primary one (`Classified`).  The exception type is settled by the responses whose rows are no
successes (`exceptionType_of_errors`).
-/

namespace ApiClients

theorem mapM_map {m : Type → Type} [Monad m] [LawfulMonad m] {α β γ : Type} (x : α → m β)
    (f : α → β → γ) (as : List α) :
    (as.mapM fun a => f a <$> x a) = as.zipWith f <$> as.mapM x := by
  induction as with
  | nil => simp
  | cons a as ih => simp [List.mapM_cons, ih]

namespace Responses

section

variable {resolver : Resolver} {graph : Graph} {operation : Operation}
  {responses : List (String × Response)} {table : List ResponseModel} {s t : Typing}

/-! ### Rows -/

/-- The row of a response with its type, among codes some of which are successes. -/
def row (language : Language) (graph : Graph) (codes : List String) (entry : String × Response)
    (type : String) : ResponseModel where
  statusCode := entry.1
  type := type
  isSuccess := (successCodes codes).contains entry.1
  isPrimary := decide (StatusCode.mostSpecific? (successCodes codes) = some entry.1)
  isNullable := entry.2.nullable || (entry.2.schema.any fun id => (graph.node id).isNullable)
  isFile := type == language.fileResponse
  voidType := language.void
  description := entry.2.description

/-- The types of the responses of an operation, resolved one after another. -/
def types (resolver : Resolver) (graph : Graph) (responses : List (String × Response)) :
    TypingM (List String) :=
  responses.mapM fun entry => resolver.resolve graph entry.2.schema
    (usage ((successCodes (responses.map (·.1))).contains entry.1) entry.2)

theorem model_eq (codes : List String) (entry : String × Response) :
    model resolver graph (successCodes codes) (StatusCode.mostSpecific? (successCodes codes))
        entry.1 entry.2
      = row resolver.language graph codes entry <$> resolver.resolve graph entry.2.schema
        (usage ((successCodes codes).contains entry.1) entry.2) := by
  rw [map_eq_pure_bind]
  rfl

/-- A table fails only where a type does. -/
theorem models_of_checked (h : checked operation = .ok responses) :
    models resolver graph operation
      = responses.zipWith (row resolver.language graph (responses.map (·.1)))
        <$> types resolver graph responses := by
  have hmodels : models resolver graph operation = responses.mapM fun entry =>
      model resolver graph (successCodes (responses.map (·.1)))
        (StatusCode.mostSpecific? (successCodes (responses.map (·.1)))) entry.1 entry.2 := by
    rw [models, h]
    exact pure_bind responses _
  rw [hmodels, types, ← mapM_map]
  simp only [model_eq]

theorem checked_of_models (h : runStep (models resolver graph operation) s = (.ok table, t)) :
    ∃ responses, checked operation = .ok responses := by
  obtain ⟨responses, u, hchecked, -⟩ := runStep_bind_ok.mp h
  exact ⟨responses, congrArg Prod.fst hchecked⟩

/-- A table has a row for each response, made from a type. -/
def Tabulated (language : Language) (graph : Graph) (codes : List String)
    (responses : List (String × Response)) (table : List ResponseModel) : Prop :=
  List.Forall₂ (fun entry model => ∃ type, model = row language graph codes entry type) responses
    table

section

variable {language : Language} {codes : List String}

theorem Tabulated.codes_eq (h : Tabulated language graph codes responses table) :
    table.map (·.statusCode) = responses.map (·.1) := by
  induction h with
  | nil => rfl
  | cons hfirst _ ih =>
    obtain ⟨type, rfl⟩ := hfirst
    rw [List.map_cons, List.map_cons, ih]
    rfl

/-- Whether a row has a type and whether it is one of a file is read off its type. -/
theorem Tabulated.readOff (h : Tabulated language graph codes responses table) :
    ∀ model ∈ table, (model.hasType = false ↔ model.type = language.void)
      ∧ (model.isFile = true ↔ model.type = language.fileResponse) := by
  induction h with
  | nil => exact fun _ hmem => by cases hmem
  | cons hfirst _ ih =>
    obtain ⟨type, rfl⟩ := hfirst
    refine List.forall_mem_cons.mpr ⟨⟨?_, ?_⟩, ih⟩
    · simp [ResponseModel.hasType, row]
    · simp [row]

/-- Whether a row is a success and whether it is the primary one depends on the codes alone. -/
theorem Tabulated.flags (h : Tabulated language graph codes responses table) :
    ∀ model ∈ table,
      model.isSuccess = (successCodes codes).contains model.statusCode
      ∧ model.isPrimary
        = decide (StatusCode.mostSpecific? (successCodes codes) = some model.statusCode) := by
  induction h with
  | nil => exact fun _ hmem => by cases hmem
  | cons hfirst _ ih =>
    obtain ⟨type, rfl⟩ := hfirst
    exact List.forall_mem_cons.mpr ⟨⟨rfl, rfl⟩, ih⟩

end

/-- The rows of a table with the states in which their types have been resolved. -/
theorem rows_of_models {P : Typing → Prop} (hkept : resolver.Keeps graph P)
    (h : checked operation = .ok responses) (hs : P s)
    (hrun : runStep (models resolver graph operation) s = (.ok table, t)) :
    P t ∧ List.Forall₂ (fun entry model => ∃ u type v, P u
      ∧ runStep (resolver.resolve graph entry.2.schema
          (usage ((successCodes (responses.map (·.1))).contains entry.1) entry.2)) u = (.ok type, v)
      ∧ model = row resolver.language graph (responses.map (·.1)) entry type) responses table := by
  rw [models_of_checked h, types, ← mapM_map] at hrun
  refine runStep_mapM_ok ?_ hs hrun
  intro entry _ u v model hu hmodel
  obtain ⟨type, htype, hrow⟩ := runStep_map_ok.mp hmodel
  exact ⟨hkept hu htype, u, type, v, hu, htype, hrow.symm⟩

theorem tabulated_of_models (h : checked operation = .ok responses)
    (hrun : runStep (models resolver graph operation) s = (.ok table, t)) :
    Tabulated resolver.language graph (responses.map (·.1)) responses table := by
  refine (rows_of_models (resolver.keeps_true graph) h trivial hrun).2.imp ?_
  rintro entry model ⟨-, type, -, -, -, hmodel⟩
  exact ⟨type, hmodel⟩

/-! ### Successes -/

/-- The codes of the 200s are the successes; where there is none of them it is the default. -/
theorem mem_successCodes {codes : List String} {code : String} (h : code ∈ codes) :
    code ∈ successCodes codes ↔ StatusCode.isSuccess code = true
      ∨ (∀ other ∈ codes, StatusCode.isSuccess other = false)
        ∧ StatusCode.isDefault code = true := by
  unfold successCodes
  dsimp only
  split
  · rename_i hnone
    have hall : ∀ other ∈ codes, StatusCode.isSuccess other = false := by
      simpa [List.filter_eq_nil_iff] using hnone
    simp [h, hall code h]
    exact fun _ => hall
  · rename_i hsome
    have hsuccess : ∃ other ∈ codes, StatusCode.isSuccess other = true := by
      simpa [List.filter_eq_nil_iff] using hsome
    obtain ⟨other, hother, hyes⟩ := hsuccess
    constructor
    · intro hmem
      exact .inl (List.mem_filter.mp hmem).2
    · rintro (hcode | ⟨hall, -⟩)
      · exact List.mem_filter.mpr ⟨h, hcode⟩
      · rw [hall other hother] at hyes
        cases hyes

theorem successCodes_subset {codes : List String} : successCodes codes ⊆ codes := by
  unfold successCodes
  dsimp only
  split <;> exact fun _ hmem => List.mem_of_mem_filter hmem

/-- What the rows of a table say of the responses.  There is one for each code, in declared order.
Successes are the codes of the 200s, and the default where there is none of them.  There is a primary
one if there is a success at all; then it is one alone, it is a success, and no success says anything
more specific. -/
structure Classified (responses : List (String × Response)) (table : List ResponseModel) :
    Prop where
  codes : table.map (·.statusCode) = responses.map (·.1)
  success : ∀ model ∈ table, model.isSuccess = true ↔
    StatusCode.isSuccess model.statusCode = true
      ∨ (∀ other ∈ table, StatusCode.isSuccess other.statusCode = false)
        ∧ model.statusCode.toList.map Char.toLower = "default".toList
  documented : ∀ model ∈ table, model.isSuccess = true → StatusCode.Documented model.statusCode
  primary_iff : (∃ model ∈ table, model.isPrimary = true) ↔ ∃ model ∈ table, model.isSuccess = true
  primary : ∀ best ∈ table, best.isPrimary = true →
    primary? table = some best ∧ table.filter (·.isPrimary) = [best] ∧ best.isSuccess = true
      ∧ StatusCode.Unbeaten best.statusCode
        ((table.filter (·.isSuccess)).map (·.statusCode))

theorem accepted_of_checkEntries {key : String} {entries : List (String × Option Response)}
    (h : checkEntries key entries = .ok responses) :
    ∀ code ∈ responses.map (·.1), StatusCode.isAccepted code = true := by
  induction entries generalizing responses with
  | nil =>
    cases h
    exact fun _ hmem => by cases hmem
  | cons entry entries ih =>
    obtain ⟨code, response, rest, -, hcode, hrest, rfl⟩ := checkEntries_cons_ok h
    exact List.forall_mem_cons.mpr ⟨hcode, ih hrest⟩

theorem accepted_of_checked (h : checked operation = .ok responses) :
    ∀ code ∈ responses.map (·.1), StatusCode.isAccepted code = true := by
  unfold checked at h
  split at h
  · cases h
  · exact accepted_of_checkEntries h

/-- In a list of different values one value is found once. -/
theorem filter_of_nodup {α β : Type} [DecidableEq β] {f : α → β} {as : List α}
    (h : (as.map f).Nodup) {a : α} (ha : a ∈ as) : as.filter (fun x => f x = f a) = [a] := by
  induction as with
  | nil => cases ha
  | cons first as ih =>
    rw [List.map_cons, List.nodup_cons] at h
    rcases List.mem_cons.mp ha with rfl | ha
    · have hrest : ∀ x ∈ as, f x ≠ f a := fun x hx hsame =>
        h.1 (hsame ▸ List.mem_map_of_mem hx)
      simpa [List.filter_eq_nil_iff] using hrest
    · have hother : f first ≠ f a := fun hsame => h.1 (hsame ▸ List.mem_map_of_mem ha)
      simp [hother, ih h.2 ha]

/-- What success and the primary response are among the rows of a table, for any choice of the primary
one among the most specific codes. -/
theorem classified_of_choice {primary : Option String}
    (hcodes : table.map (·.statusCode) = responses.map (·.1))
    (haccepted : ∀ code ∈ responses.map (·.1), StatusCode.isAccepted code = true)
    (hnodup : (responses.map (·.1)).Nodup)
    (hflags : ∀ model ∈ table,
      model.isSuccess = (successCodes (responses.map (·.1))).contains model.statusCode
      ∧ model.isPrimary = decide (primary = some model.statusCode))
    (hnone : primary = none → successCodes (responses.map (·.1)) = [])
    (hleast : ∀ best, primary = some best →
      StatusCode.Least best (successCodes (responses.map (·.1)))) :
    Classified responses table := by
  rw [← hcodes] at hflags haccepted hnodup hnone hleast
  have hmem : ∀ model ∈ table, model.statusCode ∈ table.map (·.statusCode) :=
    fun model hmodel => List.mem_map_of_mem hmodel
  have hsuccess : ∀ model ∈ table, model.isSuccess = true ↔
      model.statusCode ∈ successCodes (table.map (·.statusCode)) := by
    intro model hmodel
    rw [(hflags model hmodel).1, List.contains_iff_mem]
  have hprimary : ∀ model ∈ table, model.isPrimary = true ↔ primary = some model.statusCode := by
    intro model hmodel
    rw [(hflags model hmodel).2, decide_eq_true_eq]
  refine ⟨hcodes, ?success, ?documented, ?primary_iff, ?primary⟩
  case success =>
    intro model hmodel
    rw [hsuccess model hmodel, mem_successCodes (hmem model hmodel), StatusCode.isDefault_iff,
      StatusCode.reads_default, List.forall_mem_map]
  case documented =>
    intro model hmodel hyes
    rw [hsuccess model hmodel, mem_successCodes (hmem model hmodel)] at hyes
    rcases hyes with hyes | ⟨-, hdefault⟩
    · exact StatusCode.documented_of_success (haccepted _ (hmem model hmodel)) hyes
    · exact ⟨_, StatusCode.isDefault_iff.mp hdefault⟩
  case primary_iff =>
    constructor
    · rintro ⟨best, hbest, hyes⟩
      rw [hprimary best hbest] at hyes
      exact ⟨best, hbest, (hsuccess best hbest).mpr (hleast _ hyes).mem⟩
    · rintro ⟨model, hmodel, hyes⟩
      rw [hsuccess model hmodel] at hyes
      cases hcode : primary with
      | none => exact absurd (hnone hcode) (List.ne_nil_of_mem hyes)
      | some code =>
        obtain ⟨best, hbest, rfl⟩ := List.mem_map.mp (successCodes_subset (hleast code hcode).mem)
        exact ⟨best, hbest, (hprimary best hbest).mpr hcode⟩
  case primary =>
    intro best hbest hyes
    have hcode := (hprimary best hbest).mp hyes
    -- the codes are different, so no other row has the code of the primary one
    have honly : table.filter (·.isPrimary) = [best] := by
      rw [← filter_of_nodup hnodup hbest]
      apply List.filter_congr
      intro model hmodel
      simp [(hflags model hmodel).2, hcode, eq_comm]
    refine ⟨?_, honly, (hsuccess best hbest).mpr (hleast _ hcode).mem, ?_⟩
    · rw [primary?, ← List.head?_filter, honly]
      rfl
    · intro code hmem
      obtain ⟨model, hmodel, rfl⟩ := List.mem_map.mp hmem
      obtain ⟨hmodel, hyes⟩ := List.mem_filter.mp hmodel
      exact (hleast _ hcode).unbeaten _ ((hsuccess model hmodel).mp hyes)

theorem Tabulated.classified {language : Language}
    (h : Tabulated language graph (responses.map (·.1)) responses table)
    (haccepted : ∀ code ∈ responses.map (·.1), StatusCode.isAccepted code = true)
    (hnodup : (responses.map (·.1)).Nodup) : Classified responses table :=
  classified_of_choice h.codes_eq haccepted hnodup h.flags
    StatusCode.mostSpecific?_eq_none.mp fun _ => StatusCode.mostSpecific?_least

/-- The rows of a table with the row of a code marked as the primary one, and no other. -/
def marked (best : String) (table : List ResponseModel) : List ResponseModel :=
  table.map fun model => { model with isPrimary := decide (best = model.statusCode) }

/-- Where several codes are the most specific ones, any of them can be the primary one. -/
theorem Tabulated.classified_marked {language : Language}
    (h : Tabulated language graph (responses.map (·.1)) responses table)
    (haccepted : ∀ code ∈ responses.map (·.1), StatusCode.isAccepted code = true)
    (hnodup : (responses.map (·.1)).Nodup) {best : String}
    (hbest : StatusCode.Least best (successCodes (responses.map (·.1)))) :
    Classified responses (marked best table) := by
  refine @classified_of_choice _ _ (some best) ?_ haccepted hnodup ?_ (by simp) ?_
  · rw [← h.codes_eq, marked, List.map_map]
    rfl
  · intro model hmodel
    obtain ⟨before, hbefore, rfl⟩ := List.mem_map.mp hmodel
    exact ⟨(h.flags before hbefore).1, by simp⟩
  · intro other hother
    cases hother
    exact hbest

/-! ### Errors -/

/-- The responses whose rows are no successes, with their rows. -/
def errors (responses : List (String × Response)) (table : List ResponseModel) :
    List ((String × Response) × ResponseModel) :=
  (responses.zip table).filter fun entry => !entry.2.isSuccess

theorem Tabulated.errors_eq {language : Language} {codes : List String}
    (h : Tabulated language graph codes responses table) :
    (errors responses table).map (·.1)
      = responses.filter fun entry => !(successCodes codes).contains entry.1 := by
  unfold errors
  induction h with
  | nil => rfl
  | @cons entry _ _ _ hfirst _ ih =>
    obtain ⟨type, rfl⟩ := hfirst
    rw [List.zip_cons_cons, List.filter_cons, List.filter_cons, ← ih]
    by_cases hsuccess : entry.1 ∈ successCodes codes <;> simp [row, hsuccess]

/-- The exception type is that of the responses that are no successes in the table. -/
theorem exceptionType_of_errors (h : checked operation = .ok responses)
    (htable : Tabulated resolver.language graph (responses.map (·.1)) responses table) :
    exceptionType resolver graph operation
      = errorType resolver graph operation.key ((errors responses table).map (·.1.2)) := by
  have hresponses : (errors responses table).map (·.1.2)
      = ((errors responses table).map (·.1)).map (·.2) := by rw [List.map_map]; rfl
  rw [hresponses, htable.errors_eq, exceptionType_eq, h]
  exact pure_bind responses _

end

/-! ### The table -/

/-- After the first phase the table of an operation of the pass does not fail, if the formats within
reach can be looked up. -/
theorem models_of_prepare {settings : Settings} {language : Language} {graph : Graph}
    {schemas : List NodeId} {operations : List Operation} {builder : Builder} {u v s : Typing}
    {operation : Operation} {responses : List (String × Response)}
    (hprepare : runStep (Generation.prepare settings language graph schemas operations) u =
      (.ok builder, v))
    (hoperation : operation ∈ operations) (h : checked operation = .ok responses)
    (hformats : ∀ id, graph.Within (Generation.roots schemas operations) id →
      (graph.actualNode id).format.isKey = true)
    (hextends : v.registry.Extends s.registry) :
    ∃ table t, runStep (models builder.resolver graph operation) s = (.ok table, t) := by
  have hready := Generation.ready_of_prepare hprepare operation hoperation
  have hgraph : builder.graph = graph := by rw [(Generation.prepare_ok hprepare).1]
  have hcovers := hready.covers
  have hwithin := hready.within
  rw [hgraph] at hcovers hwithin
  -- names are found and formats looked up, so there is no failure left
  have hbuilds : Builds v.registry.Extends (fun _ => False) language graph
      (Generation.roots schemas operations) :=
    ⟨hcovers.mono, fun hid nullable use => Resolver.upholds_primitiveType language _ nullable use
      fun hno => by rw [hformats _ hid] at hno; cases hno⟩
  have htypes : Upholds (fun s : Typing => v.registry.Extends s.registry) (fun _ => False)
      (types builder.resolver graph responses) := by
    refine upholds_mapM ?_
    rintro ⟨code, response⟩ hresponse
    rw [hready.resolver]
    exact hbuilds.resolve (fun id hid => hwithin.response h hresponse hid) _
  have hnone := (htypes s hextends).2
  rcases hrun : runStep (types builder.resolver graph responses) s with ⟨failure | found, t⟩
  · rw [hrun] at hnone
    exact (hnone failure rfl).elim
  · exact ⟨_, t, by rw [models_of_checked h]; exact runStep_map_ok.mpr ⟨found, hrun, rfl⟩⟩

/-- The response table of an operation whose responses are a map from status codes to responses, from
any state.  It fails just where a type of a response cannot be resolved; in a pass that is prepared
for the operation none fails.  Otherwise the rows are classified by the codes, whichever of the most
specific ones is taken for the primary one, and the exception type is that of the responses whose
rows are no successes. -/
theorem responses_classified (graph : Graph) {operation : Operation}
    {responses : List (String × Response)} (h : checked operation = .ok responses)
    (hnodup : (responses.map (·.1)).Nodup) :
    (∀ resolver s,
      (∀ failure t, runStep (models resolver graph operation) s = (.error failure, t) ↔
        runStep (types resolver graph responses) s = (.error failure, t))
      ∧ ∀ table t, runStep (models resolver graph operation) s = (.ok table, t) →
        Classified responses table
        ∧ (∀ best, StatusCode.Least best (successCodes (responses.map (·.1))) →
          Classified responses (marked best table))
        ∧ exceptionType resolver graph operation
          = errorType resolver graph operation.key ((errors responses table).map (·.1.2)))
    ∧ ∀ settings language schemas operations builder u v,
      runStep (Generation.prepare settings language graph schemas operations) u =
        (.ok builder, v) →
      operation ∈ operations →
      (∀ id, graph.Within (Generation.roots schemas operations) id →
        (graph.actualNode id).format.isKey = true) →
      ∀ s, v.registry.Extends s.registry →
        ∃ table t, runStep (models builder.resolver graph operation) s = (.ok table, t) := by
  refine ⟨fun resolver s => ⟨?failure, ?table⟩, ?prepared⟩
  case failure =>
    intro failure t
    rw [models_of_checked h, map_eq_pure_bind, runStep_bind_error]
    simp
  case table =>
    intro table t hrun
    have htable := tabulated_of_models h hrun
    have haccepted := accepted_of_checked h
    exact ⟨htable.classified haccepted hnodup,
      fun best hbest => htable.classified_marked haccepted hnodup hbest,
      exceptionType_of_errors h htable⟩
  case prepared =>
    intro settings language schemas operations builder u v hprepare hoperation hformats s hextends
    exact models_of_prepare hprepare hoperation h hformats hextends

/-- The default, a range, two numbers that are successes and an error. -/
def petCodes : List String := ["Default", "2xx", "204", "404", "201"]

def petResponses : Operation :=
  { method := "get", path := "/pets"
    responses := some (petCodes.map fun code => (code, some {})) }

theorem responses_classified_pets :
    checked petResponses = .ok (petCodes.map fun code => (code, {}))
      ∧ ((petCodes.map fun code => (code, ({} : Response))).map (·.1)).Nodup
      ∧ ∃ table t, runStep (models (Resolver.ofLanguage Language.rust) {} petResponses) {} =
          (.ok table, t)
        ∧ Classified (petCodes.map fun code => (code, {})) table
        ∧ (table.filter (·.isSuccess)).map (·.statusCode) = ["2xx", "204", "201"]
        ∧ (primary? table).map (·.statusCode) = some "201"
        ∧ (errors (petCodes.map fun code => (code, {})) table).map (·.1.1) =
          ["Default", "404"] := by
  have hchecked : checked petResponses = .ok (petCodes.map fun code => (code, {})) := by
    decide +kernel
  have hnodup : ((petCodes.map fun code => (code, ({} : Response))).map (·.1)).Nodup := by decide
  have hfacts : (runStep (models (Resolver.ofLanguage Language.rust) {} petResponses)
        {}).1.toOption.map (fun table =>
      ((table.filter (·.isSuccess)).map (·.statusCode), (primary? table).map (·.statusCode),
        (errors (petCodes.map fun code => (code, {})) table).map (·.1.1))) =
      some (["2xx", "204", "201"], some "201", ["Default", "404"]) := by decide +kernel
  obtain ⟨table, htable, hfacts⟩ := Except.ok_of_toOption_map hfacts
  simp only [Prod.mk.injEq] at hfacts
  have hrun : runStep (models (Resolver.ofLanguage Language.rust) {} petResponses) {} =
      (.ok table, _) := Prod.ext htable rfl
  have hclassified := (((responses_classified {} hchecked hnodup).1 _ _).2 _ _ hrun).1
  exact ⟨hchecked, hnodup, table, _, hrun, hclassified, hfacts⟩

end Responses

end ApiClients
