import ApiClients.Proofs.EndlessShapes
import ApiClients.Proofs.ResponseTable

/-!
# Response maps that are refused

A response map is gone through an entry at a time, and the first one with a code that is not
accepted is what the map is refused for (`RefusedAt`), unless an entry before it is no response.  To
resolve a type fails in other ways (`upholds_ofType`), so an operation is refused for a code in no
other case.  What is accepted are the status codes, and those with a line feed at the end, which are
never successes; where no code has one, the codes that are refused are those that are no status codes
(`codes_refused`).
-/

namespace ApiClients

/-! ### Failures of types -/

/-- How a type fails to be resolved. -/
def Failure.OfType (failure : Failure) : Prop :=
  failure = .malformed ∨ failure = .endless ∨ ∃ typeName, failure = .unregisteredType typeName

namespace Registry

theorem identity_error {node : Node} {failure : Failure} (h : identity node = .error failure) :
    failure = .malformed := by
  unfold identity at h
  split at h
  · cases h
  · split at h <;> cases h
    rfl

theorem upholds_assign_ofType (language : Language) (graph : Graph) (id : NodeId) :
    Upholds (fun _ : Typing => True) Failure.OfType (assign language graph id) := by
  intro s _
  refine ⟨trivial, fun failure hfailure => ?_⟩
  have hrun := assign_run language graph id s
  rw [hfailure] at hrun
  generalize (runStep (assign language graph id) s).2 = t at hrun
  cases hrun with
  | refused _ _ hreason =>
    rcases hreason with hfingerprint | hidentity
    · rcases Graph.nested_error [] id hfingerprint with hendless | ⟨hmalformed, -⟩
      · exact .inr (.inl hendless)
      · exact .inl hmalformed
    · exact .inl (identity_error hidentity)

end Registry

theorem Resolver.upholds_ofType (language : Language) (graph : Graph) (schema : Option NodeId)
    (usage : Usage) : Upholds (fun _ : Typing => True) Failure.OfType
      ((ofLanguage language).resolve graph schema usage) := by
  refine upholds_resolve (P := fun _ => True) graph.closed_all ?name ?base (fun _ _ => trivial) usage
  case name =>
    intro id _ _
    exact Registry.upholds_name (P := fun _ => True)
      (Registry.upholds_assign_ofType language graph _) fun name => .inr (.inr ⟨name, rfl⟩)
  case base =>
    intro id _ nullable use
    exact upholds_primitiveType (P := fun _ => True) language _ nullable use fun _ => .inl rfl

namespace Responses

variable {operation : Operation} {entries : List (String × Option Response)}
  {responses : List (String × Response)}

/-! ### Refusals -/

/-- A failure that a step does not have of its own is the failure of what it takes up. -/
theorem runStep_lift_bind_error {α β : Type} {outcome : Except Failure α} {f : α → TypingM β}
    {E : Failure → Prop} (hf : ∀ a, Upholds (fun _ : Typing => True) E (f a)) {failure : Failure}
    (hfailure : ¬ E failure) (s : Typing) :
    (runStep (Typing.lift outcome >>= f) s).1 = .error failure ↔ outcome = .error failure := by
  rw [Typing.lift, runStep_bind, runStep_mk]
  cases outcome with
  | error e => simp
  | ok a =>
    simp only [reduceCtorEq, iff_false]
    exact fun hrun => hfailure ((hf a s trivial).2 failure hrun)

theorem not_ofType (key : String) (reason : Refusal) :
    ¬ Failure.OfType (.invalidOperation key reason) := by
  simp [Failure.OfType]

theorem models_refused_iff (language : Language) (graph : Graph) {key : String} {reason : Refusal}
    (s : Typing) :
    (runStep (models (Resolver.ofLanguage language) graph operation) s).1
        = .error (.invalidOperation key reason) ↔
      checked operation = .error (.invalidOperation key reason) := by
  refine runStep_lift_bind_error (fun responses => ?_) (not_ofType key reason) s
  refine upholds_mapM fun entry _ => ?_
  exact upholds_bind (Resolver.upholds_ofType language graph _ _) fun _ => upholds_pure _

theorem exceptionType_refused_iff (language : Language) (graph : Graph) {key : String}
    {reason : Refusal} (s : Typing) :
    (runStep (exceptionType (Resolver.ofLanguage language) graph operation) s).1
        = .error (.invalidOperation key reason) ↔
      checked operation = .error (.invalidOperation key reason) := by
  rw [exceptionType_eq]
  refine runStep_lift_bind_error (fun responses => ?_) (not_ofType key reason) s
  refine errorType_closed (fun _ => upholds_pure _)
    (fun event _ => upholds_bind (upholds_modify fun _ _ => trivial) fun _ => upholds_pure _) ?_ _
  exact fun error _ => Resolver.upholds_ofType language graph _ _

/-- The code that a response map is refused for: the first entry that stands in the way is not
accepted for its code, and all the others before it are responses under codes that are. -/
def RefusedAt (entries : List (String × Option Response)) (code : String) : Prop :=
  ∃ before response after, entries = before ++ (code, response) :: after
    ∧ (∀ entry ∈ before, entry.2.isSome = true
        ∧ (StatusCode.Documented entry.1 ∨ StatusCode.Trailed entry.1))
    ∧ ¬ StatusCode.Documented code ∧ ¬ StatusCode.Trailed code

theorem refusedAt_cons {code other : String} {response : Option Response} :
    RefusedAt ((other, response) :: entries) code ↔
      other = code ∧ StatusCode.isAccepted code = false
        ∨ StatusCode.isAccepted other = true ∧ response.isSome = true ∧ RefusedAt entries code := by
  unfold RefusedAt
  rw [← Bool.not_eq_true, StatusCode.isAccepted_iff, StatusCode.isAccepted_iff, not_or]
  constructor
  · rintro ⟨before, found, after, hentries, hbefore, hcode⟩
    cases before with
    | nil =>
      obtain ⟨hentry, -⟩ := List.cons.inj hentries
      exact .inl ⟨congrArg Prod.fst hentry, hcode⟩
    | cons first before =>
      obtain ⟨rfl, hrest⟩ := List.cons.inj hentries
      obtain ⟨hfirst, hbefore⟩ := List.forall_mem_cons.mp hbefore
      exact .inr ⟨hfirst.2, hfirst.1, before, found, after, hrest, hbefore, hcode⟩
  · rintro (⟨rfl, hcode⟩ | ⟨hother, hresponse, before, found, after, rfl, hbefore, hcode⟩)
    · exact ⟨[], response, entries, rfl, fun _ hmem => (by cases hmem), hcode⟩
    · exact ⟨_ :: before, found, after, rfl,
        List.forall_mem_cons.mpr ⟨⟨hresponse, hother⟩, hbefore⟩, hcode⟩

theorem not_refusedAt_nil (code : String) : ¬ RefusedAt [] code := by
  rintro ⟨before, response, after, hentries, -⟩
  cases before <;> cases hentries

/-- By induction on the entries: the check goes on past an accepted code of a response alone. -/
theorem checkEntries_refused_iff {key code : String} :
    checkEntries key entries = .error (.invalidOperation key (.badStatusCode code)) ↔
      RefusedAt entries code := by
  induction entries with
  | nil => simp [checkEntries, not_refusedAt_nil]
  | cons entry entries ih =>
    obtain ⟨other, response⟩ := entry
    rw [refusedAt_cons]
    cases haccepted : StatusCode.isAccepted other with
    | false =>
      rw [checkEntries_unaccepted response haccepted]
      simp only [Except.error.injEq, Failure.invalidOperation.injEq, Refusal.badStatusCode.injEq,
        true_and, Bool.false_eq_true, false_and, or_false]
      constructor
      · rintro rfl
        exact ⟨rfl, haccepted⟩
      · exact And.left
    | true =>
      have hother : ¬ (other = code ∧ StatusCode.isAccepted code = false) := by
        rintro ⟨rfl, hrefused⟩
        rw [haccepted] at hrefused
        cases hrefused
      simp only [hother, false_or, true_and]
      cases response with
      | none => simp [checkEntries_noResponse haccepted]
      | some response =>
        rw [checkEntries_response response haccepted, ← ih]
        cases checkEntries key entries <;> simp [Except.map]

/-- Among responses alone the first code that is not accepted is the one that is refused. -/
theorem exists_refusedAt (h : ∀ entry ∈ entries, entry.2.isSome = true) :
    (∃ code, RefusedAt entries code) ↔ ∃ entry ∈ entries,
      ¬ StatusCode.Documented entry.1 ∧ ¬ StatusCode.Trailed entry.1 := by
  induction entries with
  | nil => simp [not_refusedAt_nil]
  | cons entry entries ih =>
    obtain ⟨other, response⟩ := entry
    obtain ⟨hfirst, hrest⟩ := List.forall_mem_cons.mp h
    rw [List.exists_mem_cons_iff, ← ih hrest, ← not_or, ← StatusCode.isAccepted_iff]
    simp only [refusedAt_cons]
    cases haccepted : StatusCode.isAccepted other with
    | false => simp [haccepted]
    | true =>
      have hnot : ∀ code, ¬ (other = code ∧ StatusCode.isAccepted code = false) := by
        rintro code ⟨rfl, hrefused⟩
        rw [haccepted] at hrefused
        cases hrefused
      simp only [hnot, hfirst, false_or, true_and, not_true_eq_false]

theorem checked_refused_iff (h : operation.responses = some entries) {code : String} :
    checked operation = .error (.invalidOperation operation.key (.badStatusCode code)) ↔
      RefusedAt entries code := by
  rw [← checkEntries_refused_iff, checked, h]

/-- A row under a code that starts with `2` is a success just if the code is a status code. -/
theorem Tabulated.success_of_two {language : Language} {graph : Graph}
    {table : List ResponseModel}
    (h : Tabulated language graph (responses.map (·.1)) responses table)
    (haccepted : ∀ code ∈ responses.map (·.1), StatusCode.isAccepted code = true)
    {model : ResponseModel} (hmodel : model ∈ table)
    (htwo : model.statusCode.toList.head? = some '2') :
    model.isSuccess = true ↔ StatusCode.Documented model.statusCode := by
  have hcode : model.statusCode ∈ responses.map (·.1) :=
    h.codes_eq ▸ List.mem_map_of_mem hmodel
  have hdefault : StatusCode.isDefault model.statusCode = false := by
    rw [Bool.eq_false_iff, Ne, StatusCode.isDefault_iff, StatusCode.reads_default]
    exact fun hword => StatusCode.head_default hword htwo
  rw [(h.flags model hmodel).1, List.contains_iff_mem, mem_successCodes hcode, hdefault]
  simp only [Bool.false_eq_true, and_false, or_false]
  constructor
  · exact StatusCode.documented_of_success (haccepted _ hcode)
  · exact fun hdocumented => (StatusCode.isSuccess_iff hdocumented).mpr htwo

/-- Which response maps are refused for a status code, in the table and where the exception type is
made alike: those that have a code that is neither a status code nor one with a line feed behind it,
unless something that is no response stands before it.  That maps of responses alone are refused just
where a code is no status code holds exactly if none of their codes has a line feed behind it, or
another one is refused anyway.  In a table a code that starts with `2` is a success just if it is a
status code. -/
theorem codes_refused (language : Language) (graph : Graph) {operation : Operation}
    {entries : List (String × Option Response)} (h : operation.responses = some entries) :
    (∀ s code,
      ((runStep (models (Resolver.ofLanguage language) graph operation) s).1
          = .error (.invalidOperation operation.key (.badStatusCode code)) ↔
        RefusedAt entries code)
      ∧ ((runStep (exceptionType (Resolver.ofLanguage language) graph operation) s).1
          = .error (.invalidOperation operation.key (.badStatusCode code)) ↔
        RefusedAt entries code))
    ∧ ((∀ entry ∈ entries, entry.2.isSome = true) →
      (((∃ code, RefusedAt entries code) ↔
          ∃ entry ∈ entries, ¬ StatusCode.Documented entry.1) ↔
        (∃ entry ∈ entries, ¬ StatusCode.Documented entry.1 ∧ ¬ StatusCode.Trailed entry.1)
          ∨ ∀ entry ∈ entries, ¬ StatusCode.Trailed entry.1))
    ∧ ∀ s table t,
      runStep (models (Resolver.ofLanguage language) graph operation) s = (.ok table, t) →
      ∀ model ∈ table, model.statusCode.toList.head? = some '2' →
        (model.isSuccess = true ↔ StatusCode.Documented model.statusCode) := by
  refine ⟨fun s code => ⟨?models, ?exception⟩, ?responses, ?success⟩
  case models => rw [models_refused_iff, checked_refused_iff h]
  case exception => rw [exceptionType_refused_iff, checked_refused_iff h]
  case responses =>
    intro hresponses
    rw [exists_refusedAt hresponses]
    constructor
    · intro hclaim
      by_cases hnone : ∀ entry ∈ entries, ¬ StatusCode.Trailed entry.1
      · exact .inr hnone
      · obtain ⟨entry, hentry, htrailed⟩ : ∃ entry ∈ entries, StatusCode.Trailed entry.1 := by
          simpa using hnone
        exact .inl (hclaim.mpr ⟨entry, hentry, fun hdocumented => hdocumented.not_trailed htrailed⟩)
    · rintro (⟨entry, hentry, hneither⟩ | hnone)
      · exact iff_of_true ⟨entry, hentry, hneither⟩ ⟨entry, hentry, hneither.1⟩
      · constructor
        · rintro ⟨entry, hentry, hnot, -⟩
          exact ⟨entry, hentry, hnot⟩
        · rintro ⟨entry, hentry, hnot⟩
          exact ⟨entry, hentry, hnot, hnone entry hentry⟩
  case success =>
    intro s table t hrun model hmodel htwo
    obtain ⟨responses, hchecked⟩ := checked_of_models hrun
    exact (tabulated_of_models hchecked hrun).success_of_two (accepted_of_checked hchecked) hmodel
      htwo

/-- Two codes of the grammar, one beyond it, and no response. -/
def mixedEntries : List (String × Option Response) :=
  [("201", some {}), ("2xX", some {}), ("600", some {}), ("2", none)]

def mixedOperation : Operation :=
  { method := "get", path := "/pets", responses := some mixedEntries }

theorem codes_refused_mixed :
    mixedOperation.responses = some mixedEntries
      ∧ RefusedAt mixedEntries "600"
      ∧ (runStep (models (Resolver.ofLanguage Language.rust) {} mixedOperation) {}).1
        = .error (.invalidOperation mixedOperation.key (.badStatusCode "600"))
      ∧ (runStep (exceptionType (Resolver.ofLanguage Language.rust) {} mixedOperation) {}).1
        = .error (.invalidOperation mixedOperation.key (.badStatusCode "600")) := by
  have hentries : mixedOperation.responses = some mixedEntries := rfl
  have hrefused : RefusedAt mixedEntries "600" := by
    refine refusedAt_cons.mpr (.inr ⟨by decide +kernel, rfl, ?_⟩)
    refine refusedAt_cons.mpr (.inr ⟨by decide +kernel, rfl, ?_⟩)
    exact refusedAt_cons.mpr (.inl ⟨rfl, by decide +kernel⟩)
  obtain ⟨hmodels, hexception⟩ := (codes_refused Language.rust {} hentries).1 {} "600"
  exact ⟨hentries, hrefused, hmodels.mpr hrefused, hexception.mpr hrefused⟩

/-- A response under a code with a line feed behind it. -/
def feedEntries : List (String × Option Response) := [("200\n", some {})]

def feedOperation : Operation :=
  { method := "get", path := "/pets", responses := some feedEntries }

/-- The line feed lets the code pass, in the table and where the exception type is made, and the
response is no success. -/
theorem line_feed_accepted :
    (∃ entry ∈ feedEntries, ¬ StatusCode.Documented entry.1)
      ∧ (¬ ∃ code, (runStep (models (Resolver.ofLanguage Language.csharp) {} feedOperation) {}).1
        = .error (.invalidOperation feedOperation.key (.badStatusCode code)))
      ∧ (¬ ∃ code,
        (runStep (exceptionType (Resolver.ofLanguage Language.csharp) {} feedOperation) {}).1
        = .error (.invalidOperation feedOperation.key (.badStatusCode code)))
      ∧ ∃ table t,
        runStep (models (Resolver.ofLanguage Language.csharp) {} feedOperation) {} = (.ok table, t)
        ∧ table.map (fun model => (model.statusCode, model.isSuccess)) = [("200\n", false)] := by
  have htable : (runStep (models (Resolver.ofLanguage Language.csharp) {} feedOperation)
      {}).1.toOption.map (·.map fun model => (model.statusCode, model.isSuccess)) =
        some [("200\n", false)] := by decide +kernel
  have hexception : (runStep (exceptionType (Resolver.ofLanguage Language.csharp) {}
      feedOperation) {}).1 = .ok "Exception" := by decide +kernel
  obtain ⟨table, htable, hrows⟩ := Except.ok_of_toOption_map htable
  refine ⟨by decide +kernel, ?_, ?_, table, _, Prod.ext htable rfl, hrows⟩
  · rintro ⟨code, hcode⟩
    rw [htable] at hcode
    cases hcode
  · rintro ⟨code, hcode⟩
    rw [hexception] at hcode
    cases hcode

end Responses

end ApiClients
