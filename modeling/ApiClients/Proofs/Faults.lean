import ApiClients.Model

/-!
# Faults of an operation

An operation is left out of a pass for a fault of its own.  `Operation.Fault` lists the faults; the
checks that an operation goes through fail with one of them, or because a name is of a kind that has
no meaning.
-/

namespace ApiClients

/-- What may be wrong with an operation: it has no parameter list, its responses are no map from
status codes to responses, or two of its parameters have one variable name. -/
inductive Operation.Fault (operation : Operation) (language : Language) : Failure → Prop where
  | parameterList (h : operation.parameters = none) :
      operation.Fault language (.invalidOperation operation.key .noParameterList)
  | responseMap (reason : Refusal)
      (h : Responses.checked operation = .error (.invalidOperation operation.key reason))
      (hreason : reason = .noResponseMap ∨ (∃ code, reason = .badStatusCode code)
        ∨ ∃ code, reason = .notAResponse code) :
      operation.Fault language (.invalidOperation operation.key reason)
  | variableNames (parameters : List Parameter) (identifier first second : String)
      (h : operation.parameters = some parameters)
      (hnames : Naming.variableNames language parameters operation.key =
        .error (.nameCollision operation.key identifier first second)) :
      operation.Fault language (.nameCollision operation.key identifier first second)

namespace Responses

section

variable {key code : String} {entries : List (String × Option Response)}

theorem checkEntries_unaccepted (response : Option Response)
    (h : StatusCode.isAccepted code = false) :
    checkEntries key ((code, response) :: entries) =
      .error (.invalidOperation key (.badStatusCode code)) := by
  simp [checkEntries, h]

theorem checkEntries_noResponse (h : StatusCode.isAccepted code = true) :
    checkEntries key ((code, none) :: entries) =
      .error (.invalidOperation key (.notAResponse code)) := by
  simp [checkEntries, h]

theorem checkEntries_response (response : Response) (h : StatusCode.isAccepted code = true) :
    checkEntries key ((code, some response) :: entries) =
      (checkEntries key entries).map ((code, response) :: ·) := by
  simp [checkEntries, h]

theorem checkEntries_error {failure : Failure} (h : checkEntries key entries = .error failure) :
    ∃ code, failure = .invalidOperation key (.badStatusCode code)
      ∨ failure = .invalidOperation key (.notAResponse code) := by
  induction entries with
  | nil => cases h
  | cons entry entries ih =>
    obtain ⟨code, response⟩ := entry
    cases hcode : StatusCode.isAccepted code with
    | false =>
      rw [checkEntries_unaccepted response hcode] at h
      cases h
      exact ⟨code, Or.inl rfl⟩
    | true =>
      cases response with
      | none =>
        rw [checkEntries_noResponse hcode] at h
        cases h
        exact ⟨code, Or.inr rfl⟩
      | some response =>
        rw [checkEntries_response response hcode] at h
        cases hrest : checkEntries key entries with
        | error failure' =>
          rw [hrest] at h
          cases h
          exact ih hrest
        | ok responses =>
          rw [hrest] at h
          cases h

/-- The check comes to the end of a response under an accepted code with the rest checked alone. -/
theorem checkEntries_cons_ok {entry : String × Option Response}
    {responses : List (String × Response)} (h : checkEntries key (entry :: entries) = .ok responses) :
    ∃ code response rest, entry = (code, some response) ∧ StatusCode.isAccepted code = true
      ∧ checkEntries key entries = .ok rest ∧ responses = (code, response) :: rest := by
  obtain ⟨code, response⟩ := entry
  cases hcode : StatusCode.isAccepted code with
  | false =>
    rw [checkEntries_unaccepted response hcode] at h
    cases h
  | true =>
    cases response with
    | none =>
      rw [checkEntries_noResponse hcode] at h
      cases h
    | some response =>
      rw [checkEntries_response response hcode] at h
      cases hrest : checkEntries key entries with
      | error failure =>
        rw [hrest] at h
        cases h
      | ok rest =>
        rw [hrest] at h
        cases h
        exact ⟨code, response, rest, rfl, hcode, rfl, rfl⟩

theorem checkEntries_ok {responses : List (String × Response)}
    (h : checkEntries key entries = .ok responses) :
    entries = responses.map fun (code, response) => (code, some response) := by
  induction entries generalizing responses with
  | nil =>
    cases h
    rfl
  | cons entry entries ih =>
    obtain ⟨code, response, rest, rfl, -, hrest, rfl⟩ := checkEntries_cons_ok h
    rw [ih hrest]
    rfl

end

end Responses

theorem Responses.declared_of_checked {operation : Operation}
    {responses : List (String × Response)} (h : checked operation = .ok responses) :
    operation.responses = some (responses.map fun (code, response) => (code, some response)) := by
  unfold checked at h
  split at h
  · cases h
  · rename_i hresponses
    rw [hresponses, checkEntries_ok h]

theorem Operation.fault_of_checked {operation : Operation} {failure : Failure}
    (language : Language) (h : Responses.checked operation = .error failure) :
    operation.Fault language failure := by
  unfold Responses.checked at h
  cases hresponses : operation.responses with
  | none =>
    simp only [hresponses] at h
    cases h
    refine .responseMap _ ?_ (Or.inl rfl)
    simp only [Responses.checked, hresponses]
  | some entries =>
    simp only [hresponses] at h
    obtain ⟨code, rfl | rfl⟩ := Responses.checkEntries_error h
    · refine .responseMap _ ?_ (Or.inr (Or.inl ⟨code, rfl⟩))
      simpa only [Responses.checked, hresponses] using h
    · refine .responseMap _ ?_ (Or.inr (Or.inr ⟨code, rfl⟩))
      simpa only [Responses.checked, hresponses] using h

theorem Naming.mapM_variableName_error {language : Language} {all parameters : List Parameter}
    {failure : Failure}
    (h : parameters.mapM (Naming.variableName language all) = .error failure) :
    failure = .malformed ∧ ∃ parameter ∈ parameters, ∀ text, parameter.name ≠ .str text := by
  induction parameters with
  | nil => cases h
  | cons parameter parameters ih =>
    rw [List.mapM_cons] at h
    cases hfirst : Naming.variableName language all parameter with
    | error failure' =>
      rw [hfirst] at h
      cases h
      unfold Naming.variableName Naming.baseVariableName at hfirst
      split at hfirst
      · cases hfirst
      · rename_i hname
        cases hfirst
        exact ⟨rfl, parameter, List.mem_cons_self, hname⟩
    | ok name =>
      rw [hfirst] at h
      cases hrest : parameters.mapM (Naming.variableName language all) with
      | error failure' =>
        rw [hrest] at h
        cases h
        obtain ⟨hmalformed, other, hother, hname⟩ := ih hrest
        exact ⟨hmalformed, other, List.mem_cons_of_mem _ hother, hname⟩
      | ok names =>
        rw [hrest] at h
        cases h

theorem Naming.variableNames_error {language : Language} {parameters : List Parameter}
    {key : String} {failure : Failure}
    (h : Naming.variableNames language parameters key = .error failure) :
    (failure = .malformed ∧ ∃ parameter ∈ parameters, ∀ text, parameter.name ≠ .str text)
      ∨ ∃ identifier first second, failure = .nameCollision key identifier first second := by
  unfold Naming.variableNames at h
  cases hnames : parameters.mapM (Naming.variableName language parameters) with
  | error failure' =>
    rw [hnames] at h
    cases h
    exact Or.inl (Naming.mapM_variableName_error hnames)
  | ok names =>
    rw [hnames] at h
    cases hcollision : Naming.collision? [] (names.zip (parameters.map (·.name.plain))) with
    | none =>
      simp only [bind, Except.bind, hcollision] at h
      cases h
    | some collision =>
      obtain ⟨identifier, first, second⟩ := collision
      simp only [bind, Except.bind, hcollision] at h
      cases h
      exact Or.inr ⟨identifier, first, second, rfl⟩

end ApiClients
