import ApiClients.Proofs.Faults
import ApiClients.Proofs.FrozenResolution
import Mathlib.Data.List.Induction
import Mathlib.Data.List.Nodup

/-!
# Variable names of one operation

The variable names of the parameters of an operation are all different, or the operation is refused.
The refusal is for the first parameter whose escaped name an earlier one has, and tells the two
apart from all others: up to there all names are different, so just one parameter owns the name
(`parameters_named_apart`).  The name of a parameter depends on the others by their number alone,
not by their order, so parameters in another order have the same names, and are refused or not as
before.
-/

namespace ApiClients.Naming

/-! ### The first collision -/

section

variable {owners before after : List (String × String)} {owner entry : String × String}

theorem collision?_cons (owners : List (String × String)) (entry : String × String)
    (rest : List (String × String)) :
    collision? owners (entry :: rest) =
      match Entries.get? owners entry.1 with
      | some owner => some (entry.1, owner, entry.2)
      | none => collision? (owners ++ [entry]) rest := by
  rw [collision?, Entries.get?]
  cases owners.find? fun e => e.1 == entry.1 <;> rfl

/-- An identifier that no owner has goes to the owners. -/
theorem collision?_fresh {rest : List (String × String)} (h : entry.1 ∉ owners.map (·.1)) :
    collision? owners (entry :: rest) = collision? (owners ++ [entry]) rest := by
  rw [collision?_cons]
  cases hget : Entries.get? owners entry.1 with
  | none => rfl
  | some owner =>
    have hmem := List.mem_map_of_mem (f := (·.1)) (Entries.mem_of_get? hget)
    exact absurd hmem h

/-- By induction on what is left: the owners are those of all that has been gone through, and their
identifiers are different. -/
theorem collision?_of_nodup {entries : List (String × String)}
    (h : ((owners ++ entries).map (·.1)).Nodup) : collision? owners entries = none := by
  induction entries generalizing owners with
  | nil => rfl
  | cons entry rest ih =>
    have hfresh : entry.1 ∉ owners.map (·.1) := by
      rw [List.map_append, List.nodup_append] at h
      intro hmem
      exact h.2.2 _ hmem _ List.mem_cons_self rfl
    rw [collision?_fresh hfresh]
    apply ih
    simpa using h

/-- The same induction up to the first identifier that comes back. -/
theorem collision?_of_repeat (h : ((owners ++ before).map (·.1)).Nodup)
    (howner : owner ∈ owners ++ before) (hsame : owner.1 = entry.1) :
    collision? owners (before ++ entry :: after) = some (entry.1, owner.2, entry.2) := by
  induction before generalizing owners with
  | nil =>
    rw [List.append_nil] at h howner
    have hget : Entries.get? owners entry.1 = some owner.2 := by
      rw [← hsame]
      exact Entries.get?_of_mem h howner
    rw [List.nil_append, collision?_cons, hget]
  | cons first rest ih =>
    have hfresh : first.1 ∉ owners.map (·.1) := by
      rw [List.map_append, List.nodup_append] at h
      intro hmem
      exact h.2.2 _ hmem _ List.mem_cons_self rfl
    rw [List.cons_append, collision?_fresh hfresh]
    apply ih
    · simpa using h
    · simpa using howner

end

/-- Where values come back, there is a first one that does. -/
theorem exists_first_repeat {α β : Type} (f : α → β) (as : List α) (h : ¬ (as.map f).Nodup) :
    ∃ before a after owner, as = before ++ a :: after ∧ (before.map f).Nodup
      ∧ owner ∈ before ∧ f owner = f a := by
  induction as using List.reverseRecOn with
  | nil => simp at h
  | append_singleton as last ih =>
    by_cases hnodup : (as.map f).Nodup
    · have hback : f last ∈ as.map f := by
        by_contra hnew
        apply h
        rw [List.map_append, List.map_singleton, ← List.concat_eq_append]
        exact hnodup.concat hnew
      obtain ⟨owner, howner, hsame⟩ := List.mem_map.mp hback
      exact ⟨as, last, [], owner, rfl, hnodup, howner, hsame⟩
    · obtain ⟨before, a, after, owner, rfl, hbefore, howner, hsame⟩ := ih hnodup
      exact ⟨before, a, after ++ [last], owner, by simp, hbefore, howner, hsame⟩

/-! ### The names of parameters -/

section

variable {language : Language} {parameters others : List Parameter} {key : String}

/-- The names of the parameters are texts. -/
def Named (parameters : List Parameter) : Prop :=
  ∀ parameter ∈ parameters, ∃ text, parameter.name = .str text

/-- The variable name of a parameter whose name is a text. -/
def escapedName (language : Language) (all : List Parameter) (parameter : Parameter) : String :=
  language.escape (baseIdentifier language parameter.name.plain parameter.location
    (isShared parameter.name all))

theorem variableName_of_text {parameter : Parameter} {text : String}
    (h : parameter.name = .str text) (all : List Parameter) :
    variableName language all parameter = .ok (escapedName language all parameter) := by
  simp [variableName, baseVariableName, escapedName, h, Json.plain, Except.map]

theorem Named.variableName_eq (h : Named parameters) (all : List Parameter)
    {parameter : Parameter} (hparameter : parameter ∈ parameters) :
    variableName language all parameter = .ok (escapedName language all parameter) := by
  obtain ⟨text, htext⟩ := h parameter hparameter
  exact variableName_of_text htext all

theorem Named.map_variableName (h : Named parameters) (all : List Parameter) :
    parameters.map (variableName language all)
      = (parameters.map (escapedName language all)).map .ok := by
  rw [List.map_map]
  apply List.map_congr_left
  intro parameter hparameter
  exact h.variableName_eq all hparameter

theorem Named.nodup_iff (h : Named parameters) (all : List Parameter) :
    (parameters.map (variableName language all)).Nodup
      ↔ (parameters.map (escapedName language all)).Nodup := by
  rw [h.map_variableName]
  exact List.nodup_map_iff fun _ _ => Except.ok.inj

theorem Named.perm (h : Named parameters) (hperm : parameters.Perm others) : Named others :=
  fun parameter hparameter => h parameter (hperm.mem_iff.mpr hparameter)

/-- The escaped names of the parameters, each with the name that it comes from. -/
def ownedNames (language : Language) (parameters : List Parameter) : List (String × String) :=
  parameters.map fun parameter => (escapedName language parameters parameter, parameter.name.plain)

theorem Named.variableNames_of_none (h : Named parameters)
    (hnone : collision? [] (ownedNames language parameters) = none) :
    variableNames language parameters key
      = .ok (parameters.map (escapedName language parameters)) := by
  rw [variableNames, Generation.mapM_ok_of_map (h.map_variableName parameters)]
  simp only [bind, Except.bind, List.zip_map']
  rw [← ownedNames, hnone]

theorem Named.variableNames_of_some {identifier owner name : String} (h : Named parameters)
    (hsome : collision? [] (ownedNames language parameters) = some (identifier, owner, name)) :
    variableNames language parameters key
      = .error (.nameCollision key identifier owner name) := by
  rw [variableNames, Generation.mapM_ok_of_map (h.map_variableName parameters)]
  simp only [bind, Except.bind, List.zip_map']
  rw [← ownedNames, hsome]

theorem Named.variableNames_ok (h : Named parameters)
    (hnodup : (parameters.map (escapedName language parameters)).Nodup) :
    variableNames language parameters key
      = .ok (parameters.map (escapedName language parameters)) := by
  apply h.variableNames_of_none
  apply collision?_of_nodup
  simpa [ownedNames, Function.comp_def] using hnodup

theorem Named.variableNames_collision {before after : List Parameter} {owner parameter : Parameter}
    (h : Named parameters) (hparameters : parameters = before ++ parameter :: after)
    (hbefore : (before.map (escapedName language parameters)).Nodup) (howner : owner ∈ before)
    (hsame : escapedName language parameters owner = escapedName language parameters parameter) :
    variableNames language parameters key
      = .error (.nameCollision key (escapedName language parameters parameter) owner.name.plain
        parameter.name.plain) := by
  let owned := fun parameter => (escapedName language parameters parameter, parameter.name.plain)
  have hentries : ownedNames language parameters
      = before.map owned ++ owned parameter :: after.map owned := by
    rw [ownedNames, ← List.map_cons, ← List.map_append, ← hparameters]
  have hnodup : ((([] : List (String × String)) ++ before.map owned).map (·.1)).Nodup := by
    simpa [owned, Function.comp_def] using hbefore
  have hcollision : collision? [] (before.map owned ++ owned parameter :: after.map owned)
      = some ((owned parameter).1, (owned owner).2, (owned parameter).2) :=
    collision?_of_repeat hnodup (List.mem_map_of_mem howner) hsame
  apply h.variableNames_of_some
  rw [hentries, hcollision]

/-- All names are different, or there is a first one that comes back. -/
theorem Named.outcome (h : Named parameters) (key : String) :
    ((parameters.map (escapedName language parameters)).Nodup
      ∧ variableNames language parameters key
        = .ok (parameters.map (escapedName language parameters)))
    ∨ ∃ before parameter after owner, parameters = before ++ parameter :: after
      ∧ (before.map (escapedName language parameters)).Nodup
      ∧ owner ∈ before
      ∧ escapedName language parameters owner = escapedName language parameters parameter
      ∧ variableNames language parameters key
        = .error (.nameCollision key (escapedName language parameters parameter) owner.name.plain
          parameter.name.plain) := by
  by_cases hnodup : (parameters.map (escapedName language parameters)).Nodup
  · exact .inl ⟨hnodup, h.variableNames_ok hnodup⟩
  · obtain ⟨before, parameter, after, owner, hsplit, hbefore, howner, hsame⟩ :=
      exists_first_repeat _ _ hnodup
    exact .inr ⟨before, parameter, after, owner, hsplit, hbefore, howner, hsame,
      h.variableNames_collision hsplit hbefore howner hsame⟩

theorem Named.refused_iff (h : Named parameters) (key : String) :
    (∃ failure, variableNames language parameters key = .error failure)
      ↔ ¬ (parameters.map (escapedName language parameters)).Nodup := by
  constructor
  · rintro ⟨failure, hfailure⟩ hnodup
    rw [h.variableNames_ok hnodup] at hfailure
    cases hfailure
  · intro hrepeated
    rcases h.outcome key with ⟨hnodup, -⟩ | ⟨_, _, _, _, -, -, -, -, hcollision⟩
    · exact absurd hnodup hrepeated
    · exact ⟨_, hcollision⟩

/-- Names come back exactly where all of them are different. -/
theorem Named.returned_iff (h : Named parameters) (key : String) {names : List String} :
    variableNames language parameters key = .ok names
      ↔ parameters.map (variableName language parameters) = names.map .ok ∧ names.Nodup := by
  have hmap : parameters.map (variableName language parameters)
      = (parameters.map (escapedName language parameters)).map .ok := h.map_variableName parameters
  constructor
  · intro hnames
    rcases h.outcome key with ⟨hnodup, hok⟩ | ⟨_, _, _, _, -, -, -, -, hcollision⟩
    · rw [hok] at hnames
      cases hnames
      exact ⟨hmap, hnodup⟩
    · rw [hcollision] at hnames
      cases hnames
  · rintro ⟨hnames, hnodup⟩
    have heq : parameters.map (escapedName language parameters) = names := by
      apply List.map_injective_iff.mpr (fun _ _ => Except.ok.inj)
      rw [← hmap, hnames]
    rw [← heq] at hnodup ⊢
    exact h.variableNames_ok hnodup

/-- The failure is for the first name that comes back, with the owner of the name. -/
theorem Named.failure_iff (h : Named parameters) (key : String) {failure : Failure} :
    variableNames language parameters key = .error failure
      ↔ ∃ before parameter after owner name, parameters = before ++ parameter :: after
        ∧ (before.map (variableName language parameters)).Nodup
        ∧ owner ∈ before
        ∧ variableName language parameters owner = .ok name
        ∧ variableName language parameters parameter = .ok name
        ∧ failure = .nameCollision key name owner.name.plain parameter.name.plain := by
  constructor
  · intro hfailure
    rcases h.outcome key with ⟨-, hok⟩ |
      ⟨before, parameter, after, owner, hsplit, hbefore, howner, hsame, hcollision⟩
    · rw [hok] at hfailure
      cases hfailure
    · rw [hcollision] at hfailure
      cases hfailure
      have hnamed : Named before := fun p hp => h p (by simp [hsplit, hp])
      have hmem : owner ∈ parameters := by simp [hsplit, howner]
      have hfirst : variableName language parameters owner
          = .ok (escapedName language parameters parameter) := by
        rw [h.variableName_eq parameters hmem, hsame]
      exact ⟨before, parameter, after, owner, _, hsplit, (hnamed.nodup_iff _).mpr hbefore, howner,
        hfirst, h.variableName_eq parameters (by simp [hsplit]), rfl⟩
  · rintro ⟨before, parameter, after, owner, name, hsplit, hbefore, howner, hfirst, hsecond, rfl⟩
    have hnamed : Named before := fun p hp => h p (by simp [hsplit, hp])
    rw [h.variableName_eq parameters (by simp [hsplit, howner])] at hfirst
    rw [h.variableName_eq parameters (by simp [hsplit])] at hsecond
    cases hsecond
    exact h.variableNames_collision hsplit ((hnamed.nodup_iff _).mp hbefore) howner
      (Except.ok.inj hfirst)

theorem isShared_perm (hperm : parameters.Perm others) (name : Json) :
    isShared name others = isShared name parameters := by
  unfold isShared
  rw [(hperm.filter fun p => Json.equal p.name name).length_eq]

/-- The name of a parameter does not depend on the order of the others. -/
theorem variableName_perm (hperm : parameters.Perm others) (parameter : Parameter) :
    variableName language others parameter = variableName language parameters parameter := by
  simp only [variableName, baseVariableName, isShared_perm hperm]

theorem escapedName_perm (hperm : parameters.Perm others) :
    escapedName language others = escapedName language parameters := by
  funext parameter
  simp only [escapedName, isShared_perm hperm]

/-- Parameters in another order have the same names. -/
theorem Named.names_perm (h : Named parameters) (hperm : parameters.Perm others) (key : String)
    {names : List String} (hnames : variableNames language parameters key = .ok names) :
    ∃ names', variableNames language others key = .ok names'
      ∧ (parameters.zip names).Perm (others.zip names') := by
  have hsame : escapedName language others = escapedName language parameters :=
    escapedName_perm hperm
  have hpairs : ∀ list : List Parameter, list.zip (list.map (escapedName language parameters))
      = list.map fun parameter => (parameter, escapedName language parameters parameter) :=
    fun _ => List.map_prod_left_eq_zip.symm
  rcases h.outcome key with ⟨hnodup, hok⟩ | ⟨_, _, _, _, -, -, -, -, hcollision⟩
  · rw [hok] at hnames
    cases hnames
    have hothers : (others.map (escapedName language others)).Nodup := by
      rw [hsame]
      exact (hperm.map _).nodup_iff.mp hnodup
    constructor
    constructor
    · exact (h.perm hperm).variableNames_ok hothers
    · rw [hsame, hpairs, hpairs]
      exact hperm.map _
  · rw [hcollision] at hnames
    cases hnames

theorem Named.refused_perm (h : Named parameters) (hperm : parameters.Perm others) (key : String) :
    (∃ failure, variableNames language others key = .error failure)
      ↔ ∃ failure, variableNames language parameters key = .error failure := by
  rw [(h.perm hperm).refused_iff, h.refused_iff, escapedName_perm hperm,
    (hperm.map (escapedName language parameters)).nodup_iff]

end

/-- The variable names of parameters whose names are texts are those of each of them and all
different, or the parameters are refused because of the first one whose escaped name an earlier one
has.  Up to there all names are different, so one parameter alone is the owner of the name.  In any
other order the parameters have the same names, and they are refused as well or not either. -/
theorem parameters_named_apart (language : Language) (parameters : List Parameter) (key : String)
    (hnamed : Named parameters) :
    (∀ names, variableNames language parameters key = .ok names ↔
        parameters.map (variableName language parameters) = names.map .ok ∧ names.Nodup)
      ∧ (∀ failure, variableNames language parameters key = .error failure ↔
        ∃ before parameter after owner name, parameters = before ++ parameter :: after
          ∧ (before.map (variableName language parameters)).Nodup
          ∧ owner ∈ before
          ∧ variableName language parameters owner = .ok name
          ∧ variableName language parameters parameter = .ok name
          ∧ failure = .nameCollision key name owner.name.plain parameter.name.plain)
      ∧ ((∃ failure, variableNames language parameters key = .error failure) ↔
        ¬ (parameters.map (variableName language parameters)).Nodup)
      ∧ ∀ others, parameters.Perm others →
        (∀ parameter, variableName language others parameter
          = variableName language parameters parameter)
        ∧ (∀ names, variableNames language parameters key = .ok names →
          ∃ names', variableNames language others key = .ok names'
            ∧ (parameters.zip names).Perm (others.zip names'))
        ∧ ((∃ failure, variableNames language others key = .error failure) ↔
          ∃ failure, variableNames language parameters key = .error failure) := by
  constructor
  · intro names
    exact hnamed.returned_iff key
  constructor
  · intro failure
    exact hnamed.failure_iff key
  constructor
  · rw [hnamed.refused_iff, hnamed.nodup_iff]
  · intro others hperm
    exact ⟨variableName_perm hperm, fun _ hnames => hnamed.names_perm hperm key hnames,
      hnamed.refused_perm hperm key⟩

/-- Two names of which one is what the other is escaped to in Rust. -/
def selfParameters : List Parameter :=
  [{ name := .str "id" }, { name := .str "self" }, { name := .str "_self" }]

theorem parameters_named_apart_self :
    Named selfParameters
      ∧ variableNames Language.rust selfParameters "GET /"
        = .error (.nameCollision "GET /" "_self" "self" "_self")
      ∧ (∃ failure, variableNames Language.rust selfParameters.reverse "GET /" = .error failure)
      ∧ variableNames Language.csharp selfParameters "GET /" = .ok ["id", "self", "_self"] := by
  have hnamed : Named selfParameters := by
    intro parameter hparameter
    simp only [selfParameters, List.mem_cons, List.not_mem_nil, or_false] at hparameter
    rcases hparameter with rfl | rfl | rfl <;> exact ⟨_, rfl⟩
  obtain ⟨-, hfailure, -, hothers⟩ :=
    parameters_named_apart Language.rust selfParameters "GET /" hnamed
  obtain ⟨hnames, -⟩ := parameters_named_apart Language.csharp selfParameters "GET /" hnamed
  have hrefused := (hfailure _).mpr
    ⟨[{ name := .str "id" }, { name := .str "self" }], { name := .str "_self" }, [],
      { name := .str "self" }, "_self", rfl, by decide +kernel, by decide +kernel,
      by decide +kernel, by decide +kernel, rfl⟩
  have hreversed := (hothers _ selfParameters.reverse_perm.symm).2.2.mpr ⟨_, hrefused⟩
  exact ⟨hnamed, hrefused, hreversed, (hnames _).mpr ⟨by decide +kernel, by decide +kernel⟩⟩

end ApiClients.Naming
