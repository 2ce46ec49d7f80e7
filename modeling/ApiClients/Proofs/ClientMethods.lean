import ApiClients.Proofs.MethodNames
import ApiClients.Proofs.Passes

/-!
# The methods of a client class

A client class is called after its client: the client name is put into each place that a template
keeps for it.  A template with such a place tells clients apart (`fillClient_injective`), so the
methods of one class are methods of one client, and these have different names in the report of a
pass.
-/

namespace ApiClients

open ApiClients.Text

/-! ### Client names in a template -/

theorem afterWord?_isSome {word cs : List Char} (h : word <+: cs) :
    ∃ rest, afterWord? word cs = some rest := by
  induction word generalizing cs with
  | nil => exact ⟨cs, rfl⟩
  | cons w word ih =>
    obtain ⟨rest, rfl⟩ := h
    simp only [List.cons_append, afterWord?, if_true]
    exact ih ⟨rest, rfl⟩

section Replacing

variable {word : List Char}

theorem length_replaceFrom_le (word : List Char) {a b : List Char} (h : a.length ≤ b.length)
    (skip : Nat) (cs : List Char) :
    (replaceFrom word a skip cs).length ≤ (replaceFrom word b skip cs).length := by
  induction cs generalizing skip with
  | nil => simp [replaceFrom]
  | cons c cs ih =>
    cases skip with
    | succ skip => exact ih skip
    | zero =>
      cases hword : afterWord? word (c :: cs) with
      | some _ =>
        have := ih (word.length - 1)
        simp only [replaceFrom, hword, List.length_append]
        omega
      | none =>
        have := ih 0
        simp only [replaceFrom, hword, List.length_cons]
        omega

/-- A word that a text has, but not at its front, is in the rest of the text. -/
theorem infix_of_afterWord?_eq_none {c : Char} {cs : List Char}
    (h : afterWord? word (c :: cs) = none) (hin : word <:+: c :: cs) : word <:+: cs := by
  rcases List.infix_cons_iff.mp hin with hprefix | hrest
  · obtain ⟨rest, hfound⟩ := afterWord?_isSome hprefix
    rw [hfound] at h
    cases h
  · exact hrest

/-- A longer replacement makes a text with the word in it longer. -/
theorem length_replaceFrom_lt {a b : List Char} (h : a.length < b.length) {cs : List Char}
    (hne : word ≠ []) (hin : word <:+: cs) :
    (replaceFrom word a 0 cs).length < (replaceFrom word b 0 cs).length := by
  induction cs with
  | nil => exact absurd (List.infix_nil.mp hin) hne
  | cons c cs ih =>
    cases hword : afterWord? word (c :: cs) with
    | some _ =>
      have := length_replaceFrom_le word (Nat.le_of_lt h) (word.length - 1) cs
      simp only [replaceFrom, hword, List.length_append]
      omega
    | none =>
      have := ih (infix_of_afterWord?_eq_none hword hin)
      simp only [replaceFrom, hword, List.length_cons]
      omega

/-- In a text with the word in it, what the word is replaced by can be read off. -/
theorem replaceFrom_injective {a b : List Char} {cs : List Char} (hne : word ≠ [])
    (hin : word <:+: cs) (h : replaceFrom word a 0 cs = replaceFrom word b 0 cs) : a = b := by
  have hlength : a.length = b.length := by
    have hsame := congrArg List.length h
    rcases Nat.lt_trichotomy a.length b.length with hlt | heq | hlt
    · exact absurd hsame (Nat.ne_of_lt (length_replaceFrom_lt hlt hne hin))
    · exact heq
    · exact absurd hsame (Nat.ne_of_gt (length_replaceFrom_lt hlt hne hin))
  induction cs with
  | nil => exact absurd (List.infix_nil.mp hin) hne
  | cons c cs ih =>
    cases hword : afterWord? word (c :: cs) with
    | some _ =>
      simp only [replaceFrom, hword] at h
      exact (List.append_inj h hlength).1
    | none =>
      simp only [replaceFrom, hword, List.cons.injEq, true_and] at h
      exact ih (infix_of_afterWord?_eq_none hword hin) h

end Replacing

theorem fillClient_injective {template : String} (h : clientPlace <:+: template.toList) :
    Function.Injective (fillClient template) := by
  intro client other hsame
  exact String.toList_inj.mp
    (replaceFrom_injective (by decide) h (String.ofList_injective hsame))

/-! ### The methods of a report -/

/-- The search of the naming pass for a free name ends, whatever the operations are.  Within a
client class, and within the clients of one name, case apart, the models of a report have different
method names, case apart; and the same holds of the names that the naming pass gives, in every
casing. -/
theorem methods_apart (settings : Settings) (graph : Graph) (schemas : List NodeId)
    (operations : List Operation) (journal : Journal) :
    (∀ (policy : Naming.Policy) (before : List Operation) (operation : Operation),
        let assignment := before.foldl (Naming.Assignment.add policy) {}
        ∃ method,
          Entries.get? (Naming.assign policy (before ++ [operation])) operation.key =
              some ⟨policy.clientName operation, method⟩
            ∧ FirstFree (assignment.isTaken (policy.clientName operation))
                (policy.baseName operation) method)
      ∧ ((operations.map Operation.key).Nodup →
          (∀ operation ∈ operations, Naming.LetterMethod operation) →
          clientPlace <:+: settings.className.toList →
            (∀ report,
              (Generation.report settings graph schemas operations journal).1 = .ok report →
                report.models.Pairwise fun model other =>
                  model.clientClass = other.clientClass ∨ lower model.client = lower other.client →
                    lower model.methodName ≠ lower other.methodName)
              ∧ (Naming.assign settings.policy operations).Pairwise fun entry other =>
                  lower entry.2.client = lower other.2.client → ∀ casing : Identifier.Casing,
                    lower (casing.apply entry.2.method) ≠ lower (casing.apply other.2.method)) := by
  refine ⟨?search, fun hkeys hmethods hplace => ⟨?report, ?assigned⟩⟩
  case search =>
    intro policy before operation assignment
    refine ⟨_, ?_, Naming.Assignment.nextName_firstFree policy assignment operation⟩
    unfold Naming.assign
    rw [List.foldl_append]
    exact Entries.get?_put _ _ _
  case report =>
    intro report hreport
    have hrun : runStep (Generation.run settings graph schemas operations) { journal := journal } =
        (.ok report, _) := Prod.ext hreport rfl
    obtain ⟨builder, hsettings, hassigned, hsublist, hnames⟩ := Generation.models_of_run hrun
    have hdistinct := hkeys.sublist hsublist
    rw [List.Nodup, List.pairwise_map] at hdistinct
    refine hdistinct.imp_of_mem ?_
    intro model other hmodel hother hne hclass
    obtain ⟨operation, -, name, hname⟩ := hnames model hmodel
    obtain ⟨operation', -, name', hname'⟩ := hnames other hother
    have hclient : lower name.client = lower name'.client := by
      rcases hclass with hclass | hclient
      · rw [hname.clientClass, hname'.clientClass, hsettings] at hclass
        rw [fillClient_injective hplace hclass]
      · rwa [hname.client, hname'.client] at hclient
    have hfound := Entries.mem_of_get? hname.found
    have hfound' := Entries.mem_of_get? hname'.found
    rw [hassigned] at hfound hfound'
    rw [hname.key, hname'.key] at hne
    rw [hname.methodName, hname'.methodName]
    exact Naming.assign_apart settings.policy hkeys hmethods hfound hfound' hne hclient
      builder.language.methodCasing
  case assigned =>
    have hdistinct := hkeys
    rw [← (Naming.names_assign settings.policy hkeys).keys, List.Nodup, List.pairwise_map]
      at hdistinct
    refine hdistinct.imp_of_mem ?_
    intro entry other hentry hother hne hclient casing
    exact Naming.assign_apart settings.policy hkeys hmethods hentry hother hne hclient casing

/-- Three operations of one client, two of which are called `list`, the third after the number that
one of these gets. -/
def lists : List Operation :=
  [{ method := "get", path := "/pets", operationId := some "list" },
   { method := "get", path := "/toys", operationId := some "List" },
   { method := "get", path := "/owners", operationId := some "list2" }]

theorem methods_apart_lists :
    ∃ report, (Generation.report { language := "rust" } {} [] lists []).1 = .ok report
      ∧ report.models.map (·.methodName) = ["list", "list2", "list22"]
      ∧ report.models.Pairwise fun model other =>
          model.clientClass = other.clientClass ∨ lower model.client = lower other.client →
            lower model.methodName ≠ lower other.methodName := by
  have hnames : (Generation.report { language := "rust" } {} [] lists []).1.toOption.map
      (·.models.map (·.methodName)) = some ["list", "list2", "list22"] := by
    have hnone : ({} : Graph).typeDefinitions (Generation.roots [] lists) = [] := by
      have hroots : Generation.roots [] lists = [] := rfl
      rw [hroots, Graph.typeDefinitions, Graph.visit, List.filter_nil]
    unfold Generation.report Generation.run Generation.prepare
    rw [hnone]
    decide +kernel
  cases hreport : (Generation.report { language := "rust" } {} [] lists []).1 with
  | error failure =>
    rw [hreport] at hnames
    cases hnames
  | ok report =>
    rw [hreport] at hnames
    refine ⟨report, rfl, Option.some.inj hnames, ?_⟩
    refine ((methods_apart { language := "rust" } {} [] lists []).2 ?_ ?_ ?_).1 report hreport
    · decide +kernel
    · intro operation hoperation
      have hletters : (lists.all fun operation => operation.method.toList.all fun c =>
          isUpperAscii c || isLowerAscii c) = true := by decide +kernel
      exact List.all_eq_true.mp (List.all_eq_true.mp hletters operation hoperation)
    · exact ⟨[], "Client".toList, by decide +kernel⟩

end ApiClients
