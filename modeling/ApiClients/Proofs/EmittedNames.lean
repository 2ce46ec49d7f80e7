import ApiClients.Proofs.Casing
import ApiClients.Proofs.EmittedTypes
import ApiClients.Proofs.MethodNames

/-!
# What emitted names are made of

The registry makes an emitted name from the name of a definition: its spelling in the target
language, or `Anonymous` where nothing is left of it, with a number behind it if that is taken.  So
every emitted name is a numbered spelling of the name of the definition that it is listed with
(`spelled_of_run`), and in the known languages it has letters and digits only, and at least one
(`Spelled.word`).
-/

namespace ApiClients

open ApiClients.Identifier

theorem freeName_numbered (taken : String → Bool) (count : Nat) (base : String) :
    ∃ n, freeName taken count base = numbered base n := by
  unfold freeName
  cases (List.range (count + 1)).find? fun n => !taken (numbered base n) with
  | none => exact ⟨count + 1, rfl⟩
  | some n => exact ⟨n, rfl⟩

theorem numbered_ne_empty {base : String} (h : base ≠ "") (n : Nat) : numbered base n ≠ "" := by
  cases n with
  | zero => exact h
  | succ n =>
    rw [numbered]
    intro hempty
    have hlist := congrArg String.toList hempty
    rw [String.toList_append, String.toList_empty, List.append_eq_nil_iff] at hlist
    exact h (String.toList_inj.mp hlist.1)

theorem Settings.mem_known {settings : Settings} {language : Language}
    (h : settings.targetLanguage = .ok language) : language ∈ Language.known := by
  rw [Settings.targetLanguage, Language.ofTag] at h
  split at h
  · rename_i found hfound
    cases h
    exact List.mem_of_find?_eq_some hfound
  · cases h

namespace Registry

/-- The name of a definition in the target language, before it is told apart from others. -/
def spelling (language : Language) (identity : String) : String :=
  if (language.typeName (normalize identity)).isEmpty then "Anonymous"
  else language.typeName (normalize identity)

theorem freshName_numbered (registry : Registry) (language : Language) (identity : String) :
    ∃ n, registry.freshName language identity = numbered (spelling language identity) n :=
  freeName_numbered _ _ _

/-- The emitted names are numbered spellings of the names of their definitions. -/
def Spelled (language : Language) (graph : Graph) (registry : Registry) : Prop :=
  ∀ name id, (name, id) ∈ registry.definitions → ∃ identity n,
    Registry.identity (graph.node id) = .ok identity
      ∧ name = numbered (spelling language identity) n

theorem Spelled.empty (language : Language) (graph : Graph) : Spelled language graph {} :=
  fun _ _ h => by cases h

theorem Spelled.assign {language : Language} {graph : Graph} (id : NodeId) {s : Typing}
    (h : s.registry.Spelled language graph) :
    (runStep (Registry.assign language graph id) s).2.registry.Spelled language graph := by
  have hrun := assign_run language graph id s
  generalize runStep (Registry.assign language graph id) s = run at hrun
  obtain ⟨outcome, t⟩ := run
  cases hrun with
  | known _ _ => exact h
  | refused _ _ _ => exact h
  | shared _ _ _ _ _ _ _ => exact h
  | fresh fingerprint identity _ _ hidentity _ =>
    intro name other hother
    rcases List.mem_append.mp hother with hold | hnew
    · exact h name other hold
    · cases List.mem_singleton.mp hnew
      obtain ⟨n, hn⟩ := freshName_numbered s.registry language identity
      exact ⟨identity, n, hidentity, hn⟩

theorem Spelled.register {language : Language} {graph : Graph} {ids : List NodeId} {s : Typing}
    (h : s.registry.Spelled language graph) :
    (runStep (Registry.register language graph ids) s).2.registry.Spelled language graph :=
  (upholds_register (P := fun registry => registry.Spelled language graph) (E := fun _ => True)
    (fun id _ _ ht => ⟨Spelled.assign id ht, fun _ _ => trivial⟩) (fun _ _ _ => trivial) s h).1

/-- In the known languages a definition has the Pascal form of its name, or the name that stands in
for one. -/
theorem spelling_known {language : Language} (h : language ∈ Language.known) (identity : String) :
    spelling language identity =
      if pascalNormalized identity = "" then "Anonymous" else pascalNormalized identity := by
  have htype : language.typeName (normalize identity) = pascalNormalized identity := by
    rcases List.mem_cons.mp h with rfl | h
    · rfl
    · rcases List.mem_cons.mp h with rfl | h
      · rfl
      · cases h
  rw [spelling, htype]
  simp only [String.isEmpty_iff]

theorem spelling_ne_empty (language : Language) (identity : String) :
    spelling language identity ≠ "" := by
  unfold spelling
  split
  · decide
  · rename_i hspelled
    simpa [String.isEmpty_iff] using hspelled

theorem word_spelling {language : Language} (h : language ∈ Language.known) (identity : String) :
    Word (spelling language identity).toList := by
  rw [spelling_known h]
  split
  · exact fun c hc => List.all_eq_true.mp (by decide +kernel) c hc
  · exact word_pascalNormalized identity

section

variable {language : Language} {graph : Graph} {registry : Registry}

/-- A name that a node has is listed. -/
theorem listed_of_named (hconsistent : registry.Consistent graph) {id : NodeId} {name : String}
    (h : registry.nameOf? id = some name) : ∃ other, (name, other) ∈ registry.definitions := by
  obtain ⟨identity, fingerprint, -, -, hvariant⟩ := hconsistent.named h
  obtain ⟨entry, hentry, hname⟩ :=
    List.mem_map.mp (Entries.has_iff.mp (hconsistent.emitted hvariant))
  exact ⟨entry.2, hname ▸ hentry⟩

theorem Spelled.word (h : registry.Spelled language graph) (hlanguage : language ∈ Language.known)
    {name : String} {id : NodeId} (hname : (name, id) ∈ registry.definitions) :
    Word name.toList ∧ name ≠ "" := by
  obtain ⟨identity, n, -, rfl⟩ := h name id hname
  exact ⟨word_numbered (word_spelling hlanguage identity) n,
    numbered_ne_empty (spelling_ne_empty language identity) n⟩

end

end Registry

namespace Generation

variable {settings : Settings} {graph : Graph} {schemas : List NodeId}
  {operations : List Operation} {journal : Journal} {report : Report} {t : Typing}

/-- The types in a report are listed under numbered spellings of their names. -/
theorem spelled_of_run (h : runStep (run settings graph schemas operations) { journal := journal } =
    (.ok report, t)) :
    ∃ language, settings.targetLanguage = .ok language
      ∧ report.namedTypes = t.registry.definitions ∧ t.registry.Spelled language graph := by
  obtain ⟨language, builder, u, tried, hlanguage, hprepare, htried, rfl⟩ := run_ok h
  obtain ⟨-, v, hregister, hfrozen⟩ := prepare_ok hprepare
  have hspelled : (runStep (Registry.register language graph
      (graph.typeDefinitions (roots schemas operations))) { journal := journal }).2.registry.Spelled
        language graph := (Registry.Spelled.empty language graph).register
  rw [hregister] at hspelled
  refine ⟨language, hlanguage, rfl, ?_⟩
  rw [registry_of_outcomes hprepare htried, hfrozen]
  exact hspelled

end Generation

end ApiClients
