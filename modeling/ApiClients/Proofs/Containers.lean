import ApiClients.Proofs.FrozenResolution
import ApiClients.Proofs.Reachability
import Mathlib.Data.List.Nodup

/-!
# Containers inside containers

The type of a container is spelled out around the type of what it holds, which may be a container
again.  From a use of a schema this leads inwards through a chain of containers (`Graph.Nests`).
Resolving stops at a container that it is spelling out already, and puts the type of anything
there.  Two things can happen on the chain, and no third (`unrepeated_or_repeat`).

* No container comes back.  Then resolving does what it would do without looking for containers that
  come back (`resolveUnguarded_of_unrepeated`).
* A container comes back.  Then the type is made of the containers up to there, each spelled out
  once, around the type of anything (`resolveWithin_of_repeat`).  The container that has come back
  contains itself, and without looking for it resolving would have no end.
-/

namespace ApiClients

/-- A schema where it is used. -/
structure Use where
  schema : NodeId
  usage : Usage
  deriving DecidableEq

/-! ### What containers hold -/

/-- The schema that a container holds: the items of an array or the values of a map. -/
def Node.held? (node : Node) : Option NodeId :=
  if node.isArray then node.items
  else
    match node.additional with
    | .shape child => some child
    | _ => none

/-- What stands in a container that holds no schema. -/
def Language.unheld (language : Language) (node : Node) : String :=
  if node.isFile then language.fileParameter else language.any

/-- Maps are no files. -/
theorem Node.not_isFile_of_isContainer {node : Node} (h : node.isContainer = true) :
    (node.isFile && !node.isArray) = false := by
  cases harray : node.isArray with
  | true => simp
  | false =>
    have hkinds : (node.kinds.atMostObject
        || decide (node.kinds = Kinds.ofList [.object, .null])) = true := by
      simp [isContainer, harray, isDictionary] at h
      simp [h]
    simp only [Kinds.atMostObject, Bool.or_eq_true, decide_eq_true_eq] at hkinds
    rcases hkinds with (hkinds | hkinds) | hkinds <;> rw [isFile, hkinds] <;> rfl

namespace Graph

/-- Whether a schema is a container that is spelled out, that is, an array or a map and no type
definition. -/
def spellsOut (graph : Graph) (id : NodeId) : Bool :=
  !(graph.actualNode id).isTypeDefinition && (graph.actualNode id).isContainer

/-- The use of the schema that a container holds. -/
def held? (graph : Graph) (use : Use) : Option Use :=
  let node := graph.actualNode use.schema
  node.held?.map fun child =>
    ⟨child, { fallbackName := use.usage.fallbackName ++ if node.isArray then "Item" else "Value" }⟩

/-- From a use inwards to another one, through containers of which each holds the next. -/
inductive Nests (graph : Graph) : Use → List Use → Use → Prop
  | here (use : Use) : Nests graph use [] use
  | inside {use next last : Use} {outer : List Use} (h : graph.spellsOut use.schema = true)
      (hnext : graph.held? use = some next) (hrest : Nests graph next outer last) :
      Nests graph use (use :: outer) last

/-- The nodes that carry the shapes of some uses. -/
def actuals (graph : Graph) (uses : List Use) : List NodeId :=
  uses.map fun use => graph.actual use.schema

/-- No container on the chain from a use is one that it stands in, or one of `around`. -/
def Unrepeated (graph : Graph) (around : List NodeId) (use : Use) : Prop :=
  ∀ outer last, graph.Nests use outer last → graph.spellsOut last.schema = true →
    graph.actual last.schema ∉ graph.actuals outer ++ around

/-- The first container on the chain from a use that is one that it stands in, or one of
`around`. -/
structure Repeats (graph : Graph) (around : List NodeId) (use : Use) (outer : List Use)
    (last : Use) : Prop where
  nests : graph.Nests use outer last
  container : graph.spellsOut last.schema = true
  back : graph.actual last.schema ∈ graph.actuals outer ++ around
  apart : (graph.actuals outer).Nodup
  fresh : ∀ id ∈ graph.actuals outer, id ∉ around

section

variable {graph : Graph} {around : List NodeId} {use next last : Use} {outer : List Use}

theorem spellsOut_iff {id : NodeId} :
    graph.spellsOut id = true ↔
      (graph.actualNode id).isTypeDefinition = false
        ∧ (graph.actualNode id).isContainer = true := by
  simp [spellsOut]

/-- What a container holds does not depend on the way to it. -/
theorem spellsOut_congr {id other : NodeId} (h : graph.actual id = graph.actual other) :
    graph.spellsOut id = graph.spellsOut other := by
  simp [spellsOut, actualNode, h]

theorem unseen_nil (graph : Graph) : graph.unseen [] = graph.size := by
  simp [unseen]

/-- Around what a container holds there are more containers than around itself, and fewer are
left. -/
theorem unseen_held (h : graph.spellsOut use.schema = true)
    (hfresh : graph.actual use.schema ∉ around) :
    graph.unseen (graph.actual use.schema :: around) < graph.unseen around :=
  graph.unseen_cons_lt hfresh (graph.lt_size_of_isContainer (spellsOut_iff.mp h).2)

/-- Inside a container, it is one of those around. -/
theorem mem_actuals_cons {id : NodeId} :
    id ∈ graph.actuals (use :: outer) ++ around ↔
      id ∈ graph.actuals outer ++ graph.actual use.schema :: around := by
  simp only [actuals, List.map_cons, List.mem_append, List.mem_cons]
  tauto

theorem Unrepeated.fresh (h : graph.Unrepeated around use)
    (hcontainer : graph.spellsOut use.schema = true) : graph.actual use.schema ∉ around :=
  h [] use (.here use) hcontainer

theorem Unrepeated.held (h : graph.Unrepeated around use)
    (hcontainer : graph.spellsOut use.schema = true) (hnext : graph.held? use = some next) :
    graph.Unrepeated (graph.actual use.schema :: around) next := by
  intro outer last hnests hlast
  rw [← mem_actuals_cons]
  exact h (use :: outer) last (.inside hcontainer hnext hnests) hlast

theorem unrepeated_of_held
    (hfresh : graph.spellsOut use.schema = true → graph.actual use.schema ∉ around)
    (hheld : ∀ next, graph.held? use = some next →
      graph.Unrepeated (graph.actual use.schema :: around) next) : graph.Unrepeated around use := by
  intro outer last hnests hlast
  cases hnests with
  | here => exact hfresh hlast
  | inside _ hnext hrest =>
    rw [mem_actuals_cons]
    exact hheld _ hnext _ last hrest hlast

theorem unrepeated_of_not_spellsOut (h : graph.spellsOut use.schema = false) :
    graph.Unrepeated around use := by
  intro outer last hnests hlast
  cases hnests with
  | here => simp [h] at hlast
  | inside hcontainer _ _ => simp [h] at hcontainer

theorem Repeats.enter (h : graph.Repeats (graph.actual use.schema :: around) next outer last)
    (hcontainer : graph.spellsOut use.schema = true) (hnext : graph.held? use = some next)
    (hfresh : graph.actual use.schema ∉ around) :
    graph.Repeats around use (use :: outer) last := by
  have hother : ∀ id ∈ graph.actuals outer, id ≠ graph.actual use.schema ∧ id ∉ around := by
    intro id hid
    simpa [not_or] using h.fresh id hid
  constructor
  · exact .inside hcontainer hnext h.nests
  · exact h.container
  · exact mem_actuals_cons.mpr h.back
  · exact List.nodup_cons.mpr ⟨fun hmem => (hother _ hmem).1 rfl, h.apart⟩
  · intro id hid
    rcases List.mem_cons.mp hid with rfl | hid
    · exact hfresh
    · exact (hother id hid).2

theorem Repeats.held (h : graph.Repeats around use (use :: outer) last)
    (hnests : graph.Nests next outer last) :
    graph.Repeats (graph.actual use.schema :: around) next outer last := by
  obtain ⟨hnew, hapart⟩ := List.nodup_cons.mp h.apart
  constructor
  · exact hnests
  · exact h.container
  · exact mem_actuals_cons.mp h.back
  · exact hapart
  · intro id hid hmem
    rcases List.mem_cons.mp hmem with rfl | hmem
    · exact hnew hid
    · exact h.fresh id (List.mem_cons_of_mem _ hid) hmem

/-- On the chain from a use no container comes back, or there is a first one that does. -/
theorem unrepeated_or_repeat (graph : Graph) (around : List NodeId) (use : Use) :
    graph.Unrepeated around use ∨ ∃ outer last, graph.Repeats around use outer last := by
  induction hsize : graph.unseen around using Nat.strongRecOn generalizing around use with
  | ind size ih =>
    subst hsize
    cases hcontainer : graph.spellsOut use.schema with
    | false => exact .inl (unrepeated_of_not_spellsOut hcontainer)
    | true =>
      by_cases hback : graph.actual use.schema ∈ around
      · exact .inr ⟨[], use, .here use, hcontainer, hback, List.nodup_nil, by simp [actuals]⟩
      · cases hnext : graph.held? use with
        | none =>
          left
          apply unrepeated_of_held fun _ => hback
          simp [hnext]
        | some next =>
          rcases ih _ (unseen_held hcontainer hback) _ next rfl with hinner | ⟨outer, last, hinner⟩
          · left
            apply unrepeated_of_held fun _ => hback
            simpa [hnext] using hinner
          · exact .inr ⟨_, last, hinner.enter hcontainer hnext hback⟩

/-! ### Containers that contain themselves -/

/-- A container holds the node that carries the shape of its items or values. -/
def Holds (graph : Graph) (container inner : NodeId) : Prop :=
  graph.spellsOut container = true
    ∧ ∃ child, (graph.actualNode container).held? = some child ∧ graph.actual child = inner

theorem holds_of_held (h : graph.spellsOut use.schema = true)
    (hnext : graph.held? use = some next) :
    graph.Holds (graph.actual use.schema) (graph.actual next.schema) := by
  obtain ⟨child, hchild, rfl⟩ := Option.map_eq_some_iff.mp hnext
  constructor
  · rw [spellsOut_congr (graph.actual_actual use.schema)]
    exact h
  · rw [actualNode_actual]
    exact ⟨child, hchild, rfl⟩

theorem held_of_holds {inner : NodeId} (h : graph.Holds (graph.actual use.schema) inner) :
    graph.spellsOut use.schema = true
      ∧ ∃ next, graph.held? use = some next ∧ graph.actual next.schema = inner := by
  obtain ⟨hcontainer, child, hchild, hinner⟩ := h
  rw [spellsOut_congr (graph.actual_actual use.schema)] at hcontainer
  rw [actualNode_actual] at hchild
  have hnext : ∃ inner, graph.held? use = some ⟨child, inner⟩ := by
    simp [held?, hchild]
  obtain ⟨inner, hnext⟩ := hnext
  exact ⟨hcontainer, _, hnext, hinner⟩

/-- A container holds what is nested in it, directly or in others. -/
theorem Nests.holds (h : graph.Nests use outer last) {id : NodeId}
    (hid : id ∈ graph.actuals outer) :
    Relation.TransGen graph.Holds id (graph.actual last.schema) := by
  induction h generalizing id with
  | here => cases hid
  | @inside use next last outer hcontainer hnext hrest ih =>
    rcases List.mem_cons.mp hid with hid | hid
    · have hfirst := holds_of_held hcontainer hnext
      rw [hid]
      cases hrest with
      | here => exact .single hfirst
      | inside _ _ _ => exact .head hfirst (ih (by simp [actuals]))
    · exact ih hid

/-- A container that comes back contains itself. -/
theorem Repeats.holds_itself (h : graph.Repeats [] use outer last) :
    Relation.TransGen graph.Holds (graph.actual last.schema) (graph.actual last.schema) := by
  have hback := h.back
  rw [List.append_nil] at hback
  exact h.nests.holds hback

end

end Graph

namespace Resolver

/-! ### Resolving a container -/

/-- The type of a container around the type of what it holds. -/
def enclose (language : Language) (graph : Graph) (use : Use) (content : String) : String :=
  language.nullableIf (admitsNull graph use.schema use.usage)
    (if (graph.actualNode use.schema).isArray then language.sequenceOf content
      else language.dictionaryOf content)

/-- The type of what a container holds, where `inner` is the type of a schema in a use. -/
def contentType (language : Language) (graph : Graph) (inner : Use → TypingM String) (use : Use) :
    TypingM String :=
  match graph.held? use with
  | some next => inner next
  | none => pure (language.unheld (graph.actualNode use.schema))

/-- Resolving by the same rules, but without looking for containers that are being spelled out
already.  Only so many schemas inside each other are resolved; below the last of them there is no
end. -/
def resolveUnguarded (resolver : Resolver) (graph : Graph) :
    Nat → NodeId → Usage → TypingM String
  | 0, _, _ => throw .endless
  | depth + 1, id, usage =>
    let language := resolver.language
    let actual := graph.actual id
    let node := graph.node actual
    let nullable := usage.nullable || (graph.node id).isNullable || node.isNullable
    if node.isTypeDefinition then do
      return language.nullableIf nullable (← Registry.name language graph actual)
    else if node.isFile && !node.isArray then pure (fileType language usage)
    else if node.isContainer then
      if node.isArray then do
        let item ← match node.items with
          | some child =>
            resolver.resolveUnguarded graph depth child
              { fallbackName := usage.fallbackName ++ "Item" }
          | none => pure (if node.isFile then language.fileParameter else language.any)
        return language.nullableIf nullable (language.sequenceOf item)
      else do
        let value ← match node.additional with
          | .shape child =>
            resolver.resolveUnguarded graph depth child
              { fallbackName := usage.fallbackName ++ "Value" }
          | _ => pure language.any
        return language.nullableIf nullable (language.dictionaryOf value)
    else resolver.baseType node nullable usage.fallbackName

section

variable {resolver : Resolver} {graph : Graph} {around : List NodeId} {use last : Use}
  {outer : List Use} {depth : Nat}

theorem resolveWithin_container (h : graph.spellsOut use.schema = true)
    (hfresh : graph.actual use.schema ∉ around) :
    resolver.resolveWithin graph around use.schema use.usage = do
      let content ← contentType resolver.language graph (fun next =>
        resolver.resolveWithin graph (graph.actual use.schema :: around) next.schema next.usage) use
      return enclose resolver.language graph use content := by
  obtain ⟨hdefinition, hcontainer⟩ := Graph.spellsOut_iff.mp h
  have hfile := Node.not_isFile_of_isContainer hcontainer
  cases harray : (graph.actualNode use.schema).isArray with
  | true =>
    rw [resolveWithin_array hdefinition hcontainer hfresh harray]
    simp only [itemType, contentType, enclose, Graph.held?, Node.held?, harray, if_true,
      Language.unheld]
    cases (graph.actualNode use.schema).items <;> rfl
  | false =>
    have hnofile : (graph.actualNode use.schema).isFile = false := by simpa [harray] using hfile
    rw [resolveWithin_map hdefinition hfile hcontainer hfresh harray]
    simp only [valueType, contentType, enclose, Graph.held?, Node.held?, harray, if_false,
      Bool.false_eq_true, Language.unheld, hnofile]
    cases (graph.actualNode use.schema).additional <;> rfl

theorem resolveUnguarded_container (h : graph.spellsOut use.schema = true) :
    resolver.resolveUnguarded graph (depth + 1) use.schema use.usage = do
      let content ← contentType resolver.language graph (fun next =>
        resolver.resolveUnguarded graph depth next.schema next.usage) use
      return enclose resolver.language graph use content := by
  obtain ⟨hdefinition, hcontainer⟩ := Graph.spellsOut_iff.mp h
  have hfile := Node.not_isFile_of_isContainer hcontainer
  unfold Graph.actualNode at hdefinition hcontainer hfile
  rw [resolveUnguarded]
  by_cases harray : (graph.node (graph.actual use.schema)).isArray = true
  · simp only [hdefinition, hcontainer, harray, if_true, if_false, Bool.false_eq_true,
      Bool.not_true, Bool.and_false, contentType, enclose, Graph.held?, Node.held?,
      Graph.actualNode, Language.unheld]
    cases (graph.node (graph.actual use.schema)).items <;> rfl
  · rw [Bool.not_eq_true] at harray
    have hnofile : (graph.node (graph.actual use.schema)).isFile = false := by
      simpa [harray] using hfile
    simp only [hdefinition, hcontainer, harray, hnofile, if_true, if_false, Bool.false_eq_true,
      Bool.false_and, contentType, enclose, Graph.held?, Node.held?, Graph.actualNode,
      Language.unheld]
    cases (graph.node (graph.actual use.schema)).additional <;> rfl

/-- A schema that is no container is resolved alike by both. -/
theorem resolveUnguarded_other (h : graph.spellsOut use.schema = false) :
    resolver.resolveUnguarded graph (depth + 1) use.schema use.usage
      = resolver.resolveWithin graph around use.schema use.usage := by
  cases branch graph around use.schema with
  | definition hdefinition =>
    rw [resolveWithin_definition hdefinition, resolveUnguarded]
    exact if_pos hdefinition
  | file hdefinition hfile =>
    rw [resolveWithin_file hdefinition hfile, resolveUnguarded]
    unfold Graph.actualNode at hdefinition hfile
    simp only [hdefinition, hfile, if_true, if_false, Bool.false_eq_true]
  | base hdefinition hfile hcontainer =>
    rw [resolveWithin_base hdefinition hfile hcontainer, resolveUnguarded]
    unfold Graph.actualNode at hdefinition hfile hcontainer
    simp only [hdefinition, hfile, hcontainer, if_false, Bool.false_eq_true]
    rfl
  | recursive hdefinition _ hcontainer _ =>
    simp [Graph.spellsOut, hdefinition, hcontainer] at h
  | array hdefinition hcontainer _ _ => simp [Graph.spellsOut, hdefinition, hcontainer] at h
  | map hdefinition _ hcontainer _ _ => simp [Graph.spellsOut, hdefinition, hcontainer] at h

/-! ### Where no container comes back -/

/-- By induction on the depth: each container on the chain is a new one around what it holds. -/
theorem resolveUnguarded_of_unrepeated (h : graph.Unrepeated around use)
    (hdepth : graph.unseen around < depth) :
    resolver.resolveUnguarded graph depth use.schema use.usage
      = resolver.resolveWithin graph around use.schema use.usage := by
  induction depth generalizing around use with
  | zero => omega
  | succ depth ih =>
    cases hcontainer : graph.spellsOut use.schema with
    | false => exact resolveUnguarded_other hcontainer
    | true =>
      have hfresh := h.fresh hcontainer
      have hfewer := Graph.unseen_held hcontainer hfresh
      rw [resolveUnguarded_container hcontainer, resolveWithin_container hcontainer hfresh]
      unfold contentType
      cases hnext : graph.held? use with
      | none => rfl
      | some next =>
        simp only
        rw [ih (h.held hcontainer hnext) (by omega)]

/-! ### Where a container comes back -/

/-- A container that is being spelled out has the type of anything inside itself. -/
theorem resolveWithin_back (h : graph.spellsOut use.schema = true)
    (hback : graph.actual use.schema ∈ around) (s : Typing) :
    (runStep (resolver.resolveWithin graph around use.schema use.usage) s).1
      = .ok (resolver.language.nullableIf (admitsNull graph use.schema use.usage)
        resolver.language.any) := by
  obtain ⟨hdefinition, hcontainer⟩ := Graph.spellsOut_iff.mp h
  rw [resolveWithin_recursive hdefinition (Node.not_isFile_of_isContainer hcontainer) hcontainer
    hback]
  rfl

/-- The type of a use in which a container comes back: the containers up to there, around the type
of anything. -/
def nestedType (language : Language) (graph : Graph) (outer : List Use) (last : Use) : String :=
  outer.foldr (enclose language graph)
    (language.nullableIf (admitsNull graph last.schema last.usage) language.any)

theorem resolveWithin_of_repeat (h : graph.Repeats around use outer last) (s : Typing) :
    (runStep (resolver.resolveWithin graph around use.schema use.usage) s).1
      = .ok (nestedType resolver.language graph outer last) := by
  induction outer generalizing around use with
  | nil =>
    cases h.nests with
    | here => exact resolveWithin_back h.container h.back s
  | cons first outer ih =>
    cases h.nests with
    | @inside _ next _ _ hcontainer hnext hrest =>
      have hinner := ih (h.held hrest)
      rw [resolveWithin_container hcontainer (h.fresh _ List.mem_cons_self), runStep_bind]
      simp only [contentType, hnext]
      rcases hrun : runStep (resolver.resolveWithin graph (graph.actual first.schema :: around)
        next.schema next.usage) s with ⟨failure | content, t⟩
      · rw [hrun] at hinner
        cases hinner
      · rw [hrun, Except.ok.injEq] at hinner
        rw [hinner]
        rfl

/-- Inside a container that contains itself there is no end to the schemas. -/
theorem resolveUnguarded_of_holds_itself
    (h : Relation.TransGen graph.Holds (graph.actual use.schema) (graph.actual use.schema))
    (depth : Nat) (s : Typing) :
    runStep (resolver.resolveUnguarded graph depth use.schema use.usage) s
      = (.error .endless, s) := by
  induction depth generalizing use with
  | zero => rfl
  | succ depth ih =>
    obtain ⟨inner, hfirst, hrest⟩ := Relation.TransGen.head'_iff.mp h
    obtain ⟨hcontainer, next, hnext, rfl⟩ := Graph.held_of_holds hfirst
    have hinner := ih (Relation.TransGen.tail' hrest hfirst)
    rw [resolveUnguarded_container hcontainer]
    simp only [contentType, hnext]
    exact runStep_bind_of_error hinner

theorem resolveUnguarded_of_nests (h : graph.Nests use outer last)
    (hback : Relation.TransGen graph.Holds (graph.actual last.schema) (graph.actual last.schema))
    (depth : Nat) (s : Typing) :
    runStep (resolver.resolveUnguarded graph depth use.schema use.usage) s
      = (.error .endless, s) := by
  induction h generalizing depth with
  | here use => exact resolveUnguarded_of_holds_itself hback depth s
  | @inside use next last outer hcontainer hnext _ ih =>
    cases depth with
    | zero => rfl
    | succ depth =>
      rw [resolveUnguarded_container hcontainer]
      simp only [contentType, hnext]
      exact runStep_bind_of_error (ih hback depth)

end

/-! ### Every type has an end -/

/-- The base types come to an end, and a frozen registry stays frozen. -/
def BaseEnds (resolver : Resolver) : Prop :=
  ∀ node nullable use, Upholds (fun s : Typing => s.registry.frozen = true) (· ≠ .endless)
    (resolver.baseType node nullable use)

theorem baseEnds_ofLanguage (language : Language) : (ofLanguage language).BaseEnds := by
  intro node nullable use
  apply upholds_primitiveType (P := fun registry => registry.frozen = true)
  intro _
  simp

/-- A frozen registry answers with a name it has, or refuses. -/
theorem upholds_name_of_frozen (language : Language) (graph : Graph) (id : NodeId) :
    Upholds (fun s : Typing => s.registry.frozen = true) (· ≠ .endless)
      (Registry.name language graph id) := by
  unfold Registry.name
  apply upholds_get_bind
  intro s hs
  simp only []
  cases s.registry.nameOf? id with
  | some name => exact ⟨hs, fun _ he => by cases he⟩
  | none =>
    rw [if_pos hs]
    exact ⟨hs, fun _ he => by cases he; simp⟩

theorem BaseEnds.resolve_ends {resolver : Resolver} (hends : resolver.BaseEnds) (graph : Graph)
    (id : NodeId) (usage : Usage) {s : Typing} (hs : s.registry.frozen = true) :
    (runStep (resolver.resolve graph (some id) usage) s).1 ≠ .error .endless := by
  have hupholds : Upholds (fun s : Typing => s.registry.frozen = true) (· ≠ .endless)
      (resolver.resolve graph (some id) usage) :=
    upholds_resolve (P := fun registry => registry.frozen = true) graph.closed_all
      (fun _ _ _ => upholds_name_of_frozen _ _ _) (fun _ _ _ _ => hends _ _ _) (fun _ _ => trivial)
      usage
  intro herror
  exact (hupholds s hs).2 _ herror rfl

end Resolver

/-! ### Types of containers -/

/-- A frozen resolver has a type, or a failure of its own, for every use of a schema.  Where no
container comes back on the chain from the use inwards, this is what resolving without looking for
such containers comes to, however deep it may go beyond the size of the graph.  Where one comes
back, it is the containers up to there around the type of anything; that container contains itself,
and resolving without looking for it has no end at any depth.  So a container that does not contain
itself is spelled out in each place, whatever has been resolved before. -/
theorem containers_spelled_out (resolver : Resolver) (hends : resolver.BaseEnds) (graph : Graph)
    (id : NodeId) (usage : Usage) (calls : List Call) :
    let use : Use := ⟨id, usage⟩
    let s := (Call.performAll resolver graph calls {}).2
    let resolved := Call.perform resolver graph (.resolve (some id) usage) s
    (s.typing.registry.frozen = true → resolved.1 ≠ .error .endless)
      ∧ (graph.Unrepeated [] use ∨ ∃ outer last, graph.Repeats [] use outer last)
      ∧ (graph.Unrepeated [] use → ∀ depth, graph.size < depth →
        resolved = s.run (do return some (← resolver.resolveUnguarded graph depth id usage)))
      ∧ (∀ outer last, graph.Repeats [] use outer last →
        resolved.1 = .ok (some (Resolver.nestedType resolver.language graph outer last))
          ∧ Relation.TransGen graph.Holds (graph.actual last.schema) (graph.actual last.schema)
          ∧ ∀ depth t, runStep (resolver.resolveUnguarded graph depth id usage) t
            = (.error .endless, t))
      ∧ ((∀ outer last, graph.Nests use outer last →
          ¬ Relation.TransGen graph.Holds (graph.actual last.schema) (graph.actual last.schema)) →
        graph.Unrepeated [] use) := by
  intro use s resolved
  have hresolved : resolved = s.run (do return some (← resolver.resolve graph (some id) usage)) :=
    Call.perform_eq _ (Call.inside_performAll calls rfl)
  have houtcome : resolved.1
      = (runStep (resolver.resolve graph (some id) usage) s.typing).1.map some := by
    rw [hresolved, Resolver.State.run_map]
    rfl
  have hchain := graph.unrepeated_or_repeat [] use
  constructor
  · intro hfrozen herror
    have hend := hends.resolve_ends graph id usage hfrozen
    rw [houtcome] at herror
    cases hrun : (runStep (resolver.resolve graph (some id) usage) s.typing).1 with
    | ok type => simp [hrun, Except.map] at herror
    | error failure => simp_all [Except.map]
  constructor
  · exact hchain
  constructor
  · intro hunrepeated depth hdepth
    have hfewer : graph.unseen [] < depth := by rwa [Graph.unseen_nil]
    have hsame : resolver.resolveUnguarded graph depth id usage
        = resolver.resolve graph (some id) usage :=
      Resolver.resolveUnguarded_of_unrepeated hunrepeated hfewer
    rw [hresolved, hsame]
  constructor
  · intro outer last hrepeats
    have htype : (runStep (resolver.resolve graph (some id) usage) s.typing).1
        = .ok (Resolver.nestedType resolver.language graph outer last) :=
      Resolver.resolveWithin_of_repeat hrepeats s.typing
    constructor
    · rw [houtcome, htype]
      rfl
    · exact ⟨hrepeats.holds_itself,
        Resolver.resolveUnguarded_of_nests hrepeats.nests hrepeats.holds_itself⟩
  · intro hnone
    rcases hchain with hunrepeated | ⟨outer, last, hrepeats⟩
    · exact hunrepeated
    · exact absurd hrepeats.holds_itself (hnone outer last hrepeats.nests)

/-- A list of maps of such lists or null, and a list of lists of numbers. -/
def ringGraph : Graph where
  nodes := #[
    { nullable := true, reference := some 1 },
    { kinds := Kinds.ofList [.array], items := some 2 },
    { kinds := Kinds.ofList [.object], additional := .shape 0 },
    { kinds := Kinds.ofList [.array], items := some 4 },
    { kinds := Kinds.ofList [.array], items := some 5 },
    { kinds := Kinds.ofList [.integer] }]

/-- The lists are used before. -/
def ringCalls : List Call := [.freeze, .resolve (some 4) {}, .resolve (some 2) {}]

/-- The ring is spelled out once around. -/
theorem ringGraph_repeats :
    ringGraph.Repeats [] ⟨0, {}⟩ [⟨0, {}⟩, ⟨2, { fallbackName := "AnonymousItem" }⟩]
      ⟨0, { fallbackName := "AnonymousItemValue" }⟩ where
  nests := .inside (by decide +kernel) (by decide +kernel)
    (.inside (by decide +kernel) (by decide +kernel) (.here _))
  container := by decide +kernel
  back := by decide +kernel
  apart := by decide +kernel
  fresh := by decide +kernel

theorem ringGraph_unrepeated : ringGraph.Unrepeated [] ⟨3, {}⟩ := by
  have houter : ringGraph.held? ⟨3, {}⟩ = some ⟨4, { fallbackName := "AnonymousItem" }⟩ := by
    decide +kernel
  have hinner : ringGraph.held? ⟨4, { fallbackName := "AnonymousItem" }⟩
      = some ⟨5, { fallbackName := "AnonymousItemItem" }⟩ := by decide +kernel
  apply Graph.unrepeated_of_held (fun _ => by decide +kernel)
  rw [houter]
  rintro _ ⟨⟩
  apply Graph.unrepeated_of_held (fun _ => by decide +kernel)
  rw [hinner]
  rintro _ ⟨⟩
  exact Graph.unrepeated_of_not_spellsOut (by decide +kernel)

theorem containers_spelled_out_rings :
    let resolver := Resolver.ofLanguage Language.rust
    let s := (Call.performAll resolver ringGraph ringCalls {}).2
    let ring := Call.perform resolver ringGraph (.resolve (some 0) {}) s
    let lists := Call.perform resolver ringGraph (.resolve (some 3) {}) s
    resolver.BaseEnds
      ∧ s.typing.registry.frozen = true
      ∧ ring.1 ≠ .error .endless
      ∧ ring.1 = .ok (some
        "Option<Vec<std::collections::HashMap<String, Option<serde_json::Value>>>>")
      ∧ lists = s.run (do return some (← resolver.resolveUnguarded ringGraph 7 3 {}))
      ∧ lists.1 = .ok (some "Vec<Vec<i64>>") := by
  intro resolver s ring lists
  have hends : resolver.BaseEnds := Resolver.baseEnds_ofLanguage Language.rust
  have hfrozen : s.typing.registry.frozen = true := by decide +kernel
  obtain ⟨hring, -, -, hrepeats, -⟩ :=
    containers_spelled_out resolver hends ringGraph 0 {} ringCalls
  obtain ⟨-, -, hlists, -⟩ := containers_spelled_out resolver hends ringGraph 3 {} ringCalls
  have hunguarded := hlists ringGraph_unrepeated 7 (by decide)
  have htype := (hrepeats _ _ ringGraph_repeats).1
  exact ⟨hends, hfrozen, hring hfrozen, htype.trans (by decide +kernel), hunguarded,
    (congrArg Prod.fst hunguarded).trans (by decide +kernel)⟩

end ApiClients
