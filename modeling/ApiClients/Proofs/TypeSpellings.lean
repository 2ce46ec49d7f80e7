import ApiClients.Proofs.EmittedNames
import ApiClients.Proofs.Nullability
import ApiClients.Proofs.RepeatedTypes

/-!
# How types are spelled

A type is an emitted name, the type of a file, a frame around the type of a part or a type that the
language has of itself, with null admitted or not (`Made`).  An emitted name starts with a capital or
a digit (`Spelled.capital`), and a frame ends in a character that the type of an absent result and
that of a returned file do not have; so no schema has the type of an absent result (`Made.ne_void`),
and besides files only a type definition that is emitted under this very name has the type of a
returned file (`Made.eq_fileResponse_iff`).
-/

namespace ApiClients

open Identifier Text

/-! ### Emitted names -/

namespace Registry

section

variable {language : Language} {graph : Graph} {registry : Registry} {id : NodeId} {name : String}

theorem head_spelling (h : language ∈ Language.known) {identity : String} {c : Char}
    {rest : List Char} (hc : (spelling language identity).toList = c :: rest) :
    isLowerAscii c = false := by
  rw [spelling_known h] at hc
  split at hc
  · have hanonymous : "Anonymous".toList = 'A' :: "nonymous".toList := by decide
    rw [hanonymous] at hc
    cases hc
    decide
  · have hstart := startsSmall_pascalNormalized identity
    rwa [hc] at hstart

/-- An emitted name starts with a capital or a digit. -/
theorem Spelled.capital (h : registry.Spelled language graph) (hlanguage : language ∈ Language.known)
    (hname : (name, id) ∈ registry.definitions) :
    ∃ c rest, name.toList = c :: rest ∧ isWordChar c = true ∧ isLowerAscii c = false := by
  obtain ⟨hword, -⟩ := h.word hlanguage hname
  obtain ⟨identity, n, -, rfl⟩ := h name id hname
  cases hspelling : (spelling language identity).toList with
  | nil => exact absurd (String.toList_inj.mp hspelling) (spelling_ne_empty language identity)
  | cons c rest =>
    have hlower := head_spelling hlanguage hspelling
    obtain ⟨digits, hdigits⟩ : ∃ digits,
        (numbered (spelling language identity) n).toList = c :: digits := by
      cases n with
      | zero => exact ⟨rest, hspelling⟩
      | succ n => exact ⟨_, by rw [numbered, String.toList_append, hspelling, List.cons_append]⟩
    exact ⟨c, digits, hdigits, hword c (hdigits ▸ List.mem_cons_self), hlower⟩

/-- What holds of a registry whose names have been given one after another. -/
structure WellNamed (language : Language) (graph : Graph) (registry : Registry) : Prop where
  consistent : registry.Consistent graph
  spelled : registry.Spelled language graph

theorem WellNamed.name_ne_void (h : registry.WellNamed language graph)
    (hlanguage : language ∈ Language.known) (hname : registry.nameOf? id = some name) :
    name ≠ language.void := by
  obtain ⟨other, hlisted⟩ := listed_of_named h.consistent hname
  obtain ⟨c, rest, hc, hword, hlower⟩ := h.spelled.capital hlanguage hlisted
  -- the type of an absent result starts with a small letter or with a bracket
  have hstarts : ∀ language ∈ Language.known,
      (language.void.toList.head?.all fun c => !isWordChar c || isLowerAscii c) = true := by decide
  rintro rfl
  have hstart := hstarts language hlanguage
  rw [hc, List.head?_cons, Option.all_some, hword, hlower] at hstart
  cases hstart

end

end Registry

/-! ### Frames -/

/-- A frame around a type is no text that lacks a character at the end of the frame. -/
theorem Frame.around_ne {frame : Frame} {text : String}
    (h : ∃ c ∈ frame.after.toList, c ∉ text.toList) (inner : String) :
    frame.around inner ≠ text := by
  obtain ⟨c, hmark, hc⟩ := h
  rintro rfl
  exact hc (by simp [Frame.around, hmark])

namespace Language

/-- The types that a language has of itself: that of anything and those of the primitives. -/
def baseTypes (language : Language) : List String :=
  language.any :: language.primitives.flatMap fun (_, spellings) =>
    spellings.plain :: spellings.byFormat.map (·.2)

/-- A text that no type with a frame around it can be. -/
structure Unframed (language : Language) (text : String) : Prop where
  nullable : ∃ c ∈ language.nullable.after.toList, c ∉ text.toList
  sequence : ∃ c ∈ language.sequence.after.toList, c ∉ text.toList
  dictionary : ∃ c ∈ language.dictionary.after.toList, c ∉ text.toList

variable {language : Language} {text type : String} {nullable : Bool}

theorem unframed_known (h : language ∈ known)
    (htext : text ∈ [language.void, language.fileResponse]) : language.Unframed text := by
  have hall : ∀ language ∈ known, ∀ text ∈ [language.void, language.fileResponse],
      ∀ frame ∈ [language.nullable, language.sequence, language.dictionary],
        (frame.after.toList.any fun c => !text.toList.contains c) = true := by decide
  have hmarks : ∀ frame ∈ [language.nullable, language.sequence, language.dictionary],
      ∃ c ∈ frame.after.toList, c ∉ text.toList := by
    intro frame hframe
    obtain ⟨c, hc, hmark⟩ := List.any_eq_true.mp (hall language h text htext frame hframe)
    exact ⟨c, hc, by simpa using hmark⟩
  exact ⟨hmarks _ (by simp), hmarks _ (by simp), hmarks _ (by simp)⟩

/-- A type that is such a text has not been marked. -/
theorem Unframed.nullableIf_eq (h : language.Unframed text)
    (htype : language.nullableIf nullable type = text) : type = text := by
  rcases language.nullableIf_cases nullable type with hsame | hmarked
  · rw [← hsame, htype]
  · exact absurd (hmarked.symm.trans htype) (Frame.around_ne h.nullable type)

theorem baseType_of_primitive {primitive : String} {format : Json}
    (h : language.primitive? primitive format = .ok (some type)) : type ∈ language.baseTypes := by
  unfold primitive? at h
  cases hfind : language.primitives.find? (·.1 == primitive) with
  | none =>
    simp only [hfind] at h
    cases h
  | some entry =>
    obtain ⟨name, spellings⟩ := entry
    simp only [hfind] at h
    refine List.mem_cons_of_mem _ (List.mem_flatMap.mpr
      ⟨(name, spellings), List.mem_of_find?_eq_some hfind, ?_⟩)
    unfold Spellings.get at h
    split at h
    case h_3 text =>
      cases h
      cases hspelling : spellings.byFormat.find? (·.1 == text) with
      | none => exact List.mem_cons_self
      | some spelling =>
        exact List.mem_cons_of_mem _
          (List.mem_map_of_mem (List.mem_of_find?_eq_some hspelling))
    all_goals cases h
    exact List.mem_cons_self

end Language

/-! ### What types are made of -/

namespace Resolver

section

variable {language : Language} {graph : Graph} {registry : Registry} {nullable : Bool} {id : NodeId}
  {usage : Usage} {type : String} {s t : Typing}

/-- What the type of a node is made of, with null admitted as told. -/
inductive Made (language : Language) (graph : Graph) (registry : Registry) (nullable : Bool)
    (id : NodeId) (usage : Usage) : String → Prop
  | definition {name : String} (h : (graph.actualNode id).isTypeDefinition = true)
      (hname : registry.nameOf? (graph.actual id) = some name) :
      Made language graph registry nullable id usage (language.nullableIf nullable name)
  | file (h : graph.isFileShape id = true) :
      Made language graph registry nullable id usage (fileType language usage)
  | array (h : (graph.actualNode id).isTypeDefinition = false) (hfile : graph.isFileShape id = false)
      (item : String) : Made language graph registry nullable id usage
        (language.nullableIf nullable (language.sequenceOf item))
  | map (h : (graph.actualNode id).isTypeDefinition = false) (hfile : graph.isFileShape id = false)
      (value : String) : Made language graph registry nullable id usage
        (language.nullableIf nullable (language.dictionaryOf value))
  | base (h : (graph.actualNode id).isTypeDefinition = false) (hfile : graph.isFileShape id = false)
      {type : String} (htype : type ∈ language.baseTypes) :
      Made language graph registry nullable id usage (language.nullableIf nullable type)

theorem primitiveType_run {node : Node} {use : String}
    (h : runStep (primitiveType language node nullable use) s = (.ok type, t)) :
    ∃ base ∈ language.baseTypes, type = language.nullableIf nullable base := by
  unfold primitiveType at h
  cases hprimitive : node.kinds.primitive? with
  | none =>
    refine ⟨language.any, List.mem_cons_self, ?_⟩
    simp only [hprimitive] at h
    split at h
    · obtain ⟨_, _, -, h⟩ := runStep_bind_ok.mp h
      cases h
      rfl
    · cases h
      rfl
  | some primitive =>
    simp only [hprimitive] at h
    obtain ⟨found, u, hfound, h⟩ := runStep_bind_ok.mp h
    cases found with
    | none =>
      obtain ⟨_, _, -, h⟩ := runStep_bind_ok.mp h
      cases h
      exact ⟨language.any, List.mem_cons_self, rfl⟩
    | some found =>
      cases h
      rw [Typing.lift, runStep_mk, Prod.mk.injEq] at hfound
      exact ⟨found, Language.baseType_of_primitive hfound.1, rfl⟩

theorem made_of_typeAs
    (h : runStep ((ofLanguage language).typeAs graph nullable id usage) s = (.ok type, t)) :
    Made language graph t.registry nullable id usage type := by
  cases branch graph [] id with
  | definition hdefinition =>
    rw [typeAs_definition hdefinition] at h
    obtain ⟨name, hname, rfl⟩ := runStep_map_ok.mp h
    exact .definition hdefinition (Registry.name_run hname).2
  | file hdefinition hfile =>
    have hshape := Graph.isFileShape_iff.mpr ⟨hdefinition, hfile⟩
    rw [typeAs_file hshape] at h
    cases h
    exact .file hshape
  | recursive _ _ _ haround => cases haround
  | array hdefinition hcontainer _ harray =>
    rw [typeAs_array hdefinition hcontainer harray] at h
    obtain ⟨item, -, rfl⟩ := runStep_map_ok.mp h
    have hfile : graph.isFileShape id = false := by simp [Graph.isFileShape, harray]
    exact .array hdefinition hfile item
  | map hdefinition hfile hcontainer _ harray =>
    rw [typeAs_map hdefinition hfile hcontainer harray] at h
    obtain ⟨value, -, rfl⟩ := runStep_map_ok.mp h
    exact .map hdefinition (by simp [Graph.isFileShape, hfile]) value
  | base hdefinition hfile hcontainer =>
    rw [typeAs_base hdefinition hfile hcontainer] at h
    obtain ⟨base, hbase, rfl⟩ := primitiveType_run h
    exact .base hdefinition (by simp [Graph.isFileShape, hfile]) hbase

/-- The type of a node is a text without a frame only by what the node is: a definition, a file or a
base type. -/
theorem Made.of_unframed {text : String}
    (h : Made language graph registry nullable id usage type) (hunframed : language.Unframed text)
    (htype : type = text) :
    ((graph.actualNode id).isTypeDefinition = true
        ∧ registry.nameOf? (graph.actual id) = some text
        ∧ language.nullableIf nullable text = text)
      ∨ (graph.isFileShape id = true ∧ fileType language usage = text)
      ∨ text ∈ language.baseTypes := by
  cases h with
  | definition hdefinition hname =>
    cases hunframed.nullableIf_eq htype
    exact .inl ⟨hdefinition, hname, htype⟩
  | file hfile => exact .inr (.inl ⟨hfile, htype⟩)
  | array _ _ item =>
    exact absurd (hunframed.nullableIf_eq htype) (Frame.around_ne hunframed.sequence item)
  | map _ _ value =>
    exact absurd (hunframed.nullableIf_eq htype) (Frame.around_ne hunframed.dictionary value)
  | base _ _ hbase =>
    cases hunframed.nullableIf_eq htype
    exact .inr (.inr hbase)

theorem not_baseType (hlanguage : language ∈ Language.known) :
    language.void ∉ language.baseTypes ∧ language.fileResponse ∉ language.baseTypes := by
  have hall : ∀ language ∈ Language.known,
      language.void ∉ language.baseTypes ∧ language.fileResponse ∉ language.baseTypes := by
    decide +kernel
  exact hall language hlanguage

theorem fileType_mem (language : Language) (usage : Usage) : fileType language usage ∈
    [language.fileResponse, language.fileSequence, language.fileParameter] := by
  unfold fileType
  split
  · simp
  · split <;> simp

theorem fileType_ne_void (hlanguage : language ∈ Language.known) (usage : Usage) :
    fileType language usage ≠ language.void := by
  have hfiles : ∀ language ∈ Language.known,
      ∀ file ∈ [language.fileResponse, language.fileSequence, language.fileParameter],
        file ≠ language.void := by decide
  exact hfiles language hlanguage _ (fileType_mem language usage)

/-- No schema has the type of an absent result. -/
theorem Made.ne_void (h : Made language graph registry nullable id usage type)
    (hlanguage : language ∈ Language.known) (hnamed : registry.WellNamed language graph) :
    type ≠ language.void := by
  intro htype
  rcases h.of_unframed (Language.unframed_known hlanguage (by simp)) htype with
    ⟨-, hname, -⟩ | ⟨-, hfile⟩ | hbase
  · exact hnamed.name_ne_void hlanguage hname rfl
  · exact fileType_ne_void hlanguage usage hfile
  · exact (not_baseType hlanguage).1 hbase

/-- A node has the type of a returned file if it is a file, or a type definition that is emitted
under the name of this type and not marked. -/
theorem Made.eq_fileResponse_iff (h : Made language graph registry nullable id usage type)
    (hlanguage : language ∈ Language.known) (hresponse : usage.isResponse = true) :
    type = language.fileResponse ↔ graph.isFileShape id = true
      ∨ ((graph.actualNode id).isTypeDefinition = true
        ∧ registry.nameOf? (graph.actual id) = some language.fileResponse
        ∧ language.nullableIf nullable language.fileResponse = language.fileResponse) := by
  constructor
  · intro htype
    rcases h.of_unframed (Language.unframed_known hlanguage (by simp)) htype with
      hnamed | ⟨hfile, -⟩ | hbase
    · exact .inr hnamed
    · exact .inl hfile
    · exact absurd hbase (not_baseType hlanguage).2
  · intro hshape
    cases h with
    | definition hdefinition hname =>
      rcases hshape with hfile | ⟨-, hname', hmark⟩
      · rw [(Graph.isFileShape_iff.mp hfile).1] at hdefinition
        cases hdefinition
      · rw [hname] at hname'
        cases hname'
        exact hmark
    | file _ => simp [fileType, hresponse]
    | array hdefinition hfile _ => simp [hdefinition, hfile] at hshape
    | map hdefinition hfile _ => simp [hdefinition, hfile] at hshape
    | base hdefinition hfile _ => simp [hdefinition, hfile] at hshape

end

end Resolver

end ApiClients
