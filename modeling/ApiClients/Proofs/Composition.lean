import ApiClients.Document.Schemas
import Mathlib.Logic.Relation

/-!
# How a document composes its definitions

A schema object stands for a definition, or it spells out a shape of its own.  A shape has the
properties that it spells out itself, and it includes the definitions that its parts stand for.  All
this is said of the document as it is written, whatever reading makes of it.
-/

namespace ApiClients.Reading

/-! ### Schemas -/

/-- A schema object that comes to a reference, its own or that of its one part. -/
def Points (members : List (String × Json)) (ref : Json) : Prop :=
  Entries.get? members "$ref" = some ref
    ∨ Entries.get? members "$ref" = none ∧ variants? members = none
      ∧ soleReference? members = some ref

/-- A union that comes to one shape, whether or not null is another variant. -/
def Variant (members : List (String × Json)) (shape : Json) : Prop :=
  Entries.get? members "$ref" = none
    ∧ ∃ variants, variants? members = some variants
      ∧ variants.filter (! isNullVariant ·) = [shape]

/-- A schema object that is spelled out: no reference, no union, and not one part only. -/
def Plain (members : List (String × Json)) : Prop :=
  Entries.get? members "$ref" = none ∧ variants? members = none ∧ soleReference? members = none

/-- What a schema object is taken for: a reference, a union, or a shape that is spelled out. -/
inductive Form (members : List (String × Json)) : Prop
  | points {ref : Json} (h : Points members ref)
  | union {variants : List Json} (href : Entries.get? members "$ref" = none)
      (hvariants : variants? members = some variants)
  | plain (h : Plain members)

theorem form (members : List (String × Json)) : Form members := by
  cases href : Entries.get? members "$ref" with
  | some ref => exact .points (Or.inl href)
  | none =>
    cases hvariants : variants? members with
    | some variants => exact .union href hvariants
    | none =>
      cases hsole : soleReference? members with
      | some ref => exact .points (Or.inr ⟨href, hvariants, hsole⟩)
      | none => exact .plain ⟨href, hvariants, hsole⟩

/-- A schema stands for the definition of a name. -/
inductive Stands : Json → Json → Prop
  | points {members : List (String × Json)} {ref : String} (href : Points members (.str ref)) :
      Stands (.obj members) (.str (Json.refName ref))
  | variant {members : List (String × Json)} {shape name : Json}
      (hvariant : Variant members shape) (h : Stands shape name) : Stands (.obj members) name

/-- A schema is spelled out by some members. -/
inductive Spelled : Json → List (String × Json) → Prop
  | plain {members : List (String × Json)} (h : Plain members) : Spelled (.obj members) members
  | variant {members inner : List (String × Json)} {shape : Json}
      (hvariant : Variant members shape) (h : Spelled shape inner) : Spelled (.obj members) inner

/-- What a schema is to the shape in which it stands. -/
inductive Role where
  | aside
  | property (key : String)
  | part

def nestedItems (members : List (String × Json)) : List (Role × Json) :=
  if Entries.has members "items" then [(.aside, Json.field members "items")] else []

def nestedAdditional (members : List (String × Json)) : List (Role × Json) :=
  match Json.field members "additionalProperties" with
  | .obj shape => [(.aside, .obj shape)]
  | _ => []

def nestedProperties (members : List (String × Json)) : List (Role × Json) :=
  ((Json.fields (Json.field members "properties")).toOption.getD []).map fun property =>
    (.property property.1, property.2)

def nestedParts (members : List (String × Json)) : List (Role × Json) :=
  ((Json.listed (Json.field members "allOf")).toOption.getD []).map fun part => (.part, part)

/-- The schemas that stand in a shape, in the order in which they are read. -/
def nested (members : List (String × Json)) : List (Role × Json) :=
  nestedItems members ++ nestedAdditional members ++ nestedProperties members
    ++ nestedParts members

theorem nestedProperties_eq {members properties : List (String × Json)}
    (h : Json.fields (Json.field members "properties") = .ok properties) :
    nestedProperties members =
      properties.map fun property => (.property property.1, property.2) := by
  unfold nestedProperties
  rw [h]
  rfl

theorem nestedParts_eq {members : List (String × Json)} {parts : List Json}
    (h : Json.listed (Json.field members "allOf") = .ok parts) :
    nestedParts members = parts.map fun part => (.part, part) := by
  unfold nestedParts
  rw [h]
  rfl

/-- A schema mentions a definition: it stands for it, or a schema in it mentions it. -/
inductive Mentions : Json → Json → Prop
  | stands {data name : Json} (h : Stands data name) : Mentions data name
  | inner {data name : Json} {members : List (String × Json)} {entry : Role × Json}
      (hdata : Spelled data members) (hentry : entry ∈ nested members)
      (h : Mentions entry.2 name) : Mentions data name

section

variable {members inner : List (String × Json)} {ref other shape name : Json}

theorem Points.unique (h : Points members ref) (h' : Points members other) : ref = other := by
  rcases h with href | ⟨hnone, -, hsole⟩ <;> rcases h' with href' | ⟨hnone', -, hsole'⟩
  · exact Option.some.inj (href.symm.trans href')
  · simp [hnone'] at href
  · simp [hnone] at href'
  · exact Option.some.inj (hsole.symm.trans hsole')

theorem Points.not_union (h : Points members ref) (href : Entries.get? members "$ref" = none)
    (variants : List Json) : variants? members ≠ some variants := by
  intro hvariants
  rcases h with hsome | ⟨-, hnone, -⟩
  · simp [href] at hsome
  · simp [hvariants] at hnone

theorem Points.not_variant (h : Points members ref) : ¬ Variant members shape := by
  rintro ⟨hnone, variants, hvariants, -⟩
  exact h.not_union hnone variants hvariants

theorem Points.not_plain (h : Points members ref) : ¬ Plain members := by
  rintro ⟨hnone, -, hsole⟩
  rcases h with href | ⟨-, -, hsole'⟩
  · simp [hnone] at href
  · simp [hsole] at hsole'

theorem Variant.unique (h : Variant members shape) (h' : Variant members other) :
    shape = other := by
  obtain ⟨-, variants, hvariants, hshape⟩ := h
  obtain ⟨-, variants', hvariants', hother⟩ := h'
  have hsame : variants = variants' := Option.some.inj (hvariants.symm.trans hvariants')
  rw [hsame, hother] at hshape
  exact (List.cons.inj hshape).1.symm

theorem Variant.not_plain (h : Variant members shape) : ¬ Plain members := by
  rintro ⟨-, hnone, -⟩
  obtain ⟨-, variants, hvariants, -⟩ := h
  simp [hnone] at hvariants

theorem Stands.of_points (h : Stands (.obj members) name) (href : Points members ref) :
    ∃ text, ref = .str text ∧ name = .str (Json.refName text) := by
  cases h with
  | points href' => exact ⟨_, href.unique href', rfl⟩
  | variant hvariant _ => exact absurd hvariant href.not_variant

theorem Stands.of_variant (h : Stands (.obj members) name) (hvariant : Variant members shape) :
    Stands shape name := by
  cases h with
  | points href => exact absurd hvariant href.not_variant
  | variant hvariant' h => exact hvariant.unique hvariant' ▸ h

theorem Spelled.of_variant (h : Spelled (.obj members) inner) (hvariant : Variant members shape) :
    Spelled shape inner := by
  cases h with
  | plain hplain => exact absurd hplain hvariant.not_plain
  | variant hvariant' h => exact hvariant.unique hvariant' ▸ h

theorem Stands.unique {data other : Json} (h : Stands data name) (h' : Stands data other) :
    name = other := by
  induction h with
  | points href =>
    obtain ⟨text, htext, rfl⟩ := h'.of_points href
    cases htext
    rfl
  | variant hvariant _ ih => exact ih (h'.of_variant hvariant)

theorem Mentions.variant (h : Mentions shape name) (hvariant : Variant members shape) :
    Mentions (.obj members) name := by
  cases h with
  | stands h => exact .stands (.variant hvariant h)
  | inner hdata hentry h => exact .inner (.variant hvariant hdata) hentry h

theorem Mentions.of_variant (h : Mentions (.obj members) name) (hvariant : Variant members shape) :
    Mentions shape name := by
  cases h with
  | stands h => exact .stands (h.of_variant hvariant)
  | inner hdata hentry h => exact .inner (hdata.of_variant hvariant) hentry h

theorem Plain.not_stands (h : Plain members) : ¬ Stands (.obj members) name := by
  intro hname
  cases hname with
  | points href => exact href.not_plain h
  | variant hvariant _ => exact hvariant.not_plain h

theorem Spelled.not_stands {data : Json} (h : Spelled data members) : ¬ Stands data name := by
  induction h with
  | plain hplain => exact hplain.not_stands
  | variant hvariant _ ih => exact fun hname => ih (hname.of_variant hvariant)

theorem Points.not_spelled (h : Points members ref) : ¬ Spelled (.obj members) inner := by
  intro hinner
  cases hinner with
  | plain hplain => exact h.not_plain hplain
  | variant hvariant _ => exact h.not_variant hvariant

theorem Mentions.of_points (h : Mentions (.obj members) name) (href : Points members ref) :
    ∃ text, ref = .str text ∧ name = .str (Json.refName text) := by
  cases h with
  | stands h => exact h.of_points href
  | inner hdata _ _ => exact absurd hdata href.not_spelled

theorem Plain.eq_of_spelled (h : Plain members) (hinner : Spelled (.obj members) inner) :
    inner = members := by
  cases hinner with
  | plain _ => rfl
  | variant hvariant _ => exact absurd h hvariant.not_plain

theorem Spelled.unique {data : Json} {other : List (String × Json)} (h : Spelled data members)
    (h' : Spelled data other) : members = other := by
  induction h with
  | plain hplain => exact (hplain.eq_of_spelled h').symm
  | variant hvariant _ ih => exact ih (h'.of_variant hvariant)

end

/-! ### Properties and parts -/

/-- Schemas spell out a property, among themselves or in a part that is spelled out. -/
inductive Spells : List (Role × Json) → String → Prop
  | own {schemas : List (Role × Json)} {key : String} {data : Json}
      (h : (.property key, data) ∈ schemas) (hgiven : data ≠ .null) : Spells schemas key
  | part {schemas : List (Role × Json)} {part : Json} {members : List (String × Json)}
      {key : String} (h : (.part, part) ∈ schemas) (hpart : Spelled part members)
      (hkey : Spells (nested members) key) : Spells schemas key

/-- Schemas include a definition as a part, among themselves or in a part that is spelled out. -/
inductive Includes : List (Role × Json) → Json → Prop
  | part {schemas : List (Role × Json)} {part name : Json} (h : (.part, part) ∈ schemas)
      (hname : Stands part name) : Includes schemas name
  | inner {schemas : List (Role × Json)} {part name : Json} {members : List (String × Json)}
      (h : (.part, part) ∈ schemas) (hpart : Spelled part members)
      (hname : Includes (nested members) name) : Includes schemas name

section

variable {schemas more : List (Role × Json)} {role : Role} {data name : Json} {key : String}

theorem Spells.mono (h : Spells schemas key) (hmore : schemas ⊆ more) : Spells more key := by
  cases h with
  | own h hgiven => exact .own (hmore h) hgiven
  | part h hpart hkey => exact .part (hmore h) hpart hkey

theorem Includes.mono (h : Includes schemas name) (hmore : schemas ⊆ more) :
    Includes more name := by
  cases h with
  | part h hname => exact .part (hmore h) hname
  | inner h hpart hname => exact .inner (hmore h) hpart hname

theorem spells_append : Spells (schemas ++ more) key ↔ Spells schemas key ∨ Spells more key := by
  constructor
  · intro h
    cases h with
    | own h hgiven => exact (List.mem_append.mp h).imp (.own · hgiven) (.own · hgiven)
    | part h hpart hkey =>
      exact (List.mem_append.mp h).imp (.part · hpart hkey) (.part · hpart hkey)
  · rintro (h | h)
    · exact h.mono (List.subset_append_left _ _)
    · exact h.mono (List.subset_append_right _ _)

theorem includes_append :
    Includes (schemas ++ more) name ↔ Includes schemas name ∨ Includes more name := by
  constructor
  · intro h
    cases h with
    | part h hname => exact (List.mem_append.mp h).imp (.part · hname) (.part · hname)
    | inner h hpart hname =>
      exact (List.mem_append.mp h).imp (.inner · hpart hname) (.inner · hpart hname)
  · rintro (h | h)
    · exact h.mono (List.subset_append_left _ _)
    · exact h.mono (List.subset_append_right _ _)

theorem spells_part : Spells [(.part, data)] key
    ↔ ∃ members, Spelled data members ∧ Spells (nested members) key := by
  constructor
  · intro h
    cases h with
    | own h _ => simp at h
    | part h hpart hkey =>
      simp only [List.mem_singleton, Prod.mk.injEq, true_and] at h
      exact ⟨_, h ▸ hpart, hkey⟩
  · rintro ⟨members, hdata, hkey⟩
    exact .part (List.mem_singleton.mpr rfl) hdata hkey

theorem includes_part : Includes [(.part, data)] name
    ↔ Stands data name ∨ ∃ members, Spelled data members ∧ Includes (nested members) name := by
  constructor
  · intro h
    cases h with
    | part h hname =>
      simp only [List.mem_singleton, Prod.mk.injEq, true_and] at h
      exact Or.inl (h ▸ hname)
    | inner h hpart hname =>
      simp only [List.mem_singleton, Prod.mk.injEq, true_and] at h
      exact Or.inr ⟨_, h ▸ hpart, hname⟩
  · rintro (hname | ⟨members, hdata, hname⟩)
    · exact .part (List.mem_singleton.mpr rfl) hname
    · exact .inner (List.mem_singleton.mpr rfl) hdata hname

/-- What schemas include is mentioned in one of them. -/
theorem Includes.mentions (h : Includes schemas name) :
    ∃ entry ∈ schemas, Mentions entry.2 name := by
  induction h with
  | part h hname => exact ⟨_, h, .stands hname⟩
  | inner h hpart _ ih =>
    obtain ⟨entry, hentry, hname⟩ := ih
    exact ⟨_, h, .inner hpart hentry hname⟩

end

/-! ### Definitions -/

/-- The schemas that are read for a definition: those that stand in its shape, or the definition
itself if it is nothing but a reference. -/
def contents : Json → List (Role × Json)
  | .obj [("$ref", ref)] => [(.aside, .obj [("$ref", ref)])]
  | .obj members => nested members
  | _ => []

theorem contents_shape {members : List (String × Json)} (h : ∀ ref, members ≠ [("$ref", ref)]) :
    contents (.obj members) = nested members := by
  unfold contents
  split
  · rename_i ref hmembers
    cases hmembers
    exact absurd rfl (h ref)
  · rename_i hmembers
    cases hmembers
    rfl
  · rename_i hnot
    exact absurd rfl (hnot members)

section Definitions

variable (defs : List (Json × Json))

/-- A definition that is nothing but a reference. -/
def Alias (name target : Json) : Prop :=
  ∃ ref, Entries.get? defs name = some (.obj [("$ref", .str ref)])
    ∧ target = .str (Json.refName ref)

/-- A definition comes to another one along definitions that are nothing but references. -/
def ComesTo : Json → Json → Prop := Relation.ReflTransGen (Alias defs)

/-- A definition comes to another one that is more than a reference. -/
def EndsIn (name last : Json) : Prop := ComesTo defs name last ∧ ∀ other, ¬ Alias defs last other

/-- A definition refers to another one, in whatever place. -/
def Refers (name target : Json) : Prop :=
  ∃ data, Entries.get? defs name = some data ∧ ∃ entry ∈ contents data, Mentions entry.2 target

/-- All references in definitions name definitions. -/
def RefsDefined : Prop := ∀ name target, Refers defs name target → Entries.has defs target = true

/-- A definition has another one as a part. -/
def PartOf (part name : Json) : Prop :=
  ∃ data, Entries.get? defs name = some data ∧ Includes (contents data) part

variable {defs} {name target other last : Json}

theorem Alias.unique (h : Alias defs name target) (h' : Alias defs name other) :
    target = other := by
  obtain ⟨ref, hdef, rfl⟩ := h
  obtain ⟨ref', hdef', rfl⟩ := h'
  rw [hdef] at hdef'
  cases hdef'
  rfl

theorem ComesTo.eq_of_not_alias (h : ComesTo defs name target)
    (hname : ∀ other, ¬ Alias defs name other) : name = target := by
  rcases Relation.ReflTransGen.cases_head h with hsame | ⟨other, halias, -⟩
  · exact hsame
  · exact absurd halias (hname other)

theorem PartOf.refers (h : PartOf defs target name) : Refers defs name target := by
  obtain ⟨data, hdef, hpart⟩ := h
  exact ⟨data, hdef, hpart.mentions⟩

end Definitions

/-- A shape that includes a definition says that it has parts. -/
theorem Includes.has_allOf {members : List (String × Json)} {name : Json}
    (h : Includes (nested members) name) : Entries.has members "allOf" = true := by
  have hparts : ∀ {part : Json}, (.part, part) ∈ nested members →
      Entries.has members "allOf" = true := by
    intro part hpart
    have hmem : (.part, part) ∈ nestedParts members := by
      simp only [nested, List.mem_append, nestedItems, nestedAdditional, nestedProperties,
        List.mem_map] at hpart
      rcases hpart with ((hitems | hadditional) | ⟨_, -, hproperty⟩) | hpart
      · split at hitems <;> simp at hitems
      · split at hadditional <;> simp at hadditional
      · simp at hproperty
      · exact hpart
    cases hget : Entries.get? members "allOf" with
    | none =>
      have hnone : nestedParts members = [] := by
        unfold nestedParts Json.field
        rw [hget]
        rfl
      simp [hnone] at hmem
    | some value => exact Entries.has_iff_get?.mpr ⟨value, hget⟩
  cases h with
  | part hpart _ => exact hparts hpart
  | inner hpart _ _ => exact hparts hpart

/-! ### A part that refers back -/

/-- A reference to a definition. -/
def pointer (name : String) : Json := .obj [("$ref", .str ("#/components/schemas/" ++ name))]

/-- A shape with a property that is of a shape derived from it. -/
def baseShape : List (String × Json) := [("properties", .obj [("child", pointer "Derived")])]

def derivedShape : List (String × Json) := [("allOf", .arr [pointer "Base"])]

def baseFirst : List (String × Json) := [("Base", .obj baseShape), ("Derived", .obj derivedShape)]

def derivedFirst : List (String × Json) :=
  [("Derived", .obj derivedShape), ("Base", .obj baseShape)]

/-- Schemas under their names. -/
def keyed (schemas : List (String × Json)) : List (Json × Json) :=
  schemas.map fun (name, data) => (.str name, data)

/-- A document of nothing but definitions. -/
def documentOf (schemas : List (String × Json)) : Json :=
  .obj [("openapi", .str "3.0.0"), ("info", .obj [("title", .str "t"), ("version", .str "1")]),
    ("paths", .obj []), ("components", .obj [("schemas", .obj schemas)])]

/-- The definitions are those of a base and of a shape derived from it. -/
def Circle (defs : List (Json × Json)) : Prop :=
  ∀ name data, Entries.get? defs name = some data →
    name = .str "Base" ∧ data = .obj baseShape ∨ name = .str "Derived" ∧ data = .obj derivedShape

section

variable {defs : List (Json × Json)} {name target part child : Json}

theorem circle_baseFirst : Circle (keyed baseFirst) := by
  intro name data h
  simpa [keyed, baseFirst] using Entries.mem_of_get? h

theorem circle_derivedFirst : Circle (keyed derivedFirst) := by
  intro name data h
  simpa [keyed, derivedFirst, or_comm] using Entries.mem_of_get? h

theorem contents_baseShape :
    contents (.obj baseShape) = [(.property "child", pointer "Derived")] := rfl

theorem contents_derivedShape : contents (.obj derivedShape) = [(.part, pointer "Base")] := rfl

theorem Circle.not_alias (h : Circle defs) : ¬ Alias defs name target := by
  rintro ⟨ref, hdef, -⟩
  rcases h _ _ hdef with ⟨-, hshape⟩ | ⟨-, hshape⟩
  · simp [baseShape] at hshape
  · simp [derivedShape] at hshape

theorem Circle.refers (h : Circle defs) (hrefers : Refers defs name target) :
    name = .str "Base" ∧ target = .str "Derived"
      ∨ name = .str "Derived" ∧ target = .str "Base" := by
  have hpointer : ∀ {text : String}, Mentions (pointer text) target →
      target = .str (Json.refName ("#/components/schemas/" ++ text)) := by
    intro text htarget
    obtain ⟨ref, href, rfl⟩ := htarget.of_points (Or.inl rfl)
    cases href
    rfl
  obtain ⟨data, hdef, entry, hentry, hmentions⟩ := hrefers
  rcases h _ _ hdef with ⟨rfl, rfl⟩ | ⟨rfl, rfl⟩
  · rw [contents_baseShape, List.mem_singleton] at hentry
    subst hentry
    exact Or.inl ⟨rfl, (hpointer hmentions).trans (by decide +kernel)⟩
  · rw [contents_derivedShape, List.mem_singleton] at hentry
    subst hentry
    exact Or.inr ⟨rfl, (hpointer hmentions).trans (by decide +kernel)⟩

theorem Circle.partOf (h : Circle defs) (hpart : PartOf defs part name) :
    part = .str "Base" ∧ name = .str "Derived" := by
  rcases h.refers hpart.refers with ⟨rfl, -⟩ | ⟨rfl, rfl⟩
  · obtain ⟨data, hdef, hincludes⟩ := hpart
    rcases h _ _ hdef with ⟨-, rfl⟩ | ⟨hname, -⟩
    · cases hincludes.has_allOf
    · simp at hname
  · exact ⟨rfl, rfl⟩

theorem Circle.acyclic (h : Circle defs) : ¬ Relation.TransGen (PartOf defs) name name := by
  intro hcycle
  obtain ⟨first, hfirst, -⟩ := Relation.TransGen.head'_iff.mp hcycle
  obtain ⟨last, -, hlast⟩ := Relation.TransGen.tail'_iff.mp hcycle
  have hbase := (h.partOf hfirst).1
  have hderived := (h.partOf hlast).2
  simp [hbase] at hderived

end

end ApiClients.Reading
