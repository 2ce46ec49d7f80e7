import ApiClients.Proofs.Composition
import Mathlib.Data.List.Nodup

/-!
# What definitions get of their parts

Definitions are met in an order, and a definition is read when it is met: what it refers to is met
after it, unless it has been met before.  A part is taken as far as it has been read by then.  If
references lead from the part to the definition, each definition on the way being met after the one
before, then that is what stands in the part ahead of the schema that leads there; otherwise it is
everything.  This file says so of the document and the order alone (`Gets`).
-/

namespace ApiClients.Reading

/-! ### Orders -/

/-- A name stands before another one in an order. -/
def Before (order : List Json) (name other : Json) : Prop := [name, other].Sublist order

instance (order : List Json) (name other : Json) : Decidable (Before order name other) :=
  inferInstanceAs (Decidable ([name, other].Sublist order))

section

variable {order : List Json} {name other last : Json}

theorem Before.trans (horder : order.Nodup) (h : Before order name other)
    (h' : Before order other last) : Before order name last := by
  induction order with
  | nil => simp [Before] at h
  | cons first rest ih =>
    obtain ⟨hfirst, hrest⟩ := List.nodup_cons.mp horder
    rcases List.sublist_cons_iff.mp h with hahead | ⟨tail, heq, h⟩
    · rcases List.sublist_cons_iff.mp h' with h' | ⟨tail', heq', -⟩
      · exact (ih hrest hahead h').cons first
      · cases heq'
        exact absurd (hahead.subset (List.mem_cons_of_mem name List.mem_cons_self)) hfirst
    · cases heq
      rcases List.sublist_cons_iff.mp h' with h' | ⟨tail', heq', -⟩
      · have hlast : last ∈ rest := h'.subset (List.mem_cons_of_mem other List.mem_cons_self)
        exact (List.singleton_sublist.mpr hlast).cons_cons name
      · cases heq'
        exact absurd (h.subset List.mem_cons_self) hfirst

theorem Before.irrefl (horder : order.Nodup) : ¬ Before order name name :=
  List.nodup_iff_sublist.mp horder name

theorem before_append {more : List Json} (hname : name ∈ order) (hother : other ∈ more) :
    Before (order ++ more) name other :=
  (List.singleton_sublist.mpr hname).append (List.singleton_sublist.mpr hother)

end

/-! ### Definitions that lead to others -/

section

variable (defs : List (Json × Json)) (order : List Json)

/-- A definition refers to another one and stands before it in an order. -/
def RefersAhead (name target : Json) : Prop := Refers defs name target ∧ Before order name target

/-- A way from a definition to another one along references that all go ahead in an order. -/
def LeadsTo : Json → Json → Prop := Relation.ReflTransGen (RefersAhead defs order)

/-- A schema in a definition leads ahead to another definition. -/
def LeadsOn (name schema target : Json) : Prop :=
  ∃ next, Mentions schema next ∧ Before order name next ∧ LeadsTo defs order next target

/-- A part of a definition comes to a definition from which references lead back ahead. -/
def Circular (name part : Json) : Prop :=
  ∃ link, ComesTo defs part link ∧ LeadsTo defs order link name

variable {defs order} {name target other : Json}

theorem LeadsTo.before (h : LeadsTo defs order name target) (horder : order.Nodup) :
    name = target ∨ Before order name target := by
  induction h with
  | refl => exact Or.inl rfl
  | tail _ hlast ih =>
    right
    rcases ih with rfl | hbefore
    · exact hlast.2
    · exact hbefore.trans horder hlast.2

theorem LeadsTo.step (h : LeadsTo defs order name target) (hother : Refers defs target other)
    (horder : Before order target other) : LeadsTo defs order name other :=
  Relation.ReflTransGen.tail h ⟨hother, horder⟩

theorem LeadsOn.step {schema : Json} (h : LeadsOn defs order name schema target)
    (hother : Refers defs target other) (horder : Before order target other) :
    LeadsOn defs order name schema other := by
  obtain ⟨next, hnext, hbefore, hleads⟩ := h
  exact ⟨next, hnext, hbefore, hleads.step hother horder⟩

end

/-! ### What definitions get -/

section

variable (defs : List (Json × Json)) (order : List Json)

/-- Some of the schemas in a definition have been gone through at a moment: when another definition
is met, or in the end. -/
def Passed (name data : Json) (moment : Option Json) (done : List (Role × Json)) : Prop :=
  done <+: contents data
    ∧ ∀ target ∈ moment, ∀ entry ∈ done, ¬ LeadsOn defs order name entry.2 target

/-- The moment at which a definition is taken by another one. -/
inductive Taking (name last : Json) : Option Json → Prop
  | whole (h : ¬ LeadsTo defs order last name) : Taking name last none
  | early (h : LeadsTo defs order last name) (hother : last ≠ name) :
      Taking name last (some name)

/-- The properties that a definition has at a moment: those that it spells out, and those that its
parts have when they are taken.  A part is taken whole unless it leads back to the definition; then
it has what it had when the definition was met.  A part that comes to a definition of which nothing
but a reference is known, and that leads back, gives nothing. -/
inductive Gets : Json → Option Json → String → Prop
  | spelled {name data : Json} {moment : Option Json} {done : List (Role × Json)} {key : String}
      (hdef : Entries.get? defs name = some data)
      (hdone : Passed defs order name data moment done) (h : Spells done key) :
      Gets name moment key
  | taken {name data part last : Json} {moment taking : Option Json}
      {done : List (Role × Json)} {key : String}
      (hdef : Entries.get? defs name = some data)
      (hdone : Passed defs order name data moment done) (hpart : Includes done part)
      (hlast : EndsIn defs part last)
      (hlinks : ∀ link, ComesTo defs part link → LeadsTo defs order link name → link = last)
      (htaking : Taking defs order name last taking) (h : Gets last taking key) :
      Gets name moment key

/-- A definition takes a property from a part. -/
def Takes (name part : Json) (key : String) : Prop :=
  ∃ last taking, EndsIn defs part last
    ∧ (∀ link, ComesTo defs part link → LeadsTo defs order link name → link = last)
    ∧ Taking defs order name last taking ∧ Gets defs order last taking key

/-- Some schemas in a definition give it a property. -/
def Gives (name : Json) (done : List (Role × Json)) (key : String) : Prop :=
  Spells done key ∨ ∃ part, Includes done part ∧ Takes defs order name part key

variable {defs order} {name data part : Json} {moment : Option Json} {key : String}
  {done more : List (Role × Json)}

theorem gets_iff : Gets defs order name moment key ↔
    ∃ data done, Entries.get? defs name = some data ∧ Passed defs order name data moment done
      ∧ Gives defs order name done key := by
  constructor
  · intro h
    cases h with
    | spelled hdef hdone h => exact ⟨_, _, hdef, hdone, Or.inl h⟩
    | taken hdef hdone hpart hlast hlinks htaking h =>
      exact ⟨_, _, hdef, hdone, Or.inr ⟨_, hpart, _, _, hlast, hlinks, htaking, h⟩⟩
  · rintro ⟨data, done, hdef, hdone, h | ⟨part, hpart, last, taking, hlast, hlinks, htaking, h⟩⟩
    · exact .spelled hdef hdone h
    · exact .taken hdef hdone hpart hlast hlinks htaking h

theorem Gives.mono (h : Gives defs order name done key) (hmore : done ⊆ more) :
    Gives defs order name more key := by
  rcases h with h | ⟨part, hpart, h⟩
  · exact Or.inl (h.mono hmore)
  · exact Or.inr ⟨part, hpart.mono hmore, h⟩

theorem gives_append : Gives defs order name (done ++ more) key
    ↔ Gives defs order name done key ∨ Gives defs order name more key := by
  constructor
  · rintro (h | ⟨part, hpart, h⟩)
    · exact (spells_append.mp h).imp Or.inl Or.inl
    · exact (includes_append.mp hpart).imp (fun hpart => Or.inr ⟨part, hpart, h⟩)
        fun hpart => Or.inr ⟨part, hpart, h⟩
  · rintro (h | h)
    · exact h.mono (List.subset_append_left _ _)
    · exact h.mono (List.subset_append_right _ _)

/-- In the end a definition has what all of its schemas give. -/
theorem gets_end (hdef : Entries.get? defs name = some data) :
    Gets defs order name none key ↔ Gives defs order name (contents data) key := by
  rw [gets_iff]
  constructor
  · rintro ⟨data', done, hdef', hdone, h⟩
    rw [hdef] at hdef'
    cases hdef'
    exact h.mono hdone.1.subset
  · intro h
    exact ⟨data, contents data, hdef, ⟨List.prefix_rfl, by simp⟩, h⟩

theorem not_gives_nil : ¬ Gives defs order name [] key := by
  rintro (h | ⟨part, hpart, -⟩)
  · cases h <;> simp_all
  · cases hpart <;> simp_all

theorem not_gives_aside : ¬ Gives defs order name [(.aside, data)] key := by
  rintro (h | ⟨part, hpart, -⟩)
  · cases h <;> simp_all
  · cases hpart <;> simp_all

theorem Gets.not_alias {other : Json} (h : Gets defs order name moment key) :
    ¬ Alias defs name other := by
  rintro ⟨ref, hdef, -⟩
  obtain ⟨data, done, hdef', hdone, h⟩ := gets_iff.mp h
  rw [hdef] at hdef'
  cases hdef'
  exact not_gives_aside (h.mono hdone.1.subset)

theorem gives_property {other : String} : Gives defs order name [(.property key, data)] other
    ↔ other = key ∧ data ≠ .null := by
  constructor
  · rintro (h | ⟨part, hpart, -⟩)
    · cases h <;> simp_all
    · cases hpart <;> simp_all
  · rintro ⟨rfl, hgiven⟩
    exact Or.inl (.own (List.mem_singleton.mpr rfl) hgiven)

/-! ### What a part gives -/

theorem gives_part_of_stands (h : Stands data part) :
    Gives defs order name [(.part, data)] key ↔ Takes defs order name part key := by
  constructor
  · rintro (hspells | ⟨other, hincludes, htakes⟩)
    · obtain ⟨members, hdata, -⟩ := spells_part.mp hspells
      exact absurd h hdata.not_stands
    · rcases includes_part.mp hincludes with hother | ⟨members, hdata, -⟩
      · exact h.unique hother ▸ htakes
      · exact absurd h hdata.not_stands
  · intro htakes
    exact Or.inr ⟨part, includes_part.mpr (Or.inl h), htakes⟩

theorem gives_part_of_spelled {members : List (String × Json)} (h : Spelled data members) :
    Gives defs order name [(.part, data)] key ↔ Gives defs order name (nested members) key := by
  constructor
  · rintro (hspells | ⟨other, hincludes, htakes⟩)
    · obtain ⟨inner, hinner, hspells⟩ := spells_part.mp hspells
      exact Or.inl (h.unique hinner ▸ hspells)
    · rcases includes_part.mp hincludes with hother | ⟨inner, hinner, hincludes⟩
      · exact absurd hother h.not_stands
      · exact Or.inr ⟨other, h.unique hinner ▸ hincludes, htakes⟩
  · rintro (hspells | ⟨other, hincludes, htakes⟩)
    · exact Or.inl (spells_part.mpr ⟨members, h, hspells⟩)
    · exact Or.inr ⟨other, includes_part.mpr (Or.inr ⟨members, h, hincludes⟩), htakes⟩

theorem not_gives_part (hstands : ∀ other, ¬ Stands data other)
    (hspelled : ∀ members, ¬ Spelled data members) :
    ¬ Gives defs order name [(.part, data)] key := by
  rintro (hspells | ⟨other, hincludes, -⟩)
  · obtain ⟨members, hdata, -⟩ := spells_part.mp hspells
    exact hspelled members hdata
  · rcases includes_part.mp hincludes with hother | ⟨members, hdata, -⟩
    · exact hstands other hother
    · exact hspelled members hdata

/-- A union that comes to one shape gives what the shape gives. -/
theorem gives_part_of_variant {members : List (String × Json)} {shape : Json}
    (h : Variant members shape) : Gives defs order name [(.part, .obj members)] key
      ↔ Gives defs order name [(.part, shape)] key := by
  by_cases hstands : ∃ other, Stands shape other
  · obtain ⟨other, hother⟩ := hstands
    rw [gives_part_of_stands hother, gives_part_of_stands (.variant h hother)]
  · by_cases hspelled : ∃ inner, Spelled shape inner
    · obtain ⟨inner, hinner⟩ := hspelled
      rw [gives_part_of_spelled hinner, gives_part_of_spelled (.variant h hinner)]
    · constructor
      · intro hgives
        refine absurd hgives (not_gives_part ?_ ?_)
        · exact fun other hother => hstands ⟨other, hother.of_variant h⟩
        · exact fun inner hinner => hspelled ⟨inner, hinner.of_variant h⟩
      · intro hgives
        refine absurd hgives (not_gives_part ?_ ?_)
        · exact fun other hother => hstands ⟨other, hother⟩
        · exact fun inner hinner => hspelled ⟨inner, hinner⟩

end

end ApiClients.Reading
