import ApiClients.Proofs.Counts

/-!
# What stands in schemas

The references and the shapes that stand in a schema, however deep, can be listed (`mem_items`).  So
it can be decided whether all references in a schema name definitions, and whether all shapes in it
are of some kind.
-/

namespace ApiClients.Reading

/-! ### References and shapes in schemas -/

/-- What may stand in a schema: a reference, or a shape that is spelled out. -/
inductive Item where
  | reference (ref : Json)
  | shape (members : List (String × Json))

/-- A reference or a shape stands in a schema. -/
inductive Holds : Json → Item → Prop
  | reference {members : List (String × Json)} {ref : Json} (h : Points members ref) :
      Holds (.obj members) (.reference ref)
  | shape {members : List (String × Json)} (h : Plain members) : Holds (.obj members) (.shape members)
  | variant {members : List (String × Json)} {inner : Json} {item : Item}
      (hvariant : Variant members inner) (h : Holds inner item) : Holds (.obj members) item
  | nested {members : List (String × Json)} {entry : Role × Json} {item : Item}
      (hplain : Plain members) (hentry : entry ∈ nested members) (h : Holds entry.2 item) :
      Holds (.obj members) item

/-- What stands in a schema of some depth. -/
def items : Nat → Json → List Item
  | depth + 1, .obj members =>
    match Entries.get? members "$ref" with
    | some ref => [.reference ref]
    | none =>
      match variants? members with
      | some variants =>
        match variants.filter (! isNullVariant ·) with
        | [shape] => items depth shape
        | _ => []
      | none =>
        match soleReference? members with
        | some ref => [.reference ref]
        | none => .shape members :: (nested members).flatMap fun entry => items depth entry.2
  | _, _ => []

section

variable {members : List (String × Json)} {ref data name : Json} {item : Item} {depth : Nat}

theorem holds_points (h : Points members ref) : Holds (.obj members) item ↔ item = .reference ref := by
  constructor
  · intro hitem
    cases hitem with
    | reference h' => rw [h.unique h']
    | shape hplain => exact absurd hplain h.not_plain
    | variant hvariant _ => exact absurd hvariant h.not_variant
    | nested hplain _ _ => exact absurd hplain h.not_plain
  · rintro rfl
    exact .reference h

theorem holds_variant {inner : Json} (h : Variant members inner) :
    Holds (.obj members) item ↔ Holds inner item := by
  constructor
  · intro hitem
    cases hitem with
    | reference hpoints => exact absurd h hpoints.not_variant
    | shape hplain => exact absurd hplain h.not_plain
    | variant h' hinner => exact h.unique h' ▸ hinner
    | nested hplain _ _ => exact absurd hplain h.not_plain
  · exact .variant h

/-- Nothing stands in a union of several shapes. -/
theorem not_holds_several {variants : List Json} (href : Entries.get? members "$ref" = none)
    (hvariants : variants? members = some variants)
    (hseveral : ∀ shape, variants.filter (! isNullVariant ·) ≠ [shape]) :
    ¬ Holds (.obj members) item := by
  have hplain : ¬ Plain members := fun hplain => by
    have hnone := hplain.2.1
    rw [hvariants] at hnone
    cases hnone
  intro hitem
  cases hitem with
  | reference hpoints =>
    rcases hpoints with hsome | ⟨-, hnone, -⟩
    · rw [href] at hsome
      cases hsome
    · rw [hvariants] at hnone
      cases hnone
  | shape h => exact hplain h
  | variant h _ =>
    obtain ⟨-, variants', hvariants', hshape⟩ := h
    cases hvariants.symm.trans hvariants'
    exact hseveral _ hshape
  | nested h _ _ => exact hplain h

theorem holds_plain (h : Plain members) : Holds (.obj members) item ↔
    item = .shape members ∨ ∃ entry ∈ nested members, Holds entry.2 item := by
  constructor
  · intro hitem
    cases hitem with
    | reference hpoints => exact absurd h hpoints.not_plain
    | shape _ => exact Or.inl rfl
    | variant hvariant _ => exact absurd h hvariant.not_plain
    | nested _ hentry hinner => exact Or.inr ⟨_, hentry, hinner⟩
  · rintro (rfl | ⟨entry, hentry, hinner⟩)
    · exact .shape h
    · exact .nested h hentry hinner

theorem not_holds (h : ∀ members, data ≠ .obj members) : ¬ Holds data item := by
  intro hitem
  cases hitem <;> exact h _ rfl

/-- A depth of the size of a schema is enough to list what stands in it. -/
theorem mem_items (hdepth : data.count ≤ depth) : item ∈ items depth data ↔ Holds data item := by
  induction depth generalizing data with
  | zero => exact absurd (Json.count_pos data) (Nat.not_lt_of_le hdepth)
  | succ depth ih =>
    cases data with
    | obj members =>
      unfold items
      cases href : Entries.get? members "$ref" with
      | some ref => rw [holds_points (Or.inl href), List.mem_singleton]
      | none =>
        cases hvariants : variants? members with
        | some variants =>
          dsimp only
          split
          · rename_i shape hshape
            have hvariant : Variant members shape := ⟨href, variants, hvariants, hshape⟩
            rw [holds_variant hvariant, ih (by have := count_variant hvariant; omega)]
          · rename_i hseveral
            exact iff_of_false List.not_mem_nil (not_holds_several href hvariants hseveral)
        | none =>
          cases hsole : soleReference? members with
          | some ref => rw [holds_points (Or.inr ⟨href, hvariants, hsole⟩), List.mem_singleton]
          | none =>
            rw [holds_plain ⟨href, hvariants, hsole⟩, List.mem_cons, List.mem_flatMap]
            refine or_congr_right (exists_congr fun entry => and_congr_right fun hentry => ?_)
            exact ih (by have := count_nested hentry; omega)
    | _ =>
      refine iff_of_false ?_ (not_holds fun members h => by cases h)
      unfold items
      exact List.not_mem_nil

/-- A schema mentions the definitions that the references in it end in the names of. -/
theorem mentions_iff : Mentions data name ↔
    ∃ ref, Holds data (.reference (.str ref)) ∧ name = .str (Json.refName ref) := by
  constructor
  · intro h
    induction h with
    | stands h =>
      induction h with
      | points href => exact ⟨_, .reference href, rfl⟩
      | variant hvariant _ ih =>
        obtain ⟨ref, href, rfl⟩ := ih
        exact ⟨ref, .variant hvariant href, rfl⟩
    | inner hdata hentry _ ih =>
      obtain ⟨ref, href, rfl⟩ := ih
      refine ⟨ref, ?_, rfl⟩
      induction hdata with
      | plain hplain => exact .nested hplain hentry href
      | variant hvariant _ ih => exact .variant hvariant (ih hentry)
  · rintro ⟨ref, h, rfl⟩
    generalize hitem : Item.reference (.str ref) = item at h
    induction h with
    | reference href =>
      cases hitem
      exact .stands (.points href)
    | shape => cases hitem
    | variant hvariant _ ih => exact (ih hitem).variant hvariant
    | nested hplain hentry _ ih => exact .inner (.plain hplain) hentry (ih hitem)

end

/-! ### References that name definitions -/

section

variable (defs : List (Json × Json))

/-- All references in a schema name definitions. -/
def NamesOnly (data : Json) : Prop :=
  ∀ target, Mentions data target → Entries.has defs target = true

/-- Whether a reference is one that names a definition; shapes do not count. -/
def Item.isNamed : Item → Bool
  | .reference (.str ref) => Entries.has defs (.str (Json.refName ref))
  | _ => true

theorem namesOnly_iff {data : Json} :
    NamesOnly defs data ↔ ∀ item ∈ items data.count data, item.isNamed defs = true := by
  simp only [NamesOnly, mentions_iff, mem_items (Nat.le_refl _)]
  constructor
  · intro h item hitem
    unfold Item.isNamed
    split
    · exact h _ ⟨_, hitem, rfl⟩
    · rfl
  · rintro h _ ⟨ref, href, rfl⟩
    exact h _ href

instance (data : Json) : Decidable (NamesOnly defs data) := decidable_of_iff _ (namesOnly_iff defs).symm

theorem refsDefined_of_namesOnly
    (h : ∀ entry ∈ defs, ∀ inner ∈ contents entry.2, NamesOnly defs inner.2) : RefsDefined defs := by
  rintro name target ⟨data, hdata, inner, hinner, htarget⟩
  exact h _ (Entries.mem_of_get? hdata) inner hinner target htarget

theorem namesOnly_null : NamesOnly defs .null := by
  intro target htarget
  obtain ⟨ref, href, -⟩ := mentions_iff.mp htarget
  cases href

end

namespace NamesOnly

variable {defs : List (Json × Json)} {members : List (String × Json)}
  (h : NamesOnly defs (.obj members))

include h

theorem points {ref : String} (href : Points members (.str ref)) :
    Entries.has defs (.str (Json.refName ref)) = true :=
  h _ (.stands (.points href))

theorem variant {inner : Json} (hvariant : Variant members inner) : NamesOnly defs inner :=
  fun target htarget => h target (htarget.variant hvariant)

theorem nested (hplain : Plain members) {entry : Role × Json}
    (hentry : entry ∈ Reading.nested members) : NamesOnly defs entry.2 :=
  fun target htarget => h target (.inner (.plain hplain) hentry htarget)

end NamesOnly

end ApiClients.Reading
