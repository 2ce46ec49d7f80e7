import ApiClients.Files
import Mathlib.Data.List.Induction

/-!
# Emptied folders

A folder is emptied along a path that leads to it, and the path may go through the folder itself:
`out/a/..` is the folder `out` as long as `out` has a folder `a`.  Emptying it then makes `a` again,
and nothing else.  So the tree after that is a part of the tree before it, differs from it inside
the folder only, and has no file there (`hollowed_of_clearAt`).  A path that still leads to the
folder when the folder holds nothing leaves it empty (`clearAt_of_lasting`); every path without
steps upwards does (`lasting_of_descending`).
-/

namespace ApiClients

namespace Tree

/-! ### Places below places -/

@[simp] theorem at?_nil (tree : Tree) : tree.at? [] = some tree := rfl

@[simp] theorem at?_below_file (content : ByteArray) (name : String) (rest : Place) :
    (file content).at? (name :: rest) = none := rfl

@[simp] theorem at?_below_empty (name : String) (rest : Place) :
    (folder []).at? (name :: rest) = none := rfl

theorem at?_cons (tree : Tree) (name : String) (rest : Place) :
    tree.at? (name :: rest) = (Entries.get? tree.entries name).bind fun child => child.at? rest := by
  rw [at?]
  cases Entries.get? tree.entries name <;> rfl

theorem at?_append (tree : Tree) (place rest : Place) :
    tree.at? (place ++ rest) = (tree.at? place).bind fun below => below.at? rest := by
  induction place generalizing tree with
  | nil => rfl
  | cons name place ih =>
    rw [List.cons_append, at?_cons, at?_cons]
    cases Entries.get? tree.entries name with
    | none => rfl
    | some child => exact ih child

/-- What is put below a place where a tree was put is put into that tree. -/
theorem put_append (new inner : Tree) (place rest : Place) (tree : Tree) :
    put new (place ++ rest) (put inner place tree) = put (put new rest inner) place tree := by
  induction place generalizing tree with
  | nil => rfl
  | cons name place ih =>
    simp only [List.cons_append, put, entries, Entries.get?_put, Option.getD_some, ih,
      Entries.put_put]

theorem at?_put_append (new : Tree) (place rest : Place) (tree : Tree) :
    (put new place tree).at? (place ++ rest) = new.at? rest := by
  rw [at?_append, at?_put]
  rfl

/-- A file that is there after something was put at a place is in that, or was there before. -/
theorem file_of_put {new : Tree} {place other : Place} {tree : Tree} {content : ByteArray}
    (h : (put new place tree).at? other = some (.file content)) :
    (∃ rest, other = place ++ rest ∧ new.at? rest = some (.file content))
      ∨ tree.at? other = some (.file content) := by
  induction place generalizing tree other with
  | nil => exact .inl ⟨other, rfl, h⟩
  | cons name place ih =>
    cases other with
    | nil => simp [put] at h
    | cons first rest =>
      rw [put, at?_cons, entries] at h
      rw [at?_cons]
      by_cases same : first = name
      · subst same
        rw [Entries.get?_put, Option.bind_some] at h
        rcases ih h with ⟨below, rfl, hbelow⟩ | hchild
        · exact .inl ⟨below, rfl, hbelow⟩
        · right
          cases found : Entries.get? tree.entries first with
          | none =>
            rw [found] at hchild
            cases rest <;> simp at hchild
          | some child => simpa [found] using hchild
      · rw [Entries.get?_put_of_ne same] at h
        exact .inr h

theorem file_of_put_empty {place other : Place} {tree : Tree} {content : ByteArray}
    (h : (put (.folder []) place tree).at? other = some (.file content)) :
    tree.at? other = some (.file content) := by
  rcases file_of_put h with ⟨rest, -, hrest⟩ | hbefore
  · cases rest <;> simp at hrest
  · exact hbefore

/-- A folder that is there after an empty folder was put somewhere was there before, or is on the
way to that place. -/
theorem folder_of_put_empty {place other : Place} {tree : Tree} {entries : List (String × Tree)}
    (h : (put (.folder []) place tree).at? other = some (.folder entries)) :
    (∃ former, tree.at? other = some (.folder former)) ∨ other <+: place := by
  induction place generalizing tree other entries with
  | nil =>
    cases other with
    | nil => exact .inr List.nil_prefix
    | cons name rest => simp [put] at h
  | cons name place ih =>
    cases other with
    | nil => exact .inr List.nil_prefix
    | cons first rest =>
      rw [put, at?_cons, Tree.entries] at h
      rw [at?_cons]
      by_cases same : first = name
      · subst same
        rw [Entries.get?_put, Option.bind_some] at h
        rcases ih h with ⟨former, hformer⟩ | hway
        · cases found : Entries.get? tree.entries first with
          | none =>
            rw [found, Option.getD_none] at hformer
            cases rest with
            | nil => exact .inr (by simp)
            | cons second rest => simp at hformer
          | some child => exact .inl ⟨former, by simpa [found] using hformer⟩
        · exact .inr (List.cons_prefix_cons.mpr ⟨rfl, hway⟩)
      · rw [Entries.get?_put_of_ne same] at h
        exact .inl ⟨entries, h⟩

/-- Only folders stand on the way to something. -/
theorem folder_of_isPrefix {place other : Place} {tree : Tree} {entries : List (String × Tree)}
    (h : tree.at? place = some (.folder entries)) (hway : other <+: place) :
    ∃ more, tree.at? other = some (.folder more) := by
  obtain ⟨rest, rfl⟩ := hway
  rw [at?_append] at h
  cases found : tree.at? other with
  | none => simp [found] at h
  | some below =>
    cases below with
    | folder more => exact ⟨more, rfl⟩
    | file content => cases rest <;> simp [found] at h

/-- No file stands at a place. -/
def NoFile (tree : Tree) (place : Place) : Prop :=
  ∀ content, tree.at? place ≠ some (.file content)

theorem noFile_of_folder {tree : Tree} {place : Place} {entries : List (String × Tree)}
    (h : tree.at? place = some (.folder entries)) : tree.NoFile place := by
  simp [NoFile, h]

/-- The tree with the folder at a place emptied. -/
def emptied (place : Place) (tree : Tree) : Tree := put (.folder []) place tree

theorem at?_emptied (place : Place) (tree : Tree) :
    (emptied place tree).at? place = some (.folder []) := at?_put _ _ _

/-! ### Parts of trees -/

/-- Whatever stands somewhere in the first tree stands there in the second one, a folder with
perhaps more entries. -/
structure PartOf (small big : Tree) : Prop where
  folders : ∀ {place entries}, small.at? place = some (.folder entries) →
    ∃ more, big.at? place = some (.folder more)
  files : ∀ {place content}, small.at? place = some (.file content) →
    big.at? place = some (.file content)

theorem PartOf.refl (tree : Tree) : PartOf tree tree := ⟨fun h => ⟨_, h⟩, id⟩

theorem PartOf.trans {small middle big : Tree} (h : PartOf small middle) (h' : PartOf middle big) :
    PartOf small big :=
  ⟨fun hplace => (h.folders hplace).elim fun _ hmiddle => h'.folders hmiddle,
   fun hplace => h'.files (h.files hplace)⟩

theorem PartOf.isSome {small big : Tree} (h : PartOf small big) {place : Place}
    (hplace : (small.at? place).isSome) : (big.at? place).isSome := by
  cases found : small.at? place with
  | none => simp [found] at hplace
  | some tree =>
    cases tree with
    | file content => simp [h.files found]
    | folder entries => obtain ⟨more, hmore⟩ := h.folders found; simp [hmore]

theorem partOf_empty (entries : List (String × Tree)) : PartOf (.folder []) (.folder entries) where
  folders {place _} h := by
    cases place with
    | nil => exact ⟨_, rfl⟩
    | cons name rest => simp at h
  files {place _} h := by
    cases place with
    | nil => simp at h
    | cons name rest => simp at h

/-- Only the empty folder is a part of the empty folder. -/
theorem eq_nil_of_partOf {entries : List (String × Tree)} (h : PartOf (.folder entries) (.folder [])) :
    entries = [] := by
  cases entries with
  | nil => rfl
  | cons entry rest =>
    obtain ⟨name, tree⟩ := entry
    have hthere : ((folder ((name, tree) :: rest)).at? [name]).isSome := by
      simp [at?, Tree.entries, Entries.get?]
    have hempty := h.isSome hthere
    simp at hempty

/-- A part put in place of the whole makes a part. -/
theorem PartOf.put {small big : Tree} (h : PartOf small big) (place : Place) (tree : Tree) :
    PartOf (Tree.put small place tree) (Tree.put big place tree) := by
  induction place generalizing tree with
  | nil => exact h
  | cons name place ih =>
    have hchild := ih ((Entries.get? tree.entries name).getD (.folder []))
    constructor
    · intro other entries hother
      cases other with
      | nil => exact ⟨_, rfl⟩
      | cons first rest =>
        rw [Tree.put, at?_cons, Tree.entries] at hother ⊢
        by_cases same : first = name
        · subst same
          rw [Entries.get?_put, Option.bind_some] at hother ⊢
          exact hchild.folders hother
        · rw [Entries.get?_put_of_ne same] at hother ⊢
          exact ⟨entries, hother⟩
    · intro other content hother
      cases other with
      | nil => simp [Tree.put, at?] at hother
      | cons first rest =>
        rw [Tree.put, at?_cons, Tree.entries] at hother ⊢
        by_cases same : first = name
        · subst same
          rw [Entries.get?_put, Option.bind_some] at hother ⊢
          exact hchild.files hother
        · rwa [Entries.get?_put_of_ne same] at hother ⊢

theorem partOf_of_put {new old tree : Tree} {place : Place} (hold : tree.at? place = some old)
    (h : PartOf new old) : PartOf (put new place tree) tree := by
  simpa only [put_at? hold] using h.put place tree

theorem partOf_of_partOf_put {new old tree : Tree} {place : Place} (h : PartOf (put new place tree) tree)
    (hold : tree.at? place = some old) : PartOf new old where
  folders {rest entries} hrest := by
    rw [← at?_put_append new place rest tree] at hrest
    obtain ⟨more, hmore⟩ := h.folders hrest
    exact ⟨more, by simpa [at?_append, hold] using hmore⟩
  files {rest content} hrest := by
    rw [← at?_put_append new place rest tree] at hrest
    simpa [at?_append, hold] using h.files hrest

theorem partOf_emptied {place : Place} {tree : Tree} {former : List (String × Tree)}
    (h : tree.at? place = some (.folder former)) : PartOf (emptied place tree) tree :=
  partOf_of_put h (partOf_empty former)

/-- Where a folder was put in place of a folder, only places inside of it can be lost. -/
theorem isPrefix_of_lost {place other : Place} {tree new : Tree} {former : List (String × Tree)}
    (hplace : tree.at? place = some (.folder former)) (hother : (tree.at? other).isSome)
    (hlost : (put new place tree).at? other = none) : place <+: other := by
  induction place generalizing tree other with
  | nil => exact List.nil_prefix
  | cons name place ih =>
    cases other with
    | nil => simp [put, at?] at hlost
    | cons first rest =>
      rw [at?_cons] at hplace hother
      rw [put, at?_cons, entries] at hlost
      by_cases same : first = name
      · subst same
        rw [Entries.get?_put, Option.bind_some] at hlost
        cases found : Entries.get? tree.entries first with
        | none => simp [found] at hplace
        | some child =>
          simp only [found, Option.bind_some, Option.getD_some] at hplace hother hlost
          exact List.cons_prefix_cons.mpr ⟨rfl, ih hplace hother hlost⟩
      · rw [Entries.get?_put_of_ne same] at hlost
        rw [hlost] at hother
        simp at hother

/-! ### Following a path in a part of a tree -/

theorem follow_append (tree : Tree) (start : Place) (steps : List String) (name : String) :
    tree.follow start (steps ++ [name]) = tree.step (tree.follow start steps) name := by
  simp [follow]

/-- What can be said of where a path leads in a tree from where it leads in a part of it. -/
def Target.Narrows (big : Tree) : Target → Target → Prop
  | .found place, target => target = .found place
  | .vacant place, target =>
    target = .found place ∧ (big.at? place).isSome ∨ target = .vacant place
  | .unreached, _ => True
  | .blocked, _ => False

theorem step_narrows {small big : Tree} (h : PartOf small big) {target wide : Target}
    (htarget : target.Narrows big wide) {name : String}
    (hunblocked : big.step wide name ≠ .blocked) :
    (small.step target name).Narrows big (big.step wide name) := by
  match target with
  | .blocked => exact htarget.elim
  | .unreached => trivial
  | .vacant _ => trivial
  | .found place =>
    cases htarget
    cases hsmall : small.at? place with
    | none =>
      by_cases up : name = ".."
      · -- Upwards from a folder that is gone: it may still be there in the whole tree.
        cases hbig : big.at? place with
        | none => simp [step, hsmall, hbig, up, Target.Narrows]
        | some tree =>
          cases tree with
          | file content => exact absurd (by simp [step, hbig]) hunblocked
          | folder more => simp [step, hsmall, hbig, up, Target.Narrows]
      · simp [step, hsmall, up, Target.Narrows]
    | some tree =>
      cases tree with
      | file content => exact absurd (by simp [step, h.files hsmall]) hunblocked
      | folder entries =>
        obtain ⟨more, hbig⟩ := h.folders hsmall
        by_cases up : name = ".."
        · simp [step, hsmall, hbig, up, Target.Narrows]
        · by_cases there : Entries.has entries name
          · have hhas : Entries.has more name := by
              obtain ⟨child, hchild⟩ := Entries.has_iff_get?.mp there
              have hsome : (big.at? (place ++ [name])).isSome := h.isSome (by
                simp [at?_append, hsmall, at?, Tree.entries, hchild])
              rw [at?_append, hbig, Option.bind_some, at?_cons, Tree.entries] at hsome
              cases hmore : Entries.get? more name with
              | none => simp [hmore] at hsome
              | some child => exact Entries.has_iff_get?.mpr ⟨child, hmore⟩
            simp [step, hsmall, hbig, up, there, hhas, Target.Narrows]
          · by_cases hhas : Entries.has more name
            · obtain ⟨child, hchild⟩ := Entries.has_iff_get?.mp hhas
              have hsome : (big.at? (place ++ [name])).isSome := by
                simp [at?_append, hbig, at?, Tree.entries, hchild]
              simp [step, hsmall, hbig, up, there, hhas, hsome, Target.Narrows]
            · simp [step, hsmall, hbig, up, there, hhas, Target.Narrows]

/-- A path that is not blocked leads nowhere else in a part of the tree. -/
theorem follow_narrows {small big : Tree} (h : PartOf small big) (start : Place)
    (steps : List String) (hunblocked : big.follow start steps ≠ .blocked) :
    (small.follow start steps).Narrows big (big.follow start steps) := by
  induction steps using List.reverseRecOn with
  | nil => simp [follow, Target.Narrows]
  | append_singleton steps name ih =>
    rw [follow_append] at hunblocked ⊢
    rw [follow_append]
    apply step_narrows h (ih ?_) hunblocked
    intro hblocked
    rw [hblocked] at hunblocked
    exact hunblocked rfl

/-- A place where nothing stands, in a folder that is there. -/
def Free (tree : Tree) (place : Place) : Prop :=
  ∃ above entries name, place = above ++ [name] ∧ tree.at? above = some (.folder entries) ∧
    Entries.get? entries name = none

theorem Free.at?_eq {tree : Tree} {place : Place} (h : tree.Free place) :
    tree.at? place = none := by
  obtain ⟨above, entries, name, rfl, habove, hnone⟩ := h
  simp [at?_append, habove, at?, Tree.entries, hnone]

/-- What is put at a free place takes nothing away. -/
theorem Free.partOf_put {tree : Tree} {place : Place} (h : tree.Free place) (new : Tree) :
    PartOf tree (put new place tree) := by
  obtain ⟨above, entries, name, rfl, habove, hnone⟩ := h
  have hpart : PartOf (.folder entries) (put new [name] (.folder entries)) := by
    constructor
    · intro other more hother
      cases other with
      | nil => exact ⟨_, rfl⟩
      | cons first rest =>
        have hfirst : first ≠ name := by
          rintro rfl
          simp [at?, Tree.entries, hnone] at hother
        rw [put, at?_cons, Tree.entries, Tree.entries, Entries.get?_put_of_ne hfirst]
        exact ⟨more, by simpa [at?_cons, Tree.entries] using hother⟩
    · intro other content hother
      cases other with
      | nil => simp [at?] at hother
      | cons first rest =>
        have hfirst : first ≠ name := by
          rintro rfl
          simp [at?, Tree.entries, hnone] at hother
        rw [put, at?_cons, Tree.entries, Tree.entries, Entries.get?_put_of_ne hfirst]
        simpa [at?_cons, Tree.entries] using hother
  have hput := hpart.put above tree
  rwa [put_at? habove, ← put_append, put_at? habove] at hput

/-- A vacant place is free. -/
theorem free_of_vacant {tree : Tree} {start place : Place} {steps : List String}
    (h : tree.follow start steps = .vacant place) : tree.Free place := by
  induction steps using List.reverseRecOn with
  | nil => simp [follow] at h
  | append_singleton steps name =>
    rw [follow_append] at h
    cases hbefore : tree.follow start steps with
    | found above =>
      rw [hbefore, step] at h
      split at h
      · rename_i entries habove
        split at h
        · cases h
        · split at h
          · cases h
          · rename_i hhas
            cases h
            refine ⟨above, entries, name, rfl, habove, ?_⟩
            cases hget : Entries.get? entries name with
            | none => rfl
            | some child => exact absurd (Entries.has_iff_get?.mpr ⟨child, hget⟩) hhas
      · cases h
      · split at h <;> cases h
    | vacant _ => simp [hbefore, step] at h
    | unreached => simp [hbefore, step] at h
    | blocked => simp [hbefore, step] at h

/-- A step is taken up or down, and not from a file. -/
theorem found_of_step {tree : Tree} {target : Target} {name : String} {place : Place}
    (h : tree.step target name = .found place) :
    ∃ above, target = .found above ∧ tree.NoFile above ∧
      (name = ".." ∧ place = above.dropLast ∨
        name ≠ ".." ∧ place = above ++ [name] ∧ (tree.at? place).isSome) := by
  match target with
  | .vacant _ => cases h
  | .unreached => cases h
  | .blocked => cases h
  | .found above =>
    refine ⟨above, rfl, ?_⟩
    cases hat : tree.at? above with
    | none =>
      by_cases up : name = ".."
      · simp only [step, hat, up, if_true, Target.found.injEq] at h
        simp [NoFile, hat, up, h]
      · simp [step, hat, up] at h
    | some below =>
      cases below with
      | file content => simp [step, hat] at h
      | folder entries =>
        by_cases up : name = ".."
        · simp only [step, hat, up, if_true, Target.found.injEq] at h
          simp [NoFile, hat, up, h]
        · by_cases hhas : Entries.has entries name
          · simp only [step, hat, up, hhas, if_true, if_false, Target.found.injEq] at h
            obtain ⟨child, hchild⟩ := Entries.has_iff_get?.mp hhas
            subst h
            simp [NoFile, up, at?_append, hat, Tree.entries, hchild, at?]
          · simp [step, hat, up, hhas] at h

theorem step_ne_blocked {tree : Tree} {above : Place} (h : tree.NoFile above) (name : String) :
    tree.step (.found above) name ≠ .blocked := by
  cases hat : tree.at? above with
  | none => by_cases up : name = ".." <;> simp [step, hat, up]
  | some below =>
    cases below with
    | file content => exact absurd hat (h content)
    | folder entries =>
      by_cases up : name = ".." <;> by_cases hhas : Entries.has entries name <;>
        simp [step, hat, up, hhas]

/-- On the way to what a path leads to no file is passed. -/
theorem follow_of_append {tree : Tree} {start place : Place} {steps more : List String}
    (h : tree.follow start (steps ++ more) = .found place)
    (hplace : tree.NoFile place) :
    ∃ before, tree.follow start steps = .found before ∧ tree.NoFile before := by
  induction more using List.reverseRecOn generalizing place with
  | nil => exact ⟨place, by simpa using h, hplace⟩
  | append_singleton more name ih =>
    rw [← List.append_assoc, follow_append] at h
    obtain ⟨above, habove, hfile, -⟩ := found_of_step h
    exact ih habove hfile

/-- What a path leads to in a part of a tree it leads to in the tree, if nothing on the way to its
start is a file. -/
theorem follow_of_partOf {small big : Tree} (h : PartOf small big) {start place : Place}
    (hstart : ∀ above, above <+: start → big.NoFile above)
    {steps : List String} (hfound : small.follow start steps = .found place) :
    big.follow start steps = .found place ∧ (small.at? place = none → place <+: start) := by
  induction steps using List.reverseRecOn generalizing place with
  | nil =>
    cases hfound
    exact ⟨rfl, fun _ => List.prefix_rfl⟩
  | append_singleton steps name ih =>
    rw [follow_append] at hfound ⊢
    obtain ⟨above, habove, hfile, hstep⟩ := found_of_step hfound
    obtain ⟨hbig, hgone⟩ := ih habove
    have hthere : big.NoFile above := by
      cases hsmall : small.at? above with
      | none => exact hstart above (hgone hsmall)
      | some below =>
        cases below with
        | file content => exact absurd hsmall (hfile content)
        | folder entries =>
          obtain ⟨more, hmore⟩ := h.folders hsmall
          exact noFile_of_folder hmore
    have hsame : Target.Narrows big (.found above) (.found above) := rfl
    have hnarrows := step_narrows h hsame (step_ne_blocked hthere name)
    rw [habove] at hfound
    rw [hfound] at hnarrows
    refine ⟨hbig ▸ hnarrows, fun hnone => ?_⟩
    rcases hstep with ⟨-, rfl⟩ | ⟨-, -, hsome⟩
    · cases hsmall : small.at? above with
      | none => exact (List.dropLast_prefix above).trans (hgone hsmall)
      | some below =>
        cases below with
        | file content => exact absurd hsmall (hfile content)
        | folder entries =>
          obtain ⟨more, hmore⟩ := folder_of_isPrefix hsmall (List.dropLast_prefix above)
          simp [hmore] at hnone
    · simp [hnone] at hsome

/-- A path without steps upwards leads down. -/
theorem follow_descending {tree : Tree} {start place : Place} {steps : List String}
    (hsteps : ".." ∉ steps) (h : tree.follow start steps = .found place) :
    place = start ++ steps := by
  induction steps using List.reverseRecOn generalizing place with
  | nil => simpa [follow, eq_comm] using h
  | append_singleton steps name ih =>
    rw [List.mem_append, not_or, List.mem_singleton] at hsteps
    rw [follow_append] at h
    obtain ⟨above, habove, -, hstep⟩ := found_of_step h
    rcases hstep with ⟨hup, -⟩ | ⟨-, rfl, -⟩
    · exact absurd hup.symm hsteps.2
    · rw [ih hsteps.1 habove, List.append_assoc]

/-- A path without steps upwards leads to whatever stands at its end. -/
theorem follow_of_at? {tree : Tree} {start : Place} {steps : List String} (hsteps : ".." ∉ steps)
    (h : (tree.at? (start ++ steps)).isSome) : tree.follow start steps = .found (start ++ steps) := by
  induction steps using List.reverseRecOn with
  | nil => simp [follow]
  | append_singleton steps name ih =>
    rw [List.mem_append, not_or, List.mem_singleton] at hsteps
    have hup : ¬ name = ".." := fun same => hsteps.2 same.symm
    rw [← List.append_assoc, at?_append] at h
    cases hbefore : tree.at? (start ++ steps) with
    | none => simp [hbefore] at h
    | some below =>
      rw [hbefore, Option.bind_some, at?_cons] at h
      cases hchild : Entries.get? below.entries name with
      | none => simp [hchild] at h
      | some child =>
        cases below with
        | file content => simp [Tree.entries, Entries.get?] at hchild
        | folder entries =>
          have hhas : Entries.has entries name := Entries.has_iff_get?.mpr ⟨child, hchild⟩
          rw [follow_append, ih hsteps.1 (by simp [hbefore])]
          simp [step, hbefore, hup, hhas]

end Tree

namespace Files

open ApiClients.Tree

/-! ### A folder emptied along a path -/

theorem refillAt_found {home place : Place} {path : Path} {tree : Tree}
    {entries now : List (String × Tree)} (hpath : target home path tree = .found place)
    (hnow : tree.at? place = some (.folder now)) :
    refillAt home path entries tree = Tree.put (.folder entries) place tree := by
  simp [refillAt, found?, hpath, hnow]

/-- The second tree comes from the first by taking files out of the folder at a place, and perhaps
folders. -/
structure Hollowed (place : Place) (tree after : Tree) : Prop where
  inside : ∃ inner, after = Tree.put (.folder inner) place tree
  part : PartOf after tree
  hollow : ∀ rest, after.NoFile (place ++ rest)

theorem Hollowed.empty {place : Place} {tree : Tree} {former : List (String × Tree)}
    (h : tree.at? place = some (.folder former)) :
    Hollowed place tree (emptied place tree) where
  inside := ⟨[], rfl⟩
  part := partOf_emptied h
  hollow rest content := by
    rw [emptied, at?_put_append]
    cases rest <;> simp

/-- The folder gets back what it held. -/
theorem Hollowed.restored {place : Place} {tree after : Tree} {former : List (String × Tree)}
    (h : Hollowed place tree after) (hformer : tree.at? place = some (.folder former)) :
    Tree.put (.folder former) place after = tree := by
  obtain ⟨inner, rfl⟩ := h.inside
  rw [put_put, put_at? hformer]

/-- An empty folder is left as it is. -/
theorem Hollowed.eq_of_empty {place : Place} {tree after : Tree} (h : Hollowed place tree after)
    (hempty : tree.at? place = some (.folder [])) : after = tree := by
  obtain ⟨inner, rfl⟩ := h.inside
  rw [eq_nil_of_partOf (partOf_of_partOf_put h.part hempty), put_at? hempty]

/-- Where a folder is missing after the emptying that was there before, it can be made. -/
theorem Hollowed.make {place other : Place} {tree after : Tree} {former more : List (String × Tree)}
    (h : Hollowed place tree after) (hformer : tree.at? place = some (.folder former))
    (hother : tree.at? other = some (.folder more)) (hlost : after.at? other = none) :
    Hollowed place tree (Tree.put (.folder []) other after) := by
  obtain ⟨inner, rfl⟩ := h.inside
  obtain ⟨rest, rfl⟩ := isPrefix_of_lost hformer (by simp [hother]) hlost
  constructor
  · cases rest with
    | nil => simp [at?_put] at hlost
    | cons name rest =>
      rw [put_append]
      exact ⟨_, rfl⟩
  · constructor
    · intro below entries hfolder
      rcases folder_of_put_empty hfolder with ⟨former, hafter⟩ | hway
      · exact h.part.folders hafter
      · exact folder_of_isPrefix hother hway
    · intro below content hfile
      exact h.part.files (file_of_put_empty hfile)
  · intro below content hfile
    exact h.hollow below content (file_of_put_empty hfile)

theorem target_narrows {small big : Tree} (h : PartOf small big) (home : Place) (path : Path)
    (hunblocked : target home path big ≠ .blocked) :
    Target.Narrows big (target home path small) (target home path big) :=
  follow_narrows h _ path.steps hunblocked

theorem makeLast_ok {home place other : Place} {path : Path} {tree after made : Tree}
    {former : List (String × Tree)} (hformer : tree.at? place = some (.folder former))
    (h : Hollowed place tree after) (hpath : target home path tree = .found other)
    (hother : tree.NoFile other)
    (hmade : makeLast home path after = (.ok (), made)) :
    Hollowed place tree made ∧ target home path made = .found other := by
  have hnarrows := target_narrows h.part home path (by simp [hpath])
  rw [hpath] at hnarrows
  cases hafter : target home path after with
  | found there =>
    rw [hafter] at hnarrows
    cases hnarrows
    cases hat : after.at? other with
    | none => simp [makeLast, found?, hafter, hat] at hmade
    | some below =>
      cases below with
      | file content => simp [makeLast, found?, hafter, hat] at hmade
      | folder entries =>
        simp only [makeLast, found?, hafter, hat, Prod.mk.injEq, true_and] at hmade
        subst hmade
        exact ⟨h, hafter⟩
  | vacant there =>
    rw [hafter] at hnarrows
    obtain ⟨hsame, hsome⟩ : there = other ∧ (tree.at? other).isSome := by
      rcases hnarrows with ⟨hsame, hsome⟩ | hsame
      · cases hsame
        exact ⟨rfl, hsome⟩
      · cases hsame
    subst hsame
    simp only [makeLast, found?, hafter, Prod.mk.injEq, true_and] at hmade
    subst hmade
    obtain ⟨more, hfolder⟩ : ∃ more, tree.at? there = some (.folder more) := by
      cases hat : tree.at? there with
      | none => simp [hat] at hsome
      | some below =>
        cases below with
        | file content => exact absurd hat (hother content)
        | folder more => exact ⟨more, rfl⟩
    have hmade := h.make hformer hfolder ((free_of_vacant hafter).at?_eq)
    refine ⟨hmade, ?_⟩
    -- The path leads to that place in the whole tree, and it leads further than before.
    have hwide := target_narrows hmade.part home path (by simp [hpath])
    have hgrown := target_narrows ((free_of_vacant hafter).partOf_put (.folder [])) home path (by
      intro hblocked
      rw [hblocked] at hwide
      exact hwide)
    rw [hafter] at hgrown
    rcases hgrown with ⟨hfound, _⟩ | hvacant
    · exact hfound
    · have hnone := (free_of_vacant hvacant).at?_eq
      rw [at?_put] at hnone
      cases hnone
  | unreached => simp [makeLast, found?, hafter] at hmade
  | blocked => simp [makeLast, found?, hafter] at hmade

/-- Making a folder where a path led before the emptying makes only folders that were there. -/
theorem makeFolder_ok {home place other : Place} {start : PathStart} {steps : List String}
    {tree after made : Tree} {former : List (String × Tree)}
    (hformer : tree.at? place = some (.folder former)) (h : Hollowed place tree after)
    (hpath : target home ⟨start, steps.reverse⟩ tree = .found other)
    (hother : tree.NoFile other)
    (hmade : makeFolder home start steps after = (.ok (), made)) :
    Hollowed place tree made ∧ target home ⟨start, steps.reverse⟩ made = .found other := by
  induction steps generalizing after made other with
  | nil =>
    simp only [makeFolder, Prod.mk.injEq, true_and] at hmade
    subst hmade
    exact ⟨h, by simpa [target, follow] using hpath⟩
  | cons name before ih =>
    rw [makeFolder] at hmade
    split at hmade
    · rw [target, List.reverse_cons] at hpath
      obtain ⟨above, habove, hfile⟩ := follow_of_append hpath hother
      split at hmade
      · rename_i reached hreached
        have hinner := (ih h habove hfile hreached).1
        exact makeLast_ok hformer hinner (by rwa [target, List.reverse_cons]) hother hmade
      · rename_i refused hrefused
        exact absurd hmade (hrefused made)
    · exact makeLast_ok hformer h hpath hother hmade

/-- What an emptied folder is like.  The path still leads to it. -/
theorem hollowed_of_clearAt {home place : Place} {path : Path} {tree after : Tree}
    {former : List (String × Tree)} (hpath : target home path tree = .found place)
    (hformer : tree.at? place = some (.folder former))
    (hclear : clearAt home path tree = (.ok (), after)) :
    Hollowed place tree after ∧ target home path after = .found place := by
  rw [clearAt, refillAt_found hpath hformer] at hclear
  have hpath' : target home ⟨path.start, path.steps.reverse.reverse⟩ tree = .found place := by
    rwa [List.reverse_reverse]
  have hmade := makeFolder_ok hformer (.empty hformer) hpath' (noFile_of_folder hformer) hclear
  rwa [List.reverse_reverse] at hmade

/-- A folder is just emptied if the path still leads to it then. -/
theorem clearAt_of_lasting {home place : Place} {path : Path} {tree : Tree}
    {former : List (String × Tree)} (hpath : target home path tree = .found place)
    (hformer : tree.at? place = some (.folder former))
    (hlasting : target home path (emptied place tree) = .found place) :
    clearAt home path tree = (.ok (), emptied place tree) := by
  rw [clearAt, refillAt_found hpath hformer, ← emptied]
  cases hsteps : path.steps.reverse with
  | nil => rfl
  | cons name before =>
    have hwhole : (⟨path.start, (name :: before).reverse⟩ : Path) = path := by
      rw [← hsteps, List.reverse_reverse]
    rw [makeFolder, hwhole, if_neg (by simp [hlasting]), makeLast]
    simp [found?, hlasting, at?_emptied]

/-- A path without steps upwards does not go through the folder that it leads to. -/
theorem lasting_of_descending {home place : Place} {path : Path} {tree : Tree}
    (hpath : target home path tree = .found place) (hsteps : ".." ∉ path.steps) :
    target home path (emptied place tree) = .found place := by
  have hplace := follow_descending hsteps hpath
  rw [target, hplace]
  exact follow_of_at? hsteps (by simp [at?_emptied])

end Files

end ApiClients
