import ApiClients.Proofs.EnteredPlaces

/-!
# Backups

Before the output folder is cleared, what it holds is copied into a new temporary folder of the same
tree.  A path that leads somewhere leads there beside the new folder too, for no step of it enters a
place where nothing was (`follow_put_of_free`), and this is so in whatever is left of the tree.  If
the folder for temporary files is there and is not inside the output folder (`Shelters`), the new
folder is still there after the clearing, and taking it away leaves the tree that there would be
without it (`Keeps`).
-/

namespace ApiClients

namespace Tree

variable {tree after copy : Tree} {start place other backup : Place} {steps before : List String}

/-! ### Places apart -/

/-- Neither of two places is on the way to the other. -/
def Apart (place other : Place) : Prop := ¬ place <+: other ∧ ¬ other <+: place

theorem Apart.of_cons {name : String} (h : Apart (name :: place) (name :: other)) :
    Apart place other :=
  ⟨fun hway => h.1 (List.cons_prefix_cons.mpr ⟨rfl, hway⟩),
   fun hway => h.2 (List.cons_prefix_cons.mpr ⟨rfl, hway⟩)⟩

/-- What stands at a place is not changed by what is put somewhere apart from it. -/
theorem at?_put_of_apart (h : Apart place other) (new tree : Tree) :
    (put new other tree).at? place = tree.at? place := by
  induction other generalizing place tree with
  | nil => exact absurd List.nil_prefix h.2
  | cons first other ih =>
    cases place with
    | nil => exact absurd List.nil_prefix h.1
    | cons name rest =>
      rw [put, at?_cons, at?_cons, entries]
      by_cases same : name = first
      · subst same
        rw [Entries.get?_put, Option.bind_some, ih h.of_cons]
        cases Entries.get? tree.entries name with
        | some child => rfl
        | none =>
          cases rest with
          | nil => exact absurd List.nil_prefix h.of_cons.1
          | cons second rest => rfl
      · rw [Entries.get?_put_of_ne same]

/-- What replaces something and what is put somewhere apart from it do not meet. -/
theorem put_comm_of_apart {new more : Tree} (h : Apart place other)
    (hplace : (tree.at? place).isSome) :
    put new place (put more other tree) = put more other (put new place tree) := by
  induction place generalizing other tree with
  | nil => exact absurd List.nil_prefix h.1
  | cons name rest ih =>
    cases other with
    | nil => exact absurd List.nil_prefix h.2
    | cons first below =>
      cases tree with
      | file content => simp at hplace
      | folder outer =>
        rw [at?_cons, entries] at hplace
        cases hchild : Entries.get? outer name with
        | none => simp [hchild] at hplace
        | some child =>
          rw [hchild, Option.bind_some] at hplace
          by_cases same : name = first
          · subst same
            simp only [put, entries, Entries.get?_put, Option.getD_some, Entries.put_put, hchild,
              ih h.of_cons hplace]
          · have hkey : name ∈ outer.map (·.1) :=
              Entries.has_iff.mp (Entries.has_iff_get?.mpr ⟨child, hchild⟩)
            simp only [put, entries, Entries.get?_put_of_ne same,
              Entries.get?_put_of_ne (Ne.symm same), Entries.put_comm same hkey]

/-! ### A new folder at a free place -/

/-- What is put at a free place can be taken away again. -/
theorem remove_put (h : tree.Free place) (new : Tree) : (put new place tree).remove place = tree := by
  obtain ⟨above, entries, name, rfl, habove, hnone⟩ := h
  induction above generalizing tree with
  | nil =>
    cases habove
    have hkeys : name ∉ entries.map (·.1) := fun hkey => by
      obtain ⟨child, hchild⟩ := Entries.has_iff_get?.mp (Entries.has_iff.mpr hkey)
      cases hnone.symm.trans hchild
    have hrest : entries.filter (fun entry => entry.1 != name) = entries := by
      rw [List.filter_eq_self]
      intro entry hentry
      have hother : entry.1 ≠ name := fun same => hkeys (List.mem_map.mpr ⟨entry, hentry, same⟩)
      simpa using hother
    simp [put, Tree.entries, remove, Entries.put_of_not_mem hkeys, hrest]
  | cons first above ih =>
    cases tree with
    | file content => simp at habove
    | folder outer =>
      rw [at?_cons, Tree.entries] at habove
      cases hchild : Entries.get? outer first with
      | none => simp [hchild] at habove
      | some child =>
        rw [hchild, Option.bind_some] at habove
        have hinner := ih habove
        cases hlast : above ++ [name] with
        | nil => simp at hlast
        | cons second rest =>
          rw [hlast] at hinner
          rw [List.cons_append, hlast, put, Tree.entries, hchild, Option.getD_some, remove,
            Entries.get?_put]
          simp only [hinner, Entries.put_put, Entries.put_get? hchild]
          simp

/-- Outside of what was put at a free place nothing has changed, except that folders on the way to
it have one more entry. -/
theorem at?_put_of_free (h : tree.Free backup) (hother : ¬ backup <+: other) (copy : Tree) :
    (put copy backup tree).at? other = tree.at? other ∨
      ∃ entries more, tree.at? other = some (.folder entries) ∧
        (put copy backup tree).at? other = some (.folder more) := by
  by_cases hway : other <+: backup
  · right
    obtain ⟨above, inner, name, rfl, habove, -⟩ := id h
    have hshort : other <+: above := by
      rcases List.prefix_concat_iff.mp hway with rfl | hshort
      · exact absurd List.prefix_rfl hother
      · exact hshort
    obtain ⟨entries, hentries⟩ := folder_of_isPrefix habove hshort
    obtain ⟨more, hmore⟩ := (h.partOf_put copy).folders hentries
    exact ⟨entries, more, hentries, hmore⟩
  · exact .inl (at?_put_of_apart ⟨hway, hother⟩ copy tree)

theorem isSome_put_of_free (h : tree.Free backup) (hother : ¬ backup <+: other) (copy : Tree) :
    ((put copy backup tree).at? other).isSome = (tree.at? other).isSome := by
  rcases at?_put_of_free h hother copy with hsame | ⟨entries, more, hbefore, hafter⟩
  · rw [hsame]
  · rw [hbefore, hafter]
    rfl

theorem has_iff_at? {name : String} {inner : List (String × Tree)}
    (hinner : tree.at? place = some (.folder inner)) :
    Entries.has inner name ↔ (tree.at? (place ++ [name])).isSome := by
  rw [at?_append, hinner, Option.bind_some, at?_cons, Tree.entries, Entries.has_iff_get?]
  cases Entries.get? inner name <;> simp

/-- A step that does not come to the free place is the same step beside what was put there. -/
theorem step_put_of_free {name : String} (h : tree.Free backup) (hplace : ¬ backup <+: place)
    (hnever : tree.step (.found place) name ≠ .vacant backup) :
    (put copy backup tree).step (.found place) name = tree.step (.found place) name := by
  rcases at?_put_of_free h hplace copy with hsame | ⟨entries, more, hbefore, hafter⟩
  · simp only [step, hsame]
  · by_cases up : name = ".."
    · simp only [step, hbefore, hafter, up, if_true]
    · have hnext : ¬ backup <+: place ++ [name] := by
        intro hway
        rcases List.prefix_concat_iff.mp hway with rfl | hshort
        · have hhas : ¬ Entries.has entries name := by
            rw [has_iff_at? hbefore, h.at?_eq]
            simp
          exact hnever (by simp [step, hbefore, up, hhas])
        · exact hplace hshort
      have hhas : Entries.has more name ↔ Entries.has entries name := by
        rw [has_iff_at? hbefore, has_iff_at? hafter, isSome_put_of_free h hnext]
      simp only [step, hbefore, hafter, up, if_false, hhas]

/-- Steps that never come to the free place lead where they led, and not into what was put there. -/
theorem follow_put_of_free (h : tree.Free backup) (hstart : ¬ backup <+: start)
    (hnever : ∀ before, before <+: steps → tree.follow start before ≠ .vacant backup) :
    (put copy backup tree).follow start steps = tree.follow start steps ∧
      ∀ there, tree.follow start steps = .found there → ¬ backup <+: there := by
  induction steps using List.reverseRecOn with
  | nil =>
    refine ⟨rfl, fun there hthere => ?_⟩
    cases hthere
    exact hstart
  | append_singleton steps name ih =>
    obtain ⟨hsame, hout⟩ := ih fun before hway => hnever before (hway.trans (List.prefix_append _ _))
    have hlast := hnever _ List.prefix_rfl
    rw [follow_append] at hlast ⊢
    rw [follow_append, hsame]
    refine ⟨?_, fun there hthere hway => ?_⟩
    · cases hbefore : tree.follow start steps with
      | found above =>
        rw [hbefore] at hlast
        exact step_put_of_free h (hout above hbefore) hlast
      | vacant _ => rfl
      | unreached => rfl
      | blocked => rfl
    · obtain ⟨above, habove, -, hstep⟩ := found_of_step hthere
      rcases hstep with ⟨-, rfl⟩ | ⟨-, rfl, hsome⟩
      · exact hout above habove (hway.trans (List.dropLast_prefix above))
      · rcases List.prefix_concat_iff.mp hway with rfl | hshort
        · simp [h.at?_eq] at hsome
        · exact hout above habove hshort

/-- A path that leads somewhere comes to no free place, in no part of the tree. -/
theorem ne_vacant_of_found (hpart : PartOf after tree) (hnone : tree.at? backup = none)
    (h : tree.follow start steps = .found place) (hway : before <+: steps) :
    after.follow start before ≠ .vacant backup := by
  intro hvacant
  obtain ⟨more, rfl⟩ := hway
  obtain ⟨there, hthere⟩ := found_of_append h
  have hnarrows := follow_narrows hpart start before (by simp [hthere])
  rw [hthere, hvacant] at hnarrows
  rcases hnarrows with ⟨hsame, hsome⟩ | hsame
  · simp [hnone] at hsome
  · cases hsame

/-- What is put in place of a folder leaves places apart from it free. -/
theorem Free.put {former inner : List (String × Tree)} (h : tree.Free backup)
    (hformer : tree.at? place = some (.folder former)) (hapart : Apart place backup) :
    (Tree.put (.folder inner) place tree).Free backup := by
  obtain ⟨above, entries, name, rfl, habove, hnone⟩ := id h
  have hgone : (Tree.put (.folder inner) place tree).at? (above ++ [name]) = none := by
    rw [at?_put_of_apart ⟨hapart.2, hapart.1⟩, h.at?_eq]
  cases hat : (Tree.put (.folder inner) place tree).at? above with
  | none =>
    have hway := isPrefix_of_lost hformer (by simp [habove]) hat
    exact absurd (hway.trans (List.prefix_append _ _)) hapart.1
  | some there =>
    cases there with
    | file content =>
      rcases file_of_put hat with ⟨rest, rfl, -⟩ | hbefore
      · exact absurd (by simp [List.append_assoc]) hapart.1
      · cases habove.symm.trans hbefore
    | folder more =>
      refine ⟨above, more, name, rfl, hat, ?_⟩
      rw [at?_append, hat, Option.bind_some, at?_cons, Tree.entries] at hgone
      cases hchild : Entries.get? more name with
      | none => rfl
      | some child => simp [hchild] at hgone

end Tree

open ApiClients.Tree

variable {home place other there backup : Place} {path : Path} {tree kept after : Tree}
  {former entries inner : List (String × Tree)} {temporary : Temporary}

/-! ### Keeping the entries of a folder -/

/-- The folder for temporary files is there, and clearing the folder at a place leaves it alone.  The
new folder does not take the place of the working folder, should that have been removed. -/
structure Temporary.Shelters (temporary : Temporary) (home : Place) (tree : Tree) (place : Place) :
    Prop where
  there : ∃ entries, tree.at? temporary.place = some (.folder entries)
  beside : ¬ place <+: temporary.place
  away : ∀ {entries}, tree.at? temporary.place = some (.folder entries) →
    ¬ temporary.place ++ [temporary.name entries] <+: home

namespace Files

theorem entriesAt_found (hpath : target home path tree = .found place)
    (hformer : tree.at? place = some (.folder former)) : entriesAt home path tree = former := by
  simp [entriesAt, found?, hpath, hformer, Tree.entries]

/-- What a folder holds is kept, if it holds something, in a new folder apart from it. -/
inductive Keeps (home place : Place) (former : List (String × Tree)) (tree : Tree) :
    Option Place → Tree → Prop
  | nothing (empty : former = []) : Keeps home place former tree none tree
  | copy {backup : Place} (free : tree.Free backup) (apart : Apart place backup)
      (away : ¬ backup <+: home) :
      Keeps home place former tree (some backup) (Tree.put (.folder former) backup tree)

/-- The new folder stands where nothing was. -/
theorem free_of_there (hthere : tree.at? temporary.place = some (.folder entries)) :
    tree.Free (temporary.place ++ [temporary.name entries]) := by
  refine ⟨_, entries, _, rfl, hthere, ?_⟩
  cases hget : Entries.get? entries (temporary.name entries) with
  | none => rfl
  | some child =>
    have hhas := Entries.has_iff_get?.mpr ⟨child, hget⟩
    rw [temporary.fresh] at hhas
    cases hhas

/-- A folder that holds something is copied into the new one, unless that is inside of a folder that
it holds. -/
theorem keepAt_of_there (hpath : target home path tree = .found place)
    (hformer : tree.at? place = some (.folder former)) (hsome : former ≠ [])
    (hthere : tree.at? temporary.place = some (.folder entries))
    (hbeside : place <+: temporary.place → place = temporary.place) :
    keepAt home temporary path tree =
      (.ok (some (temporary.place ++ [temporary.name entries])),
        Tree.put (.folder former) (temporary.place ++ [temporary.name entries]) tree) := by
  have hentries := entriesAt_found hpath hformer
  have hnonempty : former.isEmpty = false := by simpa using hsome
  have hcopy : copiesItself home path temporary.place tree = false := by
    by_cases hway : place <+: temporary.place
    · simp [copiesItself, hpath, hbeside hway]
    · simp [copiesItself, hpath, hway]
  simp [keepAt, hentries, hnonempty, hthere, hcopy]

theorem keeps_of_shelters (hpath : target home path tree = .found place)
    (hformer : tree.at? place = some (.folder former))
    (h : former ≠ [] → temporary.Shelters home tree place) :
    ∃ backup kept, keepAt home temporary path tree = (.ok backup, kept) ∧
      Keeps home place former tree backup kept := by
  by_cases hempty : former = []
  · refine ⟨none, tree, ?_, .nothing hempty⟩
    simp [keepAt, entriesAt_found hpath hformer, hempty]
  · obtain ⟨⟨entries, hthere⟩, hbeside, haway⟩ := h hempty
    have hfree := free_of_there hthere
    have hapart : Apart place (temporary.place ++ [temporary.name entries]) := by
      constructor
      · intro hway
        rcases List.prefix_concat_iff.mp hway with rfl | hshort
        · cases hformer.symm.trans hfree.at?_eq
        · exact hbeside hshort
      · intro hway
        have hplace : (tree.at? place).isSome := by simp [hformer]
        have hbackup := isSome_of_isPrefix hplace hway
        simp [hfree.at?_eq] at hbackup
    exact ⟨_, _, keepAt_of_there hpath hformer hempty hthere fun hway => absurd hway hbeside,
      .copy hfree hapart (haway hthere)⟩

theorem not_isPrefix_of_free (hhome : tree.at? home = some (.folder entries))
    (hfree : tree.Free backup) : ¬ backup <+: home := by
  intro hway
  have hsome : (tree.at? home).isSome := by simp [hhome]
  have hbackup := isSome_of_isPrefix hsome hway
  simp [hfree.at?_eq] at hbackup

/-- Without shelter a folder that holds something is not kept, or else it is kept in a new folder of
its own. -/
theorem keepAt_unsheltered (hhome : tree.at? home = some (.folder entries))
    (hpath : target home path tree = .found place)
    (hformer : tree.at? place = some (.folder former)) (hsome : former ≠ [])
    (h : ¬ temporary.Shelters home tree place) :
    (∃ problem, keepAt home temporary path tree = (.error problem, tree)) ∨
      ∃ name, tree.Free (place ++ [name]) ∧ keepAt home temporary path tree =
        (.ok (some (place ++ [name])), Tree.put (.folder former) (place ++ [name]) tree) := by
  have hentries := entriesAt_found hpath hformer
  have hnonempty : former.isEmpty = false := by simpa using hsome
  cases hthere : tree.at? temporary.place with
  | none => exact .inl ⟨_, by simp [keepAt, hentries, hnonempty, hthere]; rfl⟩
  | some there =>
    cases there with
    | file content => exact .inl ⟨_, by simp [keepAt, hentries, hnonempty, hthere]; rfl⟩
    | folder others =>
      have hfree := free_of_there hthere
      have hinside : place <+: temporary.place := by
        by_contra hbeside
        refine h ⟨⟨others, hthere⟩, hbeside, fun hsame => ?_⟩
        cases hthere.symm.trans hsame
        exact not_isPrefix_of_free hhome hfree
      by_cases hown : place = temporary.place
      · right
        subst hown
        exact ⟨_, hfree, keepAt_of_there hpath hformer hsome hthere fun _ => rfl⟩
      · left
        have hcopy : copiesItself home path temporary.place tree = true := by
          simp [copiesItself, hpath, hinside, hown]
        exact ⟨.endless path, by simp [keepAt, hentries, hnonempty, hthere, hcopy]⟩

/-! ### Paths beside a backup -/

theorem not_isPrefix_origin (haway : ¬ backup <+: home) (start : PathStart) :
    ¬ backup <+: origin home start :=
  fun hway => haway (hway.trans (origin_isPrefix home start))

/-- A path that leads somewhere leads to the same place and the same content beside a backup, also in
a part of the tree. -/
theorem target_put_of_free (hpart : PartOf after tree) (hfree : after.Free backup)
    (hnone : tree.at? backup = none) (haway : ¬ backup <+: home)
    (hpath : target home path tree = .found there) (copy : Tree) :
    target home path (Tree.put copy backup after) = target home path after ∧
      contentAt home path (Tree.put copy backup after) = contentAt home path after := by
  have hfollow := @follow_put_of_free after copy _ backup path.steps hfree
    (not_isPrefix_origin haway path.start) fun before hway =>
      ne_vacant_of_found hpart hnone hpath hway
  have hsame : target home path (Tree.put copy backup after) = target home path after := hfollow.1
  refine ⟨hsame, ?_⟩
  cases htarget : target home path after with
  | found last =>
    rcases at?_put_of_free hfree (hfollow.2 last htarget) copy with hat | ⟨_, _, hbefore, hafter⟩
    · simp only [contentAt, found?, hsame, htarget, hat]
    · simp only [contentAt, found?, hsame, htarget, hbefore, hafter]
  | vacant _ => simp only [contentAt, found?, hsame, htarget]
  | unreached => simp only [contentAt, found?, hsame, htarget]
  | blocked => simp only [contentAt, found?, hsame, htarget]

/-- A path that leads somewhere enters the same places beside a backup. -/
theorem entered_put_of_free (hfree : tree.Free backup) (haway : ¬ backup <+: home)
    (hpath : target home path tree = .found there) (copy : Tree) :
    Entered home path (Tree.put copy backup tree) other ↔ Entered home path tree other := by
  have hfollow : ∀ before, before <+: path.steps →
      (Tree.put copy backup tree).follow (origin home path.start) before =
        tree.follow (origin home path.start) before := fun before hway =>
    (follow_put_of_free hfree (not_isPrefix_origin haway path.start) fun first hfirst =>
      ne_vacant_of_found (.refl tree) hfree.at?_eq hpath (hfirst.trans hway)).1
  constructor
  · rintro ⟨before, name, hway, hdown, hfound⟩
    exact ⟨before, name, hway, hdown, hfollow _ hway ▸ hfound⟩
  · rintro ⟨before, name, hway, hdown, hfound⟩
    exact ⟨before, name, hway, hdown, (hfollow _ hway).trans hfound⟩

/-- A folder for output is one beside a backup too. -/
theorem outputFolder_put_of_free (hfree : tree.Free backup) (haway : ¬ backup <+: home)
    (hpath : target home path tree = .found place)
    (hfolder : OutputFolder home path tree place) (copy : Tree) :
    OutputFolder home path (Tree.put copy backup tree) place := by
  have hleads := (target_put_of_free (.refl tree) hfree hfree.at?_eq haway hpath copy).1.trans hpath
  cases hfolder with
  | existing leads folder outward =>
    obtain ⟨more, hmore⟩ := (hfree.partOf_put copy).folders folder
    refine .existing hleads hmore fun hbelow other hother hentered => ?_
    exact outward hbelow other hother ((entered_put_of_free hfree haway hpath copy).mp hentered)
  | new steps vacant down =>
    rcases target_of_new steps vacant with hnew | hnew <;> cases hpath.symm.trans hnew

/-! ### The tree with what is kept -/

variable {copied : Option Place}

theorem Keeps.partOf (h : Keeps home place former tree copied kept) : PartOf tree kept := by
  cases h with
  | nothing empty => exact .refl tree
  | copy free apart away => exact free.partOf_put _

theorem Keeps.at?_place (h : Keeps home place former tree copied kept) :
    kept.at? place = tree.at? place := by
  cases h with
  | nothing empty => rfl
  | copy free apart away => exact at?_put_of_apart apart _ _

/-- Nothing that is done inside the folder matters to what the keeping changes elsewhere. -/
theorem Keeps.target_put (h : Keeps home place former tree copied kept)
    (hformer : tree.at? place = some (.folder former))
    (hpart : PartOf (.folder inner) (.folder former))
    (hpath : target home path tree = .found there) :
    target home path (Tree.put (.folder inner) place kept) =
        target home path (Tree.put (.folder inner) place tree)
      ∧ contentAt home path (Tree.put (.folder inner) place kept) =
        contentAt home path (Tree.put (.folder inner) place tree) := by
  cases h with
  | nothing empty => exact ⟨rfl, rfl⟩
  | copy free apart away =>
    have hsome : (tree.at? place).isSome := by simp [hformer]
    rw [put_comm_of_apart apart hsome]
    exact target_put_of_free (partOf_of_put hformer hpart) (free.put hformer apart) free.at?_eq away
      hpath _

theorem Keeps.leads (h : Keeps home place former tree copied kept)
    (hformer : tree.at? place = some (.folder former))
    (hpath : target home path tree = .found there) :
    target home path kept = .found there ∧ contentAt home path kept = contentAt home path tree := by
  have hkept : kept.at? place = some (.folder former) := h.at?_place.trans hformer
  have hsame := h.target_put hformer (.refl _) hpath
  rw [put_at? hkept, put_at? hformer] at hsame
  exact ⟨hsame.1.trans hpath, hsame.2⟩

theorem Keeps.entered (h : Keeps home place former tree copied kept)
    (hpath : target home path tree = .found there) :
    Entered home path kept other ↔ Entered home path tree other := by
  cases h with
  | nothing empty => exact .rfl
  | copy free apart away => exact entered_put_of_free free away hpath _

/-- What was kept is still there while the folder is changed, and when it is taken away nothing is
left of it. -/
theorem Keeps.discard {backup : Place} (h : Keeps home place former tree (some backup) kept)
    (hformer : tree.at? place = some (.folder former)) :
    (Tree.put (.folder inner) place kept).at? backup = some (.folder former)
      ∧ discardAt backup (Tree.put (.folder inner) place kept) =
        (.ok (), Tree.put (.folder inner) place tree) := by
  cases h with
  | copy free apart away =>
    have hsome : (tree.at? place).isSome := by simp [hformer]
    have hat := at?_put (.folder former) backup (Tree.put (.folder inner) place tree)
    have hfree : (Tree.put (.folder inner) place tree).Free backup := free.put hformer apart
    have hremoved := remove_put hfree (.folder former)
    rw [put_comm_of_apart apart hsome]
    refine ⟨hat, ?_⟩
    simp only [discardAt, hat, hremoved]

end Files

end ApiClients
