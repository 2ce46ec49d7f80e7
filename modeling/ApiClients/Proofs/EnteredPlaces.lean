import ApiClients.Proofs.Emptying

/-!
# Places that a path enters

A path enters the places that its steps downwards lead to.  Where a path leads after a change of the
tree depends on these places only: it leads where it led if none of them is lost
(`follow_of_entered`), and to nothing if one is (`missing_of_lost`).

A folder for output is an existing one, or a new one below an existing one.  Either can be cleared,
and clearing changes the tree inside of it only.  Of what was there just the folders remain that the
path to it enters itself (`cleared_of_outputFolder`).
-/

namespace ApiClients

namespace Tree

variable {tree after : Tree} {start place other : Place} {steps : List String}

/-! ### Places below a place -/

/-- A place strictly below another one. -/
def Below (place other : Place) : Prop := ∃ name rest, other = place ++ name :: rest

theorem eq_or_below_of_isPrefix (h : place <+: other) : other = place ∨ Below place other := by
  obtain ⟨rest, rfl⟩ := h
  cases rest with
  | nil => exact .inl (List.append_nil place)
  | cons name rest => exact .inr ⟨name, rest, rfl⟩

theorem not_below_root (place : Place) : ¬ Below place [] := by
  rintro ⟨name, rest, h⟩
  simp at h

/-- On the way to something there is something everywhere. -/
theorem isSome_of_isPrefix (h : (tree.at? place).isSome) (hway : other <+: place) :
    (tree.at? other).isSome := by
  obtain ⟨rest, rfl⟩ := hway
  rw [at?_append] at h
  cases found : tree.at? other with
  | none => simp [found] at h
  | some below => rfl

/-- Above something there is a folder. -/
theorem folder_of_below (hbelow : Below place other) (h : (tree.at? other).isSome) :
    ∃ entries, tree.at? place = some (.folder entries) := by
  obtain ⟨name, rest, rfl⟩ := hbelow
  rw [at?_append] at h
  cases found : tree.at? place with
  | none => simp [found] at h
  | some there =>
    cases there with
    | file content => simp [found] at h
    | folder entries => exact ⟨entries, rfl⟩

theorem below_empty (hempty : tree.at? place = some (.folder [])) (h : Below place other) :
    tree.at? other = none := by
  obtain ⟨name, rest, rfl⟩ := h
  simp [at?_append, hempty]

theorem below_nothing (hnone : tree.at? place = none) (h : Below place other) :
    tree.at? other = none := by
  obtain ⟨name, rest, rfl⟩ := h
  simp [at?_append, hnone]

/-- An empty folder put somewhere adds only the places on the way to it. -/
theorem isSome_of_put_empty (h : ((put (.folder []) place tree).at? other).isSome) :
    (tree.at? other).isSome ∨ other <+: place := by
  cases found : (put (.folder []) place tree).at? other with
  | none => simp [found] at h
  | some there =>
    cases there with
    | file content => simp [file_of_put_empty found]
    | folder entries =>
      rcases folder_of_put_empty found with ⟨former, hformer⟩ | hway
      · simp [hformer]
      · exact .inr hway

/-! ### Places on the way -/

/-- Some steps enter a place where one of them leads down to it. -/
def Enters (tree : Tree) (start : Place) (steps : List String) (other : Place) : Prop :=
  ∃ before name, before ++ [name] <+: steps ∧ name ≠ ".." ∧
    tree.follow start (before ++ [name]) = .found other

theorem Enters.mono {more : List String} (h : tree.Enters start steps other)
    (hway : steps <+: more) : tree.Enters start more other := by
  obtain ⟨before, name, hsteps, hdown, hfound⟩ := h
  exact ⟨before, name, hsteps.trans hway, hdown, hfound⟩

theorem Enters.isSome (h : tree.Enters start steps other) : (tree.at? other).isSome := by
  obtain ⟨before, name, -, hdown, hfound⟩ := h
  rw [follow_append] at hfound
  obtain ⟨above, -, -, hstep⟩ := found_of_step hfound
  rcases hstep with ⟨hup, -⟩ | ⟨-, -, hsome⟩
  · exact absurd hup hdown
  · exact hsome

/-- What some steps lead to, the first of them have led to something. -/
theorem found_of_append {more : List String} (h : tree.follow start (steps ++ more) = .found place) :
    ∃ before, tree.follow start steps = .found before := by
  induction more using List.reverseRecOn generalizing place with
  | nil => exact ⟨place, by simpa using h⟩
  | append_singleton more name ih =>
    rw [← List.append_assoc, follow_append] at h
    obtain ⟨above, habove, -, -⟩ := found_of_step h
    exact ih habove

/-- Steps from something lead to something. -/
theorem isSome_of_follow (hstart : (tree.at? start).isSome)
    (h : tree.follow start steps = .found place) : (tree.at? place).isSome := by
  induction steps using List.reverseRecOn generalizing place with
  | nil =>
    cases h
    exact hstart
  | append_singleton steps name ih =>
    rw [follow_append] at h
    obtain ⟨above, habove, -, hstep⟩ := found_of_step h
    rcases hstep with ⟨-, rfl⟩ | ⟨-, -, hsome⟩
    · exact isSome_of_isPrefix (ih habove) (List.dropLast_prefix above)
    · exact hsome

/-- A file that a path leads to is entered by the path. -/
theorem enters_file {entries : List (String × Tree)} {content : ByteArray}
    (hstart : tree.at? start = some (.folder entries))
    (h : tree.follow start steps = .found place) (hfile : tree.at? place = some (.file content)) :
    tree.Enters start steps place := by
  cases steps using List.reverseRecOn with
  | nil =>
    cases h
    cases hstart.symm.trans hfile
  | append_singleton steps name =>
    have hlast := h
    rw [follow_append] at hlast
    obtain ⟨above, habove, hpassed, hstep⟩ := found_of_step hlast
    rcases hstep with ⟨-, rfl⟩ | ⟨hdown, -, -⟩
    · -- A step upwards leads to a folder.
      have hsome := isSome_of_follow (by simp [hstart]) habove
      cases hat : tree.at? above with
      | none => simp [hat] at hsome
      | some below =>
        cases below with
        | file other => exact absurd hat (hpassed other)
        | folder former =>
          obtain ⟨more, hmore⟩ := folder_of_isPrefix hat (List.dropLast_prefix above)
          cases hmore.symm.trans hfile
    · exact ⟨steps, name, List.prefix_rfl, hdown, h⟩

theorem last_of_vacant (h : tree.follow start steps = .vacant place) :
    ∃ before name, steps = before ++ [name] ∧ name ≠ ".." := by
  cases steps using List.reverseRecOn with
  | nil => simp [follow] at h
  | append_singleton steps name =>
    refine ⟨steps, name, rfl, ?_⟩
    rintro rfl
    rw [follow_append] at h
    cases hbefore : tree.follow start steps with
    | found above =>
      rw [hbefore, step] at h
      split at h <;> simp at h
    | vacant _ => simp [hbefore, step] at h
    | unreached => simp [hbefore, step] at h
    | blocked => simp [hbefore, step] at h

/-! ### Paths in a changed tree -/

/-- A path whose entered places are all there after a change still leads where it led, if the change
makes no files. -/
theorem follow_of_entered
    (hfiles : ∀ {other content}, after.at? other = some (.file content) →
      tree.at? other = some (.file content))
    (h : tree.follow start steps = .found place)
    (hstay : ∀ other, tree.Enters start steps other → (after.at? other).isSome) :
    after.follow start steps = .found place := by
  induction steps using List.reverseRecOn generalizing place with
  | nil => exact h
  | append_singleton steps name ih =>
    have hlast := h
    rw [follow_append] at hlast ⊢
    obtain ⟨above, habove, hpassed, hstep⟩ := found_of_step hlast
    rw [ih habove fun other henters => hstay other (henters.mono (List.prefix_append _ _))]
    have hpassed' : after.NoFile above := fun content hat => hpassed content (hfiles hat)
    rcases hstep with ⟨rfl, rfl⟩ | ⟨hdown, rfl, -⟩
    · cases hat : after.at? above with
      | none => simp [step, hat]
      | some below =>
        cases below with
        | file content => exact absurd hat (hpassed' content)
        | folder entries => simp [step, hat]
    · have hsome := hstay _ ⟨steps, name, List.prefix_rfl, hdown, h⟩
      rw [at?_append] at hsome
      cases hat : after.at? above with
      | none => simp [hat] at hsome
      | some below =>
        cases below with
        | file content => exact absurd hat (hpassed' content)
        | folder entries =>
          have hhas : Entries.has entries name := by
            cases hchild : Entries.get? entries name with
            | none => simp [hat, at?_cons, Tree.entries, hchild] at hsome
            | some child => exact Entries.has_iff_get?.mpr ⟨child, hchild⟩
          simp [step, hat, hdown, hhas]

/-- Where a path still leads somewhere in a part of the tree, everything that it enters in the tree
is in that part. -/
theorem isSome_of_entered (hpart : PartOf after tree)
    (hstart : ∀ above, above <+: start → tree.NoFile above)
    (h : after.follow start steps = .found place) (henters : tree.Enters start steps other) :
    (after.at? other).isSome := by
  obtain ⟨before, name, ⟨more, rfl⟩, hdown, hfound⟩ := henters
  obtain ⟨there, hthere⟩ := found_of_append h
  have hsame := (follow_of_partOf hpart hstart hthere).1
  cases hfound.symm.trans hsame
  have hafter : after.Enters start (before ++ [name]) other :=
    ⟨before, name, List.prefix_rfl, hdown, hthere⟩
  exact hafter.isSome

/-- A path that enters a place which is lost in a part of the tree leads to nothing there. -/
theorem missing_of_lost (hpart : PartOf after tree)
    (hstart : ∀ above, above <+: start → tree.NoFile above)
    (h : tree.follow start steps = .found place) (henters : tree.Enters start steps other)
    (hlost : after.at? other = none) :
    (∃ vacant, after.follow start steps = .vacant vacant)
      ∨ after.follow start steps = .unreached := by
  have hnarrows := follow_narrows hpart start steps (by simp [h])
  cases hafter : after.follow start steps with
  | found there =>
    have hsome := isSome_of_entered hpart hstart hafter henters
    simp [hlost] at hsome
  | vacant there => exact .inl ⟨there, rfl⟩
  | unreached => exact .inr rfl
  | blocked =>
    rw [hafter] at hnarrows
    exact hnarrows.elim

/-- Behind a vacant place nothing is reached. -/
theorem unreached_of_vacant {more : List String} {name : String}
    (h : tree.follow start steps = .vacant place) :
    tree.follow start (steps ++ more ++ [name]) = .unreached := by
  induction more using List.reverseRecOn generalizing name with
  | nil => simp [follow_append, h, step]
  | append_singleton more last ih =>
    rw [follow_append, ← List.append_assoc, ih]
    rfl

/-- A folder put at a vacant place is what the path leads to. -/
theorem follow_put_of_vacant (hstart : (tree.at? start).isSome)
    (h : tree.follow start steps = .vacant place) :
    (put (.folder []) place tree).follow start steps = .found place := by
  obtain ⟨before, name, rfl, hdown⟩ := last_of_vacant h
  have hgrown := (free_of_vacant h).partOf_put (.folder [])
  rw [follow_append] at h ⊢
  cases hbefore : tree.follow start before with
  | found above =>
    have hsome := isSome_of_follow hstart hbefore
    have habove : (put (.folder []) place tree).follow start before = .found above :=
      follow_of_entered file_of_put_empty hbefore fun other henters => hgrown.isSome henters.isSome
    rw [hbefore, step] at h
    cases hat : tree.at? above with
    | none => simp [hat] at hsome
    | some below =>
      cases below with
      | file content => simp [hat] at h
      | folder entries =>
        by_cases hhas : Entries.has entries name
        · simp [hat, hdown, hhas] at h
        · simp only [hat, hdown, hhas, if_false, Target.vacant.injEq, Bool.false_eq_true] at h
          subst h
          obtain ⟨more, hmore⟩ := hgrown.folders hat
          have hchild := at?_put (.folder []) (above ++ [name]) tree
          rw [at?_append, hmore, Option.bind_some, at?_cons, Tree.entries] at hchild
          have hhas' : Entries.has more name := by
            cases hget : Entries.get? more name with
            | none => simp [hget] at hchild
            | some child => exact Entries.has_iff_get?.mpr ⟨child, hget⟩
          rw [habove]
          simp [step, hmore, hdown, hhas']
  | vacant _ => simp [hbefore, step] at h
  | unreached => simp [hbefore, step] at h
  | blocked => simp [hbefore, step] at h

end Tree

namespace Files

open ApiClients.Tree

variable {home place other : Place} {path : Path} {tree after : Tree} {start : PathStart}
  {former : List (String × Tree)}

/-- Where paths start. -/
def origin (home : Place) (start : PathStart) : Place := if start = .here then home else []

theorem target_eq (home : Place) (path : Path) (tree : Tree) :
    target home path tree = tree.follow (origin home path.start) path.steps := rfl

/-- The places that a path enters. -/
def Entered (home : Place) (path : Path) (tree : Tree) (other : Place) : Prop :=
  tree.Enters (origin home path.start) path.steps other

theorem origin_isPrefix (home : Place) (start : PathStart) : origin home start <+: home := by
  rw [origin]
  split
  · exact List.prefix_rfl
  · exact List.nil_prefix

theorem folder_origin {entries : List (String × Tree)}
    (hhome : tree.at? home = some (.folder entries)) (start : PathStart) :
    ∃ more, tree.at? (origin home start) = some (.folder more) :=
  folder_of_isPrefix hhome (origin_isPrefix home start)

theorem noFile_origin {entries : List (String × Tree)}
    (hhome : tree.at? home = some (.folder entries)) (start : PathStart) :
    ∀ above, above <+: origin home start → tree.NoFile above := by
  intro above hway
  obtain ⟨more, hmore⟩ := folder_of_isPrefix hhome (hway.trans (origin_isPrefix home start))
  exact noFile_of_folder hmore

/-! ### Folders for output -/

/-- A path names a folder for output. -/
inductive OutputFolder (home : Place) (path : Path) (tree : Tree) : Place → Prop
  /-- An existing folder.  Where the path starts inside of it, it goes through nothing else there. -/
  | existing {place : Place} {former : List (String × Tree)}
      (leads : target home path tree = .found place)
      (folder : tree.at? place = some (.folder former))
      (outward : Below place (origin home path.start) →
        ∀ other, Below place other → ¬ Entered home path tree other) :
      OutputFolder home path tree place
  /-- A new folder, down from a vacant place. -/
  | new {before below : List String} {place : Place}
      (steps : path.steps = before ++ below)
      (vacant : tree.follow (origin home path.start) before = .vacant place)
      (down : ".." ∉ below) :
      OutputFolder home path tree (place ++ below)

/-- A tree with the folder for output cleared. -/
structure Cleared (home : Place) (path : Path) (tree : Tree) (place : Place) (after : Tree) :
    Prop where
  run : clearAt home path tree = (.ok (), after)
  leads : target home path after = .found place
  /-- The files that there were are still there, except inside the folder. -/
  kept : ∀ {other content}, ¬ Below place other → tree.at? other = some (.file content) →
    after.at? other = some (.file content)
  stays : ∀ {other}, ¬ Below place other → (tree.at? other).isSome → (after.at? other).isSome
  files : ∀ {other content}, after.at? other = some (.file content) →
    tree.at? other = some (.file content)
  folder : ∃ inner, after.at? place = some (.folder inner)
  /-- The folder holds just what the path to it enters. -/
  inside : ∀ {other}, Below place other →
    ((after.at? other).isSome ↔ Entered home path tree other)
  hollowed : ∀ {former}, tree.at? place = some (.folder former) → Hollowed place tree after

/-! ### Clearing an existing folder -/

theorem Hollowed.isSome (h : Hollowed place tree after)
    (hformer : tree.at? place = some (.folder former)) (hbeside : ¬ Below place other)
    (hother : (tree.at? other).isSome) : (after.at? other).isSome := by
  obtain ⟨inner, rfl⟩ := h.inside
  cases hlost : (Tree.put (.folder inner) place tree).at? other with
  | some there => rfl
  | none =>
    rcases eq_or_below_of_isPrefix (isPrefix_of_lost hformer hother hlost) with rfl | hbelow
    · simp [at?_put] at hlost
    · exact absurd hbelow hbeside

/-- A folder that is made after the emptying is one that the path enters in the whole tree. -/
theorem makeLast_runs (h : Hollowed place tree after)
    (hpath : target home path tree = .found other) (hother : tree.NoFile other)
    (horigin : (after.at? (origin home path.start)).isSome)
    (hreached : target home path after ≠ .unreached) :
    ∃ made, makeLast home path after = (.ok (), made) ∧
      ∀ inner, (made.at? inner).isSome →
        (after.at? inner).isSome ∨ Entered home path tree inner := by
  have hnarrows := target_narrows h.part home path (by simp [hpath])
  rw [hpath] at hnarrows
  cases hafter : target home path after with
  | found there =>
    rw [hafter] at hnarrows
    cases hnarrows
    have hsome : (after.at? other).isSome := isSome_of_follow horigin hafter
    cases hat : after.at? other with
    | none => simp [hat] at hsome
    | some below =>
      cases below with
      | file content => exact absurd (h.part.files hat) (hother content)
      | folder entries =>
        exact ⟨after, by simp [makeLast, found?, hafter, hat], fun inner hinner => .inl hinner⟩
  | vacant there =>
    rw [hafter] at hnarrows
    have hsame : there = other := by
      rcases hnarrows with ⟨hsame, -⟩ | hsame
      · cases hsame
        rfl
      · cases hsame
    subst hsame
    refine ⟨Tree.put (.folder []) there after, by simp [makeLast, found?, hafter], ?_⟩
    intro inner hinner
    rcases isSome_of_put_empty hinner with hbefore | hway
    · exact .inl hbefore
    · obtain ⟨above, entries, name, rfl, habove, -⟩ := free_of_vacant hafter
      rcases List.prefix_concat_iff.mp hway with rfl | hway
      · obtain ⟨before, last, hsteps, hdown⟩ := last_of_vacant hafter
        rw [target_eq, hsteps] at hpath
        exact .inr ⟨before, last, hsteps ▸ List.prefix_rfl, hdown, hpath⟩
      · obtain ⟨more, hmore⟩ := folder_of_isPrefix habove hway
        exact .inl (by simp [hmore])
  | unreached => exact absurd hafter hreached
  | blocked =>
    rw [hafter] at hnarrows
    exact hnarrows.elim

/-- Every folder on a path that led to a folder before the emptying can be made again. -/
theorem makeFolder_runs {steps : List String} (hformer : tree.at? place = some (.folder former))
    (horigin : ∃ entries, tree.at? (origin home start) = some (.folder entries))
    (hbeside : ¬ Below place (origin home start)) (h : Hollowed place tree after)
    (hpath : target home ⟨start, steps.reverse⟩ tree = .found other) (hother : tree.NoFile other) :
    ∃ made, makeFolder home start steps after = (.ok (), made) ∧
      ∀ inner, (made.at? inner).isSome →
        (after.at? inner).isSome ∨ tree.Enters (origin home start) steps.reverse inner := by
  induction steps generalizing other with
  | nil => exact ⟨after, rfl, fun inner hinner => .inl hinner⟩
  | cons name before ih =>
    have hthere : ∀ {hollow}, Hollowed place tree hollow →
        (hollow.at? (origin home start)).isSome := by
      intro hollow hhollow
      obtain ⟨entries, hentries⟩ := horigin
      exact hhollow.isSome hformer hbeside (by simp [hentries])
    rw [makeFolder]
    by_cases hreached : target home ⟨start, (name :: before).reverse⟩ after = .unreached
    · -- The folder above is made first, and from there the last step leads somewhere.
      have hsteps := hpath
      rw [target_eq, List.reverse_cons] at hsteps
      obtain ⟨above, habove, hpassed⟩ := follow_of_append hsteps hother
      obtain ⟨reached, hrun, hgrown⟩ := ih habove hpassed
      obtain ⟨hhollow, hleads⟩ := makeFolder_ok hformer h habove hpassed hrun
      have hsome : (reached.at? above).isSome := isSome_of_follow (hthere hhollow) hleads
      have hnow : target home ⟨start, (name :: before).reverse⟩ reached ≠ .unreached := by
        rw [target_eq, List.reverse_cons, follow_append]
        rw [target_eq] at hleads
        rw [hleads]
        cases hat : reached.at? above with
        | none => simp [hat] at hsome
        | some below =>
          cases below with
          | file content => simp [step, hat]
          | folder entries => simp only [step, hat]; split <;> (try split) <;> simp
      obtain ⟨made, hmade, hlast⟩ := makeLast_runs hhollow hpath hother (hthere hhollow) hnow
      simp only [hreached, if_true, hrun]
      refine ⟨made, hmade, fun inner hinner => ?_⟩
      rcases hlast inner hinner with hinner | hentered
      · rcases hgrown inner hinner with hinner | hentered
        · exact .inl hinner
        · exact .inr (hentered.mono (by simp))
      · exact .inr hentered
    · obtain ⟨made, hmade, hlast⟩ := makeLast_runs h hpath hother (hthere h) hreached
      simp only [hreached, if_false]
      exact ⟨made, hmade, hlast⟩

/-- A folder is cleared once the emptied tree, or that with folders on the path made again, is
reached. -/
theorem cleared_of_hollowed {entries : List (String × Tree)}
    (hhome : tree.at? home = some (.folder entries))
    (hformer : tree.at? place = some (.folder former))
    (hleads : target home path tree = .found place)
    (hrun : clearAt home path tree = (.ok (), after))
    (hgrown : ∀ inner, Below place inner → (after.at? inner).isSome →
      Entered home path tree inner) :
    Cleared home path tree place after := by
  obtain ⟨hafter, hstill⟩ := hollowed_of_clearAt hleads hformer hrun
  have hstays : ∀ {other}, ¬ Below place other → (tree.at? other).isSome →
      (after.at? other).isSome := fun hbeside hother => hafter.isSome hformer hbeside hother
  refine
    { run := hrun
      leads := hstill
      kept := ?_
      stays := hstays
      files := hafter.part.files
      folder := ?_
      inside := ?_
      hollowed := fun _ => hafter }
  · intro other content hbeside hfile
    have hsome := hstays hbeside (by simp [hfile])
    cases hat : after.at? other with
    | none => simp [hat] at hsome
    | some there =>
      cases there with
      | file content' => rw [← hfile, hafter.part.files hat]
      | folder inner =>
        obtain ⟨more, hmore⟩ := hafter.part.folders hat
        cases hmore.symm.trans hfile
  · obtain ⟨inner, rfl⟩ := hafter.inside
    exact ⟨inner, at?_put _ _ _⟩
  · intro other hbelow
    refine ⟨hgrown other hbelow, fun hentered => ?_⟩
    exact isSome_of_entered hafter.part (noFile_origin hhome path.start) hstill hentered

theorem cleared_of_existing {entries : List (String × Tree)}
    (hhome : tree.at? home = some (.folder entries))
    (hleads : target home path tree = .found place)
    (hformer : tree.at? place = some (.folder former))
    (houtward : Below place (origin home path.start) →
      ∀ other, Below place other → ¬ Entered home path tree other) :
    ∃ after, Cleared home path tree place after := by
  by_cases hstart : Below place (origin home path.start)
  · -- The path goes through nothing inside the folder: nothing is made again.
    have hstill : target home path (emptied place tree) = .found place := by
      refine follow_of_entered file_of_put_empty hleads fun other hentered => ?_
      exact (Hollowed.empty hformer).isSome hformer
        (fun hbelow => houtward hstart other hbelow hentered) hentered.isSome
    refine ⟨_, cleared_of_hollowed hhome hformer hleads
      (clearAt_of_lasting hleads hformer hstill) ?_⟩
    intro inner hbelow hsome
    rw [below_empty (at?_emptied place tree) hbelow] at hsome
    cases hsome
  · have hpath : target home ⟨path.start, path.steps.reverse.reverse⟩ tree = .found place := by
      rwa [List.reverse_reverse]
    obtain ⟨made, hmade, hgrown⟩ := makeFolder_runs hformer (folder_origin hhome path.start) hstart
      (.empty hformer) hpath (noFile_of_folder hformer)
    have hrun : clearAt home path tree = (.ok (), made) := by
      rw [clearAt, refillAt_found hleads hformer, ← emptied, hmade]
    refine ⟨made, cleared_of_hollowed hhome hformer hleads hrun ?_⟩
    intro inner hbelow hsome
    rcases hgrown inner hsome with hbefore | hentered
    · rw [below_empty (at?_emptied place tree) hbelow] at hbefore
      cases hbefore
    · rwa [List.reverse_reverse] at hentered

/-! ### Making a new folder -/

theorem nothing_of_new {before below : List String}
    (hvacant : tree.follow (origin home start) before = .vacant place) :
    tree.at? (place ++ below) = none := by
  rw [at?_append, (free_of_vacant hvacant).at?_eq, Option.bind_none]

/-- A new folder is made with all folders on the way, and nothing else changes. -/
theorem makeFolder_new {before below : List String}
    (horigin : (tree.at? (origin home start)).isSome)
    (hvacant : tree.follow (origin home start) before = .vacant place) (hdown : ".." ∉ below) :
    ∃ made, makeFolder home start (before ++ below).reverse tree = (.ok (), made) ∧
      target home ⟨start, before ++ below⟩ made = .found (place ++ below) ∧
      made.at? (place ++ below) = some (.folder []) ∧ PartOf tree made ∧
      ∀ {other content}, made.at? other = some (.file content) →
        tree.at? other = some (.file content) := by
  induction below using List.reverseRecOn with
  | nil =>
    obtain ⟨steps, name, rfl, -⟩ := last_of_vacant hvacant
    refine ⟨Tree.put (.folder []) place tree, ?_, ?_, ?_, (free_of_vacant hvacant).partOf_put _,
      file_of_put_empty⟩
    · have hpath : target home ⟨start, steps ++ [name]⟩ tree = .vacant place := hvacant
      simp [makeFolder, makeLast, hpath, found?]
    · simpa [target_eq] using follow_put_of_vacant horigin hvacant
    · simpa using at?_put (.folder []) place tree
  | append_singleton below name ih =>
    rw [List.mem_append, not_or, List.mem_singleton] at hdown
    obtain ⟨reached, hrun, hleads, hempty, hpart, hfiles⟩ := ih hdown.1
    have hunreached : target home ⟨start, before ++ below ++ [name]⟩ tree = .unreached :=
      unreached_of_vacant hvacant
    have hnext : target home ⟨start, before ++ below ++ [name]⟩ reached =
        .vacant (place ++ below ++ [name]) := by
      rw [target_eq] at hleads
      rw [target_eq, follow_append, hleads]
      simp [step, hempty, Entries.has, Ne.symm hdown.2]
    refine ⟨Tree.put (.folder []) (place ++ below ++ [name]) reached, ?_, ?_, ?_,
      hpart.trans ((free_of_vacant hnext).partOf_put _), fun hfile => hfiles (file_of_put_empty hfile)⟩
    · rw [← List.append_assoc, List.reverse_append, List.reverse_singleton, List.singleton_append,
        makeFolder]
      simp only [List.reverse_cons, List.reverse_reverse, hunreached, if_true, hrun]
      simp only [makeLast, hnext, found?]
    · rw [← List.append_assoc, ← List.append_assoc]
      exact follow_put_of_vacant (hpart.isSome horigin) hnext
    · rw [← List.append_assoc]
      exact at?_put _ _ _

theorem target_of_new {before below : List String} (hsteps : path.steps = before ++ below)
    (hvacant : tree.follow (origin home path.start) before = .vacant place) :
    target home path tree = .vacant place ∨ target home path tree = .unreached := by
  rw [target_eq, hsteps]
  cases below using List.reverseRecOn with
  | nil => exact .inl (by rwa [List.append_nil])
  | append_singleton below name =>
    rw [← List.append_assoc]
    exact .inr (unreached_of_vacant hvacant)

theorem found?_of_new {before below : List String} (hsteps : path.steps = before ++ below)
    (hvacant : tree.follow (origin home path.start) before = .vacant place) :
    found? home path tree = none := by
  rcases target_of_new hsteps hvacant with hpath | hpath <;> simp [found?, hpath]

theorem cleared_of_new {before below : List String} {entries : List (String × Tree)}
    (hhome : tree.at? home = some (.folder entries)) (hsteps : path.steps = before ++ below)
    (hvacant : tree.follow (origin home path.start) before = .vacant place)
    (hdown : ".." ∉ below) :
    ∃ after, Cleared home path tree (place ++ below) after := by
  have horigin : (tree.at? (origin home path.start)).isSome := by
    obtain ⟨more, hmore⟩ := folder_origin hhome path.start
    simp [hmore]
  obtain ⟨made, hmade, hleads, hempty, hpart, hfiles⟩ := makeFolder_new horigin hvacant hdown
  rw [← hsteps] at hmade hleads
  have hrestore : refillAt home path [] tree = tree := by
    simp [refillAt, found?_of_new hsteps hvacant]
  have hnone : tree.at? (place ++ below) = none := nothing_of_new hvacant
  refine ⟨made,
    { run := ?_
      leads := hleads
      kept := fun _ => hpart.files
      stays := fun _ => hpart.isSome
      files := hfiles
      folder := ⟨[], hempty⟩
      inside := ?_
      hollowed := ?_ }⟩
  · rw [clearAt, hrestore, hmade]
  · intro other hother
    rw [below_empty hempty hother]
    refine ⟨by simp, fun hentered => ?_⟩
    have hsome := hentered.isSome
    rw [below_nothing hnone hother] at hsome
    cases hsome
  · intro former hformer
    cases hnone.symm.trans hformer

/-- What stands inside a folder for output after the clearing are folders that were there. -/
theorem Cleared.folder_of_inside (h : Cleared home path tree place after)
    (hbelow : Below place other) (hsome : (after.at? other).isSome) :
    ∃ inner former, after.at? other = some (.folder inner) ∧
      tree.at? other = some (.folder former) := by
  obtain ⟨former, hformer⟩ := folder_of_below hbelow ((h.inside hbelow).mp hsome).isSome
  have hhollow := h.hollowed hformer
  cases hat : after.at? other with
  | none => simp [hat] at hsome
  | some there =>
    cases there with
    | file content =>
      obtain ⟨name, rest, rfl⟩ := hbelow
      exact absurd hat (hhollow.hollow (name :: rest) content)
    | folder inner =>
      obtain ⟨before, hbefore⟩ := hhollow.part.folders hat
      exact ⟨inner, before, rfl, hbefore⟩

/-- A folder for output can be cleared. -/
theorem cleared_of_outputFolder {entries : List (String × Tree)}
    (hhome : tree.at? home = some (.folder entries)) (h : OutputFolder home path tree place) :
    ∃ after, Cleared home path tree place after := by
  cases h with
  | existing leads folder outward => exact cleared_of_existing hhome leads folder outward
  | new steps vacant down => exact cleared_of_new hhome steps vacant down

end Files

end ApiClients
