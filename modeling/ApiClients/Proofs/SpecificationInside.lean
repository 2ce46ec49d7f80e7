import ApiClients.Proofs.OutputFolder

/-!
# A specification file inside the output folder

A command that can produce something from its specification file clears the output folder before it
reads that file.  It is complete exactly if the clearing spares the file, leaves no folder where the
manifest is to be written and leaves the backup alone (`complete_iff_spared`).  The clearing spares
the file if the path to it enters nothing inside the output folder that the path to the folder does
not enter as well; a new folder holds nothing that a path could enter.  Otherwise the command says
that the specification file is missing, although it was there before and is there again afterwards,
as one inside of the output folder always is (`specification_lost`).  The backup is lost if the
output folder holds the folder for temporary files or is that folder (`not_complete_of_unsheltered`).
-/

namespace ApiClients.Command

open Files ApiClients.Tree

variable {home place there : Place} {tree kept after : Tree} {choices : Choices} {product : Product}
  {entries former : List (String × Tree)} {temporary : Temporary} {backup : Option Place}

/-! ### Lines about a missing specification file -/

theorem notMem_journalLines (choices : Choices) (journal : Journal) (path : Path) :
    troubleLine (.noSpecification path) ∉ journalLines choices journal := by
  intro h
  obtain ⟨event, -, hline⟩ := List.mem_map.mp h
  have hletters := congrArg String.toList hline
  cases hlevel : event.level <;>
    simp [Event.line, hlevel, Level.label, troubleLine, String.toList_append] at hletters

theorem notMem_failureLines (report : Report) (path : Path) :
    troubleLine (.noSpecification path) ∉ failureLines report := by
  intro h
  unfold failureLines at h
  split at h
  · rcases List.mem_cons.mp h with hline | hline
    · have hletters := congrArg String.toList hline
      simp [troubleLine, String.toList_append] at hletters
    · obtain ⟨failure, -, hline⟩ := List.mem_map.mp hline
      have hletters := congrArg String.toList hline
      simp [troubleLine, String.toList_append] at hletters
  · cases h

theorem notMem_completed (choices : Choices) (production : Production) (product : Product)
    (path : Path) :
    troubleLine (.noSpecification path) ∉ (completed choices production product).outcome.errors := by
  change _ ∉ journalLines choices production.journal ++ failureLines product.report
  rw [List.mem_append, not_or]
  exact ⟨notMem_journalLines choices _ path, notMem_failureLines _ path⟩

theorem missing_ne_isFolder (path other : Path) :
    troubleLine (.noSpecification path) ≠ troubleLine (.files (.isFolder other)) := by
  intro h
  have hsame : "Error: " ++ ("Specification file not found: " ++ path.text) =
      "Error: " ++ ("[Errno 21] Is a directory: " ++ Text.quoted other.text) := h
  simp [String.ext_iff] at hsame

theorem errors_givenUp (choices : Choices) (backup : Option Place) (made : Production)
    (trouble : Trouble) :
    (givenUp choices backup made trouble).outcome.errors =
      journalLines choices made.journal ++ restoreLines backup ++ [troubleLine trouble] := rfl

/-- A command that gives up says why, and nothing else about a missing specification file. -/
theorem notMem_givenUp {made : Production} {trouble : Trouble} {path : Path}
    (hother : troubleLine (.noSpecification path) ≠ troubleLine trouble) :
    troubleLine (.noSpecification path) ∉
      (givenUp choices backup made trouble).outcome.errors := by
  rw [errors_givenUp]
  simp only [List.mem_append, List.mem_singleton, not_or]
  refine ⟨⟨notMem_journalLines choices _ path, fun hline => ?_⟩, hother⟩
  unfold restoreLines at hline
  split at hline
  · have hsame : "Error: " ++ ("Specification file not found: " ++ path.text) =
        "Error: Generation failed. Restoring original content." := List.mem_singleton.mp hline
    simp [String.ext_iff] at hsame
  · cases hline

/-! ### The specification file in a cleared tree -/

/-- The clearing of the output folder spares the specification file. -/
def Spared (home : Place) (choices : Choices) (tree : Tree) (place : Place) : Prop :=
  ∀ other, Below place other → Entered home choices.specification tree other →
    Entered home choices.output tree other

theorem contentAt_found {path : Path} {content : ByteArray}
    (hpath : target home path tree = .found there) (hfile : tree.at? there = some (.file content)) :
    contentAt home path tree = .ok content := by
  simp [contentAt, found?, hpath, hfile]

/-- A file inside the output folder is not spared. -/
theorem not_spared_of_below {content : ByteArray} (hhome : tree.at? home = some (.folder entries))
    (hcleared : Cleared home choices.output tree place after)
    (hpath : target home choices.specification tree = .found there)
    (hfile : tree.at? there = some (.file content)) (hbelow : Below place there) :
    ¬ Spared home choices tree place := by
  intro hspared
  obtain ⟨more, horigin⟩ := folder_origin hhome choices.specification.start
  have hentered := hspared there hbelow (enters_file horigin hpath hfile)
  obtain ⟨-, inner, -, hfolder⟩ :=
    hcleared.folder_of_inside hbelow ((hcleared.inside hbelow).mpr hentered)
  cases hfolder.symm.trans hfile

/-- What comes of a specification file that is spared comes of it after the clearing. -/
theorem productionIn_of_spared (hhome : tree.at? home = some (.folder entries))
    (hcleared : Cleared home choices.output tree place after)
    (hproduct : (productionIn home choices tree).result = .ok product)
    (hspared : Spared home choices tree place) :
    productionIn home choices after = productionIn home choices tree := by
  obtain ⟨there, content, hpath, hfile⟩ := file_of_production hproduct
  have hstay : ∀ other, Entered home choices.specification tree other →
      (after.at? other).isSome := by
    intro other hentered
    by_cases hbelow : Below place other
    · exact (hcleared.inside hbelow).mpr (hspared other hbelow hentered)
    · exact hcleared.stays hbelow hentered.isSome
  have hstill : target home choices.specification after = .found there :=
    follow_of_entered hcleared.files hpath hstay
  have hbeside : ¬ Below place there := fun hbelow =>
    not_spared_of_below hhome hcleared hpath hfile hbelow hspared
  apply productionIn_congr
  rw [contentAt_found hstill (hcleared.kept hbeside hfile), contentAt_found hpath hfile]

/-- A specification file that is not spared is missing after the clearing. -/
theorem contentAt_of_not_spared (hhome : tree.at? home = some (.folder entries))
    (hcleared : Cleared home choices.output tree place after)
    (hpath : target home choices.specification tree = .found there)
    (hlost : ¬ Spared home choices tree place) :
    (∃ former, tree.at? place = some (.folder former)) ∧
      contentAt home choices.specification after = .error (.missing choices.specification) := by
  simp only [Spared, not_forall] at hlost
  obtain ⟨other, hbelow, hentered, hunentered⟩ := hlost
  obtain ⟨former, hformer⟩ := folder_of_below hbelow hentered.isSome
  have hgone : after.at? other = none := by
    rw [← hcleared.inside hbelow] at hunentered
    simpa using hunentered
  refine ⟨⟨former, hformer⟩, ?_⟩
  rcases missing_of_lost (hcleared.hollowed hformer).part
    (noFile_origin hhome choices.specification.start) hpath hentered hgone with
    ⟨vacant, hafter⟩ | hafter
  · have hnow : target home choices.specification after = .vacant vacant := hafter
    simp [contentAt, found?, hnow]
  · have hnow : target home choices.specification after = .unreached := hafter
    simp [contentAt, found?, hnow]

/-- A path without steps upwards enters nothing beyond where it leads. -/
theorem isPrefix_of_entered {path : Path} {other : Place} (hsteps : ".." ∉ path.steps)
    (hpath : target home path tree = .found there) (hentered : Entered home path tree other) :
    other <+: there := by
  obtain ⟨before, name, hway, -, hfound⟩ := hentered
  have hbefore : ".." ∉ before ++ [name] := fun hup => hsteps (hway.subset hup)
  rw [follow_descending hbefore hfound, follow_descending hsteps hpath]
  exact (List.prefix_append_right_inj _).mpr hway

/-- A specification file at the end of a path without steps upwards is spared exactly if it is not
inside the output folder. -/
theorem spared_iff_of_descending {content : ByteArray}
    (hhome : tree.at? home = some (.folder entries))
    (hcleared : Cleared home choices.output tree place after)
    (hpath : target home choices.specification tree = .found there)
    (hfile : tree.at? there = some (.file content))
    (hsteps : ".." ∉ choices.specification.steps) :
    Spared home choices tree place ↔ ¬ Below place there := by
  constructor
  · intro hspared hbelow
    exact not_spared_of_below hhome hcleared hpath hfile hbelow hspared
  · rintro hbeside other ⟨name, rest, rfl⟩ hentered
    obtain ⟨more, rfl⟩ := isPrefix_of_entered hsteps hpath hentered
    exact absurd ⟨name, rest ++ more, by simp⟩ hbeside

/-! ### Backups of an output folder -/

/-- A backup can be made of what a folder holds, and it outlasts the clearing of that folder. -/
def Sheltered (home : Place) (temporary : Temporary) (tree : Tree) (place : Place) : Prop :=
  ∀ former, tree.at? place = some (.folder former) → former ≠ [] →
    temporary.Shelters home tree place

/-- What the command has done before it clears the output folder: either nothing, for the folder is
new, or what it holds is kept. -/
inductive Prepared (home place : Place) (tree : Tree) : Option Place → Tree → Prop
  | new (nothing : tree.at? place = none) : Prepared home place tree none tree
  | existing {former : List (String × Tree)} {backup : Option Place} {kept : Tree}
      (folder : tree.at? place = some (.folder former))
      (keeps : Keeps home place former tree backup kept) : Prepared home place tree backup kept

theorem prepared_of_sheltered (hfolder : OutputFolder home choices.output tree place)
    (h : Sheltered home temporary tree place) :
    ∃ backup kept, keepAt home temporary choices.output tree = (.ok backup, kept) ∧
      Prepared home place tree backup kept := by
  cases hfolder with
  | @existing _ former leads folder outward =>
    obtain ⟨backup, kept, hkeep, hkeeps⟩ := keeps_of_shelters leads folder (h former folder)
    exact ⟨backup, kept, hkeep, .existing folder hkeeps⟩
  | new steps vacant down =>
    refine ⟨none, tree, ?_, .new (nothing_of_new vacant)⟩
    simp [keepAt, entriesAt, found?_of_new steps vacant]

/-- The paths of the command and what comes of the specification file are the same beside a backup. -/
theorem Prepared.same (h : Prepared home place tree backup kept)
    (hhome : tree.at? home = some (.folder entries))
    (hpath : target home choices.specification tree = .found there)
    (hfolder : OutputFolder home choices.output tree place) :
    (∃ more, kept.at? home = some (.folder more))
      ∧ OutputFolder home choices.output kept place
      ∧ productionIn home choices kept = productionIn home choices tree
      ∧ (∀ other, Entered home choices.output kept other ↔ Entered home choices.output tree other)
      ∧ (Spared home choices kept place ↔ Spared home choices tree place) := by
  cases h with
  | new nothing => exact ⟨⟨entries, hhome⟩, hfolder, rfl, fun _ => .rfl, .rfl⟩
  | existing folder keeps =>
    have hleads : target home choices.output tree = .found place := by
      cases hfolder with
      | existing leads => exact leads
      | new steps vacant => cases folder.symm.trans (nothing_of_new vacant)
    have houtput : OutputFolder home choices.output kept place := by
      cases keeps with
      | nothing empty => exact hfolder
      | copy free apart away => exact outputFolder_put_of_free free away hleads hfolder _
    refine ⟨keeps.partOf.folders hhome, houtput, productionIn_congr (keeps.leads folder hpath).2,
      fun other => keeps.entered hleads, ?_⟩
    simp only [Spared, keeps.entered hpath, keeps.entered hleads]

/-- A command that gives up ends with the trouble it met, and leaves an output folder that was there as
it was. -/
theorem Prepared.giveUp_putAway (h : Prepared home place tree backup kept)
    (hcleared : Cleared home choices.output kept place after) (temporary : Temporary)
    (made : Production) (trouble : Trouble) :
    ∃ last final,
      (giveUp (inMemory home temporary) choices backup made trouble).run after =
        (givenUp choices backup made trouble, last)
      ∧ (putAway (inMemory home temporary) choices backup
          (givenUp choices backup made trouble)).run last =
        ((givenUp choices backup made trouble).outcome, final)
      ∧ ((tree.at? place).isSome → final = tree) := by
  cases h with
  | new nothing =>
    refine ⟨after, after, ?_, rfl, fun hsome => ?_⟩
    · simp only [giveUp, givenUp, restoreLines, Option.isSome_none, Bool.false_eq_true, if_false]
      rfl
    · simp [nothing] at hsome
  | @existing former _ _ folder keeps =>
    have hkept : kept.at? place = some (.folder former) := keeps.at?_place.trans folder
    have haway := putAway_ends keeps folder temporary choices (givenUp choices backup made trouble)
      former
    rw [put_at? hkept, put_at? folder] at haway
    exact ⟨kept, tree,
      giveUp_run keeps folder hcleared.leads (hcleared.hollowed hkept) made trouble, haway,
      fun _ => rfl⟩

/-- A command that has written its product is complete, whatever else it leaves. -/
theorem Prepared.completed_putAway (h : Prepared home place tree backup kept)
    (hcleared : Cleared home choices.output kept place after)
    (hwrites : Writes home choices after product) (temporary : Temporary) :
    ∃ final, (putAway (inMemory home temporary) choices backup
        (completed choices (productionIn home choices after) product)).run
          (writeProduct home choices product after).2 =
      ((completed choices (productionIn home choices after) product).outcome, final) := by
  cases h with
  | new nothing => exact ⟨_, rfl⟩
  | @existing former _ _ folder keeps =>
    have hkept : kept.at? place = some (.folder former) := keeps.at?_place.trans folder
    obtain ⟨inner, rfl⟩ := (hcleared.hollowed hkept).inside
    rw [writeProduct_run hcleared.leads (at?_put _ _ _) hwrites, put_append]
    exact ⟨_, putAway_ends keeps folder temporary choices _ (withProduct product inner)⟩

/-! ### A command that can produce something -/

/-- A product comes of the specification file of a command.  The text of that file escapes no half of a
surrogate pair alone: such halves could not be written to a file again, and where they are read they
are replaced (`Json.unitChar`). -/
structure Produces (home : Place) (choices : Choices) (tree : Tree) (product : Product) : Prop where
  made : (productionIn home choices tree).result = .ok product
  whole : ∀ {content text}, contentAt home choices.specification tree = .ok content →
    String.fromUTF8? content = some text → Json.Whole text

/-- Such a command gets to fill the cleared folder. -/
theorem run_of_cleared (hproduct : (productionIn home choices tree).result = .ok product)
    (houtput : choices.lacks .output = false)
    (hfolder : OutputFolder home choices.output tree place)
    (hkeep : keepAt home temporary choices.output tree = (.ok backup, kept))
    (hcleared : Cleared home choices.output kept place after) :
    (run (inMemory home temporary) choices).run tree =
      let filled := (fillOutput (inMemory home temporary) choices backup).run after
      (putAway (inMemory home temporary) choices backup filled.1).run filled.2 := by
  obtain ⟨there, content, hpath, hfile⟩ := file_of_production hproduct
  have hseen : sightOf (found? home choices.specification tree) ≠ .nothing := by
    simp [found?, hpath, hfile, sightOf]
  have hsight : sightOf (found? home choices.output tree) ≠ .file := by
    cases hfolder with
    | existing leads folder _ => simp [found?, leads, folder, sightOf]
    | new steps vacant down => simp [found?_of_new steps vacant, sightOf]
  rw [run_run, if_neg hseen, if_neg (by simp [houtput]), if_neg hsight, hkeep]
  simp only [hcleared.run]

/-- Where nothing is made again at the place of the manifest, it is written. -/
theorem writes_of_free (hcleared : Cleared home choices.output tree place after)
    (hproduct : (productionIn home choices after).result = .ok product)
    (hfree : ¬ Entered home choices.output tree (place ++ [product.name])) :
    Writes home choices after product := by
  obtain ⟨inner, hinner⟩ := hcleared.folder
  have hname : product.name ≠ ".." := name_ne_of_production hproduct
  have hnone : after.at? (place ++ [product.name]) = none := by
    rw [← hcleared.inside ⟨product.name, [], rfl⟩] at hfree
    simpa using hfree
  exact ⟨hproduct, writeAt_vacant hcleared.leads hinner hname hnone⟩

/-- Such a product is written. -/
theorem fillOutput_written (hwrites : Writes home choices after product) :
    (fillOutput (inMemory home temporary) choices backup).run after =
      (completed choices (productionIn home choices after) product,
        (writeProduct home choices product after).2) := by
  have hwritten := hwrites.2
  rw [fillOutput_run, hwrites.1]
  dsimp only
  rcases hwrite : writeProduct home choices product after with ⟨problem | _, left⟩
  · rw [hwrite] at hwritten
    cases hwritten
  · rfl

/-- A folder that is made again at the place of the manifest is in its way. -/
theorem fillOutput_refused (hcleared : Cleared home choices.output tree place after)
    (hproduct : (productionIn home choices after).result = .ok product)
    (hentered : Entered home choices.output tree (place ++ [product.name])) :
    (fillOutput (inMemory home temporary) choices backup).run after =
      (giveUp (inMemory home temporary) choices backup (productionIn home choices after)
        (.files (.isFolder (choices.output.entry product.name)))).run after := by
  obtain ⟨inner, hinner⟩ := hcleared.folder
  have hname : product.name ≠ ".." := name_ne_of_production hproduct
  have hbelow : Below place (place ++ [product.name]) := ⟨product.name, [], rfl⟩
  obtain ⟨inside, -, hfolder, -⟩ :=
    hcleared.folder_of_inside hbelow ((hcleared.inside hbelow).mpr hentered)
  have hwrite : writeProduct home choices product after =
      (.error (.isFolder (choices.output.entry product.name)), after) :=
    writeAt_folder hcleared.leads hinner hname hfolder
  rw [fillOutput_run, hproduct]
  simp only [hwrite]
  rfl

/-- A command whose specification file is not spared says that the file is missing, and leaves the
tree as it was. -/
theorem specification_lost (hhome : tree.at? home = some (.folder entries))
    (hproduct : (productionIn home choices tree).result = .ok product)
    (houtput : choices.lacks .output = false)
    (hfolder : OutputFolder home choices.output tree place)
    (hsheltered : Sheltered home temporary tree place)
    (hlost : ¬ Spared home choices tree place) :
    ∃ outcome, (run (inMemory home temporary) choices).run tree = (outcome, tree) ∧
      outcome.code = 1 ∧
      outcome.errors.getLast? = some (troubleLine (.noSpecification choices.specification)) := by
  obtain ⟨there, content, hpath, -⟩ := file_of_production hproduct
  obtain ⟨backup, kept, hkeep, hprepared⟩ := prepared_of_sheltered hfolder hsheltered
  obtain ⟨⟨more, hmore⟩, hfolder', hsame, -, hspared⟩ :=
    hprepared.same hhome hpath hfolder
  obtain ⟨after, hcleared⟩ := cleared_of_outputFolder hmore hfolder'
  have hfound : ∃ found, target home choices.specification kept = .found found := by
    obtain ⟨found, -, hfound, -⟩ := file_of_production (hsame ▸ hproduct)
    exact ⟨found, hfound⟩
  obtain ⟨found, hfound⟩ := hfound
  obtain ⟨⟨former, hformer⟩, hmissing⟩ :=
    contentAt_of_not_spared hmore hcleared hfound (mt hspared.mp hlost)
  have hafter : (productionIn home choices after).result =
      .error (.noSpecification choices.specification) := by
    have hpolicy : choices.lacks .policy = false := policy_of_production hproduct
    simp [productionIn, hpolicy, hmissing, Trouble.ofProblem]
  obtain ⟨last, final, hgive, haway, hfinal⟩ := hprepared.giveUp_putAway hcleared temporary
    (productionIn home choices after) (.noSpecification choices.specification)
  have hthere : (tree.at? place).isSome := by
    cases hprepared with
    | new nothing => cases nothing.symm.trans hformer
    | existing folder keeps => simp [folder]
  refine ⟨(givenUp choices backup (productionIn home choices after)
    (.noSpecification choices.specification)).outcome, ?_, rfl, ?_⟩
  · rw [run_of_cleared hproduct houtput hfolder hkeep hcleared, fillOutput_run, hafter]
    dsimp only
    rw [hgive, haway, hfinal hthere]
  · rw [errors_givenUp]
    simp

theorem not_complete_stopped (trouble : Trouble) : ¬ (stopped trouble).Complete :=
  not_complete_of_code trouble rfl

theorem giveUp_error (home : Place) (temporary : Temporary) (choices : Choices)
    (backup : Option Place) (made : Production) (trouble : Trouble) (tree : Tree) :
    ∃ late, ((giveUp (inMemory home temporary) choices backup made trouble).run tree).1.result =
      .error late := by
  cases backup with
  | none => exact ⟨trouble, rfl⟩
  | some place =>
    have hrestore : ((inMemory home temporary).restore choices.output place).run tree =
        restoreAt home choices.output place tree := rfl
    rcases hdone : restoreAt home choices.output place tree with ⟨problem | _, left⟩
    · rw [giveUp, bind_run (hrestore.trans hdone)]
      exact ⟨.ofProblem choices.specification problem, rfl⟩
    · rw [giveUp, bind_run (hrestore.trans hdone)]
      exact ⟨trouble, rfl⟩

/-- A command that has come to fill its output folder has written a product or met with trouble. -/
theorem fillOutput_cases (home : Place) (temporary : Temporary) (choices : Choices)
    (backup : Option Place) (after : Tree) :
    (∃ late, ((fillOutput (inMemory home temporary) choices backup).run after).1.result =
        .error late)
      ∨ ∃ product, Writes home choices after product ∧
        (fillOutput (inMemory home temporary) choices backup).run after =
          (completed choices (productionIn home choices after) product,
            (writeProduct home choices product after).2) := by
  rw [fillOutput_run]
  cases hresult : (productionIn home choices after).result with
  | error trouble => exact .inl (giveUp_error home temporary choices backup _ trouble after)
  | ok product =>
    dsimp only
    rcases hwritten : writeProduct home choices product after with ⟨problem | _, left⟩
    · exact .inl (giveUp_error home temporary choices backup _ _ left)
    · right
      refine ⟨product, ⟨hresult, by rw [hwritten]⟩, ?_⟩
      rw [hwritten]

/-- Where the manifest is written, no backup is left that was not there before. -/
theorem discardAt_written {name : String} (hgone : after.at? (place ++ [name]) = none)
    (other : String) (content : ByteArray) :
    ∃ problem left, discardAt (place ++ [name])
      (Tree.put (.file content) (place ++ [other]) after) = (.error problem, left) := by
  by_cases same : name = other
  · subst same
    simp [discardAt, at?_put]
  · have hapart : Apart (place ++ [name]) (place ++ [other]) := by
      constructor <;> simp [same, Ne.symm same]
    simp [discardAt, at?_put_of_apart hapart, hgone]

/-- A backup inside the output folder is cleared away with everything else. -/
theorem not_complete_of_cleared {name : String} (hhome : tree.at? home = some (.folder entries))
    (hfolder : OutputFolder home choices.output tree place)
    (hpath : target home choices.output tree = .found place)
    (hfree : tree.Free (place ++ [name])) (copy : Tree)
    (hclear : clearAt home choices.output (Tree.put copy (place ++ [name]) tree) = (.ok (), after))
    (temporary : Temporary) :
    let filled := (fillOutput (inMemory home temporary) choices (some (place ++ [name]))).run after
    ¬ ((putAway (inMemory home temporary) choices (some (place ++ [name]))
      filled.1).run filled.2).1.Complete := by
  have haway := not_isPrefix_of_free hhome hfree
  obtain ⟨more, hmore⟩ := (hfree.partOf_put copy).folders hhome
  obtain ⟨_, hcleared⟩ := cleared_of_outputFolder hmore
    (outputFolder_put_of_free hfree haway hpath hfolder copy)
  cases hclear.symm.trans hcleared.run
  -- The path to the output folder enters nothing that was not there before.
  have hgone : after.at? (place ++ [name]) = none := by
    have hinside := hcleared.inside ⟨name, [], rfl⟩
    rw [entered_put_of_free hfree haway hpath] at hinside
    cases hat : after.at? (place ++ [name]) with
    | none => rfl
    | some there =>
      have hsome := (hinside.mp (by simp [hat])).isSome
      simp [hfree.at?_eq] at hsome
  obtain ⟨inner, hinner⟩ := hcleared.folder
  intro filled
  rw [putAway_run]
  dsimp only
  rcases hdone : discardAt (place ++ [name]) filled.2 with ⟨problem | _, left⟩
  · exact not_complete_of_error rfl
  · rcases fillOutput_cases home temporary choices (some (place ++ [name])) after with
      ⟨late, hlate⟩ | ⟨product, hwrites, hrun⟩
    · exact not_complete_of_error hlate
    · have hleft : filled.2 =
          Tree.put (.file product.text.toUTF8) (place ++ [product.name]) after :=
        (congrArg Prod.snd hrun).trans (writeProduct_run hcleared.leads hinner hwrites)
      obtain ⟨problem, other, hproblem⟩ :=
        discardAt_written hgone product.name product.text.toUTF8
      rw [hleft, hproblem] at hdone
      cases hdone

/-- A command that cannot keep a backup out of the way of the clearing is not complete. -/
theorem not_complete_of_unsheltered (choices : Choices)
    (hhome : tree.at? home = some (.folder entries))
    (hfolder : OutputFolder home choices.output tree place)
    (hunsheltered : ¬ Sheltered home temporary tree place) :
    ¬ ((run (inMemory home temporary) choices).run tree).1.Complete := by
  simp only [Sheltered, not_forall] at hunsheltered
  obtain ⟨former, hformer, hsome, hunsheltered⟩ := hunsheltered
  have hpath : target home choices.output tree = .found place := by
    cases hfolder with
    | existing leads => exact leads
    | new steps vacant => cases hformer.symm.trans (nothing_of_new vacant)
  rw [run_run]
  split
  · exact not_complete_stopped _
  split
  · exact not_complete_stopped _
  split
  · exact not_complete_stopped _
  rcases keepAt_unsheltered hhome hpath hformer hsome hunsheltered with
    ⟨problem, hkeep⟩ | ⟨name, hfree, hkeep⟩
  · rw [hkeep]
    exact not_complete_stopped _
  · rw [hkeep]
    dsimp only
    rcases hclear : clearAt home choices.output
      (Tree.put (.folder former) (place ++ [name]) tree) with ⟨problem | _, after⟩
    · exact not_complete_stopped _
    · exact not_complete_of_cleared hhome hfolder hpath hfree _ hclear temporary

/-- A command whose specification file is spared is complete if nothing is in the way of the manifest,
and does not say that the file is missing. -/
theorem spared_ends (hhome : tree.at? home = some (.folder entries))
    (hproduct : (productionIn home choices tree).result = .ok product)
    (houtput : choices.lacks .output = false)
    (hfolder : OutputFolder home choices.output tree place)
    (hsheltered : Sheltered home temporary tree place)
    (hspared : Spared home choices tree place) :
    ∃ outcome final, (run (inMemory home temporary) choices).run tree = (outcome, final)
      ∧ (outcome.Complete ↔ ¬ Entered home choices.output tree (place ++ [product.name]))
      ∧ ∀ path, troubleLine (.noSpecification path) ∉ outcome.errors := by
  obtain ⟨there, content, hpath, -⟩ := file_of_production hproduct
  obtain ⟨backup, kept, hkeep, hprepared⟩ := prepared_of_sheltered hfolder hsheltered
  obtain ⟨⟨more, hmore⟩, hfolder', hsame, hentered, hspared'⟩ :=
    hprepared.same hhome hpath hfolder
  obtain ⟨after, hcleared⟩ := cleared_of_outputFolder hmore hfolder'
  have hkept : (productionIn home choices kept).result = .ok product := hsame ▸ hproduct
  have hafter : (productionIn home choices after).result = .ok product := by
    rw [productionIn_of_spared hmore hcleared hkept (hspared'.mpr hspared), hkept]
  rw [run_of_cleared hproduct houtput hfolder hkeep hcleared]
  by_cases hmanifest : Entered home choices.output tree (place ++ [product.name])
  · obtain ⟨last, final, hgive, haway, -⟩ := hprepared.giveUp_putAway hcleared temporary
      (productionIn home choices after) (.files (.isFolder (choices.output.entry product.name)))
    rw [fillOutput_refused hcleared hafter ((hentered _).mpr hmanifest), hgive]
    refine ⟨_, final, haway, iff_of_false (not_complete_of_error rfl) (by simpa using hmanifest),
      fun path => notMem_givenUp (missing_ne_isFolder path _)⟩
  · have hwrites := writes_of_free hcleared hafter (mt (hentered _).mp hmanifest)
    obtain ⟨final, haway⟩ := hprepared.completed_putAway hcleared hwrites temporary
    rw [fillOutput_written hwrites]
    exact ⟨_, final, haway, iff_of_true (complete_of_completed choices _ product) hmanifest,
      notMem_completed choices _ product⟩

/-- A command that can produce something from its specification file and writes into an existing or a
new folder.  It ends with 0 or 4 exactly if clearing that folder spares the specification file, the
path to the folder does not enter the place of the manifest, and a backup of what the folder holds
outlasts the clearing.  If it does, and the file is spared, the command never says that the file is
missing; if the file is not spared, the command says just that, and the tree is as it was.  A file
inside the output folder is never spared. -/
theorem complete_iff_spared (home place : Place) (temporary : Temporary) (tree : Tree)
    (choices : Choices) (entries : List (String × Tree)) (product : Product)
    (hhome : tree.at? home = some (.folder entries))
    (hproduces : Produces home choices tree product)
    (houtput : choices.lacks .output = false)
    (hfolder : OutputFolder home choices.output tree place) :
    ∃ outcome final, (run (inMemory home temporary) choices).run tree = (outcome, final)
      ∧ (outcome.code = 0 ∨ outcome.code = 4 ↔
          Spared home choices tree place
            ∧ ¬ Entered home choices.output tree (place ++ [product.name])
            ∧ Sheltered home temporary tree place)
      ∧ (Sheltered home temporary tree place → Spared home choices tree place →
          ∀ path, troubleLine (.noSpecification path) ∉ outcome.errors)
      ∧ (Sheltered home temporary tree place → ¬ Spared home choices tree place →
          outcome.code = 1 ∧ final = tree
            ∧ outcome.errors.getLast? = some (troubleLine (.noSpecification choices.specification)))
      ∧ (∀ there, target home choices.specification tree = .found there → Below place there →
          ¬ Spared home choices tree place) := by
  have hproduct := hproduces.made
  obtain ⟨there, content, hpath, hfile⟩ := file_of_production hproduct
  have hbelow : ∀ there, target home choices.specification tree = .found there →
      Below place there → ¬ Spared home choices tree place := by
    intro found hfound hbelow
    cases hpath.symm.trans hfound
    obtain ⟨after, hcleared⟩ := cleared_of_outputFolder hhome hfolder
    exact not_spared_of_below hhome hcleared hpath hfile hbelow
  by_cases hsheltered : Sheltered home temporary tree place
  · by_cases hspared : Spared home choices tree place
    · obtain ⟨outcome, final, hrun, hcomplete, hsays⟩ :=
        spared_ends hhome hproduct houtput hfolder hsheltered hspared
      exact ⟨outcome, final, hrun,
        hcomplete.trans ⟨fun h => ⟨hspared, h, hsheltered⟩, fun h => h.2.1⟩,
        fun _ _ => hsays, fun _ hlost => absurd hspared hlost, hbelow⟩
    · obtain ⟨outcome, hrun, hcode, herrors⟩ :=
        specification_lost hhome hproduct houtput hfolder hsheltered hspared
      refine ⟨outcome, tree, hrun, ⟨fun hcomplete => ?_, fun h => absurd h.1 hspared⟩,
        fun _ h => absurd h hspared, fun _ _ => ⟨hcode, rfl, herrors⟩, hbelow⟩
      rw [hcode] at hcomplete
      simp at hcomplete
  · have hincomplete := not_complete_of_unsheltered choices hhome hfolder hsheltered
    generalize (run (inMemory home temporary) choices).run tree = ended at hincomplete ⊢
    obtain ⟨outcome, final⟩ := ended
    exact ⟨outcome, final, rfl, ⟨fun h => absurd h hincomplete, fun h => absurd h.2.2 hsheltered⟩,
      fun h => absurd h hsheltered, fun h => absurd h hsheltered, hbelow⟩

/-- A specification file beside the output folder is spared. -/
theorem complete_iff_spared_bare :
    (default : Temporary).Shelters [] (bareTree bareText.toUTF8 [("old", .folder [])]) ["out"]
      ∧ ∃ outcome final, (run (inMemory []) (bareChoices ⟨.here, ["out"]⟩)).run
          (bareTree bareText.toUTF8 [("old", .folder [])]) = (outcome, final)
        ∧ (outcome.code = 0 ∨ outcome.code = 4)
        ∧ ∀ path, troubleLine (.noSpecification path) ∉ outcome.errors := by
  have hhome : (bareTree bareText.toUTF8 [("old", .folder [])]).at? [] =
      some (bareTree bareText.toUTF8 [("old", .folder [])]) := rfl
  have hproduct := productionIn_bare ⟨.here, ["out"]⟩ [("old", .folder [])]
  have hproduces : Produces [] (bareChoices ⟨.here, ["out"]⟩)
      (bareTree bareText.toUTF8 [("old", .folder [])]) bareProduct := by
    refine ⟨hproduct, fun {content text} hcontent htext => ?_⟩
    have hread : ∀ content, contentAt [] ⟨.here, ["spec.json"]⟩
        (bareTree content [("old", .folder [])]) = .ok content := fun _ => rfl
    cases (hread bareText.toUTF8).symm.trans hcontent
    have hbare : String.fromUTF8? bareText.toUTF8 = some bareText := by decide +kernel
    cases hbare.symm.trans htext
    decide +kernel
  have hpath := target_bareTree bareText.toUTF8 [("old", .folder [])]
  have hfolder : OutputFolder [] ⟨.here, ["out"]⟩
      (bareTree bareText.toUTF8 [("old", .folder [])]) ["out"] :=
    .existing hpath (at?_bareTree _ _) fun hbelow => absurd hbelow (not_below_root _)
  have hshelters := shelters_bareTree bareText.toUTF8 [("old", .folder [])]
  obtain ⟨after, hcleared⟩ := cleared_of_outputFolder hhome hfolder
  have hspared : Spared [] (bareChoices ⟨.here, ["out"]⟩)
      (bareTree bareText.toUTF8 [("old", .folder [])]) ["out"] := by
    obtain ⟨there, content, hfound, hfile⟩ := file_of_production hproduct
    rw [spared_iff_of_descending hhome hcleared hfound hfile (by decide)]
    have hthere := follow_descending (by decide) hfound
    subst hthere
    rintro ⟨name, rest, hrest⟩
    exact absurd (List.cons.inj hrest).1 (by decide)
  obtain ⟨outcome, final, hrun, hcomplete, hsays, -⟩ :=
    complete_iff_spared [] ["out"] default _ (bareChoices ⟨.here, ["out"]⟩) _ bareProduct hhome
      hproduces rfl hfolder
  refine ⟨hshelters, outcome, final, hrun,
    hcomplete.mpr ⟨hspared, fun hentered => ?_, fun _ _ _ => hshelters⟩,
    hsays (fun _ _ _ => hshelters) hspared⟩
  have hway := isPrefix_of_entered (by decide) hpath hentered
  exact absurd hway (by decide)

/-- A working folder whose output folder holds the specification file. -/
def insideTree (content : ByteArray) : Tree :=
  .folder [("out", .folder [("api.json", .file content)])]

/-- What the arguments choose that name a specification file inside the output folder. -/
def insideChoices : Choices :=
  { bareChoices ⟨.here, ["out"]⟩ with specification := ⟨.here, ["out", "api.json"]⟩ }

/-- The specification file is there and a manifest comes of it, but it is said to be missing. -/
theorem specification_inside_missing :
    (Command.choices ["out/api.json", "-o", "out"]).toOption = some insideChoices
      ∧ target [] ⟨.here, ["out", "api.json"]⟩ (insideTree bareText.toUTF8) =
        .found ["out", "api.json"]
      ∧ (productionIn [] insideChoices (insideTree bareText.toUTF8)).result = .ok bareProduct
      ∧ target [] ⟨.here, ["out"]⟩ (insideTree bareText.toUTF8) = .found ["out"]
      ∧ ∃ outcome, (run (inMemory []) insideChoices).run (insideTree bareText.toUTF8) =
          (outcome, insideTree bareText.toUTF8)
        ∧ outcome.code = 1
        ∧ outcome.errors.getLast? = some "Error: Specification file not found: out/api.json" := by
  have hpath : ∀ content, target [] ⟨.here, ["out", "api.json"]⟩ (insideTree content) =
      .found ["out", "api.json"] := fun _ => rfl
  have hleads : ∀ content, target [] ⟨.here, ["out"]⟩ (insideTree content) = .found ["out"] :=
    fun _ => rfl
  have hplace : ∀ content, (insideTree content).at? ["out"] =
      some (.folder [("api.json", .file content)]) := fun _ => rfl
  have hfile : ∀ content, (insideTree content).at? ["out", "api.json"] = some (.file content) :=
    fun _ => rfl
  have hhome : ∀ content, (insideTree content).at? [] = some (insideTree content) := fun _ => rfl
  have hproduct : (productionIn [] insideChoices (insideTree bareText.toUTF8)).result =
      .ok bareProduct := by
    have hread := contentAt_found (hpath bareText.toUTF8) (hfile bareText.toUTF8)
    have hsame : ∀ content, produce insideChoices content =
        produce (bareChoices ⟨.here, ["out"]⟩) content := fun _ => rfl
    have hpolicy : insideChoices.lacks .policy = false := rfl
    have hspecification : insideChoices.specification = ⟨.here, ["out", "api.json"]⟩ := rfl
    simp only [productionIn, hpolicy, hspecification, hread, hsame, Bool.false_eq_true, if_false,
      produce_bare]
  have hfolder : OutputFolder [] ⟨.here, ["out"]⟩ (insideTree bareText.toUTF8) ["out"] :=
    .existing (hleads _) (hplace _) fun hbelow => absurd hbelow (not_below_root _)
  have hshelters : (default : Temporary).Shelters [] (insideTree bareText.toUTF8) ["out"] :=
    ⟨⟨_, rfl⟩, by decide, fun _ hway => absurd hway (by simp)⟩
  obtain ⟨after, hcleared⟩ := cleared_of_outputFolder (hhome _) hfolder
  have hlost : ¬ Spared [] insideChoices (insideTree bareText.toUTF8) ["out"] :=
    not_spared_of_below (hhome _) hcleared (hpath _) (hfile _) ⟨"api.json", [], rfl⟩
  obtain ⟨outcome, hrun, hcode, herrors⟩ :=
    specification_lost (hhome _) hproduct rfl hfolder (fun _ _ _ => hshelters) hlost
  have hline : troubleLine (.noSpecification ⟨.here, ["out", "api.json"]⟩) =
      "Error: Specification file not found: out/api.json" := by decide +kernel
  rw [← hline]
  exact ⟨by decide +kernel, hpath _, hproduct, hleads _, outcome, hrun, hcode, herrors⟩

end ApiClients.Command
