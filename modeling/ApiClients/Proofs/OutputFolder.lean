import ApiClients.Command
import ApiClients.Proofs.Backups
import ApiClients.Proofs.Reachability
import ApiClients.Proofs.Steps

/-!
# What a command leaves in the output folder

A command keeps what the output folder holds, empties it, reads the specification file and writes one
file.  It ends with 0 or 4 exactly if a file comes of the specification file as it is after the
emptying, and with 4 exactly if the report of that file has failures; otherwise the whole tree is as
it was before (`run_ends`).  After 0 or 4 the output folder holds that file and nothing else, if the
path of the output folder does not go through the output folder itself (`output_all_or_nothing`).  A
path that does makes folders in it again that its own steps need, and they stay beside the file
(`output_through_itself`).

All this is so if the folder for temporary files is there and not inside the output folder, or if
there is nothing to be kept: else the backup cannot be made, or it is cleared away with the rest.
-/

namespace ApiClients.Command

open Files ApiClients.Tree

variable {home place : Place} {tree kept after : Tree} {choices : Choices}
  {former inner : List (String × Tree)} {temporary : Temporary} {backup : Option Place}

/-! ### The parts of a command in memory -/

theorem bind_run {α β : Type} {first : StateM Tree α} {rest : α → StateM Tree β} {value : α}
    (h : first.run tree = (value, after)) :
    (first >>= rest).run tree = (rest value).run after := by
  rw [StateT.run_bind, h]
  rfl

/-- Whether a command has written its file. -/
def Outcome.Complete (outcome : Outcome) : Prop := outcome.code = 0 ∨ outcome.code = 4

instance (outcome : Outcome) : Decidable outcome.Complete :=
  inferInstanceAs (Decidable (outcome.code = 0 ∨ outcome.code = 4))

theorem not_complete_of_code {outcome : Outcome} (trouble : Trouble)
    (h : outcome.code = trouble.code) : ¬ outcome.Complete := by
  rw [Outcome.Complete, h]
  cases trouble <;> simp [Trouble.code]

theorem not_complete_of_error {ending : Ending} {trouble : Trouble}
    (h : ending.result = .error trouble) : ¬ ending.outcome.Complete :=
  not_complete_of_code trouble (by simp [Ending.outcome, h])

/-- What comes of the specification file as it is in a tree. -/
def productionIn (home : Place) (choices : Choices) (tree : Tree) : Production :=
  if choices.lacks .policy then { result := .error .noValue }
  else
    match contentAt home choices.specification tree with
    | .error problem => { result := .error (.ofProblem choices.specification problem) }
    | .ok content => produce choices content

theorem productionIn_congr
    (h : contentAt home choices.specification after = contentAt home choices.specification tree) :
    productionIn home choices after = productionIn home choices tree := by
  simp only [productionIn, h]

theorem production_run (home : Place) (temporary : Temporary) (choices : Choices) (tree : Tree) :
    (production (inMemory home temporary) choices).run tree =
      (productionIn home choices tree, tree) := by
  by_cases hpolicy : choices.lacks .policy
  · simp only [productionIn, production, hpolicy, if_true]
    rfl
  · cases hread : contentAt home choices.specification tree with
    | error problem =>
      simp [productionIn, production, hpolicy, hread, inMemory]
      rfl
    | ok content =>
      simp [productionIn, production, hpolicy, hread, inMemory]
      rfl

/-- What a command says about restoring what was kept. -/
def restoreLines (backup : Option Place) : List String :=
  if backup.isSome then ["Error: Generation failed. Restoring original content."] else []

/-- The ending of a command that has put back what was taken away. -/
def givenUp (choices : Choices) (backup : Option Place) (made : Production) (trouble : Trouble) :
    Ending where
  output := remarkLines choices made
  errors := journalLines choices made.journal ++ restoreLines backup
  result := .error trouble

/-- A command that gives up puts back what was taken away. -/
theorem giveUp_run (hkeeps : Keeps home place former tree backup kept)
    (hformer : tree.at? place = some (.folder former))
    (hpath : target home choices.output after = .found place)
    (hafter : Hollowed place kept after) (made : Production) (trouble : Trouble) :
    (giveUp (inMemory home temporary) choices backup made trouble).run after =
      (givenUp choices backup made trouble, kept) := by
  have hkept : kept.at? place = some (.folder former) := hkeeps.at?_place.trans hformer
  cases backup with
  | none =>
    have hempty : former = [] := by
      cases hkeeps with
      | nothing empty => exact empty
    subst hempty
    rw [hafter.eq_of_empty hkept]
    simp only [giveUp, givenUp, restoreLines, Option.isSome_none, Bool.false_eq_true, if_false]
    rfl
  | some backup =>
    have hback := hafter.restored hkept
    obtain ⟨now, rfl⟩ := hafter.inside
    have hnow : (Tree.put (.folder now) place kept).at? place = some (.folder now) := at?_put _ _ _
    have hrestore : ((inMemory home temporary).restore choices.output backup).run
        (Tree.put (.folder now) place kept) = (.ok (), kept) := by
      have hrefill := (refillAt_found hpath hnow).trans hback
      change restoreAt home choices.output backup _ = _
      simp only [restoreAt, (hkeeps.discard hformer).1, hrefill]
    rw [giveUp, bind_run hrestore]
    simp only [givenUp, restoreLines, Option.isSome_some, if_true]
    rfl

/-! ### The file that is written -/

theorem name_of_manifest {format : Manifest.Format} {content : Manifest.Content}
    {name text : String} (h : Manifest.file format content = .ok (name, text)) :
    name = format.fileName := by
  cases format with
  | markdown =>
    cases hlines : Manifest.markdown content with
    | error failure => simp [Manifest.file, hlines, Except.map] at h
    | ok shown =>
      simp only [Manifest.file, hlines, Except.map, Except.ok.injEq, Prod.mk.injEq] at h
      exact h.1.symm
  | json =>
    simp only [Manifest.file, Except.ok.injEq, Prod.mk.injEq] at h
    exact h.1.symm

theorem name_of_productOf {document : Document} {report : Report} {product : Product}
    (h : productOf choices document report = .ok product) :
    product.name = choices.format.fileName := by
  unfold productOf at h
  obtain ⟨language, -, h⟩ := Except.bind_ok.mp h
  by_cases hclass : lacksClassName choices language report
  · simp only [hclass, if_true] at h
    cases h
  · simp only [hclass] at h
    obtain ⟨title, -, h⟩ := Except.bind_ok.mp h
    by_cases hformat : choices.lacks .format
    · simp only [hformat, if_true] at h
      cases h
    · simp only [hformat] at h
      obtain ⟨file, hfile, h⟩ := Except.bind_ok.mp h
      cases h
      exact name_of_manifest hfile

theorem name_of_produce {content : ByteArray} {product : Product}
    (h : (produce choices content).result = .ok product) :
    product.name = choices.format.fileName := by
  unfold produce at h
  split at h
  · cases h
  · unfold produceFrom at h
    split at h
    · cases h
    · split at h
      · cases h
      · rename_i document reader _ _
        cases hreport : (Generation.report choices.settings document.graph document.definitions
            document.operations reader.journal).1 with
        | error failure => simp [hreport, Except.bind, Except.mapError] at h
        | ok report =>
          cases hproduct : productOf choices document report with
          | error failure => simp [hreport, hproduct, Except.bind, Except.mapError] at h
          | ok made =>
            simp only [hreport, hproduct, Except.bind, Except.mapError, Except.ok.injEq] at h
            exact h ▸ name_of_productOf hproduct

theorem name_of_production {product : Product}
    (h : (productionIn home choices tree).result = .ok product) :
    product.name = choices.format.fileName := by
  unfold productionIn at h
  split at h
  · cases h
  · split at h
    · cases h
    · exact name_of_produce h

/-- A refused file changes nothing. -/
theorem writeAt_error {path : Path} {content : ByteArray} {problem : FileProblem}
    (h : (writeAt home path content tree).1 = .error problem) :
    (writeAt home path content tree).2 = tree := by
  unfold writeAt at h ⊢
  split at h <;> simp_all

/-- Where the path to an entry of a folder leads. -/
theorem target_entry {path : Path} {name : String} {inner : List (String × Tree)}
    (hpath : target home path tree = .found place) (hinner : tree.at? place = some (.folder inner))
    (hname : name ≠ "..") :
    target home (path.entry name) tree =
      if Entries.has inner name then .found (place ++ [name]) else .vacant (place ++ [name]) := by
  rw [target, Path.entry, follow_append]
  change tree.step (target home path tree) name = _
  simp [hpath, step, hinner, hname]

theorem writeAt_entry {path : Path} {name : String} {content : ByteArray}
    {inner : List (String × Tree)} (hpath : target home path tree = .found place)
    (hinner : tree.at? place = some (.folder inner)) (hname : name ≠ "..")
    (h : (writeAt home (path.entry name) content tree).1 = .ok ()) :
    (writeAt home (path.entry name) content tree).2 =
      Tree.put (.file content) (place ++ [name]) tree := by
  have hentry := target_entry hpath hinner hname
  by_cases hhas : Entries.has inner name
  · rw [if_pos hhas] at hentry
    cases hat : tree.at? (place ++ [name]) with
    | none => simp [writeAt, found?, hentry, hat] at h
    | some there =>
      cases there with
      | file former => simp [writeAt, found?, hentry, hat]
      | folder entries => simp [writeAt, found?, hentry, hat] at h
  · rw [if_neg hhas] at hentry
    simp [writeAt, found?, hentry]

/-- A file can be written where nothing is. -/
theorem writeAt_vacant {path : Path} {name : String} {content : ByteArray}
    {inner : List (String × Tree)} (hpath : target home path tree = .found place)
    (hinner : tree.at? place = some (.folder inner)) (hname : name ≠ "..")
    (hnone : tree.at? (place ++ [name]) = none) :
    (writeAt home (path.entry name) content tree).1 = .ok () := by
  have hhas : ¬ Entries.has inner name := by simp [has_iff_at? hinner, hnone]
  have hentry := target_entry hpath hinner hname
  rw [if_neg hhas] at hentry
  simp [writeAt, found?, hentry]

/-- No file can be written where a folder is. -/
theorem writeAt_folder {path : Path} {name : String} {content : ByteArray}
    {inner entries : List (String × Tree)} (hpath : target home path tree = .found place)
    (hinner : tree.at? place = some (.folder inner)) (hname : name ≠ "..")
    (hfolder : tree.at? (place ++ [name]) = some (.folder entries)) :
    writeAt home (path.entry name) content tree =
      (.error (.isFolder (path.entry name)), tree) := by
  have hhas : Entries.has inner name := by simp [has_iff_at? hinner, hfolder]
  have hentry := target_entry hpath hinner hname
  rw [if_pos hhas] at hentry
  simp [writeAt, found?, hentry, hfolder]

/-! ### How a command ends -/

/-- The file of a product written into the output folder. -/
def writeProduct (home : Place) (choices : Choices) (product : Product) (tree : Tree) :
    Except FileProblem Unit × Tree :=
  writeAt home (choices.output.entry product.name) product.text.toUTF8 tree

theorem fillOutput_run (home : Place) (temporary : Temporary) (choices : Choices)
    (backup : Option Place) (tree : Tree) :
    (fillOutput (inMemory home temporary) choices backup).run tree =
      match (productionIn home choices tree).result with
      | .error trouble =>
        (giveUp (inMemory home temporary) choices backup (productionIn home choices tree)
          trouble).run tree
      | .ok product =>
        match writeProduct home choices product tree with
        | (.error problem, left) =>
          (giveUp (inMemory home temporary) choices backup (productionIn home choices tree)
            (.ofProblem choices.specification problem)).run left
        | (.ok (), left) =>
          (completed choices (productionIn home choices tree) product, left) := by
  rw [fillOutput, bind_run (production_run home temporary choices tree)]
  cases (productionIn home choices tree).result with
  | error trouble => rfl
  | ok product =>
    have hwrite : ((inMemory home temporary).write (choices.output.entry product.name)
        product.text.toUTF8).run tree = writeProduct home choices product tree := rfl
    dsimp only
    rcases hdone : writeProduct home choices product tree with ⟨problem | _, left⟩ <;>
      exact bind_run (hwrite.trans hdone)

theorem putAway_run (home : Place) (temporary : Temporary) (choices : Choices)
    (backup : Option Place) (ending : Ending) (tree : Tree) :
    (putAway (inMemory home temporary) choices backup ending).run tree =
      match backup with
      | none => (ending.outcome, tree)
      | some place =>
        match discardAt place tree with
        | (.error problem, left) =>
          let late := Trouble.ofProblem choices.specification problem
          ({ ending with result := .error late }.outcome, left)
        | (.ok (), left) => (ending.outcome, left) := by
  cases backup with
  | none => rfl
  | some place =>
    have hdiscard : ((inMemory home temporary).discard place).run tree = discardAt place tree := rfl
    dsimp only [putAway]
    rcases hdone : discardAt place tree with ⟨problem | _, left⟩ <;>
      exact bind_run (hdiscard.trans hdone)

theorem run_run (home : Place) (temporary : Temporary) (choices : Choices) (tree : Tree) :
    (run (inMemory home temporary) choices).run tree =
      if sightOf (found? home choices.specification tree) = .nothing then
        (stopped (.noSpecification choices.specification), tree)
      else if choices.lacks .output then (stopped .noValue, tree)
      else if sightOf (found? home choices.output tree) = .file then
        (stopped (.files (.notFolder choices.output)), tree)
      else
        match keepAt home temporary choices.output tree with
        | (.error problem, left) => (stopped (.ofProblem choices.specification problem), left)
        | (.ok backup, kept) =>
          match clearAt home choices.output kept with
          | (.error problem, left) => (stopped (.ofProblem choices.specification problem), left)
          | (.ok (), left) =>
            let filled := (fillOutput (inMemory home temporary) choices backup).run left
            (putAway (inMemory home temporary) choices backup filled.1).run filled.2 := by
  have hlook : ∀ path, ((inMemory home temporary).look path).run tree =
      (sightOf (found? home path tree), tree) := fun _ => rfl
  have hkeep : ((inMemory home temporary).keep choices.output).run tree =
      keepAt home temporary choices.output tree := rfl
  have hclear : ∀ kept, ((inMemory home temporary).clear choices.output).run kept =
      clearAt home choices.output kept := fun _ => rfl
  rw [run, bind_run (hlook _)]
  split
  · rfl
  · split
    · rfl
    · rw [bind_run (hlook _)]
      split
      · rfl
      · rcases hkept : keepAt home temporary choices.output tree with ⟨problem | backup, kept⟩
        · exact bind_run (hkeep.trans hkept)
        · rw [bind_run (hkeep.trans hkept)]
          dsimp only
          rcases hdone : clearAt home choices.output kept with ⟨problem | _, left⟩ <;>
            exact bind_run ((hclear kept).trans hdone)

/-- A file comes of the specification file as it is in a tree, and it can be written. -/
def Writes (home : Place) (choices : Choices) (tree : Tree) (product : Product) : Prop :=
  (productionIn home choices tree).result = .ok product ∧
    (writeProduct home choices product tree).1 = .ok ()

/-- A file is written into the emptied output folder, or else that folder gets back what it held. -/
theorem fillOutput_ends (temporary : Temporary) (hkeeps : Keeps home place former tree backup kept)
    (hformer : tree.at? place = some (.folder former))
    (hpath : target home choices.output after = .found place)
    (hafter : Hollowed place kept after) :
    (∃ product, Writes home choices after product ∧
        (fillOutput (inMemory home temporary) choices backup).run after =
          (completed choices (productionIn home choices after) product,
            (writeProduct home choices product after).2))
      ∨ (¬ ∃ product, Writes home choices after product) ∧
        ∃ trouble, (fillOutput (inMemory home temporary) choices backup).run after =
          (givenUp choices backup (productionIn home choices after) trouble, kept) := by
  rw [fillOutput_run]
  cases hresult : (productionIn home choices after).result with
  | error trouble =>
    right
    refine ⟨?_, trouble, giveUp_run hkeeps hformer hpath hafter _ trouble⟩
    rintro ⟨product, hproduct, -⟩
    cases hresult.symm.trans hproduct
  | ok product =>
    dsimp only
    rcases hwritten : writeProduct home choices product after with ⟨problem | _, left⟩
    · right
      have hsame : left = after := by
        have hrefused := writeAt_error (congrArg Prod.fst hwritten)
        exact (congrArg Prod.snd hwritten).symm.trans hrefused
      subst hsame
      refine ⟨?_, .ofProblem choices.specification problem,
        giveUp_run hkeeps hformer hpath hafter _ _⟩
      rintro ⟨other, hproduct, hdone⟩
      cases hresult.symm.trans hproduct
      rw [hwritten] at hdone
      cases hdone
    · left
      refine ⟨product, ⟨hresult, by rw [hwritten]⟩, ?_⟩
      rw [hwritten]

/-- Once the backup is put away, the tree is as if it had never been there. -/
theorem putAway_ends (hkeeps : Keeps home place former tree backup kept)
    (hformer : tree.at? place = some (.folder former)) (temporary : Temporary) (choices : Choices)
    (ending : Ending) (inner : List (String × Tree)) :
    (putAway (inMemory home temporary) choices backup ending).run
        (Tree.put (.folder inner) place kept) =
      (ending.outcome, Tree.put (.folder inner) place tree) := by
  rw [putAway_run]
  cases backup with
  | none =>
    cases hkeeps with
    | nothing empty => rfl
  | some backup => simp only [(hkeeps.discard hformer).2]

theorem name_ne_of_production {product : Product}
    (h : (productionIn home choices tree).result = .ok product) : product.name ≠ ".." := by
  rw [name_of_production h]
  cases choices.format <;> decide

theorem writeProduct_run {product : Product}
    (hpath : target home choices.output tree = .found place)
    (hinner : tree.at? place = some (.folder inner)) (h : Writes home choices tree product) :
    (writeProduct home choices product tree).2 =
      Tree.put (.file product.text.toUTF8) (place ++ [product.name]) tree :=
  writeAt_entry hpath hinner (name_ne_of_production h.1) h.2

/-- The entries of the output folder once a product is written beside what is there. -/
def withProduct (product : Product) (inner : List (String × Tree)) : List (String × Tree) :=
  Entries.put product.name (.file product.text.toUTF8) inner

/-- A command whose output folder can be emptied writes the file of a product into that folder and
is complete, or else it leaves the tree as it was and is not. -/
theorem run_ends (hpath : target home choices.output tree = .found place)
    (hformer : tree.at? place = some (.folder former))
    (hkeep : keepAt home temporary choices.output tree = (.ok backup, kept))
    (hkeeps : Keeps home place former tree backup kept)
    (hclear : clearAt home choices.output kept = (.ok (), Tree.put (.folder inner) place kept)) :
    (∃ product, sightOf (found? home choices.specification tree) ≠ .nothing
        ∧ choices.lacks .output = false
        ∧ Writes home choices (Tree.put (.folder inner) place kept) product
        ∧ (run (inMemory home temporary) choices).run tree =
          ((completed choices (productionIn home choices (Tree.put (.folder inner) place kept))
              product).outcome,
            Tree.put (.folder (withProduct product inner)) place tree))
      ∨ (¬ ∃ product, sightOf (found? home choices.specification tree) ≠ .nothing
          ∧ choices.lacks .output = false
          ∧ Writes home choices (Tree.put (.folder inner) place kept) product)
        ∧ ∃ outcome, (run (inMemory home temporary) choices).run tree = (outcome, tree)
          ∧ ¬ outcome.Complete := by
  rw [run_run]
  by_cases hseen : sightOf (found? home choices.specification tree) = .nothing
  · right
    rw [if_pos hseen]
    refine ⟨?_, _, rfl, not_complete_of_code (.noSpecification choices.specification) rfl⟩
    rintro ⟨-, hsight, -⟩
    exact hsight hseen
  by_cases houtput : choices.lacks .output
  · right
    rw [if_neg hseen, if_pos houtput]
    refine ⟨?_, _, rfl, not_complete_of_code .noValue rfl⟩
    rintro ⟨product, -, hlacks, -⟩
    rw [houtput] at hlacks
    cases hlacks
  · have hfound : found? home choices.output tree = some (.folder former) := by
      rw [found?, hpath]
      exact hformer
    have hkept : kept.at? place = some (.folder former) := hkeeps.at?_place.trans hformer
    rw [if_neg hseen, if_neg houtput, hfound, if_neg (by simp [sightOf]), hkeep]
    simp only [hclear]
    obtain ⟨hafter, hstill⟩ := hollowed_of_clearAt (hkeeps.leads hformer hpath).1 hkept hclear
    rcases fillOutput_ends temporary hkeeps hformer hstill hafter with
      ⟨product, hwrites, hrun⟩ | ⟨hnone, trouble, hrun⟩
    · left
      refine ⟨product, hseen, by simpa using houtput, hwrites, ?_⟩
      have hwritten : (writeProduct home choices product (Tree.put (.folder inner) place kept)).2 =
          Tree.put (.folder (withProduct product inner)) place kept := by
        rw [writeProduct_run hstill (at?_put _ _ _) hwrites, put_append]
        rfl
      rw [hrun, hwritten]
      exact putAway_ends hkeeps hformer temporary choices _ _
    · right
      have hincomplete : ¬ (givenUp choices backup
          (productionIn home choices (Tree.put (.folder inner) place kept)) trouble).outcome.Complete :=
        not_complete_of_error rfl
      refine ⟨?_, _, ?_, hincomplete⟩
      · rintro ⟨product, -, -, hwrites⟩
        exact hnone ⟨product, hwrites⟩
      · have haway := putAway_ends hkeeps hformer temporary choices (givenUp choices backup
          (productionIn home choices (Tree.put (.folder inner) place kept)) trouble) former
        rw [put_at? hkept, put_at? hformer] at haway
        rw [hrun]
        exact haway

/-! ### The output folder afterwards -/

/-- Every product can be written into a folder that is just emptied. -/
theorem writes_iff_of_empty {product : Product}
    (hpath : target home choices.output tree = .found place)
    (hempty : tree.at? place = some (.folder [])) :
    Writes home choices tree product ↔ (productionIn home choices tree).result = .ok product := by
  constructor
  · intro h
    exact h.1
  · intro hproduct
    exact ⟨hproduct, writeAt_vacant hpath hempty (name_ne_of_production hproduct)
      (by simp [at?_append, hempty])⟩

theorem policy_of_production {product : Product}
    (h : (productionIn home choices tree).result = .ok product) :
    choices.lacks .policy = false := by
  cases hpolicy : choices.lacks .policy with
  | false => rfl
  | true => simp [productionIn, hpolicy] at h

/-- A product comes of a specification file that is there. -/
theorem file_of_production {product : Product}
    (h : (productionIn home choices tree).result = .ok product) :
    ∃ there content, target home choices.specification tree = .found there
      ∧ tree.at? there = some (.file content) := by
  obtain ⟨content, hcontent⟩ :
      ∃ content, contentAt home choices.specification tree = .ok content := by
    unfold productionIn at h
    split at h
    · cases h
    · split at h
      · cases h
      · exact ⟨_, ‹_›⟩
  unfold contentAt found? at hcontent
  cases htarget : target home choices.specification tree with
  | found there =>
    refine ⟨there, content, rfl, ?_⟩
    cases hat : tree.at? there with
    | none => simp [htarget, hat] at hcontent
    | some below =>
      cases below with
      | file former => simpa [htarget, hat] using hcontent
      | folder inner => simp [htarget, hat] at hcontent
  | vacant _ => simp [htarget] at hcontent
  | unreached => simp [htarget] at hcontent
  | blocked => simp [htarget] at hcontent

/-- A specification file that is read after the emptying was there before it, if the working folder
was. -/
theorem seen_of_production {entries : List (String × Tree)} (hpart : PartOf after tree)
    (hhome : tree.at? home = some (.folder entries)) {product : Product}
    (h : (productionIn home choices after).result = .ok product) :
    sightOf (found? home choices.specification tree) ≠ .nothing := by
  obtain ⟨there, content, htarget, hfile⟩ := file_of_production h
  have hbefore : target home choices.specification tree = .found there :=
    (follow_of_partOf hpart (noFile_origin hhome choices.specification.start) htarget).1
  simp [found?, hbefore, hpart.files hfile, sightOf]

/-- Of a specification file that is there at first the same comes beside a backup, whatever is left
in the output folder. -/
theorem productionIn_kept (hkeeps : Keeps home place former tree backup kept)
    (hformer : tree.at? place = some (.folder former))
    (hpart : PartOf (.folder inner) (.folder former))
    (hseen : sightOf (found? home choices.specification tree) ≠ .nothing) :
    productionIn home choices (Tree.put (.folder inner) place kept) =
      productionIn home choices (Tree.put (.folder inner) place tree) := by
  obtain ⟨there, hpath⟩ : ∃ there, target home choices.specification tree = .found there := by
    cases htarget : target home choices.specification tree with
    | found there => exact ⟨there, rfl⟩
    | vacant _ => simp [found?, htarget, sightOf] at hseen
    | unreached => simp [found?, htarget, sightOf] at hseen
    | blocked => simp [found?, htarget, sightOf] at hseen
  exact productionIn_congr (hkeeps.target_put hformer hpart hpath).2

theorem complete_of_completed (choices : Choices) (production : Production) (product : Product) :
    (completed choices production product).outcome.Complete := by
  rw [Outcome.Complete, completed, Ending.outcome]
  cases product.report.isPartial <;> simp

theorem code_completed (choices : Choices) (production : Production) (product : Product) :
    (completed choices production product).outcome.code = 4 ↔ product.report.failures ≠ [] := by
  rw [completed, Ending.outcome]
  cases hfailures : product.report.failures <;> simp [Report.isPartial, hfailures]

/-- A command whose output path is an existing folder, which the path does not go through itself:
either it ends with 0 or 4 and the folder holds the file of a product and nothing else, or it ends
otherwise and the whole tree is as it was.  It ends with 0 or 4 exactly if a product comes of the
specification file as it is in the tree with the folder emptied, and with 4 exactly if the report of
that product has failures.  For this the specification file has to be there at first, which it is
anyway if the working folder is there, and the option for the output folder must not lack its
value.  If the folder holds something, there has to be a folder for temporary files outside of it. -/
theorem output_all_or_nothing (home place : Place) (temporary : Temporary) (tree : Tree)
    (choices : Choices) (former : List (String × Tree))
    (hpath : target home choices.output tree = .found place)
    (hformer : tree.at? place = some (.folder former))
    (hlasting : target home choices.output (emptied place tree) = .found place)
    (hshelters : former ≠ [] → temporary.Shelters home tree place) :
    ∃ outcome final, (run (inMemory home temporary) choices).run tree = (outcome, final)
      ∧ (outcome.code = 0 ∨ outcome.code = 4 → ∃ product,
          (productionIn home choices (emptied place tree)).result = .ok product ∧
            final = Tree.put (.folder [(product.name, .file product.text.toUTF8)]) place tree)
      ∧ (¬ (outcome.code = 0 ∨ outcome.code = 4) → final = tree)
      ∧ (outcome.code = 0 ∨ outcome.code = 4 ↔
          sightOf (found? home choices.specification tree) ≠ .nothing
            ∧ choices.lacks .output = false
            ∧ ∃ product, (productionIn home choices (emptied place tree)).result = .ok product)
      ∧ (outcome.code = 4 ↔ (outcome.code = 0 ∨ outcome.code = 4)
            ∧ ∃ product, (productionIn home choices (emptied place tree)).result = .ok product
              ∧ product.report.failures ≠ [])
      ∧ ((∃ entries, tree.at? home = some (.folder entries)) →
          (∃ product, (productionIn home choices (emptied place tree)).result = .ok product) →
            sightOf (found? home choices.specification tree) ≠ .nothing) := by
  have hseen : (∃ entries, tree.at? home = some (.folder entries)) →
      (∃ product, (productionIn home choices (emptied place tree)).result = .ok product) →
        sightOf (found? home choices.specification tree) ≠ .nothing := by
    rintro ⟨entries, hhome⟩ ⟨product, hproduct⟩
    exact seen_of_production (partOf_emptied hformer) hhome hproduct
  obtain ⟨backup, kept, hkeep, hkeeps⟩ := keeps_of_shelters hpath hformer hshelters
  have hkept : kept.at? place = some (.folder former) := hkeeps.at?_place.trans hformer
  have hstill : target home choices.output (emptied place kept) = .found place :=
    (hkeeps.target_put hformer (partOf_empty former) hpath).1.trans hlasting
  have hclear : clearAt home choices.output kept = (.ok (), emptied place kept) :=
    clearAt_of_lasting (hkeeps.leads hformer hpath).1 hkept hstill
  have hsame : sightOf (found? home choices.specification tree) ≠ .nothing →
      productionIn home choices (emptied place kept) =
        productionIn home choices (emptied place tree) :=
    productionIn_kept hkeeps hformer (partOf_empty former)
  have hempty := at?_emptied place kept
  rcases run_ends hpath hformer hkeep hkeeps hclear with
    ⟨product, hsight, houtput, hwrites, hrun⟩ | ⟨hnone, outcome, hrun, hcode⟩
  · have hresult : (productionIn home choices (emptied place tree)).result = .ok product :=
      hsame hsight ▸ hwrites.1
    have hcomplete := complete_of_completed choices
      (productionIn home choices (emptied place kept)) product
    refine ⟨_, _, hrun, fun _ => ⟨product, hresult, rfl⟩, fun hnot => absurd hcomplete hnot,
      ⟨fun _ => ⟨hsight, houtput, product, hresult⟩, fun _ => hcomplete⟩, ?_, hseen⟩
    have hpartial := code_completed choices (productionIn home choices (emptied place kept)) product
    constructor
    · intro hfour
      exact ⟨hcomplete, product, hresult, hpartial.mp hfour⟩
    · rintro ⟨-, other, hother, hfailures⟩
      cases hresult.symm.trans hother
      exact hpartial.mpr hfailures
  · have hnever : ¬ (sightOf (found? home choices.specification tree) ≠ .nothing
        ∧ choices.lacks .output = false
        ∧ ∃ product, (productionIn home choices (emptied place tree)).result = .ok product) := by
      rintro ⟨hsight, houtput, product, hproduct⟩
      rw [← hsame hsight] at hproduct
      exact hnone ⟨product, hsight, houtput, (writes_iff_of_empty hstill hempty).mpr hproduct⟩
    exact ⟨outcome, tree, hrun, fun hdone => absurd hdone hcode, fun _ => rfl,
      ⟨fun hdone => absurd hdone hcode, fun hsome => absurd hsome hnever⟩,
      ⟨fun hfour => absurd (.inr hfour) hcode, fun hfour => absurd hfour.1 hcode⟩, hseen⟩

/-- Whatever way the output path takes, a command that can empty the output folder and is not
complete leaves the whole tree as it was.  A complete one leaves the file of a product as the only
file in that folder; only folders that the path itself goes through may stand beside it. -/
theorem output_through_itself (home place : Place) (temporary : Temporary)
    (tree kept after : Tree) (choices : Choices) (former : List (String × Tree))
    (backup : Option Place) (hpath : target home choices.output tree = .found place)
    (hformer : tree.at? place = some (.folder former))
    (hshelters : former ≠ [] → temporary.Shelters home tree place)
    (hkeep : keepAt home temporary choices.output tree = (.ok backup, kept))
    (hclear : clearAt home choices.output kept = (.ok (), after)) :
    let (outcome, final) := (run (inMemory home temporary) choices).run tree
    (¬ outcome.Complete → final = tree)
      ∧ (outcome.Complete → ∃ product inner,
          (productionIn home choices after).result = .ok product ∧
          after = Tree.put (.folder inner) place kept ∧
          final = Tree.put (.folder (withProduct product inner)) place tree ∧
          ∀ rest content, final.at? (place ++ rest) = some (.file content) →
            rest = [product.name] ∧ content = product.text.toUTF8) := by
  obtain ⟨_, _, hkeep', hkeeps⟩ := keeps_of_shelters hpath hformer hshelters
  cases hkeep.symm.trans hkeep'
  have hkept : kept.at? place = some (.folder former) := hkeeps.at?_place.trans hformer
  obtain ⟨hafter, -⟩ := hollowed_of_clearAt (hkeeps.leads hformer hpath).1 hkept hclear
  obtain ⟨inner, rfl⟩ := hafter.inside
  rcases run_ends hpath hformer hkeep hkeeps hclear with
    ⟨product, -, -, hwrites, hrun⟩ | ⟨-, outcome, hrun, hcode⟩
  · rw [hrun]
    refine ⟨fun hnot => absurd (complete_of_completed choices _ product) hnot, fun _ => ?_⟩
    refine ⟨product, inner, hwrites.1, rfl, rfl, ?_⟩
    intro rest content hfile
    have hput : Tree.put (.file product.text.toUTF8) [product.name] (.folder inner) =
        .folder (withProduct product inner) := rfl
    rw [at?_put_append, ← hput] at hfile
    rcases file_of_put hfile with ⟨below, rfl, hbelow⟩ | hleft
    · cases below with
      | nil =>
        simp only [at?_nil, Option.some.injEq, Tree.file.injEq] at hbelow
        exact ⟨rfl, hbelow.symm⟩
      | cons name below => simp at hbelow
    · rw [← at?_put_append _ place rest kept] at hleft
      exact absurd hleft (hafter.hollow rest content)
  · rw [hrun]
    exact ⟨fun _ => rfl, fun hdone => absurd hdone hcode⟩

/-! ### A specification without operations -/

def bareText : String := "\x7b\"openapi\":\"3.0.0\",\"paths\":\x7b\x7d\x7d"

def bareData : Json := .obj [("openapi", .str "3.0.0"), ("paths", .obj [])]

def bareManifest : String :=
  "# API client models\n\n- Target language: `csharp`\n- Required parameters first: no\n"
    ++ "- Wrapped responses: no\n"

def bareProduct : Product := ⟨"clients.md", bareManifest, ⟨[], [], []⟩⟩

/-- What the arguments choose that name a specification file and an output folder. -/
def bareChoices (output : Path) : Choices where
  specification := ⟨.here, ["spec.json"]⟩
  output := output
  settings := {}
  format := .markdown
  verbose := false
  withheld := []

theorem jsonOf_bare : jsonOf bareText.toUTF8 = .ok bareData := by
  have hread : (jsonOf bareText.toUTF8).toOption.map id = some bareData := by decide +kernel
  obtain ⟨data, hdata, rfl⟩ := Except.ok_of_toOption_map hread
  exact hdata

theorem report_none (journal : Journal) :
    (Generation.report {} {} [] [] journal).1 = .ok ⟨[], [], []⟩ := by
  have hnone : ({} : Graph).typeDefinitions (Generation.roots [] []) = [] :=
    Graph.typeDefinitions_nil {}
  unfold Generation.report Generation.run Generation.prepare
  rw [hnone]
  rfl

theorem productOf_bare (output : Path) :
    productOf (bareChoices output) ⟨.obj [], [], [], {}⟩ ⟨[], [], []⟩ = .ok bareProduct := by
  have hlanguage : ({} : Settings).targetLanguage = .ok Language.csharp := rfl
  have htitle : (⟨.obj [], [], [], {}⟩ : Document).title = .ok "API" := rfl
  have hfile : Manifest.file .markdown ⟨"API", {}, Language.csharp, ⟨[], [], []⟩, {}⟩ =
      .ok ("clients.md", bareManifest) := rfl
  simp [productOf, bareChoices, Choices.lacks, lacksClassName, hlanguage, htitle, hfile, bareProduct,
    bind, Except.bind, pure, Except.pure]

theorem produce_bare (output : Path) :
    (produce (bareChoices output) bareText.toUTF8).result = .ok bareProduct := by
  have hread : (Reading.read {} bareData).1 = .ok ⟨.obj [], [], [], {}⟩ := rfl
  rcases hrun : Reading.read {} bareData with ⟨failure | document, reader⟩
  · rw [hrun] at hread
    cases hread
  · rw [hrun] at hread
    cases hread
    have hlanguage : (bareChoices output).lacks .language = false := rfl
    have hsettings : (bareChoices output).settings = {} := rfl
    have hreport := report_none reader.journal
    simp only [produce, jsonOf_bare, produceFrom, hrun, hlanguage, hsettings, Document.definitions,
      List.map_nil]
    simp [hreport, Except.bind, productOf_bare, Except.mapError]

/-- A working folder with the specification file and an output folder that holds some entries. -/
def bareTree (content : ByteArray) (former : List (String × Tree)) : Tree :=
  .folder [("out", .folder former), ("spec.json", .file content)]

theorem productionIn_bare (output : Path) (former : List (String × Tree)) :
    (productionIn [] (bareChoices output) (bareTree bareText.toUTF8 former)).result =
      .ok bareProduct := by
  have hread : ∀ content, contentAt [] ⟨.here, ["spec.json"]⟩ (bareTree content former) =
      .ok content := fun _ => rfl
  have hpolicy : (bareChoices output).lacks .policy = false := rfl
  have hspecification : (bareChoices output).specification = ⟨.here, ["spec.json"]⟩ := rfl
  simp only [productionIn, hpolicy, hspecification, hread, Bool.false_eq_true, if_false,
    produce_bare]

theorem at?_bareTree (content : ByteArray) (former : List (String × Tree)) :
    (bareTree content former).at? ["out"] = some (.folder former) := rfl

theorem put_bareTree (content : ByteArray) (former entries : List (String × Tree)) :
    Tree.put (.folder entries) ["out"] (bareTree content former) = bareTree content entries := rfl

theorem target_bareTree (content : ByteArray) (former : List (String × Tree)) :
    target [] ⟨.here, ["out"]⟩ (bareTree content former) = .found ["out"] := rfl

theorem shelters_bareTree (content : ByteArray) (former : List (String × Tree)) :
    (default : Temporary).Shelters [] (bareTree content former) ["out"] where
  there := ⟨_, rfl⟩
  beside := by decide
  away := by
    intro entries _ hway
    exact absurd hway (by simp)

/-- A backup of the output folder stands behind the other entries of the root. -/
theorem kept_bareTree {path : Path} (content : ByteArray) {former : List (String × Tree)}
    (hpath : target [] path (bareTree content former) = .found ["out"]) (hformer : former ≠ []) :
    ∃ name,
      keepAt [] default path (bareTree content former) = (.ok (some [name]),
        .folder [("out", .folder former), ("spec.json", .file content), (name, .folder former)])
      ∧ Keeps [] ["out"] former (bareTree content former) (some [name])
        (.folder [("out", .folder former), ("spec.json", .file content), (name, .folder former)]) := by
  obtain ⟨backup, kept, hkeep, hkeeps⟩ := keeps_of_shelters hpath (at?_bareTree content former)
    fun _ => shelters_bareTree content former
  have hentries := entriesAt_found hpath (at?_bareTree content former)
  have hsome : former.isEmpty = false := by simpa using hformer
  have hcopy : copiesItself [] path [] (bareTree content former) = false := by
    simp [copiesItself, hpath]
  let root : List (String × Tree) := [("out", .folder former), ("spec.json", .file content)]
  have hput : Tree.put (.folder former) [Temporary.longName root] (bareTree content former) =
      .folder (root ++ [(Temporary.longName root, .folder former)]) := by
    have hnew : Temporary.longName root ∉ root.map (·.1) := by
      rw [← Entries.has_iff, Temporary.has_longName]
      exact Bool.false_ne_true
    rw [← Entries.put_of_not_mem hnew]
    rfl
  have hmade : keepAt [] default path (bareTree content former) =
      (.ok (some [Temporary.longName root]),
        Tree.put (.folder former) [Temporary.longName root] (bareTree content former)) := by
    simp only [keepAt, hentries, hsome]
    change (if copiesItself [] path [] (bareTree content former) then _ else _) = _
    rw [hcopy]
    rfl
  rw [hmade] at hkeep
  cases hkeep
  rw [hput] at hmade hkeeps
  exact ⟨_, hmade, hkeeps⟩

theorem output_all_or_nothing_bare :
    (Command.choices ["spec.json", "-o", "out"]).toOption = some (bareChoices ⟨.here, ["out"]⟩)
      ∧ target [] ⟨.here, ["out"]⟩ (bareTree bareText.toUTF8 [("old", .folder [])]) = .found ["out"]
      ∧ target [] ⟨.here, ["out"]⟩ (emptied ["out"] (bareTree bareText.toUTF8 [("old", .folder [])]))
        = .found ["out"]
      ∧ (default : Temporary).Shelters [] (bareTree bareText.toUTF8 [("old", .folder [])]) ["out"]
      ∧ ∃ outcome, (run (inMemory []) (bareChoices ⟨.here, ["out"]⟩)).run
          (bareTree bareText.toUTF8 [("old", .folder [])]) =
            (outcome, bareTree bareText.toUTF8 [("clients.md", .file bareManifest.toUTF8)])
        ∧ outcome.code = 0 := by
  have hpath := target_bareTree bareText.toUTF8 [("old", .folder [])]
  have hemptied : emptied ["out"] (bareTree bareText.toUTF8 [("old", .folder [])]) =
      bareTree bareText.toUTF8 [] := put_bareTree _ _ _
  have hlasting : target [] ⟨.here, ["out"]⟩
      (emptied ["out"] (bareTree bareText.toUTF8 [("old", .folder [])])) = .found ["out"] := by
    rw [hemptied, target_bareTree]
  have hshelters := shelters_bareTree bareText.toUTF8 [("old", .folder [])]
  refine ⟨by decide +kernel, hpath, hlasting, hshelters, ?_⟩
  have hproduct := productionIn_bare ⟨.here, ["out"]⟩ []
  obtain ⟨outcome, final, hrun, hdone, -, hwhen, hfour, hseen⟩ :=
    output_all_or_nothing [] ["out"] default (bareTree bareText.toUTF8 [("old", .folder [])])
      (bareChoices ⟨.here, ["out"]⟩) [("old", .folder [])] hpath (at?_bareTree _ _) hlasting
      fun _ => hshelters
  rw [hemptied] at hdone hwhen hfour hseen
  have hcode := hwhen.mpr ⟨hseen ⟨_, rfl⟩ ⟨_, hproduct⟩, rfl, bareProduct, hproduct⟩
  obtain ⟨product, hresult, hfinal⟩ := hdone hcode
  cases hproduct.symm.trans hresult
  rw [put_bareTree] at hfinal
  subst hfinal
  refine ⟨outcome, hrun, hcode.resolve_right fun hcode4 => ?_⟩
  obtain ⟨-, other, hother, hfailures⟩ := hfour.mp hcode4
  cases hproduct.symm.trans hother
  exact hfailures rfl

/-- The output folder `out` is reached through its own folder `a`, which is therefore made again and
stays beside the file although the command ends with 0. -/
theorem output_not_emptied :
    (Command.choices ["spec.json", "-o", "out/a/.."]).toOption =
        some (bareChoices ⟨.here, ["out", "a", ".."]⟩)
      ∧ target [] ⟨.here, ["out", "a", ".."]⟩ (bareTree bareText.toUTF8 [("a", .folder [])]) =
        .found ["out"]
      ∧ ∃ outcome, (run (inMemory []) (bareChoices ⟨.here, ["out", "a", ".."]⟩)).run
          (bareTree bareText.toUTF8 [("a", .folder [])]) =
            (outcome, bareTree bareText.toUTF8
              [("a", .folder []), ("clients.md", .file bareManifest.toUTF8)])
        ∧ outcome.code = 0 := by
  have hpath : ∀ content, target [] ⟨.here, ["out", "a", ".."]⟩
      (bareTree content [("a", .folder [])]) = .found ["out"] := fun _ => rfl
  obtain ⟨name, hkeep, hkeeps⟩ := kept_bareTree bareText.toUTF8 (hpath bareText.toUTF8)
    (List.cons_ne_nil ("a", Tree.folder []) [])
  have hclear : ∀ content copy, clearAt [] ⟨.here, ["out", "a", ".."]⟩
      (.folder [("out", .folder [("a", .folder [])]), ("spec.json", .file content), (name, copy)]) =
        (.ok (), Tree.put (.folder [("a", .folder [])]) ["out"]
          (.folder [("out", .folder [("a", .folder [])]), ("spec.json", .file content),
            (name, copy)])) := fun _ _ => rfl
  have hseen : ∀ content, sightOf (found? [] ⟨.here, ["spec.json"]⟩
      (bareTree content [("a", .folder [])])) = .file := fun _ => rfl
  have hwrite : ∀ content copy text, (writeAt [] ⟨.here, ["out", "a", "..", "clients.md"]⟩ text
      (.folder [("out", .folder [("a", .folder [])]), ("spec.json", .file content),
        (name, copy)])).1 = .ok () := fun _ _ _ => rfl
  have hproduct := productionIn_bare ⟨.here, ["out", "a", ".."]⟩ [("a", .folder [])]
  have hspecification : sightOf (found? [] (bareChoices ⟨.here, ["out", "a", ".."]⟩).specification
      (bareTree bareText.toUTF8 [("a", .folder [])])) ≠ .nothing := by
    rw [bareChoices, hseen]
    decide
  have hkept := productionIn_kept hkeeps (at?_bareTree _ _) (.refl _) hspecification
  refine ⟨by decide +kernel, hpath _, ?_⟩
  rcases @run_ends [] ["out"] _ _ (bareChoices ⟨.here, ["out", "a", ".."]⟩) _ _ default _ (hpath _)
    (at?_bareTree _ _) hkeep hkeeps (hclear _ _) with ⟨product, -, -, hwrites, hrun⟩ | ⟨hnone, -⟩
  · have hmade := hwrites.1
    rw [hkept] at hmade
    cases hproduct.symm.trans hmade
    exact ⟨_, hrun, rfl⟩
  · refine absurd ⟨bareProduct, hspecification, rfl, ?_, hwrite _ _ _⟩ hnone
    rw [hkept]
    exact hproduct

end ApiClients.Command
