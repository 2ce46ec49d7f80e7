import ApiClients.Command.Production

/-!
# The command

`main` reads a specification file and writes one file into the output folder, which holds nothing
else afterwards.  If it cannot, an output folder that held something before gets its former entries
back from the backup that `backup_and_clean_output_dir` makes.  The output folder is emptied before
the specification file is read: a specification file inside it is not found any more.  The backup is
put away in any case, and trouble with that comes before every other trouble.
-/

namespace ApiClients.Command

/-- How a command ends, and the lines that it writes. -/
structure Outcome where
  code : UInt8
  output : List String := []
  errors : List String := []
  deriving DecidableEq, Repr, Inhabited

def troubleLine (trouble : Trouble) : String := "Error: " ++ trouble.text

/-- The outcome of a command that is stopped before it changes anything. -/
def stopped (trouble : Trouble) : Outcome := ⟨trouble.code, [], [troubleLine trouble]⟩

/-- The lines of the journal that are shown: warnings, and everything if asked for. -/
def journalLines (choices : Choices) (journal : Journal) : List String :=
  (journal.filter fun event => choices.verbose || event.level == .warning).map Event.line

def remarkLines (choices : Choices) (production : Production) : List String :=
  if choices.verbose then production.remarks else []

def summary (choices : Choices) (product : Product) : List String :=
  let done := "Client models generated successfully in " ++ choices.output.text
  if choices.verbose then
    ["Built " ++ toString product.report.models.length ++ " operation models in "
        ++ toString product.report.clients.length ++ " clients",
     "Generated 1 files:", "  " ++ (choices.output.entry product.name).text, "", done]
  else [done]

def failureLines (report : Report) : List String :=
  if report.isPartial then
    ("Warning: " ++ toString report.failures.length ++ " operations could not be built:")
      :: report.failures.map fun failure => "  " ++ failure.key ++ ": " ++ failure.reason
  else []

/-- What a command has said when its backup is put away, and what came of it until then. -/
structure Ending where
  output : List String
  errors : List String
  result : Except Trouble Report

/-- The outcome that `main` makes of an ending. -/
def Ending.outcome (ending : Ending) : Outcome :=
  match ending.result with
  | .error trouble => ⟨trouble.code, ending.output, ending.errors ++ [troubleLine trouble]⟩
  | .ok report =>
    ⟨if report.isPartial then 4 else 0, ending.output, ending.errors ++ failureLines report⟩

/-- The ending of a command that has written a product. -/
def completed (choices : Choices) (production : Production) (product : Product) : Ending where
  output := remarkLines choices production ++ summary choices product
  errors := journalLines choices production.journal
  result := .ok product.report

variable {m : Type → Type} [Monad m]

/-- The former entries of the output folder are put back, if there were any. -/
def giveUp (files : Files m) (choices : Choices) (backup : Option Place)
    (production : Production) (trouble : Trouble) : m Ending := do
  let ending (notice : List String) (trouble : Trouble) : Ending := {
    output := remarkLines choices production
    errors := journalLines choices production.journal ++ notice
    result := .error trouble }
  match backup with
  | none => return ending [] trouble
  | some place =>
    let notice := ["Error: Generation failed. Restoring original content."]
    match ← files.restore choices.output place with
    | .error problem => return ending notice (.ofProblem choices.specification problem)
    | .ok () => return ending notice trouble

/-- What comes of the specification file as it is now, by `generate_client_models_from_spec`.  It is
not read without a policy. -/
def production (files : Files m) (choices : Choices) : m Production := do
  if choices.lacks .policy then return { result := .error .noValue }
  else
    match ← files.read choices.specification with
    | .error problem => return { result := .error (.ofProblem choices.specification problem) }
    | .ok content => return produce choices content

/-- The product is written into the emptied output folder, which `backup` is the backup of. -/
def fillOutput (files : Files m) (choices : Choices) (backup : Option Place) : m Ending := do
  let production ← production files choices
  match production.result with
  | .error trouble => giveUp files choices backup production trouble
  | .ok product =>
    match ← files.write (choices.output.entry product.name) product.text.toUTF8 with
    | .error problem =>
      giveUp files choices backup production (.ofProblem choices.specification problem)
    | .ok () => return completed choices production product

/-- The backup is put away, whatever the ending. -/
def putAway (files : Files m) (choices : Choices) (backup : Option Place) (ending : Ending) :
    m Outcome := do
  match backup with
  | none => return ending.outcome
  | some place =>
    match ← files.discard place with
    | .error problem =>
      let late := Trouble.ofProblem choices.specification problem
      return { ending with result := .error late }.outcome
    | .ok () => return ending.outcome

/-- `main` with the choices of its arguments. -/
def run (files : Files m) (choices : Choices) : m Outcome := do
  if (← files.look choices.specification) = .nothing then
    return stopped (.noSpecification choices.specification)
  else if choices.lacks .output then return stopped .noValue
  else if (← files.look choices.output) = .file then
    return stopped (.files (.notFolder choices.output))
  else
    match ← files.keep choices.output with
    | .error problem => return stopped (.ofProblem choices.specification problem)
    | .ok backup =>
      match ← files.clear choices.output with
      | .error problem => return stopped (.ofProblem choices.specification problem)
      | .ok () => putAway files choices backup (← fillOutput files choices backup)

end ApiClients.Command
