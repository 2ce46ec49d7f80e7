import ApiClients.Files.Path
import ApiClients.Language.Known
import ApiClients.Manifest
import ApiClients.Settings
import ApiClients.Text.Digit

/-!
# Arguments of the command

The arguments are one specification file and options.  An option has a long name, which may be
shortened as long as no other option starts alike, and perhaps a short name of one letter.  A value
follows its option as the next argument or is attached to it: behind `=`, or at once behind a short
name.  What is attached to the short name of an option without a value holds the letters of more
short names.  Behind the argument `--` nothing is an option; as an attached value it is no value.
`choices` gives what the arguments choose, or why they choose nothing: what `settings_from_args`
makes of what `parse_command_line_args` finds.
-/

namespace ApiClients.Command

open ApiClients.Text

/-- The options. -/
inductive Key where
  | help
  | output
  | language
  | requiredFirst
  | wrapResponses
  | responseClass
  | className
  | policy
  | format
  | verbose
  deriving DecidableEq, Repr, Inhabited

namespace Key

def all : List Key :=
  [help, output, language, requiredFirst, wrapResponses, responseClass, className, policy, format,
    verbose]

def name : Key → String
  | help => "--help"
  | output => "--output"
  | language => "--language"
  | requiredFirst => "--generate-optional-parameters"
  | wrapResponses => "--wrap-responses"
  | responseClass => "--response-class"
  | className => "--class-name"
  | policy => "--operation-name-generator"
  | format => "--format"
  | verbose => "--verbose"

/-- The letter of the short name of an option. -/
def letter? : Key → Option Char
  | help => some 'h'
  | output => some 'o'
  | language => some 'l'
  | verbose => some 'v'
  | _ => none

def takesValue : Key → Bool
  | help => false
  | requiredFirst => false
  | wrapResponses => false
  | verbose => false
  | _ => true

/-- The option with a short name. -/
def ofLetter? (c : Char) : Option Key := all.find? (·.letter? == some c)

/-- The option with a long name. -/
def ofName? (cs : List Char) : Option Key := all.find? (·.name.toList == cs)

/-- The options whose long names start with some characters. -/
def startingWith (cs : List Char) : List Key := all.filter (cs.isPrefixOf ·.name.toList)

end Key

/-- Why arguments make no choices. -/
inductive Stop where
  | help
  | misuse
  deriving DecidableEq, Repr, Inhabited

/-! ### Single arguments -/

def separator : String := "--"

/-- What is attached to the name of an option. -/
inductive Attachment where
  | nothing
  | joined (cs : List Char)
  | assigned (cs : List Char)
  deriving DecidableEq, Repr, Inhabited

/-- What an argument is. -/
inductive Token where
  | plain (text : String)
  | separator
  | option (key : Key) (attachment : Attachment)
  | unknown
  deriving DecidableEq, Repr, Inhabited

def isNumber (cs : List Char) : Bool :=
  let cs := if cs.getLast? == some '\n' then cs.dropLast else cs
  match cs.dropWhile isDecimal with
  | [] => !cs.isEmpty
  | '.' :: fraction => !fraction.isEmpty && fraction.all isDecimal
  | _ => false

/-- The characters before the first `=`, and those after it if there is one. -/
def splitAssigned (cs : List Char) : List Char × Option (List Char) :=
  match cs.dropWhile (· != '=') with
  | [] => (cs, none)
  | _ :: assigned => (cs.takeWhile (· != '='), some assigned)

/-- The option that characters name in full, with what is attached to it by `=`. -/
def inFull? (cs : List Char) : Option Token :=
  match splitAssigned cs with
  | (['-', c], assigned) =>
    (Key.ofLetter? c).map fun key => .option key (assigned.elim .nothing .joined)
  | (name, assigned) =>
    (Key.ofName? name).map fun key => .option key (assigned.elim .nothing .assigned)

/-- The options that an argument that starts with a minus sign may mean. -/
def readings : List Char → List Token
  | '-' :: '-' :: cs =>
    let (name, assigned) := splitAssigned ('-' :: '-' :: cs)
    (Key.startingWith name).map fun key => .option key (assigned.elim .nothing .assigned)
  | '-' :: c :: joined =>
    match Key.ofLetter? c with
    | some key => [.option key (.joined joined)]
    | none => []
  | _ => []

/-- An argument in front of the separator.  An option named in full is meant before others that
start alike; a minus sign by itself, a negative number and an unknown option with a blank in it are
plain. -/
def classify (argument : String) : Except Stop Token :=
  let cs := argument.toList
  match inFull? cs with
  | some token => .ok token
  | none =>
    match cs with
    | '-' :: c :: rest =>
      match readings cs with
      | [token] => .ok token
      | [] => .ok (if isNumber (c :: rest) || cs.contains ' ' then .plain argument else .unknown)
      | _ => .error .misuse
    | _ => .ok (.plain argument)

def tokens : List String → Except Stop (List Token)
  | [] => .ok []
  | argument :: rest =>
    if argument = separator then .ok (.separator :: rest.map .plain)
    else do
      let token ← classify argument
      return token :: (← tokens rest)

/-! ### Choices -/

/-- What the arguments choose. -/
structure Choices where
  specification : Path
  output : Path
  settings : Settings
  format : Manifest.Format
  verbose : Bool
  withheld : List Key
  deriving DecidableEq, Repr, Inhabited

/-- Whether an option is there without its value. -/
def Choices.lacks (choices : Choices) (key : Key) : Bool := choices.withheld.contains key

/-- The choices made so far. -/
structure Draft where
  specification : Option String := none
  output : Path := ⟨.here, ["generated"]⟩
  settings : Settings := {}
  format : Manifest.Format := .markdown
  verbose : Bool := false
  withheld : List Key := []
  surplus : Bool := false
  deriving DecidableEq, Repr, Inhabited

namespace Draft

/-- An option with a value that is chosen. -/
def choose (draft : Draft) (key : Key) (value : String) : Except Stop Draft :=
  let settings := draft.settings
  match key with
  | .output => .ok { draft with output := Path.ofText value }
  | .language =>
    if Language.knownNames.contains value then
      .ok { draft with settings := { settings with language := value } }
    else .error .misuse
  | .responseClass => .ok { draft with settings := { settings with responseClass := value } }
  | .className => .ok { draft with settings := { settings with className := value } }
  | .policy =>
    match Naming.Policy.ofWord? value with
    | some policy => .ok { draft with settings := { settings with policy := policy } }
    | none => .error .misuse
  | .format =>
    match Manifest.Format.ofWord value with
    | .ok format => .ok { draft with format := format }
    | .error _ => .error .misuse
  | _ => .error .misuse

/-- An option with what stands for its value.  The last value holds, and the separator is none. -/
def assign (draft : Draft) (key : Key) (value : String) : Except Stop Draft :=
  if value = separator then .ok { draft with withheld := key :: draft.withheld }
  else choose { draft with withheld := draft.withheld.filter (· ≠ key) } key value

/-- An option without a value. -/
def turnOn (draft : Draft) (key : Key) : Except Stop Draft :=
  match key with
  | .help => .error .help
  | .requiredFirst => .ok { draft with settings := { draft.settings with requiredFirst := true } }
  | .wrapResponses => .ok { draft with settings := { draft.settings with wrapResponses := true } }
  | .verbose => .ok { draft with verbose := true }
  | _ => .error .misuse

/-- The choices of a draft whose arguments are all read. -/
def finish (draft : Draft) : Except Stop Choices :=
  match draft.specification with
  | some specification =>
    if draft.surplus then .error .misuse
    else .ok {
      specification := Path.ofText specification
      output := draft.output
      settings := draft.settings
      format := draft.format
      verbose := draft.verbose
      withheld := draft.withheld }
  | none => .error .misuse

end Draft

/-! ### Options with what is attached to them -/

/-- Options as they are written together: those without a value, and perhaps one with a value at the
end, which may still be missing. -/
structure Cluster where
  switches : List Key
  last : Option (Key × Option String) := none
  deriving DecidableEq, Repr, Inhabited

namespace Cluster

/-- An option to which nothing is attached. -/
def ofKey (key : Key) : Cluster :=
  if key.takesValue then { switches := [], last := some (key, none) } else { switches := [key] }

/-- An option with the characters that are its value; an option without a value has none. -/
def assigned? (key : Key) (cs : List Char) : Option Cluster :=
  if key.takesValue then some { switches := [], last := some (key, some (String.ofList cs)) }
  else none

/-- A short option with the characters behind it: its value if it has one, and otherwise the letter
of another short option with the characters behind that. -/
def spread? (key : Key) : List Char → Option Cluster
  | [] => some (ofKey key)
  | c :: rest =>
    if key.takesValue then assigned? key (c :: rest)
    else do
      let cluster ← spread? (← Key.ofLetter? c) rest
      return { cluster with switches := key :: cluster.switches }

/-- An option with what is attached to it. -/
def read? (key : Key) : Attachment → Option Cluster
  | .nothing => some (ofKey key)
  | .joined [] => assigned? key []
  | .joined cs => spread? key cs
  | .assigned cs => assigned? key cs

end Cluster

/-! ### All arguments -/

/-- The first plain argument is the specification file, others mean nothing. -/
def Draft.place (draft : Draft) (text : String) : Draft :=
  if draft.specification.isNone then { draft with specification := some text }
  else { draft with surplus := true }

/-- The draft after the rest of the arguments.  The separator belongs to the specification file
next to it. -/
def consume : List Token → Draft → Except Stop Draft
  | [], draft => .ok draft
  | .unknown :: rest, draft => consume rest { draft with surplus := true }
  | .plain text :: .separator :: rest, draft =>
    if draft.specification.isNone then consume rest (draft.place text)
    else consume rest { draft with surplus := true }
  | .plain text :: rest, draft => consume rest (draft.place text)
  | .separator :: .plain text :: rest, draft => consume rest (draft.place text)
  | .separator :: rest, draft => consume rest { draft with surplus := true }
  | .option key attachment :: rest, draft =>
    match Cluster.read? key attachment with
    | none => .error .misuse
    | some ⟨switches, last⟩ =>
      let turnedOn := switches.foldlM Draft.turnOn draft
      match last with
      | none => do consume rest (← turnedOn)
      | some (key, some value) => do consume rest (← (← turnedOn).assign key value)
      | some (key, none) =>
        match rest with
        | .plain value :: rest => do consume rest (← (← turnedOn).assign key value)
        | _ => .error .misuse

/-- The choices that arguments make, or why there are none. -/
def choices (arguments : List String) : Except Stop Choices := do
  let tokens ← tokens arguments
  let draft ← consume tokens {}
  draft.finish

end ApiClients.Command
