import ApiClients.Failure
import ApiClients.Identifier
import ApiClients.Json

/-!
# Target languages

A target language is one record: its reserved words and how they are escaped, the casings of its
identifiers, and the spellings of its types.  Types that hold another type are frames around it.
All rules are shared; languages differ in their records only.
-/

namespace ApiClients

/-- A type expression with one hole. -/
structure Frame where
  before : String
  after : String
  deriving DecidableEq, Repr, Inhabited

def Frame.around (frame : Frame) (inner : String) : String := frame.before ++ inner ++ frame.after

/-- The spellings of a primitive type: by format, and for any other format or none. -/
structure Spellings where
  plain : String
  byFormat : List (String × String)
  deriving DecidableEq, Repr, Inhabited

/-- The spelling for a format.  A format that is an array or an object cannot be looked up; any
other that has no spelling of its own gets the plain one. -/
def Spellings.get (spellings : Spellings) : Json → Except Failure String
  | .arr _ => .error .malformed
  | .obj _ => .error .malformed
  | .str format =>
    .ok (((spellings.byFormat.find? (·.1 == format)).map (·.2)).getD spellings.plain)
  | _ => .ok spellings.plain

/-- Everything that varies between target languages (`TargetLanguage`). -/
structure Language where
  name : String
  reserved : List String
  /-- What stands before a reserved word that is used as an identifier. -/
  escapeMark : String
  unescapable : List String
  fallbackMark : String
  sequence : Frame
  dictionary : Frame
  fileParameter : String
  fileSequence : String
  fileResponse : String
  async : Frame
  asyncVoid : String
  void : String
  any : String
  genericException : String
  exceptionFallback : String
  primitives : List (String × Spellings)
  nullable : Frame
  valueTypes : List String
  /-- Whether every type has to be marked to be nullable, not only value types. -/
  marksAllNullable : Bool
  variableCasing : Identifier.Casing
  methodCasing : Identifier.Casing
  typeCasing : Identifier.Casing
  deriving DecidableEq, Repr, Inhabited

namespace Language

/-! ### Identifiers -/

def isReserved (language : Language) (identifier : String) : Bool :=
  language.reserved.contains identifier

def escape (language : Language) (identifier : String) : String :=
  if !language.isReserved identifier then identifier
  else if language.unescapable.contains identifier then language.fallbackMark ++ identifier
  else language.escapeMark ++ identifier

def variableName (language : Language) (name : String) : String :=
  language.variableCasing.apply name

def methodName (language : Language) (name : String) : String :=
  language.methodCasing.apply name

def typeName (language : Language) (name : String) : String :=
  language.typeCasing.apply name

/-! ### Types -/

def sequenceOf (language : Language) (item : String) : String := language.sequence.around item

def dictionaryOf (language : Language) (value : String) : String :=
  language.dictionary.around value

/-- A type with null admitted, marked where the language marks it; there is no null of the absent
result. -/
def nullableOf (language : Language) (type : String) : String :=
  if type = language.void then type
  else if language.marksAllNullable || language.valueTypes.contains type then
    language.nullable.around type
  else type

/-- A type, with null admitted if so asked. -/
def nullableIf (language : Language) (nullable : Bool) (type : String) : String :=
  if nullable then language.nullableOf type else type

def asyncOf (language : Language) (result : String) : String :=
  if result = language.void then language.asyncVoid else language.async.around result

def genericOf (wrapper argument : String) : String := wrapper ++ "<" ++ argument ++ ">"

/-- The spelling of a primitive type with a format; `none` for a type the language does not
have. -/
def primitive? (language : Language) (type : String) (format : Json) :
    Except Failure (Option String) :=
  match language.primitives.find? (·.1 == type) with
  | none => .ok none
  | some (_, spellings) => (spellings.get format).map some

/-- The language without some of its primitive types. -/
def withoutPrimitives (language : Language) (types : List String) : Language :=
  { language with primitives := language.primitives.filter fun p => !types.contains p.1 }

/-- The types that are left are spelled as before. -/
theorem primitive?_withoutPrimitives (language : Language) (types : List String) (type : String)
    (format : Json) :
    (language.withoutPrimitives types).primitive? type format =
      if types.contains type then .ok none else language.primitive? type format := by
  by_cases hgone : types.contains type
  · have hnone : (language.primitives.filter fun p => !types.contains p.1).find? (·.1 == type) =
        none := by
      rw [List.find?_filter, List.find?_eq_none]
      rintro ⟨name, spellings⟩ _ hname
      simp only [Bool.not_eq_true', decide_eq_true_eq, beq_iff_eq] at hname
      rw [hname.2, hgone] at hname
      cases hname.1
    simp only [primitive?, withoutPrimitives, hnone, hgone, if_true]
  · have hsame : (language.primitives.filter fun p => !types.contains p.1).find? (·.1 == type) =
        language.primitives.find? (·.1 == type) := by
      rw [List.find?_filter]
      refine congrArg (List.find? · language.primitives) (funext fun entry => ?_)
      by_cases hname : entry.1 = type
      · simpa [hname] using hgone
      · simp [hname]
    simp only [primitive?, withoutPrimitives, hsame, hgone, if_false, Bool.false_eq_true]

end Language

end ApiClients
