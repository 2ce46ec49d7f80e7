import ApiClients.Operation
import ApiClients.Types.Registry

/-!
# Type expressions

The type expression of a schema node in a target language.  A type definition is its emitted name;
an array or a map is spelled out around the type of what it holds; a file depends on where it is
used; everything else is left to the base types of the language.  Null is admitted when the use, the
node or the node that carries its shape admits it.

A container that is met again inside itself cannot be spelled out and becomes the type of anything.
-/

namespace ApiClients

/-- How a schema is used where its type is asked for (`TypeContext`). -/
structure Usage where
  nullable : Bool := false
  fallbackName : String := "Anonymous"
  collectionFormat : Option CollectionFormat := none
  isResponse : Bool := false
  deriving DecidableEq, Repr, Inhabited

/-- What types are resolved with (`TypeResolver`): a language, and its types for the shapes that are
neither type definitions nor files nor containers (`BaseTypeNameResolver`). -/
structure Resolver where
  language : Language
  baseType : Node → Bool → String → TypingM String

namespace Resolver

/-- The base types of a language (`BaseTypeResolver.base_type_name`).  A shape that is no primitive
the language has becomes the type of anything, which is noted unless the shape says nothing
anyway. -/
def primitiveType (language : Language) (node : Node) (nullable : Bool) (use : String) :
    TypingM String := do
  match node.kinds.primitive? with
  | none =>
    if !node.kinds.atMostObject || !node.properties.isEmpty then
      Typing.note (.unmappedShape use node.kinds language.name language.any)
    return language.nullableIf nullable language.any
  | some primitive =>
    match ← Typing.lift (language.primitive? primitive node.format) with
    | some type => return language.nullableIf nullable type
    | none =>
      Typing.note (.unmappedPrimitive language.name primitive use language.any)
      return language.nullableIf nullable language.any

/-- The resolver with the base types of a language. -/
def ofLanguage (language : Language) : Resolver := ⟨language, primitiveType language⟩

/-- The type of a file in a use (`_file_type`). -/
def fileType (language : Language) (usage : Usage) : String :=
  if usage.isResponse then language.fileResponse
  else if usage.collectionFormat = some .multi then language.fileSequence
  else language.fileParameter

/-- The type of a schema inside the containers that are being spelled out around it. -/
def resolveWithin (resolver : Resolver) (graph : Graph) (around : List NodeId) (id : NodeId)
    (usage : Usage) : TypingM String :=
  let language := resolver.language
  let actual := graph.actual id
  let node := graph.node actual
  let nullable := usage.nullable || (graph.node id).isNullable || node.isNullable
  if node.isTypeDefinition then do
    return language.nullableIf nullable (← Registry.name language graph actual)
  else if node.isFile && !node.isArray then pure (fileType language usage)
  else if _container : node.isContainer = true then
    if _fresh : actual ∈ around then do
      let use := if node.typeName.given then node.typeName.plain else usage.fallbackName
      Typing.note (.recursiveContainer use language.any)
      return language.nullableIf nullable language.any
    else if node.isArray then do
      let item ← match node.items with
        | some child =>
          resolver.resolveWithin graph (actual :: around) child
            { fallbackName := usage.fallbackName ++ "Item" }
        | none => pure (if node.isFile then language.fileParameter else language.any)
      return language.nullableIf nullable (language.sequenceOf item)
    else do
      let value ← match node.additional with
        | .shape child =>
          resolver.resolveWithin graph (actual :: around) child
            { fallbackName := usage.fallbackName ++ "Value" }
        | _ => pure language.any
      return language.nullableIf nullable (language.dictionaryOf value)
  else resolver.baseType node nullable usage.fallbackName
termination_by graph.unseen around
decreasing_by
  all_goals exact graph.unseen_cons_lt _fresh (graph.lt_size_of_isContainer _container)

/-- The type of a schema in a use (`TypeResolver.resolve`); no schema has the type of an absent
result. -/
def resolve (resolver : Resolver) (graph : Graph) (schema : Option NodeId)
    (usage : Usage) : TypingM String :=
  match schema with
  | none => pure resolver.language.void
  | some id => resolver.resolveWithin graph [] id usage

end Resolver

end ApiClients
