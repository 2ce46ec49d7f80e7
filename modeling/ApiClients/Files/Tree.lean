import ApiClients.Entries
import ApiClients.Files.Path

/-!
# Trees of files

A tree is a file or a folder of named trees.  There are no links: a place in it is given by the
names of the entries that lead there from the root, and no other names lead there.  A path is
followed from a place: a step down needs an entry, a step up needs none, and neither can be taken
from a file.  A folder that was removed while a path starts in it has no entries any more, but it
can still be left upwards.
-/

namespace ApiClients

/-- A file with its content, or a folder with its entries. -/
inductive Tree where
  | file (content : ByteArray)
  | folder (entries : List (String × Tree))
  deriving Inhabited

/-- A place in a tree: the names of the entries that lead to it. -/
abbrev Place := List String

namespace Tree

def isFolder : Tree → Bool
  | .folder _ => true
  | .file _ => false

def entries : Tree → List (String × Tree)
  | .folder entries => entries
  | .file _ => []

/-- What stands at a place. -/
def at? (tree : Tree) : Place → Option Tree
  | [] => some tree
  | name :: rest =>
    match Entries.get? tree.entries name with
    | some child => child.at? rest
    | none => none

/-- The tree with another one put at a place.  Folders on the way are made; a file on the way
gives way to one. -/
def put (new : Tree) : Place → Tree → Tree
  | [], _ => new
  | name :: rest, tree =>
    let child := (Entries.get? tree.entries name).getD (.folder [])
    .folder (Entries.put name (put new rest child) tree.entries)

/-- The tree without what stands at a place.  The root cannot be taken away. -/
def remove : Place → Tree → Tree
  | [name], .folder entries => .folder (entries.filter fun entry => entry.1 != name)
  | name :: rest, .folder entries =>
    match Entries.get? entries name with
    | some child => .folder (Entries.put name (remove rest child) entries)
    | none => .folder entries
  | _, tree => tree

/-- What is put at a place stands there. -/
theorem at?_put (new : Tree) (place : Place) (tree : Tree) :
    (put new place tree).at? place = some new := by
  induction place generalizing tree with
  | nil => rfl
  | cons name rest ih => simp only [put, at?, entries, Entries.get?_put, ih]

/-- Of two trees put at one place the second stays. -/
theorem put_put (new earlier : Tree) (place : Place) (tree : Tree) :
    put new place (put earlier place tree) = put new place tree := by
  induction place generalizing tree with
  | nil => rfl
  | cons name rest ih =>
    simp only [put, entries, Entries.get?_put, Option.getD_some, ih, Entries.put_put]

/-- Putting a tree where it stands already changes nothing. -/
theorem put_at? {new : Tree} {place : Place} {tree : Tree} (h : tree.at? place = some new) :
    put new place tree = tree := by
  induction place generalizing tree with
  | nil =>
    simp only [at?, Option.some.injEq] at h
    exact h.symm
  | cons name rest ih =>
    cases tree with
    | file content => simp [at?, entries, Entries.get?] at h
    | folder es =>
      simp only [at?, entries] at h
      cases found : Entries.get? es name with
      | none => simp [found] at h
      | some child =>
        simp only [found] at h
        simp only [put, entries, found, Option.getD_some, ih h, Entries.put_get? found]

/-! ### Following a path -/

/-- Where a path leads. -/
inductive Target where
  | found (place : Place)
  | vacant (place : Place)
  | unreached
  | blocked
  deriving DecidableEq, Repr, Inhabited

def step (tree : Tree) (target : Target) (name : String) : Target :=
  match target with
  | .found place =>
    match tree.at? place with
    | some (.folder entries) =>
      if name = ".." then .found place.dropLast
      else if Entries.has entries name then .found (place ++ [name])
      else .vacant (place ++ [name])
    | some (.file _) => .blocked
    | none => if name = ".." then .found place.dropLast else .unreached
  | .vacant _ => .unreached
  | .unreached => .unreached
  | .blocked => .blocked

/-- Where some steps lead from a place. -/
def follow (tree : Tree) (start : Place) (steps : List String) : Target :=
  steps.foldl tree.step (.found start)

end Tree

end ApiClients
