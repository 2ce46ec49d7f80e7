import ApiClients.Files.Tree
import ApiClients.Text.Quoted

/-!
# File operations

What the command does with files, as a record of operations in some monad, so that one definition of
the command serves the real files and a tree in memory.  `Files.inMemory` works on a tree and is the
meaning of the operations, which are the two halves of `backup_and_clean_output_dir` with
`clean_output_directory`, and `write_files_to_disk`.  A folder that is cleared is empty but for
folders that its own path goes through.  Its former entries are kept in a new folder of the same
tree, under the folder for temporary files: clearing a folder that holds that one takes the backup
away with everything else.  An operation that is refused changes nothing but that folders on the way
may have been made.
-/

namespace ApiClients

/-- Why an operation on files is refused. -/
inductive FileProblem where
  | missing (path : Path)
  | occupied (path : Path)
  | notFolder (path : Path)
  | isFolder (path : Path)
  /-- A folder is to be copied to a place inside of one of its own folders: each copy that is made
  has to be copied too, until some limit of the system is reached. -/
  | endless (path : Path)
  deriving DecidableEq, Repr, Inhabited

def FileProblem.text : FileProblem → String
  | .missing path => "[Errno 2] No such file or directory: " ++ Text.quoted path.text
  | .occupied path => "[Errno 17] File exists: " ++ Text.quoted path.text
  | .notFolder path => "[Errno 20] Not a directory: " ++ Text.quoted path.text
  | .isFolder path => "[Errno 21] Is a directory: " ++ Text.quoted path.text
  | .endless path => "[Errno 36] File name too long: " ++ Text.quoted path.text

/-- What is to be seen at a path. -/
inductive Sight where
  | nothing
  | file
  | folder
  deriving DecidableEq, Repr, Inhabited

/-- Operations on files. -/
structure Files (m : Type → Type) where
  look : Path → m Sight
  read : Path → m (Except FileProblem ByteArray)
  /-- A copy of what a folder holds, in a new folder at the place that is returned; none if the
  folder holds nothing or is missing. -/
  keep : Path → m (Except FileProblem (Option Place))
  /-- An empty folder in place of the one at a path.  It is made if it is missing, and so are the
  folders on the way. -/
  clear : Path → m (Except FileProblem Unit)
  /-- The folder at a path holds again what was kept at a place. -/
  restore : Path → Place → m (Except FileProblem Unit)
  /-- What was kept at a place is taken away. -/
  discard : Place → m (Except FileProblem Unit)
  write : Path → ByteArray → m (Except FileProblem Unit)

/-- Where new folders for temporary files are made, as `mkdtemp` does: in the folder at a place, by
a name that no entry of that folder has. -/
structure Temporary where
  place : Place
  name : List (String × Tree) → String
  fresh : ∀ entries, Entries.has entries (name entries) = false

namespace Temporary

/-- A name longer than each of the names that are taken. -/
def longName (entries : List (String × Tree)) : String :=
  String.ofList ('t' :: 'm' :: 'p' :: entries.flatMap fun entry => entry.1.toList)

theorem has_longName (entries : List (String × Tree)) :
    Entries.has entries (longName entries) = false := by
  rw [Entries.has, List.any_eq_false]
  intro entry hentry hsame
  have hname : entry.1 = longName entries := by simpa using hsame
  have hletters := congrArg (fun name => name.toList.length) hname
  have hwithin : entry.1.toList.length ≤
      (entries.flatMap fun entry => entry.1.toList).length := by
    have hmember : entry.1.toList ∈ entries.map fun entry => entry.1.toList :=
      List.mem_map.mpr ⟨entry, hentry, rfl⟩
    rw [List.flatMap]
    exact (List.sublist_flatten_of_mem hmember).length_le
  simp only [longName, String.toList_ofList, List.length_cons] at hletters
  omega

/-- Temporary folders in the root. -/
instance : Inhabited Temporary where
  default := { place := [], name := longName, fresh := has_longName }

end Temporary

namespace Files

/-! ### Looking -/

/-- Where a path leads if paths that start here start at `home`. -/
def target (home : Place) (path : Path) (tree : Tree) : Tree.Target :=
  tree.follow (if path.start = .here then home else []) path.steps

/-- What stands where a path leads. -/
def found? (home : Place) (path : Path) (tree : Tree) : Option Tree :=
  match target home path tree with
  | .found place => tree.at? place
  | _ => none

def sightOf : Option Tree → Sight
  | none => .nothing
  | some (.file _) => .file
  | some (.folder _) => .folder

def entriesAt (home : Place) (path : Path) (tree : Tree) : List (String × Tree) :=
  ((found? home path tree).map Tree.entries).getD []

def contentAt (home : Place) (path : Path) (tree : Tree) : Except FileProblem ByteArray :=
  match target home path tree, found? home path tree with
  | _, some (.file content) => .ok content
  | _, some (.folder _) => .error (.isFolder path)
  | .blocked, none => .error (.notFolder path)
  | .found _, none => .error (.isFolder path)
  | _, none => .error (.missing path)

/-! ### Changing -/

/-- A folder where a path leads, unless there is one.  The folder for it has to be there. -/
def makeLast (home : Place) (path : Path) (tree : Tree) : Except FileProblem Unit × Tree :=
  match target home path tree, found? home path tree with
  | _, some (.folder _) => (.ok (), tree)
  | _, some (.file _) => (.error (.occupied path), tree)
  | .vacant place, none => (.ok (), Tree.put (.folder []) place tree)
  | .blocked, none => (.error (.notFolder path), tree)
  | _, none => (.error (.missing path), tree)

/-- A folder where some steps lead, given backwards.  Folders on the way are made only if the one
for the last step is missing. -/
def makeFolder (home : Place) (start : PathStart) :
    List String → Tree → Except FileProblem Unit × Tree
  | [], tree => (.ok (), tree)
  | name :: before, tree =>
    let path : Path := ⟨start, (name :: before).reverse⟩
    if target home path tree = .unreached then
      match makeFolder home start before tree with
      | (.ok (), tree) => makeLast home path tree
      | refused => refused
    else makeLast home path tree

/-- The folder where a path leads gets some entries in place of those it has. -/
def refillAt (home : Place) (path : Path) (entries : List (String × Tree)) (tree : Tree) :
    Tree :=
  match target home path tree, found? home path tree with
  | .found place, some (.folder _) => Tree.put (.folder entries) place tree
  | _, _ => tree

/-- The folder where a path leads is removed with all that it holds and made again, as
`clean_output_directory` does. -/
def clearAt (home : Place) (path : Path) (tree : Tree) : Except FileProblem Unit × Tree :=
  makeFolder home path.start path.steps.reverse (refillAt home path [] tree)

def writeAt (home : Place) (path : Path) (content : ByteArray) (tree : Tree) :
    Except FileProblem Unit × Tree :=
  match target home path tree, found? home path tree with
  | _, some (.folder _) => (.error (.isFolder path), tree)
  | .found place, some (.file _) => (.ok (), Tree.put (.file content) place tree)
  | .vacant place, none => (.ok (), Tree.put (.file content) place tree)
  | .blocked, none => (.error (.notFolder path), tree)
  | _, _ => (.error (.missing path), tree)

/-! ### Keeping -/

/-- The path from the root to a place. -/
def pathTo (place : Place) : Path := ⟨.root, place⟩

/-- Whether the copy of a folder would lie in a folder inside of it. -/
def copiesItself (home : Place) (path : Path) (inside : Place) (tree : Tree) : Bool :=
  match target home path tree with
  | .found place => place.isPrefixOf inside && place != inside
  | _ => false

/-- What the folder at a path holds is copied into a new temporary folder, if it holds something. -/
def keepAt (home : Place) (temporary : Temporary) (path : Path) (tree : Tree) :
    Except FileProblem (Option Place) × Tree :=
  if (entriesAt home path tree).isEmpty then (.ok none, tree)
  else
    match tree.at? temporary.place with
    | some (.folder entries) =>
      if copiesItself home path temporary.place tree then (.error (.endless path), tree)
      else
        let backup := temporary.place ++ [temporary.name entries]
        (.ok (some backup), Tree.put (.folder (entriesAt home path tree)) backup tree)
    | _ => (.error (.missing (pathTo temporary.place)), tree)

/-- The folder at a path holds what was kept again, and nothing else.  It is cleared all the same if
the backup is gone. -/
def restoreAt (home : Place) (path : Path) (backup : Place) (tree : Tree) :
    Except FileProblem Unit × Tree :=
  match tree.at? backup with
  | some (.folder former) => (.ok (), refillAt home path former tree)
  | _ => (.error (.missing (pathTo backup)), (clearAt home path tree).2)

/-- What was kept is taken away, as `rmtree` does without leave to ignore errors. -/
def discardAt (backup : Place) (tree : Tree) : Except FileProblem Unit × Tree :=
  match tree.at? backup with
  | some (.folder _) => (.ok (), tree.remove backup)
  | some (.file _) => (.error (.notFolder (pathTo backup)), tree)
  | none => (.error (.missing (pathTo backup)), tree)

/-- The operations on a tree in memory.  Paths that start here start at `home`. -/
def inMemory (home : Place) (temporary : Temporary := default) : Files (StateM Tree) where
  look path := return sightOf (found? home path (← get))
  read path := return contentAt home path (← get)
  keep path := modifyGet (keepAt home temporary path)
  clear path := modifyGet (clearAt home path)
  restore path backup := modifyGet (restoreAt home path backup)
  discard backup := modifyGet (discardAt backup)
  write path content := modifyGet (writeAt home path content)

end Files

end ApiClients
