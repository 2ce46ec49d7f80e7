import ApiClients.Command

/-!
# The command at work

The operations on real files, and the command line around the command.
-/

namespace ApiClients.Terminal

partial def snapshot (path : Path) : IO (List (String × Tree)) := do
  let folder := (← IO.currentDir) / path.text
  let entries ← folder.readDir
  entries.toList.mapM fun entry => do
    if ← entry.path.isDir then
      return (entry.fileName, .folder (← snapshot (path.entry entry.fileName)))
    else return (entry.fileName, .file (← IO.FS.readBinFile entry.path))

partial def unpack (path : Path) (entries : List (String × Tree)) : IO Unit := do
  for (name, tree) in entries do
    let inner := path.entry name
    match tree with
    | .file content => IO.FS.writeBinFile inner.text content
    | .folder entries =>
      IO.FS.createDirAll inner.text
      unpack inner entries

def empty (path : Path) : IO Unit := do
  let folder := (← IO.currentDir) / path.text
  if ← folder.isDir then
    for entry in ← folder.readDir do
      if ← entry.path.isDir then IO.FS.removeDirAll entry.path
      else IO.FS.removeFile entry.path
  IO.FS.createDirAll path.text

def look (path : Path) : IO Sight := do
  let place := (← IO.currentDir) / path.text
  if ← place.isDir then return .folder
  else if ← place.pathExists then return .file
  else return .nothing

/-- The place of a folder, once it is made. -/
def placeOf (folder : String) : Place := (Path.ofText folder).steps

def files : Files IO where
  look := look
  read path := do
    match ← look path with
    | .nothing => return .error (.missing path)
    | .folder => return .error (.isFolder path)
    | .file => return .ok (← IO.FS.readBinFile path.text)
  keep path := do
    let former ← if (← look path) = .folder then snapshot path else pure []
    if former.isEmpty then return .ok none
    else
      try
        let place := placeOf (← IO.FS.createTempDir).toString
        unpack (Files.pathTo place) former
        return .ok (some place)
      catch _ => return .error (.missing path)
  clear path := do
    try
      empty path
      return .ok ()
    catch _ => return .error (.notFolder path)
  restore path backup := do
    empty path
    if (← look (Files.pathTo backup)) = .folder then
      unpack path (← snapshot (Files.pathTo backup))
      return .ok ()
    else return .error (.missing (Files.pathTo backup))
  discard backup := do
    if (← look (Files.pathTo backup)) = .folder then
      IO.FS.removeDirAll (Files.pathTo backup).text
      return .ok ()
    else return .error (.missing (Files.pathTo backup))
  write path content := do
    if (← look path) = .folder then return .error (.isFolder path)
    else
      IO.FS.writeBinFile path.text content
      return .ok ()

def usage : List String :=
  ["usage: SPEC_FILE [options]", "",
   "Resolve an OpenAPI specification into client operation models", "", "options:"]
    ++ Command.Key.all.map fun key =>
      match key.letter? with
      | some letter => "  -" ++ letter.toString ++ ", " ++ key.name
      | none => "  " ++ key.name

end ApiClients.Terminal

def main (arguments : List String) : IO UInt32 := do
  match ApiClients.Command.choices arguments with
  | .error .help =>
    ApiClients.Terminal.usage.forM fun line => IO.println line
    return 0
  | .error .misuse =>
    ApiClients.Terminal.usage.forM fun line => IO.eprintln line
    return 2
  | .ok choices =>
    let outcome ← ApiClients.Command.run ApiClients.Terminal.files choices
    outcome.output.forM fun line => IO.println line
    outcome.errors.forM fun line => IO.eprintln line
    return outcome.code.toUInt32
