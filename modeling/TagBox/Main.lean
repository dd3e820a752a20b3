import TagBox.Command.Basic

/-!
# The program

The program yorbox.  It reads what a command looks at, carries the command out, writes the files that have
changed and prints the output.
-/

namespace TagBox.Program

/-- A place on disk, for a path as it was given. -/
def onDisk (path : Text) : String :=
  String.ofList path

/-- The content of a file, if there is one at the path. -/
def readFile? (path : Text) : IO (Option Content) := do
  let place := (← IO.currentDir) / onDisk path
  if (← place.pathExists) && !(← place.isDir) then
    return some (Content.ofBytes (← IO.FS.readBinFile place))
  else return none

/-- The content of the first file that is found at one of the paths. -/
def readFirst : List Text → IO (Option Content)
  | [] => return none
  | path :: more => do
    match ← readFile? path with
    | some content => return some content
    | none => readFirst more

/-- The folder at a path, with the files and folders that a run looks at. -/
partial def readFolder (options : Options) (name path : Text) : IO Entry := do
  let place := (← IO.currentDir) / onDisk path
  let mut entries : List Entry := []
  for found in ← place.readDir do
    let inner := found.fileName.toList
    if ← found.path.isDir then
      if options.enters (.folder inner []) then
        entries := (← readFolder options inner (Path.join path inner)) :: entries
    else if isSource inner then
      entries := .file inner (Content.ofBytes (← IO.FS.readBinFile found.path)) :: entries
  return Entry.ofEntries name entries

/-- What stands at a path. -/
def readTarget (options : Options) (path : Text) : IO (Except DiskError Entry) := do
  let place := (← IO.currentDir) / onDisk path
  try
    let _ ← place.metadata
    if ← place.isDir then return .ok (← readFolder options [] path)
    else return .error .notDirectory
  catch
    | .inappropriateType .. => return .error .notDirectory
    | .noFileOrDirectory .. => return .error .notFound
    | e => throw e

/-- Write the files whose content has changed. -/
def writeChanges (path : Text) (before after : Entry) : IO Unit := do
  let old := before.files path
  for (file, content) in after.files path do
    if old.lookup file != some content then
      if let .text value := content then
        IO.FS.writeFile ((← IO.currentDir) / onDisk file) (String.ofList value)

/-- Print the output. -/
def present (output : Command.Output) : IO UInt32 := do
  IO.print output.stdout
  for line in output.stderr do IO.eprintln line
  return output.code.toUInt32

/-- Carry out a command. -/
def perform (command : Command) : IO UInt32 := do
  let found ← readFirst command.documentPaths
  match command.folder? with
  | none => present (command.execute found (.error .notFound)).2
  | some (dir, options) =>
    let target ← readTarget options dir
    let (now, output) := command.execute found target
    if let (.ok before, some after) := (target, now) then writeChanges dir before after
    present output

end TagBox.Program

/-- The program. -/
def main (arguments : List String) : IO UInt32 :=
  match TagBox.Command.parse (arguments.map String.toList) with
  | none => TagBox.Program.present TagBox.Command.Output.usage
  | some command => TagBox.Program.perform command
