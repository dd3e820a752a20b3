import TagBox.Command.Arguments
import TagBox.Run.Walk
import TagBox.Settings.Layers
import TagBox.Stencil.Fill

/-!
# Commands

The command line of yorbox (its specification, §10.6).

A command is read from the arguments, and carried out on what was found: the content of the settings
file, and the folder to work on.  What is printed and how the program ends is part of the outcome, so
that the outer layer only reads, writes and prints.

* `Command.parse` — the command that arguments spell.
* `Command.execute` — the outcome of a command.
-/

namespace TagBox

/-- Where the settings of a command come from. -/
structure SettingsSource where
  /-- The path of the settings file. -/
  file : Option Text
  overrides : List (Text × Value)

/-- How a report is printed. -/
inductive Format where
  | text
  | json
  deriving DecidableEq, Repr

/-- What the program is asked to do. -/
inductive Command where
  /-- Print the version. -/
  | version
  /-- Box or unbox the files of a folder. -/
  | run (dir : Text) (source : SettingsSource) (options : Options) (format : Format)
  /-- Show the wrappers and a preview. -/
  | validate (dir : Text) (source : SettingsSource)

namespace Command

/-! ## Reading -/

/-- The override that a flag makes, if it is given. -/
def overrideOf (given : List Flag.Given) (flag : Flag) (name : String) : List (Text × Value) :=
  (Flag.valuesOf flag given).map fun value => (name.toList, .text value)

/-- Where the settings come from, by the flags given. -/
def sourceOf (given : List Flag.Given) : SettingsSource where
  file := (Flag.valuesOf .config given).head?
  overrides :=
    overrideOf given .toggleName "toggle_name" ++ overrideOf given .boxTemplate "box_template" ++
    overrideOf given .oldBoxTemplate "old_box_template" ++
    overrideOf given .tagsPrefix "tags_prefix" ++
    match Flag.valuesOf .ignore given with
    | [] => []
    | ignored => [("ignored_block_kinds".toList, Settings.listOf ignored)]

/-- Was a flag given? -/
def isGiven (given : List Flag.Given) (flag : Flag) : Bool :=
  !(Flag.valuesOf flag given).isEmpty

/-- A command that revises files; it has to name a folder. -/
def parseRun (action : Action) (arguments : List Text) : Option Command := do
  let given ← Flag.readAll Flag.running arguments
  let dir ← (Flag.valuesOf .dir given).head?
  let options : Options :=
    { action, check := isGiven given .check, recursive := isGiven given .recursive }
  let format := if Flag.valuesOf .format given = ["json".toList] then .json else .text
  return .run dir (sourceOf given) options format

/-- A command that shows the wrappers. -/
def parseValidate (arguments : List Text) : Option Command := do
  let given ← Flag.readAll Flag.common arguments
  return .validate ((Flag.valuesOf .dir given).head?.getD ['.']) (sourceOf given)

/-- The command that arguments spell. -/
def parse : List Text → Option Command
  | [] => none
  | name :: arguments =>
    if name = "box".toList then parseRun .box arguments
    else if name = "unbox".toList then parseRun .unbox arguments
    else if name = "validate".toList then parseValidate arguments
    else if name = "--version".toList ∨ name.take 2 = "-V".toList then some .version
    else none

/-! ## What a command looks at -/

/-- Where the settings come from. -/
def source? : Command → Option SettingsSource
  | .version => none
  | .run _ source _ _ => some source
  | .validate _ source => some source

/-- The paths at which the settings file may be found, the first one first. -/
def documentPaths (command : Command) : List Text :=
  match command.source?.bind SettingsSource.file with
  | none => []
  | some path => path :: (Path.withEnding? path ".toml".toList).toList

/-- The folder to work on. -/
def folder? : Command → Option (Text × Options)
  | .run dir _ options _ => some (dir, options)
  | _ => none

/-! ## Carrying out -/

/-- What the program prints, and how it ends. -/
structure Output where
  code : Nat
  stdout : String := ""
  stderr : List String := []
  deriving DecidableEq, Repr

/-- The output for arguments that spell no command. -/
def Output.usage : Output :=
  { code := 2, stderr := ["usage: yorbox <box|unbox|validate> [options]"] }

/-- The output of a command that cannot go on; `printed` is what was printed before. -/
def Output.failed (message : String) (printed : String := "") : Output :=
  { code := 2, stdout := printed, stderr := ["Error: " ++ message] }

/-- The output of a program that has ended where an error arose; `printed` is what was printed before. -/
def Output.crashed (printed : String := "") : Output :=
  { code := 101, stdout := printed }

/-- What went wrong in a run, with the cause once more behind it. -/
def runErrorText (e : RunError) : String :=
  e.message ++ ": " ++ e.causeMessage

/-- The settings of a command, if its file was found with this content. -/
def settings (source : SettingsSource) (found : Option Content) : Except Settings.LoadError Settings :=
  match source.file, found with
  | none, _ => Settings.load none source.overrides
  | some path, none => .error (.missing path)
  | some _, some (.raw _) => .error .unreadable
  | some _, some (.text document) => Settings.load (some document) source.overrides

/-- The output for a report. -/
def report (format : Format) (report : Report) : Output :=
  let code := if report.hasFailures || (report.check && !report.changed.isEmpty) then 1 else 0
  match format with
  | .json => { code, stdout := report.json ++ "\n" }
  | .text =>
    { code, stdout := String.join ((report.lines ++ [report.summary]).map (· ++ "\n")),
      stderr := report.failures }

/-- Box or unbox a folder: the folder afterwards if the run has begun, and the output. -/
def executeRun (renderer : Stencil.Renderer) (settings : Settings) (dir : Text) (options : Options)
    (format : Format) (target : Except DiskError Entry) : Option Entry × Output :=
  match settings.boxer renderer dir with
  | .error e => (none, .failed ("invalid box template: " ++ e.message))
  | .ok _ =>
    let (now, result) := runTarget renderer settings options dir target
    (now, match result with
      | .error (.setup path e) =>
        .failed ("invalid box template: " ++ runErrorText (.setup path e))
      | .error e => if e.isFatal then .crashed else .failed (runErrorText e)
      | .ok done => report format done)

/-- The two halves of a template. -/
def halves (title : String) (template : Template) : String :=
  title ++ ":\n  left:  " ++ String.ofList (print template.left) ++ "\n  right: " ++
    String.ofList (Text.trimStart (print template.right)) ++ "\n"

/-- A block to show what boxing does. -/
def sample (settings : Settings) : Text :=
  "resource \"aws_s3_bucket\" \"example\" \x7b\n  tags = \x7b\n    ".toList ++ settings.tagsPrefix ++
    "yor_trace = \"00000000-0000-0000-0000-000000000000\"\n  \x7d\n\x7d\n".toList

/-- Show the wrappers and a preview. -/
def executeValidate (renderer : Stencil.Renderer) (settings : Settings) (dir : Text) : Output :=
  match settings.boxer renderer dir with
  | .error e => .failed ("invalid box template: " ++ e.message)
  | .ok boxer =>
    let shown := halves "box template" boxer.template ++
      ((boxer.old.map (halves "old box template")).getD "")
    match boxSource boxer (sample settings) with
    | .error e => if e.isFatal then .crashed shown else .failed (runErrorText e) shown
    | .ok boxed => { code := 0, stdout := shown ++ "preview:\n" ++ String.ofList boxed ++ "\n" }

/-- Carry out a command on what was found: the folder afterwards if it has been worked on, and the
output. -/
def execute (command : Command) (found : Option Content) (target : Except DiskError Entry) :
    Option Entry × Output :=
  match command with
  | .version => (none, { code := 0, stdout := "yorbox 0.1.0\n" })
  | .run dir source options format =>
    match settings source found with
    | .error e => (none, .failed ("invalid configuration: " ++ e.message))
    | .ok loaded => executeRun Stencil.renderer loaded dir options format target
  | .validate dir source =>
    match settings source found with
    | .error e => (none, .failed ("invalid configuration: " ++ e.message))
    | .ok loaded => (none, executeValidate Stencil.renderer loaded dir)

/-! ## On a tree -/

/-- The content of the first file that one of the paths leads to. -/
def findDocument (root : Entry) (paths : List Text) : Option Content :=
  paths.findSome? fun path =>
    match root.get path with
    | .ok (.file _ content) => some content
    | _ => none

/-- Run the program with these arguments on a tree: the tree afterwards and the output. -/
def runOn (arguments : List Text) (root : Entry) : Entry × Output :=
  match parse arguments with
  | none => (root, Output.usage)
  | some command =>
    let found := findDocument root command.documentPaths
    match command.folder? with
    | none => (root, (command.execute found (.error .notFound)).2)
    | some (dir, _) =>
      match command.execute found (root.get dir) with
      | (none, output) => (root, output)
      | (some now, output) => (root.replace dir now, output)

end Command

end TagBox
