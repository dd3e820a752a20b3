import TagBox.Run.Folder
import TagBox.Run.Report

/-!
# Runs over folders

The processor of yorbox on files and folders (its specification, §10.5).

A run over a folder makes the boxer for its path, revises its files in the order of their names, and then
enters its folders in the same order.  That is the order in which a folder lists its entries.  A file
that fails is reported and left alone.  A folder for which there is no boxer ends the run, and so does a
file with a value from which a wrapper cannot be removed; what has been revised by then stays so.

* `runFile` — the report on a file.
* `runFiles` — the files right in a folder, one after the other.
* `runFolder` — a folder afterwards, with the reports and what ended the run.
* `runTarget` — a run over what was found at a path.
* `runDirectory` — a run over the folder that a path leads to.
* `runPath` — a run on the one file that a path leads to.
-/

namespace TagBox

/-- Revise what a file holds. -/
def reviseContent (path : Text) (boxer : Boxer) (action : Action) :
    Content → Except RunError Revision
  | .text source => revise path boxer action source
  | .raw _ => .error (.disk path .notText)

/-- What a file holds after a run: the new text if it has changed and may be written. -/
def contentAfter (path : Text) (boxer : Boxer) (options : Options) (content : Content) : Content :=
  match reviseContent path boxer options.action content with
  | .error _ => content
  | .ok revised =>
    if revised.isChanged && !options.check then .text revised.output else content

/-- The report on a file; there is none if the program ends there. -/
def runFile (path : Text) (boxer : Boxer) (options : Options) (content : Content) :
    Except RunError FileReport :=
  FileReport.ofResult path (reviseContent path boxer options.action content)

/-- Does a run look at a file with this name? -/
def isSource (name : Text) : Bool :=
  Path.extension? name == some "tf".toList

/-- The report on an entry of a folder, if a run over the files right in the folder looks at it. -/
def reportOn (path : Text) (boxer : Boxer) (options : Options) :
    Entry → Except RunError (Option FileReport)
  | .file name content =>
    if isSource name then (runFile (Path.join path name) boxer options content).map some
    else .ok none
  | .folder _ _ => .ok none

/-- An entry after the files right in its folder have been revised. -/
def afterFiles (path : Text) (boxer : Boxer) (options : Options) : Entry → Entry
  | .file name content =>
    if isSource name then .file name (contentAfter (Path.join path name) boxer options content)
    else .file name content
  | .folder name entries => .folder name entries

/-- Does a run enter the entry? -/
def Options.enters (options : Options) (entry : Entry) : Bool :=
  options.recursive && entry.isFolder && !Path.isHidden entry.name

/-- What a run has come to: the tree as it is now, the reports in order, and what ended the run. -/
structure Progress (α : Type) where
  now : α
  reports : List FileReport
  fault : Option RunError

/-- What a run returns: the report, unless something has ended it. -/
def Progress.result {α : Type} (options : Options) (progress : Progress α) : Except RunError Report :=
  match progress.fault with
  | some e => .error e
  | none => .ok ⟨options.action, options.check, progress.reports⟩

/-- Revise the files among the entries of a folder, until one of them ends the program. -/
def runFiles (path : Text) (boxer : Boxer) (options : Options) : List Entry → Progress (List Entry)
  | [] => ⟨[], [], none⟩
  | entry :: more =>
    match reportOn path boxer options entry with
    | .error e => ⟨entry :: more, [], some e⟩
    | .ok report =>
      let rest := runFiles path boxer options more
      ⟨afterFiles path boxer options entry :: rest.now, report.toList ++ rest.reports, rest.fault⟩

mutual

/-- Run over a folder: its files first, then its folders. -/
def runFolder (renderer : Stencil.Renderer) (settings : Settings) (options : Options) (path : Text) :
    Entry → Progress Entry
  | .file name content => ⟨.file name content, [], none⟩
  | .folder name entries =>
    match settings.boxer renderer path with
    | .error e => ⟨.folder name entries, [], some (.setup path e)⟩
    | .ok boxer =>
      let files := runFiles path boxer options entries
      match files.fault with
      | some e => ⟨.folder name files.now, files.reports, some e⟩
      | none =>
        let below := runFolders renderer settings options path entries
        ⟨.folder name (below.now.map (afterFiles path boxer options)),
          files.reports ++ below.reports, below.fault⟩

/-- Run over the folders among entries, until one of them ends the run. -/
def runFolders (renderer : Stencil.Renderer) (settings : Settings) (options : Options) (path : Text) :
    List Entry → Progress (List Entry)
  | [] => ⟨[], [], none⟩
  | entry :: more =>
    if options.enters entry then
      let first := runFolder renderer settings options (Path.join path entry.name) entry
      match first.fault with
      | some e => ⟨first.now :: more, first.reports, some e⟩
      | none =>
        let rest := runFolders renderer settings options path more
        ⟨first.now :: rest.now, first.reports ++ rest.reports, rest.fault⟩
    else
      let rest := runFolders renderer settings options path more
      ⟨entry :: rest.now, rest.reports, rest.fault⟩

end

/-- Run over what was found at a path: the folder afterwards if the run has begun, and the report.
That there is no boxer shows before it shows that there is no folder. -/
def runTarget (renderer : Stencil.Renderer) (settings : Settings) (options : Options) (path : Text)
    (target : Except DiskError Entry) : Option Entry × Except RunError Report :=
  match settings.boxer renderer path, target with
  | .error e, _ => (none, .error (.setup path e))
  | .ok _, .error e => (none, .error (.disk path e))
  | .ok _, .ok (.file _ _) => (none, .error (.disk path .notDirectory))
  | .ok _, .ok (.folder name entries) =>
    let progress := runFolder renderer settings options path (.folder name entries)
    (some progress.now, progress.result options)

/-- Run over the folder that a path leads to: everything as it is afterwards, and the report. -/
def runDirectory (renderer : Stencil.Renderer) (settings : Settings) (options : Options) (path : Text)
    (root : Entry) : Entry × Except RunError Report :=
  match runTarget renderer settings options path (root.get path) with
  | (none, result) => (root, result)
  | (some now, result) => (root.replace path now, result)

/-- Run on the one file that a path leads to. -/
def runPath (boxer : Boxer) (options : Options) (path : Text) (root : Entry) :
    Entry × Except RunError FileReport :=
  match root.get path with
  | .error e => (root, FileReport.ofResult path (.error (.disk path e)))
  | .ok (.folder _ _) => (root, FileReport.ofResult path (.error (.disk path .isDirectory)))
  | .ok (.file name content) =>
    (root.replace path (.file name (contentAfter path boxer options content)),
      runFile path boxer options content)

end TagBox
