import TagBox.Proofs.Places
import TagBox.Run.Walk

/-!
# A run, file by file

A run over a folder goes from folder to folder and looks at the source files of each.  Told file by file,
it does one task after the other: a task is the run on one file, on the tree as the ones before it have left
it, or the end of the run at a folder without a boxer.  What is written is never read again: the files are
different ones, and neither the way through the folders nor the boxers depend on what files hold.

* `Stop`, `stopsIn` — the folders on the way of a run.
* `Visit`, `Task`, `tasksOf` — what there is to do in these folders.
* `runTasks` — one task after the other, until one of them ends the run.
* `fileByFile` — a run over a folder does these tasks.
* `stands_of_mem_stopsIn`, `nodup_visits` — a run looks at files that there are, each of them once.
* `pairwise_visits` — in a folder, it does so in the order of their names.
-/

namespace TagBox

/-! ## The way of a run -/

/-- A folder on the way of a run: the names that lead to it, its path, and what is in it. -/
structure Stop where
  place : List Text
  path : Text
  entries : List Entry

mutual

/-- The folders on the way of a run, in the order in which it gets to them. -/
def stopsIn (enters : Entry → Bool) (place : List Text) (path : Text) : Entry → List Stop
  | .file _ _ => []
  | .folder _ entries => ⟨place, path, entries⟩ :: stopsAmong enters place path entries

/-- The folders on the way of a run through the entries of a folder. -/
def stopsAmong (enters : Entry → Bool) (place : List Text) (path : Text) : List Entry → List Stop
  | [] => []
  | entry :: more =>
    if enters entry then
      stopsIn enters (place ++ [entry.name]) (Path.join path entry.name) entry ++
        stopsAmong enters place path more
    else stopsAmong enters place path more

end

/-- A file that a run looks at: the names that lead to it, its path, and the boxer of its folder. -/
structure Visit where
  place : List Text
  path : Text
  boxer : Boxer

/-- The files right in a folder that a run looks at. -/
def filesAt (place : List Text) (path : Text) (boxer : Boxer) (entries : List Entry) : List Visit :=
  entries.filterMap fun
    | .file name _ =>
      if isSource name then some ⟨place ++ [name], Path.join path name, boxer⟩ else none
    | .folder _ _ => none

/-- What a run has to do: to look at a file, or to end. -/
inductive Task where
  | visit (v : Visit)
  | fault (e : RunError)

/-- The file that the task is about. -/
def Task.visit? : Task → Option Visit
  | .visit v => some v
  | .fault _ => none

section Tasks

variable (renderer : Stencil.Renderer) (settings : Settings)

/-- The files in the folder that a run looks at. -/
def Stop.visits (stop : Stop) : List Visit :=
  match settings.boxer renderer stop.path with
  | .error _ => []
  | .ok boxer => filesAt stop.place stop.path boxer stop.entries

/-- What a run has to do in the folder.  Without a boxer for the folder it ends there. -/
def Stop.tasks (stop : Stop) : List Task :=
  match settings.boxer renderer stop.path with
  | .error e => [.fault (.setup stop.path e)]
  | .ok _ => (stop.visits renderer settings).map .visit

/-- What a run has to do in folders. -/
def tasksOf (stops : List Stop) : List Task :=
  stops.flatMap (Stop.tasks renderer settings)

end Tasks

/-- Go on from where a run has come to, unless it has ended. -/
def Progress.andThen {α : Type} (first : Progress α) (next : α → Progress α) : Progress α :=
  match first.fault with
  | some _ => first
  | none => ⟨(next first.now).now, first.reports ++ (next first.now).reports, (next first.now).fault⟩

/-- Do one task after the other, each time on the tree as it is by then, until one of them ends the run. -/
def runTasks (options : Options) : List Task → Entry → Progress Entry
  | [], root => ⟨root, [], none⟩
  | .fault e :: _, root => ⟨root, [], some e⟩
  | .visit v :: more, root =>
    let first := runPath v.boxer options v.path root
    match first.2 with
    | .error e => ⟨first.1, [], some e⟩
    | .ok report =>
      let rest := runTasks options more first.1
      ⟨rest.now, report :: rest.reports, rest.fault⟩

section Way

variable {renderer : Stencil.Renderer} {settings : Settings} {options : Options} {stops more : List Stop}
  {stop : Stop} {root : Entry}

theorem Progress.andThen_of_fault {α : Type} {first : Progress α} {e : RunError}
    (h : first.fault = some e) (next : α → Progress α) : first.andThen next = first := by
  rw [Progress.andThen, h]

theorem Progress.andThen_of_none {α : Type} {first : Progress α} (h : first.fault = none)
    (next : α → Progress α) :
    first.andThen next =
      ⟨(next first.now).now, first.reports ++ (next first.now).reports, (next first.now).fault⟩ := by
  rw [Progress.andThen, h]

theorem tasksOf_cons :
    tasksOf renderer settings (stop :: stops) =
      stop.tasks renderer settings ++ tasksOf renderer settings stops :=
  List.flatMap_cons

theorem tasksOf_append :
    tasksOf renderer settings (stops ++ more) =
      tasksOf renderer settings stops ++ tasksOf renderer settings more :=
  List.flatMap_append

theorem Stop.tasks_of_error {e : Settings.SetupError} (h : settings.boxer renderer stop.path = .error e) :
    stop.tasks renderer settings = [.fault (.setup stop.path e)] := by
  rw [Stop.tasks, h]

theorem Stop.tasks_of_ok {boxer : Boxer} (h : settings.boxer renderer stop.path = .ok boxer) :
    stop.tasks renderer settings = (stop.visits renderer settings).map .visit := by
  rw [Stop.tasks, h]

/-- The files that the tasks of folders are about. -/
theorem filterMap_visit?_tasksOf (stops : List Stop) :
    (tasksOf renderer settings stops).filterMap Task.visit? =
      stops.flatMap (Stop.visits renderer settings) := by
  induction stops with
  | nil => rfl
  | cons stop stops ih =>
    rw [tasksOf_cons, List.filterMap_append, ih, List.flatMap_cons]
    congr 1
    cases hboxer : settings.boxer renderer stop.path with
    | error e =>
      rw [Stop.tasks_of_error hboxer, Stop.visits, hboxer]
      rfl
    | ok boxer =>
      rw [Stop.tasks_of_ok hboxer, List.filterMap_map]
      exact List.filterMap_some

/-- A run that is not at its end goes on with the next tasks. -/
theorem runTasks_append (ts us : List Task) (root : Entry) :
    runTasks options (ts ++ us) root = (runTasks options ts root).andThen (runTasks options us) := by
  induction ts generalizing root with
  | nil => rfl
  | cons t ts ih =>
    cases t with
    | fault e => rfl
    | visit v =>
      rw [List.cons_append, runTasks, runTasks]
      cases hfirst : (runPath v.boxer options v.path root).2 with
      | error e => rfl
      | ok report =>
        simp only [ih, Progress.andThen]
        split <;> simp_all

end Way

/-! ## What a run leaves as it is -/

section Shape

variable {renderer : Stencil.Renderer} {settings : Settings} {options : Options} {path : Text}
  {boxer : Boxer} {name : Text} {entry : Entry} {entries more : List Entry}

theorem shape_afterFiles (e : Entry) : (afterFiles path boxer options e).shape = e.shape := by
  cases e with
  | file name content =>
    rw [afterFiles]
    split <;> simp
  | folder => rfl

theorem afterFiles_of_isFolder {e : Entry} (h : e.isFolder = true) :
    afterFiles path boxer options e = e := by
  cases e with
  | file => simp [Entry.isFolder] at h
  | folder => rfl

theorem runFiles_end {e : RunError} (h : reportOn path boxer options entry = .error e) :
    runFiles path boxer options (entry :: more) = ⟨entry :: more, [], some e⟩ := by
  rw [runFiles, h]

theorem runFiles_cons {report : Option FileReport} (h : reportOn path boxer options entry = .ok report) :
    runFiles path boxer options (entry :: more) =
      ⟨afterFiles path boxer options entry :: (runFiles path boxer options more).now,
        report.toList ++ (runFiles path boxer options more).reports,
        (runFiles path boxer options more).fault⟩ := by
  rw [runFiles, h]

theorem runFiles_shape (path : Text) (boxer : Boxer) (options : Options) (entries : List Entry) :
    (runFiles path boxer options entries).now.map Entry.shape = entries.map Entry.shape := by
  induction entries with
  | nil => rfl
  | cons entry more ih =>
    cases hreport : reportOn path boxer options entry with
    | error e => rw [runFiles_end hreport]
    | ok report => rw [runFiles_cons hreport, List.map_cons, ih, shape_afterFiles, List.map_cons]

/-- If nothing ends the program, every file is revised. -/
theorem runFiles_now (h : (runFiles path boxer options entries).fault = none) :
    (runFiles path boxer options entries).now = entries.map (afterFiles path boxer options) := by
  induction entries with
  | nil => rfl
  | cons entry more ih =>
    cases hreport : reportOn path boxer options entry with
    | error e => simp [runFiles_end hreport] at h
    | ok report =>
      rw [runFiles_cons hreport] at h ⊢
      rw [ih h, List.map_cons]

theorem runFolder_error {e : Settings.SetupError} (h : settings.boxer renderer path = .error e) :
    runFolder renderer settings options path (.folder name entries) =
      ⟨.folder name entries, [], some (.setup path e)⟩ := by
  rw [runFolder, h]

theorem runFolder_end {e : RunError} (h : settings.boxer renderer path = .ok boxer)
    (hfiles : (runFiles path boxer options entries).fault = some e) :
    runFolder renderer settings options path (.folder name entries) =
      ⟨.folder name (runFiles path boxer options entries).now,
        (runFiles path boxer options entries).reports, some e⟩ := by
  simp only [runFolder, h, hfiles]

theorem runFolder_ok (h : settings.boxer renderer path = .ok boxer)
    (hfiles : (runFiles path boxer options entries).fault = none) :
    runFolder renderer settings options path (.folder name entries) =
      ⟨.folder name ((runFolders renderer settings options path entries).now.map
          (afterFiles path boxer options)),
        (runFiles path boxer options entries).reports ++
          (runFolders renderer settings options path entries).reports,
        (runFolders renderer settings options path entries).fault⟩ := by
  simp only [runFolder, h, hfiles]

theorem runFolders_pass (h : options.enters entry = false) :
    runFolders renderer settings options path (entry :: more) =
      ⟨entry :: (runFolders renderer settings options path more).now,
        (runFolders renderer settings options path more).reports,
        (runFolders renderer settings options path more).fault⟩ := by
  simp [runFolders, h]

theorem runFolders_enter (h : options.enters entry = true)
    (hfault : (runFolder renderer settings options (Path.join path entry.name) entry).fault = none) :
    runFolders renderer settings options path (entry :: more) =
      ⟨(runFolder renderer settings options (Path.join path entry.name) entry).now ::
          (runFolders renderer settings options path more).now,
        (runFolder renderer settings options (Path.join path entry.name) entry).reports ++
          (runFolders renderer settings options path more).reports,
        (runFolders renderer settings options path more).fault⟩ := by
  simp [runFolders, h, hfault]

theorem runFolders_end {e : RunError} (h : options.enters entry = true)
    (hfault : (runFolder renderer settings options (Path.join path entry.name) entry).fault = some e) :
    runFolders renderer settings options path (entry :: more) =
      ⟨(runFolder renderer settings options (Path.join path entry.name) entry).now :: more,
        (runFolder renderer settings options (Path.join path entry.name) entry).reports, some e⟩ := by
  simp [runFolders, h, hfault]

theorem runFolders_shape
    (ih : ∀ e ∈ entries, ∀ path, (runFolder renderer settings options path e).now.shape = e.shape) :
    (runFolders renderer settings options path entries).now.map Entry.shape =
      entries.map Entry.shape := by
  induction entries with
  | nil => rw [runFolders]
  | cons entry more ihmore =>
    have hmore := ihmore fun e he => ih e (by simp [he])
    have hentry := ih entry (by simp) (Path.join path entry.name)
    cases henters : options.enters entry with
    | false => rw [runFolders_pass henters, List.map_cons, hmore, List.map_cons]
    | true =>
      cases hfault : (runFolder renderer settings options (Path.join path entry.name) entry).fault with
      | none => rw [runFolders_enter henters hfault, List.map_cons, hmore, hentry, List.map_cons]
      | some e => rw [runFolders_end henters hfault, List.map_cons, hentry, List.map_cons]

/-- Names and folders stay as they are. -/
theorem runFolder_shape (path : Text) (e : Entry) :
    (runFolder renderer settings options path e).now.shape = e.shape := by
  induction e using Entry.induct generalizing path with
  | file name content => rw [runFolder]
  | folder name entries ih =>
    cases hboxer : settings.boxer renderer path with
    | error e => rw [runFolder_error hboxer]
    | ok boxer =>
      have hfiles : Entry.shape ∘ afterFiles path boxer options = Entry.shape :=
        funext shape_afterFiles
      cases hfault : (runFiles path boxer options entries).fault with
      | some e =>
        rw [runFolder_end hboxer hfault, Entry.shape_folder, runFiles_shape, Entry.shape_folder]
      | none =>
        rw [runFolder_ok hboxer hfault, Entry.shape_folder, List.map_map, hfiles, runFolders_shape ih,
          Entry.shape_folder]

end Shape

/-! ## A run is a sequence of tasks -/

/-- What a run over the entry at a place has come to, seen from the tree around it. -/
def Progress.within (place : List Text) (root : Entry) (p : Progress Entry) : Progress Entry :=
  ⟨Entry.updateAt (fun _ => p.now) place root, p.reports, p.fault⟩

section Run

variable {renderer : Stencil.Renderer} {settings : Settings} {options : Options} {place : List Text}
  {path name : Text} {boxer : Boxer} {root : Entry}

/-- The run on the file that a path leads to. -/
theorem runPath_of_leads {content : Content} (hpath : root.resolve path = .ok place)
    (h : Entry.Leads place root (.file name content)) :
    runPath boxer options path root =
      (Entry.updateAt (fun _ => .file name (contentAfter path boxer options content)) place root,
        runFile path boxer options content) := by
  have hget : root.get path = .ok (.file name content) := by
    simp [Entry.get, hpath, h.at?_eq]
  rw [runPath, hget]
  simp only [Entry.replace, hpath]

/-- A file that ends the program stays as it is. -/
theorem contentAfter_of_runFile_error {content : Content} {e : RunError}
    (h : runFile path boxer options content = .error e) :
    contentAfter path boxer options content = content := by
  obtain ⟨hresult, -⟩ := FileReport.ofResult_eq_error_iff.1 h
  rw [contentAfter, hresult]

/-- A run looks at an entry, or passes it by. -/
theorem filesAt_cons_cases (place : List Text) (path : Text) (boxer : Boxer) (options : Options)
    (entry : Entry) (more : List Entry) :
    (∃ file content, entry = .file file content ∧ isSource file = true ∧
      filesAt place path boxer (entry :: more) =
        ⟨place ++ [file], Path.join path file, boxer⟩ :: filesAt place path boxer more) ∨
    (filesAt place path boxer (entry :: more) = filesAt place path boxer more ∧
      afterFiles path boxer options entry = entry ∧ reportOn path boxer options entry = .ok none) := by
  cases entry with
  | folder => exact Or.inr ⟨rfl, rfl, rfl⟩
  | file file content =>
    by_cases hsource : isSource file = true
    · exact Or.inl ⟨file, content, rfl, hsource, by simp [filesAt, hsource]⟩
    · exact Or.inr ⟨by simp [filesAt, hsource], by simp [afterFiles, hsource],
        by simp [reportOn, hsource]⟩

/-- The runs on the files right in a folder. -/
theorem runTasks_filesAt {front entries : List Entry} (hroot : root.Proper)
    (hpath : root.resolve path = .ok place)
    (h : Entry.Leads place root (.folder name (front ++ entries))) :
    runTasks options ((filesAt place path boxer entries).map .visit) root =
      ⟨Entry.updateAt (fun _ => .folder name (front ++ (runFiles path boxer options entries).now))
          place root,
        (runFiles path boxer options entries).reports, (runFiles path boxer options entries).fault⟩ := by
  induction entries generalizing front root with
  | nil =>
    rw [runFiles, h.updateAt_eq_self rfl]
    rfl
  | cons entry more ih =>
    rcases filesAt_cons_cases place path boxer options entry more with
      ⟨file, content, rfl, hsource, hvisits⟩ | ⟨hvisits, hafter, hreport⟩
    · have hfirst := @runPath_of_leads options _ _ _ boxer root _ (h.resolve_child hroot hpath)
        (h.child hroot)
      rw [h.updateAt_child hroot, Entry.name] at hfirst
      rw [hvisits, List.map_cons, runTasks, hfirst]
      cases hfile : runFile (Path.join path file) boxer options content with
      | error e =>
        have hreport : reportOn path boxer options (.file file content) = .error e := by
          simp [reportOn, hsource, hfile, Except.map]
        rw [runFiles_end hreport, contentAfter_of_runFile_error hfile]
      | ok report =>
        have hreport : reportOn path boxer options (.file file content) = .ok (some report) := by
          simp [reportOn, hsource, hfile, Except.map]
        set content' := contentAfter (Path.join path file) boxer options content with hcontent
        have hafter : afterFiles path boxer options (.file file content) = .file file content' := by
          simp [afterFiles, hsource, hcontent]
        have hshape : (Entry.folder name (front ++ .file file content' :: more)).shape =
            (Entry.folder name (front ++ .file file content :: more)).shape := by simp
        obtain ⟨hroot', hsame, h'⟩ := h.exchange hroot hshape
        have hpath' := (Entry.resolve_of_shape_eq hsame path).trans hpath
        have hrest := @ih _ (front ++ [.file file content']) hroot' hpath'
          (by rw [← List.append_cons]; exact h')
        rw [h.updateAt_updateAt rfl, ← List.append_cons] at hrest
        rw [runFiles_cons hreport, hafter]
        simp only [hrest]
        rfl
    · rw [List.append_cons] at h
      rw [hvisits, ih hroot hpath h, runFiles_cons hreport, hafter, ← List.append_cons]
      rfl

/-- Task by task, the run over the entry does what it does. -/
def FileByFile (renderer : Stencil.Renderer) (settings : Settings) (options : Options) (e : Entry) :
    Prop :=
  ∀ (root : Entry) (place : List Text) (path : Text), root.Proper →
    root.resolve path = .ok place → Entry.Leads place root e →
    runTasks options (tasksOf renderer settings (stopsIn options.enters place path e)) root =
      (runFolder renderer settings options path e).within place root

/-- The tasks in the folders of a folder. -/
theorem runTasks_stopsAmong {front entries : List Entry} (hroot : root.Proper)
    (hpath : root.resolve path = .ok place)
    (h : Entry.Leads place root
      (.folder name (front ++ entries.map (afterFiles path boxer options))))
    (ih : ∀ e ∈ entries, FileByFile renderer settings options e) :
    runTasks options (tasksOf renderer settings (stopsAmong options.enters place path entries)) root =
      ⟨Entry.updateAt (fun _ => .folder name (front ++
          (runFolders renderer settings options path entries).now.map (afterFiles path boxer options)))
          place root,
        (runFolders renderer settings options path entries).reports,
        (runFolders renderer settings options path entries).fault⟩ := by
  induction entries generalizing front root with
  | nil =>
    rw [stopsAmong, runFolders, h.updateAt_eq_self rfl]
    rfl
  | cons entry more ihmore =>
    have hmore : ∀ e ∈ more, FileByFile renderer settings options e := fun e he => ih e (by simp [he])
    rw [List.map_cons] at h
    rw [stopsAmong]
    cases henters : options.enters entry with
    | false =>
      rw [List.append_cons] at h
      rw [if_neg (by simp), ihmore hroot hpath h hmore, runFolders_pass henters, List.map_cons,
        ← List.append_cons]
    | true =>
      rw [if_pos rfl]
      have hfolder : entry.isFolder = true := by
        simp only [Options.enters, Bool.and_eq_true] at henters
        exact henters.1.2
      set first := runFolder renderer settings options (Path.join path entry.name) entry with hset
      have hshape : first.now.shape = entry.shape := runFolder_shape _ _
      have hnowFolder : first.now.isFolder = true := by
        rw [← Entry.isFolder_shape, hshape, Entry.isFolder_shape, hfolder]
      rw [afterFiles_of_isFolder hfolder] at h
      -- the run over the folder itself, on the tree around it
      have hfirst := ih entry (by simp) root _ _ hroot (h.resolve_child hroot hpath) (h.child hroot)
      rw [← hset, Progress.within, h.updateAt_child hroot] at hfirst
      rw [tasksOf_append, runTasks_append, hfirst]
      cases hend : first.fault with
      | some e =>
        rw [Progress.andThen_of_fault rfl, runFolders_end henters hend, ← hset, List.map_cons,
          afterFiles_of_isFolder hnowFolder]
      | none =>
        have hshape' : (Entry.folder name (front ++ first.now ::
            more.map (afterFiles path boxer options))).shape = (Entry.folder name (front ++ entry ::
            more.map (afterFiles path boxer options))).shape := by simp [hshape]
        obtain ⟨hroot', hsame, h'⟩ := h.exchange hroot hshape'
        have hpath' := (Entry.resolve_of_shape_eq hsame path).trans hpath
        have hrest := @ihmore _ (front ++ [first.now]) hroot' hpath'
          (by rw [← List.append_cons]; exact h') hmore
        rw [Progress.andThen_of_none rfl, hrest, h.updateAt_updateAt rfl,
          runFolders_enter henters hend, ← hset, List.map_cons, afterFiles_of_isFolder hnowFolder]
        simp [Function.comp_def]

/-- A run over a folder does the tasks of the folders on its way. -/
theorem fileByFile (renderer : Stencil.Renderer) (settings : Settings) (options : Options) (e : Entry) :
    FileByFile renderer settings options e := by
  induction e using Entry.induct with
  | file name content =>
    intro root place path hroot hpath h
    rw [stopsIn, runFolder, Progress.within, h.updateAt_eq_self rfl]
    rfl
  | folder name entries ih =>
    intro root place path hroot hpath h
    rw [stopsIn, tasksOf_cons]
    cases hboxer : settings.boxer renderer path with
    | error e =>
      rw [Stop.tasks_of_error hboxer, runFolder_error hboxer, Progress.within, h.updateAt_eq_self rfl]
      rfl
    | ok boxer =>
      have hvisits : Stop.visits renderer settings ⟨place, path, entries⟩ =
          filesAt place path boxer entries := by
        rw [Stop.visits, hboxer]
      have hfiles := @runTasks_filesAt options place path name boxer root [] entries hroot hpath h
      rw [Stop.tasks_of_ok hboxer, hvisits, runTasks_append, hfiles]
      cases hfault : (runFiles path boxer options entries).fault with
      | some e =>
        rw [Progress.andThen_of_fault rfl, runFolder_end hboxer hfault]
        rfl
      | none =>
        have hnow := runFiles_now hfault
        have hshape : (Entry.folder name (entries.map (afterFiles path boxer options))).shape =
            (Entry.folder name entries).shape := by
          simp [Function.comp_def, shape_afterFiles]
        obtain ⟨hroot', hsame, h'⟩ := h.exchange hroot hshape
        have hpath' := (Entry.resolve_of_shape_eq hsame path).trans hpath
        have hbelow := @runTasks_stopsAmong renderer settings options place path name boxer _ [] entries
          hroot' hpath' h' ih
        rw [Progress.andThen_of_none rfl, hnow, List.nil_append, hbelow, h.updateAt_updateAt rfl,
          runFolder_ok hboxer hfault]
        rfl

end Run

/-! ## Each file is visited once -/

section Once

variable {renderer : Stencil.Renderer} {settings : Settings} {enters : Entry → Bool} {place : List Text}
  {path : Text} {root e : Entry} {stop : Stop} {v : Visit}

theorem exists_of_mem_visits (h : v ∈ stop.visits renderer settings) :
    ∃ boxer name content, settings.boxer renderer stop.path = .ok boxer ∧
      .file name content ∈ stop.entries ∧ isSource name = true ∧
      v = ⟨stop.place ++ [name], Path.join stop.path name, boxer⟩ := by
  rw [Stop.visits] at h
  split at h
  · simp at h
  · rename_i boxer hboxer
    obtain ⟨entry, hentry, hv⟩ := List.mem_filterMap.1 h
    cases entry with
    | folder => simp at hv
    | file name content =>
      obtain ⟨hsource, rfl⟩ : isSource name = true ∧ _ = v := by simpa using hv
      exact ⟨boxer, name, content, hboxer, hentry, hsource, rfl⟩

/-- The folder is where it is said to be. -/
def Stop.Stands (root : Entry) (stop : Stop) : Prop :=
  root.resolve stop.path = .ok stop.place ∧
    ∃ name, Entry.Leads stop.place root (.folder name stop.entries)

theorem stands_of_mem_stopsAmong {name : Text} {front entries : List Entry} (hroot : root.Proper)
    (hpath : root.resolve path = .ok place)
    (h : Entry.Leads place root (.folder name (front ++ entries)))
    (ih : ∀ e ∈ entries, ∀ place path, root.resolve path = .ok place → Entry.Leads place root e →
      ∀ stop ∈ stopsIn enters place path e, stop.Stands root) :
    ∀ stop ∈ stopsAmong enters place path entries, stop.Stands root := by
  induction entries generalizing front with
  | nil => simp [stopsAmong]
  | cons entry more ihmore =>
    have hrest : ∀ stop ∈ stopsAmong enters place path more, stop.Stands root := by
      rw [List.append_cons] at h
      exact ihmore h fun e he => ih e (by simp [he])
    rw [stopsAmong]
    split
    · rw [List.forall_mem_append]
      exact ⟨ih entry (by simp) _ _ (h.resolve_child hroot hpath) (h.child hroot), hrest⟩
    · exact hrest

theorem stands_of_mem_stopsIn (hroot : root.Proper) (hpath : root.resolve path = .ok place)
    (h : Entry.Leads place root e) : ∀ stop ∈ stopsIn enters place path e, stop.Stands root := by
  induction e using Entry.induct generalizing place path with
  | file => simp [stopsIn]
  | folder name entries ih =>
    rw [stopsIn, List.forall_mem_cons]
    refine ⟨⟨hpath, name, h⟩, ?_⟩
    exact @stands_of_mem_stopsAmong enters place path root name [] entries hroot hpath h
      fun e he place path hpath h => ih e he hpath h

/-- The file is where it is said to be. -/
def Visit.Stands (root : Entry) (v : Visit) : Prop :=
  root.resolve v.path = .ok v.place ∧
    ∃ name content, Entry.Leads v.place root (.file name content)

/-- The file is in the folder, which is where it is said to be, and the boxer is that of the folder. -/
def Visit.Belongs (renderer : Stencil.Renderer) (settings : Settings) (root : Entry) (stop : Stop)
    (v : Visit) : Prop :=
  root.resolve stop.path = .ok stop.place ∧ settings.boxer renderer stop.path = .ok v.boxer ∧
    ∃ name, Entry.IsName name ∧ isSource name = true ∧ v.place = stop.place ++ [name] ∧
      v.path = Path.join stop.path name

/-- A run looks at files that there are, in the folders on its way. -/
theorem Stop.Stands.visits (hroot : root.Proper) (hstop : stop.Stands root)
    (hv : v ∈ stop.visits renderer settings) :
    v.Stands root ∧ v.Belongs renderer settings root stop := by
  obtain ⟨hpath, here, hleads⟩ := hstop
  obtain ⟨boxer, name, content, hboxer, hentry, hsource, rfl⟩ := exists_of_mem_visits hv
  obtain ⟨front, behind, hsplit⟩ := List.append_of_mem hentry
  rw [hsplit] at hleads
  have hname : Entry.IsName name := (hleads.proper hroot).split.1
  exact ⟨⟨hleads.resolve_child hroot hpath, name, content, hleads.child hroot⟩,
    hpath, hboxer, name, hname, hsource, rfl, rfl⟩

end Once

section Nodup

variable {renderer : Stencil.Renderer} {settings : Settings} {enters : Entry → Bool} {place : List Text}
  {path : Text} {e : Entry} {entries : List Entry}

theorem prefix_of_mem_stopsAmong
    (ih : ∀ e ∈ entries, ∀ place path, ∀ stop ∈ stopsIn enters place path e, place <+: stop.place) :
    ∀ stop ∈ stopsAmong enters place path entries, ∃ e ∈ entries, place ++ [e.name] <+: stop.place := by
  induction entries with
  | nil => simp [stopsAmong]
  | cons entry more ihmore =>
    have hrest : ∀ stop ∈ stopsAmong enters place path more,
        ∃ e ∈ entry :: more, place ++ [e.name] <+: stop.place := by
      intro stop hstop
      obtain ⟨e, he, hprefix⟩ := ihmore (fun e he => ih e (by simp [he])) stop hstop
      exact ⟨e, by simp [he], hprefix⟩
    rw [stopsAmong]
    split
    · rw [List.forall_mem_append]
      exact ⟨fun stop hstop => ⟨entry, by simp, ih entry (by simp) _ _ stop hstop⟩, hrest⟩
    · exact hrest

/-- All folders on the way are at the start or below it. -/
theorem prefix_of_mem_stopsIn (e : Entry) (place : List Text) (path : Text) :
    ∀ stop ∈ stopsIn enters place path e, place <+: stop.place := by
  induction e using Entry.induct generalizing place path with
  | file => simp [stopsIn]
  | folder name entries ih =>
    rw [stopsIn, List.forall_mem_cons]
    refine ⟨List.prefix_rfl, fun stop hstop => ?_⟩
    obtain ⟨e, -, hprefix⟩ := prefix_of_mem_stopsAmong ih stop hstop
    exact (List.prefix_append place [e.name]).trans hprefix

theorem nodup_stopsAmong (hnodup : (entries.map Entry.name).Nodup)
    (ih : ∀ e ∈ entries, ∀ place path, ((stopsIn enters place path e).map Stop.place).Nodup) :
    ((stopsAmong enters place path entries).map Stop.place).Nodup := by
  induction entries with
  | nil => simp [stopsAmong]
  | cons entry more ihmore =>
    rw [List.map_cons, List.nodup_cons] at hnodup
    have hrest := ihmore hnodup.2 fun e he => ih e (by simp [he])
    rw [stopsAmong]
    split
    · rw [List.map_append]
      refine (ih entry (by simp) _ _).append hrest ?_
      -- a place below two entries would give them the same name
      intro p hp hp'
      obtain ⟨stop, hstop, rfl⟩ := List.mem_map.1 hp
      obtain ⟨stop', hstop', heq⟩ := List.mem_map.1 hp'
      have hprefix := prefix_of_mem_stopsIn entry _ _ stop hstop
      obtain ⟨e, he, hprefix'⟩ :=
        prefix_of_mem_stopsAmong (fun e _ => prefix_of_mem_stopsIn e) stop' hstop'
      rw [heq] at hprefix'
      have hsame : place ++ [entry.name] = place ++ [e.name] :=
        (List.prefix_of_prefix_length_le hprefix hprefix' (by simp)).eq_of_length (by simp)
      have hname : entry.name = e.name := by simpa using hsame
      exact hnodup.1 (hname ▸ List.mem_map_of_mem he)
    · exact hrest

/-- A run gets to each folder once. -/
theorem nodup_stopsIn (h : e.Proper) (place : List Text) (path : Text) :
    ((stopsIn enters place path e).map Stop.place).Nodup := by
  induction h generalizing place path with
  | file => simp [stopsIn]
  | @folder name entries _ hsorted _ ih =>
    rw [stopsIn, List.map_cons, List.nodup_cons]
    refine ⟨?_, nodup_stopsAmong hsorted.nodup fun e he => ih e he⟩
    intro hmem
    obtain ⟨stop, hstop, heq⟩ := List.mem_map.1 hmem
    obtain ⟨e, -, hprefix⟩ :=
      prefix_of_mem_stopsAmong (fun e _ => prefix_of_mem_stopsIn e) stop hstop
    have hle := hprefix.length_le
    rw [show stop.place = place from heq, List.length_append, List.length_singleton] at hle
    omega

theorem filesAt_sublist (place : List Text) (path : Text) (boxer : Boxer) (entries : List Entry) :
    ((filesAt place path boxer entries).map Visit.place).Sublist
      (entries.map fun e => place ++ [e.name]) := by
  induction entries with
  | nil => exact .slnil
  | cons entry more ih =>
    rcases filesAt_cons_cases place path boxer {} entry more with
      ⟨file, content, rfl, -, hvisits⟩ | ⟨hvisits, -, -⟩
    · rw [hvisits]
      exact ih.cons_cons _
    · rw [hvisits]
      exact ih.cons _

/-- The files right in a folder are looked at in the order of their names. -/
theorem pairwise_visits {root : Entry} {stop : Stop} (hroot : root.Proper) (hstop : stop.Stands root) :
    ((stop.visits renderer settings).map Visit.place).Pairwise fun p q =>
      ∃ a b, p = stop.place ++ [a] ∧ q = stop.place ++ [b] ∧ Text.before a b = true := by
  obtain ⟨-, name, hleads⟩ := hstop
  cases hleads.proper hroot with
  | folder _ hsorted _ =>
    rw [Stop.visits]
    split
    · exact .nil
    · refine List.Pairwise.sublist (filesAt_sublist _ _ _ _) (List.pairwise_map.2 ?_)
      exact hsorted.imp fun hbefore => ⟨_, _, rfl, rfl, hbefore⟩

/-- A run looks at each file once. -/
theorem nodup_visits {root : Entry} (hroot : root.Proper) (hpath : root.resolve path = .ok place)
    (h : Entry.Leads place root e) :
    (((stopsIn enters place path e).flatMap (Stop.visits renderer settings)).map Visit.place).Nodup := by
  have hplaces := @nodup_stopsIn enters e (h.proper hroot) place path
  rw [List.map_flatMap, List.nodup_flatMap]
  constructor
  · intro stop hstop
    refine (pairwise_visits hroot (stands_of_mem_stopsIn hroot hpath h stop hstop)).imp ?_
    rintro _ _ ⟨a, b, rfl, rfl, hbefore⟩ heq
    exact Text.ne_of_before hbefore (List.singleton_inj.1 (List.append_cancel_left heq))
  · rw [List.Nodup, List.pairwise_map] at hplaces
    refine hplaces.imp fun {stop stop'} hne => ?_
    intro p hp hp'
    obtain ⟨v, hv, rfl⟩ := List.mem_map.1 hp
    obtain ⟨v', hv', heq⟩ := List.mem_map.1 hp'
    obtain ⟨_, name, _, -, -, -, rfl⟩ := exists_of_mem_visits hv
    obtain ⟨_, name', _, -, -, -, rfl⟩ := exists_of_mem_visits hv'
    exact hne (List.append_inj_left' heq.symm rfl)

end Nodup

end TagBox
