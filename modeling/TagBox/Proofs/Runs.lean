import TagBox.Proofs.Revision
import TagBox.Proofs.Visits
import TagBox.Stencil.Fill

/-!
# What a run does to a tree

A run over a folder looks at each source file once, writes it or not, and touches nothing else.  Whether
it may write makes no difference to what it reports.  What ends it early is a folder without a boxer, or a
file with a wrapper that cannot be removed, and by then the files in front of it have been written.

* `agenda`, `runDirectory_eq` — a run over a folder does the tasks of the folders on its way.
* `reached`, `faultOf`, `runTasks_eq` — how far a run gets, and what it reports and leaves behind.
* `check_predicts_run` — a run that only checks says what a run that writes does.
* `runDirectory_of_setup_error` — what is left of a run that was ended by a folder without a boxer.
-/

namespace TagBox

/-! ## One file after the other -/

/-- The report on a file of the tree; there is none if the program ends there. -/
def Visit.report (action : Action) (root : Entry) (v : Visit) : Except RunError FileReport :=
  FileReport.ofResult v.path
    (reviseContent v.path v.boxer action ((root.contentAt? v.place).getD (.raw [])))

/-- Run on one file after the other, each time on the tree as it is by then. -/
def runVisits (options : Options) (vs : List Visit) (root : Entry) : Entry :=
  vs.foldl (fun now v => (runPath v.boxer options v.path now).1) root

section Files

variable {options : Options} {root root' : Entry} {v : Visit} {vs : List Visit}

/-- Files stay where they are as long as names and folders do. -/
theorem Visit.Stands.of_shape_eq (h : v.Stands root) (hroot : root.Proper)
    (heq : root'.shape = root.shape) : v.Stands root' := by
  obtain ⟨hpath, name, content, hleads⟩ := h
  refine ⟨(Entry.resolve_of_shape_eq heq v.path).trans hpath, ?_⟩
  have hat : (Entry.at? v.place root').map Entry.shape = some (.file name (.raw [])) := by
    rw [← Entry.at?_shape, heq, Entry.at?_shape, hleads.at?_eq, Option.map_some, Entry.shape_file]
  obtain ⟨e, he, hshape⟩ := Option.map_eq_some_iff.1 hat
  cases e with
  | folder => simp at hshape
  | file name' content' => exact ⟨name', content', (hroot.of_shape_eq heq).leads he⟩

/-- What the run on one file reports and leaves behind. -/
theorem runPath_spec (options : Options) (hv : v.Stands root) :
    ∃ content, root.contentAt? v.place = some content ∧
      (runPath v.boxer options v.path root).2 = v.report options.action root ∧
      (runPath v.boxer options v.path root).1.shape = root.shape ∧
      (runPath v.boxer options v.path root).1.contentAt? v.place =
        some (contentAfter v.path v.boxer options content) ∧
      (∀ place, place ≠ v.place →
        (runPath v.boxer options v.path root).1.contentAt? place = root.contentAt? place) ∧
      (contentAfter v.path v.boxer options content = content →
        (runPath v.boxer options v.path root).1 = root) := by
  obtain ⟨hpath, name, content, h⟩ := hv
  rw [runPath_of_leads hpath h]
  refine ⟨content, h.contentAt?_eq, ?_, h.shape_updateAt (by simp), ?_, ?_, ?_⟩
  · rw [Visit.report, h.contentAt?_eq]
    rfl
  · exact (h.updateAt rfl).contentAt?_eq
  · intro place hne
    exact h.contentAt?_updateAt hne
  · intro hsame
    exact h.updateAt_eq_self (by rw [hsame])

/-- What runs on different files, one after the other, leave behind. -/
theorem runVisits_spec (options : Options) (hroot : root.Proper) (hstands : ∀ v ∈ vs, v.Stands root)
    (hnodup : (vs.map Visit.place).Nodup) :
    (runVisits options vs root).shape = root.shape ∧
      (∀ v ∈ vs, (runVisits options vs root).contentAt? v.place =
        (root.contentAt? v.place).map (contentAfter v.path v.boxer options)) ∧
      ∀ place, place ∉ vs.map Visit.place →
        (runVisits options vs root).contentAt? place = root.contentAt? place := by
  induction vs generalizing root with
  | nil => exact ⟨rfl, by simp, fun _ _ => rfl⟩
  | cons v vs ih =>
    obtain ⟨content, hcontent, -, hshape, hself, hother, -⟩ :=
      runPath_spec options (hstands v (by simp))
    rw [List.map_cons, List.nodup_cons] at hnodup
    have hne : ∀ w ∈ vs, w.place ≠ v.place := fun w hw heq =>
      hnodup.1 (heq ▸ List.mem_map_of_mem hw)
    obtain ⟨hshape', hvisited, hrest⟩ := ih (hroot.of_shape_eq hshape)
      (fun w hw => (hstands w (by simp [hw])).of_shape_eq hroot hshape) hnodup.2
    rw [runVisits, List.foldl_cons]
    refine ⟨hshape'.trans hshape, ?_, ?_⟩
    · rw [List.forall_mem_cons]
      refine ⟨(hrest v.place hnodup.1).trans ?_, fun w hw => (hvisited w hw).trans ?_⟩
      · rw [hself, hcontent, Option.map_some]
      · rw [hother w.place (hne w hw)]
    · intro place hplace
      rw [List.map_cons, List.mem_cons, not_or] at hplace
      exact (hrest place hplace.2).trans (hother place hplace.1)

/-- Runs that leave every file as it is leave the tree as it is. -/
theorem runVisits_eq_self (hstands : ∀ v ∈ vs, v.Stands root)
    (h : ∀ v ∈ vs, ∀ content, root.contentAt? v.place = some content →
      contentAfter v.path v.boxer options content = content) :
    runVisits options vs root = root := by
  induction vs with
  | nil => rfl
  | cons v vs ih =>
    obtain ⟨content, hcontent, -, -, -, -, hself⟩ := runPath_spec options (hstands v (by simp))
    have hfirst := hself (h v (by simp) content hcontent)
    rw [runVisits, List.foldl_cons, hfirst]
    exact ih (fun w hw => hstands w (by simp [hw])) fun w hw => h w (by simp [hw])

end Files

/-! ## How far a run gets -/

/-- What ends a run at the task, if anything does. -/
def Task.fault? (action : Action) (root : Entry) : Task → Option RunError
  | .fault e => some e
  | .visit v =>
    match v.report action root with
    | .error e => some e
    | .ok _ => none

section Reached

variable (action : Action) (root : Entry)

/-- The files that a run gets through: those in front of the first task that ends it. -/
def reached (tasks : List Task) : List Visit :=
  (tasks.takeWhile fun task => (task.fault? action root).isNone).filterMap Task.visit?

/-- What ends a run. -/
def faultOf (tasks : List Task) : Option RunError :=
  tasks.findSome? (Task.fault? action root)

end Reached

section Tasks

variable {options : Options} {action : Action} {root root' : Entry} {v : Visit} {task : Task}
  {tasks more : List Task}

/-- A task ends the run, or there is a report on a file. -/
theorem Task.fault?_cases (action : Action) (root : Entry) (task : Task) :
    (∃ e, task.fault? action root = some e) ∨
      ∃ v report, task = .visit v ∧ v.report action root = .ok report := by
  cases task with
  | fault e => exact Or.inl ⟨e, rfl⟩
  | visit v =>
    cases hreport : v.report action root with
    | error e => exact Or.inl ⟨e, by simp [Task.fault?, hreport]⟩
    | ok report => exact Or.inr ⟨v, report, rfl, hreport⟩

theorem reached_sublist (action : Action) (root : Entry) (tasks : List Task) :
    (reached action root tasks).Sublist (tasks.filterMap Task.visit?) :=
  (List.takeWhile_sublist _).filterMap Task.visit?

theorem reached_end {e : RunError} (h : task.fault? action root = some e) :
    reached action root (task :: tasks) = [] ∧ faultOf action root (task :: tasks) = some e := by
  simp [reached, faultOf, h]

theorem reached_visit {report : FileReport} (h : v.report action root = .ok report) :
    reached action root (.visit v :: tasks) = v :: reached action root tasks ∧
      faultOf action root (.visit v :: tasks) = faultOf action root tasks := by
  simp [reached, faultOf, Task.fault?, Task.visit?, h]

theorem reached_append :
    reached action root (tasks ++ more) =
      if (faultOf action root tasks).isNone then reached action root tasks ++ reached action root more
      else reached action root tasks := by
  induction tasks with
  | nil => rfl
  | cons task tasks ih =>
    rw [List.cons_append]
    obtain ⟨e, hfault⟩ | ⟨v, report, rfl, hreport⟩ := task.fault?_cases action root
    · obtain ⟨hnil, hend⟩ := @reached_end action root task tasks e hfault
      rw [(reached_end hfault).1, hnil, hend, if_neg (by simp)]
    · rw [(reached_visit hreport).1, (reached_visit hreport).1, (reached_visit hreport).2, ih]
      split <;> rfl

theorem faultOf_append :
    faultOf action root (tasks ++ more) =
      (faultOf action root tasks).or (faultOf action root more) :=
  List.findSome?_append

/-- A run that nothing ends gets through all files. -/
theorem reached_of_faultOf_none (h : faultOf action root tasks = none) :
    reached action root tasks = tasks.filterMap Task.visit? := by
  have hall : ∀ task ∈ tasks, (task.fault? action root).isNone = true := by
    simpa [faultOf, List.findSome?_eq_none_iff] using h
  rw [reached, List.takeWhile_eq_self_iff.2 hall]

/-- There are reports on the files that a run gets through. -/
theorem exists_report_of_mem_reached (h : v ∈ reached action root tasks) :
    ∃ report, v.report action root = .ok report := by
  obtain ⟨task, htask, hv⟩ := List.mem_filterMap.1 h
  have hnone := List.mem_takeWhile_imp htask
  obtain ⟨e, hfault⟩ | ⟨w, report, rfl, hreport⟩ := task.fault?_cases action root
  · simp [hfault] at hnone
  · obtain rfl : w = v := Option.some.inj hv
    exact ⟨report, hreport⟩

theorem forall_mem_reports {vs : List Visit} {P : FileReport → Prop} :
    (∀ report ∈ vs.filterMap fun v => (v.report action root).toOption, P report) ↔
      ∀ v ∈ vs, ∀ report, v.report action root = .ok report → P report := by
  simp only [List.mem_filterMap, toOption_eq_some_iff]
  constructor
  · intro h v hv report hreport
    exact h report ⟨v, hv, hreport⟩
  · rintro h report ⟨v, hv, hreport⟩
    exact h v hv report hreport

/-- How far a run gets depends on the files it has to look at. -/
theorem reached_congr (h : ∀ v ∈ tasks.filterMap Task.visit?, v.report action root' = v.report action root) :
    reached action root' tasks = reached action root tasks ∧
      faultOf action root' tasks = faultOf action root tasks := by
  induction tasks with
  | nil => exact ⟨rfl, rfl⟩
  | cons task tasks ih =>
    cases task with
    | fault e => exact ⟨rfl, rfl⟩
    | visit v =>
      have hv := h v (by simp [Task.visit?])
      obtain ⟨hreached, hfault⟩ := ih fun w hw => h w (List.mem_cons_of_mem v hw)
      cases hreport : v.report action root with
      | error e =>
        have hend : Task.fault? action root (.visit v) = some e := by simp [Task.fault?, hreport]
        have hend' : Task.fault? action root' (.visit v) = some e := by simp [Task.fault?, hv, hreport]
        rw [(reached_end hend).1, (reached_end hend').1, (reached_end hend).2, (reached_end hend').2]
        exact ⟨rfl, rfl⟩
      | ok report =>
        have hreport' := hv.trans hreport
        rw [(reached_visit hreport).1, (reached_visit hreport').1, (reached_visit hreport).2,
          (reached_visit hreport').2, hreached, hfault]
        exact ⟨rfl, rfl⟩

/-- What a run reports and leaves behind: it runs on the files it gets through. -/
theorem runTasks_eq (options : Options) (hroot : root.Proper)
    (hstands : ∀ v ∈ tasks.filterMap Task.visit?, v.Stands root)
    (hnodup : ((tasks.filterMap Task.visit?).map Visit.place).Nodup) :
    runTasks options tasks root =
      ⟨runVisits options (reached options.action root tasks) root,
        (reached options.action root tasks).filterMap fun v => (v.report options.action root).toOption,
        faultOf options.action root tasks⟩ := by
  induction tasks generalizing root with
  | nil => rfl
  | cons task tasks ih =>
    cases task with
    | fault e => rfl
    | visit v =>
      have hcons : (Task.visit v :: tasks).filterMap Task.visit? = v :: tasks.filterMap Task.visit? := rfl
      rw [hcons] at hstands hnodup
      obtain ⟨content, hcontent, hreport, hshape, hself, hother, hsame⟩ :=
        runPath_spec options (hstands v (by simp))
      rw [runTasks]
      cases hfirst : v.report options.action root with
      | error e =>
        have hend : Task.fault? options.action root (.visit v) = some e := by simp [Task.fault?, hfirst]
        have hkeep : contentAfter v.path v.boxer options content = content := by
          rw [Visit.report, hcontent] at hfirst
          exact contentAfter_of_runFile_error hfirst
        simp only [hreport, hfirst, (reached_end hend).1, (reached_end hend).2, hsame hkeep]
        rfl
      | ok report =>
        rw [List.map_cons, List.nodup_cons] at hnodup
        have hlater : ∀ w ∈ tasks.filterMap Task.visit?,
            w.report options.action (runPath v.boxer options v.path root).1 =
              w.report options.action root := by
          intro w hw
          have hne : w.place ≠ v.place := fun heq => hnodup.1 (heq ▸ List.mem_map_of_mem hw)
          rw [Visit.report, hother w.place hne, Visit.report]
        obtain ⟨hreached, hfault⟩ := reached_congr hlater
        have hrest := ih (hroot.of_shape_eq hshape)
          (fun w hw => (hstands w (by simp [hw])).of_shape_eq hroot hshape) hnodup.2
        rw [hreached, hfault] at hrest
        have hreports : ((reached options.action root tasks).filterMap fun w =>
              (w.report options.action (runPath v.boxer options v.path root).1).toOption) =
            (reached options.action root tasks).filterMap fun w =>
              (w.report options.action root).toOption :=
          List.filterMap_congr fun w hw => by
            rw [hlater w ((reached_sublist _ _ _).subset hw)]
        rw [hreports] at hrest
        simp only [hreport, hfirst, hrest, (reached_visit hfirst).1, (reached_visit hfirst).2,
          List.filterMap_cons]
        rfl

end Tasks

/-! ## From a path -/

/-- The folders on the way of a run over what a path leads to. -/
def way (enters : Entry → Bool) (path : Text) (root : Entry) : List Stop :=
  match root.resolve path with
  | .error _ => []
  | .ok place => ((Entry.at? place root).map (stopsIn enters place path)).getD []

/-- What a run over what a path leads to has to do.  That there is no boxer shows before it shows that there
is no folder. -/
def agenda (renderer : Stencil.Renderer) (settings : Settings) (options : Options) (path : Text)
    (root : Entry) : List Task :=
  match settings.boxer renderer path, root.get path with
  | .error e, _ => [.fault (.setup path e)]
  | .ok _, .error e => [.fault (.disk path e)]
  | .ok _, .ok (.file _ _) => [.fault (.disk path .notDirectory)]
  | .ok _, .ok (.folder _ _) => tasksOf renderer settings (way options.enters path root)

section Directory

variable {renderer : Stencil.Renderer} {settings : Settings} {options : Options} {enters : Entry → Bool}
  {path : Text} {root : Entry} {v : Visit}

theorem way_cases (enters : Entry → Bool) (path : Text) (root : Entry) :
    way enters path root = [] ∨
      ∃ place e, root.resolve path = .ok place ∧ Entry.at? place root = some e ∧
        way enters path root = stopsIn enters place path e := by
  unfold way
  cases hpath : root.resolve path with
  | error e => exact Or.inl rfl
  | ok place =>
    cases hat : Entry.at? place root with
    | none => exact Or.inl (by simp [hat])
    | some e => exact Or.inr ⟨place, e, rfl, hat, by simp [hat]⟩

theorem way_of_get {e : Entry} (h : root.get path = .ok e) (enters : Entry → Bool) :
    ∃ place, root.resolve path = .ok place ∧ Entry.at? place root = some e ∧
      way enters path root = stopsIn enters place path e := by
  unfold Entry.get at h
  split at h
  · simp at h
  · rename_i place hpath
    split at h
    · simp at h
    · rename_i e' hat
      obtain rfl : e' = e := Except.ok.inj h
      exact ⟨place, hpath, hat, by simp [way, hpath, hat]⟩

/-- A run ends before it has begun, or goes through the folders on its way. -/
theorem agenda_cases (renderer : Stencil.Renderer) (settings : Settings) (options : Options)
    (path : Text) (root : Entry) :
    (∃ e, settings.boxer renderer path = .error e ∧
      agenda renderer settings options path root = [.fault (.setup path e)]) ∨
    (∃ e, agenda renderer settings options path root = [.fault (.disk path e)]) ∨
    ∃ boxer name entries, settings.boxer renderer path = .ok boxer ∧
      root.get path = .ok (.folder name entries) ∧
      agenda renderer settings options path root =
        tasksOf renderer settings (way options.enters path root) := by
  unfold agenda
  split
  · exact Or.inl ⟨_, ‹_›, rfl⟩
  · exact Or.inr (Or.inl ⟨_, rfl⟩)
  · exact Or.inr (Or.inl ⟨_, rfl⟩)
  · exact Or.inr (Or.inr ⟨_, _, _, ‹_›, ‹_›, rfl⟩)

/-- A run looks at files that there are, in the folders on its way, and at each of them once. -/
theorem stands_of_agenda (hroot : root.Proper) :
    (∀ v ∈ (agenda renderer settings options path root).filterMap Task.visit?, v.Stands root ∧
      ∃ stop ∈ way options.enters path root, v.Belongs renderer settings root stop) ∧
    (((agenda renderer settings options path root).filterMap Task.visit?).map Visit.place).Nodup := by
  obtain ⟨e, -, hagenda⟩ | ⟨e, hagenda⟩ | ⟨-, -, -, -, -, hagenda⟩ :=
    agenda_cases renderer settings options path root
  · rw [hagenda]
    exact ⟨by simp [Task.visit?], .nil⟩
  · rw [hagenda]
    exact ⟨by simp [Task.visit?], .nil⟩
  · rw [hagenda, filterMap_visit?_tasksOf]
    obtain hway | ⟨place, e, hpath, hat, hway⟩ := way_cases options.enters path root
    · rw [hway]
      exact ⟨by simp, .nil⟩
    · rw [hway]
      refine ⟨fun v hv => ?_, nodup_visits hroot hpath (hroot.leads hat)⟩
      obtain ⟨stop, hstop, hvisit⟩ := List.mem_flatMap.1 hv
      obtain ⟨hstands, hbelongs⟩ :=
        (stands_of_mem_stopsIn hroot hpath (hroot.leads hat) stop hstop).visits hroot hvisit
      exact ⟨hstands, stop, hstop, hbelongs⟩

/-- The files that a run gets through: there are reports on them, besides. -/
theorem stands_of_reached (hroot : root.Proper) :
    (∀ v ∈ reached options.action root (agenda renderer settings options path root), v.Stands root ∧
      (∃ stop ∈ way options.enters path root, v.Belongs renderer settings root stop) ∧
      ∃ report, v.report options.action root = .ok report) ∧
    ((reached options.action root (agenda renderer settings options path root)).map Visit.place).Nodup := by
  obtain ⟨hvisits, hnodup⟩ := @stands_of_agenda renderer settings options path root hroot
  have hsub := reached_sublist options.action root (agenda renderer settings options path root)
  refine ⟨fun v hv => ?_, hnodup.sublist (hsub.map _)⟩
  obtain ⟨hstands, hbelongs⟩ := hvisits v (hsub.subset hv)
  exact ⟨hstands, hbelongs, exists_report_of_mem_reached hv⟩

/-- A run over a folder does one task after the other. -/
theorem runDirectory_eq (hroot : root.Proper) :
    runDirectory renderer settings options path root =
      ((runTasks options (agenda renderer settings options path root) root).now,
        (runTasks options (agenda renderer settings options path root) root).result options) := by
  cases hboxer : settings.boxer renderer path with
  | error e => simp [runDirectory, runTarget, agenda, hboxer, runTasks, Progress.result]
  | ok boxer =>
    cases hget : root.get path with
    | error e => simp [runDirectory, runTarget, agenda, hboxer, hget, runTasks, Progress.result]
    | ok e =>
      cases e with
      | file name content =>
        simp [runDirectory, runTarget, agenda, hboxer, hget, runTasks, Progress.result]
      | folder name entries =>
        obtain ⟨place, hpath, hat, hway⟩ := way_of_get hget options.enters
        have hrun := fileByFile renderer settings options (.folder name entries) root place path hroot
          hpath (hroot.leads hat)
        have hagenda : agenda renderer settings options path root =
            tasksOf renderer settings (stopsIn options.enters place path (.folder name entries)) := by
          simp only [agenda, hboxer, hget, hway]
        rw [hagenda, hrun]
        simp only [runDirectory, runTarget, hboxer, hget, Entry.replace, hpath, Progress.within]
        rfl

/-- What a run over a folder reports and leaves behind. -/
theorem runDirectory_eq_reached (hroot : root.Proper) :
    runDirectory renderer settings options path root =
      (runVisits options
          (reached options.action root (agenda renderer settings options path root)) root,
        match faultOf options.action root (agenda renderer settings options path root) with
        | some e => .error e
        | none => .ok ⟨options.action, options.check,
            (reached options.action root (agenda renderer settings options path root)).filterMap fun v =>
              (v.report options.action root).toOption⟩) := by
  obtain ⟨hstands, hnodup⟩ := @stands_of_agenda renderer settings options path root hroot
  rw [runDirectory_eq hroot, runTasks_eq options hroot (fun v hv => (hstands v hv).1) hnodup]
  rfl

end Directory

/-! ## A small tree -/

/-- Settings with a template that begins like the wrapper of `sampleBoxer` and ends with `rest`. -/
def sampleSettings (rest : Text) : Settings :=
  { Settings.default with
    toggleName := ['t']
    boxTemplate := "(var.t ? /*<box>*/{}/*</box>*/ : {}".toList ++ rest
    markedKeys := [['k']] }

/-- A folder with a file and a folder, which has a file too. -/
def sampleTree (name : Text) (first second : Content) : Entry :=
  .folder [] [.file "main.tf".toList first, .folder name [.file "main.tf".toList second]]

theorem proper_sampleTree {name : Text} (hname : Entry.IsName name)
    (hbefore : Text.before "main.tf".toList name = true) (first second : Content) :
    (sampleTree name first second).Proper := by
  have hmain : Entry.IsName "main.tf".toList := by decide
  have hbelow : (Entry.folder name [.file "main.tf".toList second]).Proper :=
    .folder (List.forall_mem_singleton.2 hmain) (List.pairwise_singleton _ _)
      (List.forall_mem_singleton.2 (.file _ _))
  refine .folder ?_ ?_ ?_
  · exact List.forall_mem_cons.2 ⟨hmain, List.forall_mem_singleton.2 hname⟩
  · exact List.pairwise_cons.2 ⟨List.forall_mem_singleton.2 hbefore, List.pairwise_singleton _ _⟩
  · exact List.forall_mem_cons.2 ⟨.file _ _, List.forall_mem_singleton.2 hbelow⟩

section Sample

variable {renderer : Stencil.Renderer} {settings : Settings} {options : Options} {boxer boxer' : Boxer}
  {name : Text} {first second : Content} {report report' : FileReport}

theorem runDirectory_here {entries : List Entry} (hboxer : settings.boxer renderer ['.'] = .ok boxer) :
    runDirectory renderer settings options ['.'] (.folder name entries) =
      ((runFolder renderer settings options ['.'] (.folder name entries)).now,
        (runFolder renderer settings options ['.'] (.folder name entries)).result options) := by
  have hget : (Entry.folder name entries).get ['.'] = .ok (.folder name entries) := rfl
  simp only [runDirectory, hget, runTarget, hboxer]
  rfl

theorem runFiles_sampleTree {path : Text} {entries : List Entry}
    (hfile : runFile (Path.join path "main.tf".toList) boxer options first = .ok report) :
    runFiles path boxer options [.file "main.tf".toList first, .folder name entries] =
        ⟨[.file "main.tf".toList (contentAfter (Path.join path "main.tf".toList) boxer options first),
          .folder name entries], [report], none⟩ ∧
      runFiles path boxer options [.file "main.tf".toList first] =
        ⟨[.file "main.tf".toList (contentAfter (Path.join path "main.tf".toList) boxer options first)],
          [report], none⟩ := by
  have hsource : isSource "main.tf".toList = true := by decide
  have hreport : reportOn path boxer options (.file "main.tf".toList first) = .ok (some report) := by
    rw [reportOn, if_pos hsource, hfile]
    rfl
  have hafter : afterFiles path boxer options (.file "main.tf".toList first) =
      .file "main.tf".toList (contentAfter (Path.join path "main.tf".toList) boxer options first) := by
    rw [afterFiles, if_pos hsource]
  rw [runFiles_cons hreport, runFiles_cons hreport, hafter]
  exact ⟨rfl, rfl⟩

theorem enters_sampleTree (henter : options.recursive = true) (hname : Path.isHidden name = false) :
    options.enters (.file "main.tf".toList first) = false ∧
      options.enters (.folder name [.file "main.tf".toList second]) = true := by
  simp [Options.enters, Entry.isFolder, Entry.name, henter, hname]

/-- Both files are revised if both folders have a boxer. -/
theorem runDirectory_sampleTree (henter : options.recursive = true)
    (hname : Path.isHidden name = false) (hboxer : settings.boxer renderer ['.'] = .ok boxer)
    (hbelow : settings.boxer renderer (Path.join ['.'] name) = .ok boxer')
    (hfirst : runFile "./main.tf".toList boxer options first = .ok report)
    (hsecond : runFile (Path.join (Path.join ['.'] name) "main.tf".toList) boxer' options second =
      .ok report') :
    runDirectory renderer settings options ['.'] (sampleTree name first second) =
      (sampleTree name (contentAfter "./main.tf".toList boxer options first)
          (contentAfter (Path.join (Path.join ['.'] name) "main.tf".toList) boxer' options second),
        .ok ⟨options.action, options.check, [report, report']⟩) := by
  obtain ⟨hpass, hin⟩ := @enters_sampleTree options name first second henter hname
  have hlast : ∀ path, runFolders renderer settings options path [.file "main.tf".toList second] =
      ⟨[.file "main.tf".toList second], [], none⟩ := by
    intro path
    rw [runFolders_pass (by simp [Options.enters, Entry.isFolder]), runFolders]
  have hfiles := (@runFiles_sampleTree options boxer name first report ['.']
    [.file "main.tf".toList second] hfirst).1
  have hfiles' := (@runFiles_sampleTree options boxer' name second report' _ [] hsecond).2
  have hinner := @runFolder_ok renderer settings options _ _ name [.file "main.tf".toList second] hbelow
    (by rw [hfiles'])
  rw [hlast, hfiles'] at hinner
  rw [sampleTree, runDirectory_here hboxer, runFolder_ok hboxer (by rw [hfiles]), hfiles,
    runFolders_pass hpass, runFolders_enter hin (by rw [Entry.name, hinner]), Entry.name, hinner,
    runFolders]
  rfl

/-- The first file is revised if the folder with the second one has no boxer. -/
theorem runDirectory_sampleTree_error {e : Settings.SetupError} (henter : options.recursive = true)
    (hname : Path.isHidden name = false) (hboxer : settings.boxer renderer ['.'] = .ok boxer)
    (hbelow : settings.boxer renderer (Path.join ['.'] name) = .error e)
    (hfirst : runFile "./main.tf".toList boxer options first = .ok report) :
    runDirectory renderer settings options ['.'] (sampleTree name first second) =
      (sampleTree name (contentAfter "./main.tf".toList boxer options first) second,
        .error (.setup (Path.join ['.'] name) e)) := by
  obtain ⟨hpass, hin⟩ := @enters_sampleTree options name first second henter hname
  have hfiles := (@runFiles_sampleTree options boxer name first report ['.']
    [.file "main.tf".toList second] hfirst).1
  rw [sampleTree, runDirectory_here hboxer, runFolder_ok hboxer (by rw [hfiles]), hfiles,
    runFolders_pass hpass, runFolders_end hin (by rw [Entry.name, runFolder_error hbelow]), Entry.name,
    runFolder_error hbelow]
  rfl

theorem boxer_sampleSettings :
    (sampleSettings "\x7b\x7bbase dirPath\x7d\x7d)".toList).boxer Stencil.renderer ['.'] =
      .ok sampleBoxer := by
  decide +kernel

theorem boxer_sampleSettings_broken :
    (sampleSettings "\x7b\x7bbase dirPath\x7d\x7d)".toList).boxer Stencil.renderer
        (Path.join ['.'] "x(".toList) =
      .error (.template (.nesting (.unclosed 2 ['(']))) := by
  decide +kernel

theorem runFile_sample (check : Bool) :
    runFile "./main.tf".toList sampleBoxer ⟨.box, check, true⟩ (.text "resource r {tags={k=1}}".toList) =
      .ok ⟨"./main.tf".toList, .changed, ["resource.r".toList], none⟩ := by
  cases check <;> decide +kernel

theorem contentAfter_sample :
    contentAfter "./main.tf".toList sampleBoxer ⟨.box, false, true⟩
      (.text "resource r {tags={k=1}}".toList) =
    .text "resource r {tags=(var.t ? {k=1} : {})}".toList := by
  decide +kernel

end Sample

/-! ## Checking and writing -/

section Check

variable {renderer : Stencil.Renderer} {settings : Settings} {options : Options} {action : Action}
  {recursive : Bool} {path : Text} {root : Entry} {vs : List Visit}

/-- A file is written if it is reported as changed, and only then. -/
theorem contentAfter_cases {boxer : Boxer} {content : Content} {report : FileReport}
    (h : FileReport.ofResult path (reviseContent path boxer action content) = .ok report) :
    (∃ source r, content = .text source ∧ revise path boxer action source = .ok r ∧
      r.isChanged = true ∧ report.status = .changed ∧
      contentAfter path boxer ⟨action, false, recursive⟩ content = .text r.output) ∨
    (report.status ≠ .changed ∧ contentAfter path boxer ⟨action, false, recursive⟩ content = content) := by
  cases content with
  | raw bytes =>
    obtain rfl := Except.ok.inj h
    exact Or.inr ⟨by simp, rfl⟩
  | text source =>
    rw [reviseContent] at h
    cases hrun : revise path boxer action source with
    | error e =>
      refine Or.inr ⟨?_, by simp [contentAfter, reviseContent, hrun]⟩
      rw [hrun, FileReport.ofResult] at h
      split_ifs at h
      obtain rfl := Except.ok.inj h
      simp
    | ok r =>
      rw [hrun] at h
      obtain rfl := Except.ok.inj h
      cases hchanged : r.isChanged with
      | false => exact Or.inr ⟨by simp, by simp [contentAfter, reviseContent, hrun, hchanged]⟩
      | true =>
        exact Or.inl ⟨source, r, rfl, hrun, hchanged, by simp,
          by simp [contentAfter, reviseContent, hrun, hchanged]⟩

theorem contentAfter_eq_self_iff {boxer : Boxer} {content : Content} :
    contentAfter path boxer options content = content ↔
      ∀ source r, content = .text source → revise path boxer options.action source = .ok r →
        options.check = true ∨ r.changed = [] ∨ r.output = source := by
  cases content with
  | raw bytes => simp [contentAfter, reviseContent]
  | text source =>
    have hone : (∀ s r, Content.text source = .text s → revise path boxer options.action s = .ok r →
        options.check = true ∨ r.changed = [] ∨ r.output = s) ↔
        ∀ r, revise path boxer options.action source = .ok r →
          options.check = true ∨ r.changed = [] ∨ r.output = source := by
      constructor
      · intro h r hr
        exact h source r rfl hr
      · rintro h s r ⟨⟩ hr
        exact h r hr
    rw [hone]
    cases hrun : revise path boxer options.action source with
    | error e => simp [contentAfter, reviseContent, hrun]
    | ok r =>
      by_cases hcheck : options.check = true <;> by_cases hchanged : r.changed = [] <;>
        simp [contentAfter, reviseContent, hrun, Revision.isChanged, hcheck, hchanged]

/-- The tree is as it was exactly if no file has changed. -/
theorem runVisits_eq_self_iff (hroot : root.Proper) (hstands : ∀ v ∈ vs, v.Stands root)
    (hnodup : (vs.map Visit.place).Nodup) :
    runVisits options vs root = root ↔ ∀ v ∈ vs, ∀ source r,
      root.contentAt? v.place = some (.text source) →
      revise v.path v.boxer options.action source = .ok r →
      options.check = true ∨ r.changed = [] ∨ r.output = source := by
  constructor
  · intro hself v hv source r hcontent hrun
    obtain ⟨-, hvisited, -⟩ := runVisits_spec options hroot hstands hnodup
    have hsame := hvisited v hv
    rw [hself, hcontent, Option.map_some, Option.some.injEq] at hsame
    exact contentAfter_eq_self_iff.1 hsame.symm source r rfl hrun
  · intro hsame
    refine runVisits_eq_self hstands fun v hv content hcontent => ?_
    refine contentAfter_eq_self_iff.2 fun source r hsource hrun => ?_
    exact hsame v hv source r (hsource ▸ hcontent) hrun

end Check

/-! ## Folders without a boxer -/

section Setup

variable {renderer : Stencil.Renderer} {settings : Settings} {options : Options} {path : Text}
  {root : Entry} {action : Action}

/-- What ends a run at a file is fatal. -/
theorem isFatal_of_report {v : Visit} {e : RunError} (h : v.report action root = .error e) :
    e.isFatal = true :=
  (FileReport.ofResult_eq_error_iff.1 h).2

/-- A file does not lack a boxer. -/
theorem faultOf_visits_ne_setup (vs : List Visit) (q : Text) (e : Settings.SetupError) :
    faultOf action root (vs.map .visit) ≠ some (.setup q e) := by
  intro h
  obtain ⟨task, htask, hfault⟩ := List.exists_of_findSome?_eq_some h
  obtain ⟨v, -, rfl⟩ := List.mem_map.1 htask
  cases hreport : v.report action root with
  | ok report => simp [Task.fault?, hreport] at hfault
  | error e' =>
    obtain rfl : e' = .setup q e := by simpa [Task.fault?, hreport] using hfault
    exact absurd (isFatal_of_report hreport) (by simp [RunError.isFatal])

/-- A run that is ended by a folder without a boxer gets through the files of the folders in front of that
one. -/
theorem exists_stop_of_setup {stops : List Stop} {q : Text} {e : Settings.SetupError}
    (h : faultOf action root (tasksOf renderer settings stops) = some (.setup q e)) :
    settings.boxer renderer q = .error e ∧ ∃ before stop later, stops = before ++ stop :: later ∧
      stop.path = q ∧ (∀ s ∈ before, ∃ boxer, settings.boxer renderer s.path = .ok boxer) ∧
      reached action root (tasksOf renderer settings stops) =
        before.flatMap (Stop.visits renderer settings) := by
  induction stops with
  | nil => simp [tasksOf, faultOf] at h
  | cons stop stops ih =>
    rw [tasksOf_cons, faultOf_append] at h
    rw [tasksOf_cons, reached_append]
    cases hboxer : settings.boxer renderer stop.path with
    | error e' =>
      rw [Stop.tasks_of_error hboxer] at h ⊢
      obtain ⟨rfl, rfl⟩ : stop.path = q ∧ e' = e := by simpa [faultOf, Task.fault?] using h
      exact ⟨hboxer, [], stop, stops, rfl, rfl, by simp, rfl⟩
    | ok boxer =>
      rw [Stop.tasks_of_ok hboxer] at h ⊢
      have hfiles : faultOf action root ((stop.visits renderer settings).map .visit) = none := by
        cases hfault : faultOf action root ((stop.visits renderer settings).map .visit) with
        | none => rfl
        | some cause =>
          rw [hfault, Option.some_or] at h
          exact absurd (hfault.trans h) (faultOf_visits_ne_setup _ q e)
      have hreached : reached action root ((stop.visits renderer settings).map .visit) =
          stop.visits renderer settings := by
        rw [reached_of_faultOf_none hfiles, List.filterMap_map]
        exact List.filterMap_some
      rw [hfiles, Option.none_or] at h
      obtain ⟨hq, before, last, later, rfl, rfl, hbefore, hrest⟩ := ih h
      refine ⟨hq, stop :: before, last, later, rfl, rfl, ?_, ?_⟩
      · exact List.forall_mem_cons.2 ⟨⟨boxer, hboxer⟩, hbefore⟩
      · rw [hfiles, hreached, hrest, List.flatMap_cons]
        rfl

/-- Without folders in folders there is one folder on the way. -/
theorem stopsAmong_eq_nil {enters : Entry → Bool} (h : ∀ e, enters e = false) (place : List Text)
    (path : Text) (entries : List Entry) : stopsAmong enters place path entries = [] := by
  induction entries with
  | nil => rw [stopsAmong]
  | cons entry more ih => rw [stopsAmong, h entry, if_neg (by simp), ih]

/-- What is left of a run that was ended by a folder without a boxer: the files of the folders in front
of that one have been written.  So the tree is as it was only if none of them has changed, as is the case
if that folder is the one where the run began. -/
theorem runDirectory_of_setup_error {after : Entry} {q : Text} {e : Settings.SetupError}
    (hroot : root.Proper)
    (h : runDirectory renderer settings options path root = (after, .error (.setup q e))) :
    settings.boxer renderer q = .error e ∧
    ∃ before : List Stop,
      (before = [] ∧ path = q ∨
        ∃ stop later, way options.enters path root = before ++ stop :: later ∧ stop.path = q) ∧
      (∀ stop ∈ before, ∃ boxer, settings.boxer renderer stop.path = .ok boxer) ∧
      after = runVisits options (before.flatMap (Stop.visits renderer settings)) root ∧
      (after = root ↔ ∀ v ∈ before.flatMap (Stop.visits renderer settings), ∀ source r,
        root.contentAt? v.place = some (.text source) →
        revise v.path v.boxer options.action source = .ok r →
        options.check = true ∨ r.changed = [] ∨ r.output = source) ∧
      (options.recursive = false ∨ path = q → before = []) := by
  rw [runDirectory_eq_reached hroot] at h
  obtain ⟨rfl, hend⟩ := Prod.mk.inj h
  replace hend : faultOf options.action root (agenda renderer settings options path root) =
      some (.setup q e) := by
    cases hcause : faultOf options.action root (agenda renderer settings options path root) with
    | none => simp [hcause] at hend
    | some cause => simpa [hcause] using hend
  obtain ⟨hvisits, hnodup⟩ := @stands_of_reached renderer settings options path root hroot
  have hiff := @runVisits_eq_self_iff options root _ hroot (fun v hv => (hvisits v hv).1) hnodup
  obtain ⟨e', he, hagenda⟩ | ⟨cause, hagenda⟩ | ⟨boxer, name, entries, hboxer, hget, hagenda⟩ :=
    agenda_cases renderer settings options path root
  · rw [hagenda] at hend hiff ⊢
    obtain ⟨rfl, rfl⟩ : path = q ∧ e' = e := by simpa [faultOf, Task.fault?] using hend
    exact ⟨he, [], Or.inl ⟨rfl, rfl⟩, by simp, rfl, hiff, fun _ => rfl⟩
  · rw [hagenda] at hend
    simp [faultOf, Task.fault?] at hend
  · rw [hagenda] at hend hiff ⊢
    obtain ⟨hq, before, stop, later, hway, hstop, hbefore, hreached⟩ := exists_stop_of_setup hend
    rw [hreached] at hiff ⊢
    refine ⟨hq, before, Or.inr ⟨stop, later, hway, hstop⟩, hbefore, rfl, hiff, ?_⟩
    rintro (hflat | hstart)
    · -- there is one folder on the way
      obtain ⟨place, -, -, hplace⟩ := way_of_get hget options.enters
      have hnone : ∀ e, options.enters e = false := by simp [Options.enters, hflat]
      rw [hplace, stopsIn, stopsAmong_eq_nil hnone] at hway
      cases before with
      | nil => rfl
      | cons first more => simp at hway
    · rw [← hstart, hboxer] at hq
      simp at hq

/-- A template that takes the name of the folder, and a folder whose name breaks it: the run ends there,
and a file is written already. -/
theorem setup_error_after_write :
    runDirectory Stencil.renderer (sampleSettings "\x7b\x7bbase dirPath\x7d\x7d)".toList)
        ⟨.box, false, true⟩ ['.']
        (sampleTree "x(".toList (.text "resource r {tags={k=1}}".toList)
          (.text "resource r {tags={k=1}}".toList)) =
      (sampleTree "x(".toList (.text "resource r {tags=(var.t ? {k=1} : {})}".toList)
          (.text "resource r {tags={k=1}}".toList),
        .error (.setup "./x(".toList (.template (.nesting (.unclosed 2 ['(']))))) := by
  have hrun := @runDirectory_sampleTree_error Stencil.renderer _ ⟨.box, false, true⟩ _ "x(".toList _
    (.text "resource r {tags={k=1}}".toList) _ _ rfl (by decide) boxer_sampleSettings
    boxer_sampleSettings_broken (runFile_sample false)
  rw [contentAfter_sample] at hrun
  exact hrun

/-- The folder where such a run began is not the one that ended it. -/
theorem runDirectory_of_setup_error_sample :
    ∃ before : List Stop, before ≠ [] ∧
      sampleTree "x(".toList (.text "resource r {tags=(var.t ? {k=1} : {})}".toList) (.raw []) =
        runVisits ⟨.box, false, true⟩
          (before.flatMap (Stop.visits Stencil.renderer
            (sampleSettings "\x7b\x7bbase dirPath\x7d\x7d)".toList)))
          (sampleTree "x(".toList (.text "resource r {tags={k=1}}".toList) (.raw [])) := by
  have hrun := @runDirectory_sampleTree_error Stencil.renderer _ ⟨.box, false, true⟩ _ "x(".toList _
    (.raw []) _ _ rfl (by decide) boxer_sampleSettings boxer_sampleSettings_broken (runFile_sample false)
  rw [contentAfter_sample] at hrun
  obtain ⟨-, before, -, -, hafter, -, -⟩ := runDirectory_of_setup_error
    (proper_sampleTree (by decide) (by decide) _ _) hrun
  refine ⟨before, ?_, hafter⟩
  rintro rfl
  simp [sampleTree, runVisits] at hafter

end Setup

end TagBox
