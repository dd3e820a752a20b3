import TagBox.Command.Basic
import TagBox.Proofs.Removal
import TagBox.Proofs.Runs

/-!
# Boxing adds and unboxing takes away

Boxes are put in and taken out by moving leads about, and still every step of boxing only puts characters
into the text, and every step of unboxing only takes some out.  So a text that comes out unchanged has had
none of its values changed, and a report of a change is always true.

* `Action.Moves` — what an action may do to a text.
* `print_sublist_insertHalf`, `print_cutHalf_sublist` — what one edit does to it.
* `moves_run` — what a run does to a value.
* `changed_truthful` — what is said to have changed is what has changed.
-/

namespace TagBox

/-! ## Texts within texts -/

theorem Text.byteLength_le_of_sublist {s t : Text} (h : s.Sublist t) : s.byteLength ≤ t.byteLength := by
  induction h with
  | slnil => exact Nat.le_refl _
  | cons c h ih =>
    rw [byteLength_cons]
    omega
  | cons_cons c h ih =>
    rw [byteLength_cons, byteLength_cons]
    omega

theorem Text.byteLength_lt_of_sublist {s t : Text} (h : s.Sublist t) (hne : s ≠ t) :
    s.byteLength < t.byteLength := by
  induction h with
  | slnil => exact absurd rfl hne
  | cons c h ih =>
    have hle := byteLength_le_of_sublist h
    have hpos := c.utf8Size_pos
    rw [byteLength_cons]
    omega
  | @cons_cons s t c h ih =>
    have hlt := ih fun heq => hne (congrArg (c :: ·) heq)
    rw [byteLength_cons, byteLength_cons]
    omega

/-- What an action may do to a text: boxing puts characters in, unboxing takes characters out. -/
def Action.Moves : Action → (before after : Text) → Prop
  | .box, before, after => before.Sublist after
  | .unbox, before, after => after.Sublist before

namespace Action.Moves

variable {action : Action} {a a' b b' : Text}

theorem refl (action : Action) (a : Text) : action.Moves a a := by
  cases action <;> exact List.Sublist.refl a

theorem append (ha : action.Moves a a') (hb : action.Moves b b') : action.Moves (a ++ b) (a' ++ b') := by
  cases action with
  | box => exact List.Sublist.append ha hb
  | unbox => exact List.Sublist.append ha hb

/-- What goes one way in both parts does not cancel out. -/
theorem eq_of_append_eq (ha : action.Moves a a') (hb : action.Moves b b') (h : a' ++ b' = a ++ b) :
    a' = a ∧ b' = b := by
  have hlen := congrArg List.length h
  rw [List.length_append, List.length_append] at hlen
  cases action with
  | box =>
    have hla := List.Sublist.length_le ha
    have hlb := List.Sublist.length_le hb
    exact ⟨(List.Sublist.eq_of_length ha (by omega)).symm, (List.Sublist.eq_of_length hb (by omega)).symm⟩
  | unbox =>
    have hla := List.Sublist.length_le ha
    have hlb := List.Sublist.length_le hb
    exact ⟨List.Sublist.eq_of_length ha (by omega), List.Sublist.eq_of_length hb (by omega)⟩

end Action.Moves

/-! ## Putting halves in -/

section Insert

variable {T : Template} {i : Nat} {ts : List Token}

theorem sublist_spaced (a b : Token) (lead : Text) : lead.Sublist (spaced a b lead) := by
  unfold spaced
  split
  next h =>
    rw [h.1]
    exact List.nil_sublist _
  next => exact List.Sublist.refl lead

theorem print_eq_of_drop {t : Token} {behind : List Token} (h : ts.drop i = t :: behind) :
    print ts = print (ts.take i) ++ (t.lead ++ (t.text ++ print behind)) := by
  calc print ts = print (ts.take i) ++ print (ts.drop i) := by rw [← print_append, List.take_append_drop]
    _ = _ := by rw [h, print_cons, Token.print, List.append_assoc]

theorem print_sublist_insertLeft (T : Template) (i : Nat) (ts : List Token) :
    (print ts).Sublist (print (insertLeft T i ts)) := by
  unfold insertLeft
  split
  next payload behind first more hdrop hleft =>
    have hput : ∀ lead, payload.lead.Sublist lead → (print ts).Sublist
        (print (ts.take i ++ (first.withLead lead :: more) ++ payload.withLead T.payloadLead :: behind)) := by
      intro lead hlead
      have hrest : (payload.text ++ print behind).Sublist
          (first.text ++ (print more ++ (T.payloadLead ++ (payload.text ++ print behind)))) :=
        (((List.suffix_append T.payloadLead _).trans (List.suffix_append (print more) _)).trans
          (List.suffix_append first.text _)).sublist
      rw [print_eq_of_drop hdrop]
      simpa [Token.print] using hlead.append hrest
    dsimp only
    cases (ts.take i).getLast? with
    | none => exact hput _ (List.Sublist.refl _)
    | some last => exact hput _ (sublist_spaced last first _)
  next => exact List.Sublist.refl _

theorem print_sublist_insertRight (T : Template) (i : Nat) (ts : List Token) :
    (print ts).Sublist (print (insertRight T i ts)) := by
  unfold insertRight
  split
  next next behind last hdrop hlast =>
    have hnext := (sublist_spaced last next next.lead).append
      (List.Sublist.refl (next.text ++ print behind))
    rw [print_eq_of_drop hdrop]
    simpa [Token.print] using List.sublist_append_of_sublist_right hnext
  next =>
    calc print ts = print (ts.take i) ++ print (ts.drop i) := by rw [← print_append, List.take_append_drop]
      List.Sublist _ _ := by simp

theorem print_sublist_insertHalf (T : Template) (ts : List Token) (insertion : Insertion) :
    (print ts).Sublist (print (insertHalf T ts insertion)) := by
  unfold insertHalf
  cases insertion.side with
  | left => exact print_sublist_insertLeft T _ ts
  | right => exact print_sublist_insertRight T _ ts

theorem print_sublist_wrap (T : Template) (ts : List Token) (groups : List Span) :
    (print ts).Sublist (print (wrap T ts groups)) := by
  unfold wrap
  induction sortBy Insertion.ahead (groups.flatMap insertionsOf) generalizing ts with
  | nil => exact List.Sublist.refl _
  | cons insertion rest ih => exact (print_sublist_insertHalf T ts insertion).trans (ih _)

end Insert

/-! ## Taking halves out -/

section Remove

variable {ts : List Token} {half : Half} {stale : List Half}

theorem print_drop_sublist (n : Nat) (ts : List Token) : (print (ts.drop n)).Sublist (print ts) := by
  calc List.Sublist (print (ts.drop n)) (print (ts.take n) ++ print (ts.drop n)) :=
        List.sublist_append_right _ _
    _ = print ts := by rw [← print_append, List.take_append_drop]

/-- The lead of the first token goes to the first one that is left, which loses its own. -/
theorem print_relead_drop_sublist (n : Nat) (ts : List Token) :
    (print (relead ((ts.head?.map Token.lead).getD []) (ts.drop n))).Sublist (print ts) := by
  cases ts with
  | nil => simp [relead]
  | cons t ts =>
    cases n with
    | zero => exact List.Sublist.refl _
    | succ n =>
      cases hdrop : ts.drop n with
      | nil => simp [relead, hdrop]
      | cons u behind =>
        have hrest : (u.text ++ print behind).Sublist (print ts) := by
          refine List.Sublist.trans ?_ (print_drop_sublist n ts)
          rw [hdrop, print_cons, Token.print, List.append_assoc]
          exact List.sublist_append_right _ _
        have hboth := (hrest.trans (List.sublist_append_right t.text _)).append_left t.lead
        simpa [relead, hdrop, Token.print] using hboth

theorem print_cutHalf_sublist (hle : half.span.first ≤ half.span.last) (ts : List Token) :
    (print (cutHalf ts half)).Sublist (print ts) := by
  have hbehind : ts.drop (half.span.last + 1) =
      (ts.drop half.span.first).drop (half.span.last + 1 - half.span.first) := by
    rw [List.drop_drop]
    congr 1
    omega
  have hlead : leadAt ts half.span.first = ((ts.drop half.span.first).head?.map Token.lead).getD [] := by
    rw [leadAt, List.head?_drop]
  have hcut : print ts = print (ts.take half.span.first) ++ print (ts.drop half.span.first) := by
    rw [← print_append, List.take_append_drop]
  unfold cutHalf
  cases half.side with
  | left =>
    simp only [print_append, hlead, hbehind, hcut]
    exact (List.Sublist.refl _).append (print_relead_drop_sublist _ _)
  | right =>
    simp only [print_append, hbehind, hcut]
    exact (List.Sublist.refl _).append (print_drop_sublist _ _)

theorem print_foldl_cutHalf_sublist {halves : List Half} (h : Removable ts halves) :
    (print (halves.foldl cutHalf ts)).Sublist (print ts) := by
  induction halves generalizing ts with
  | nil => exact List.Sublist.refl _
  | cons half rest ih => exact (ih h.2).trans (print_cutHalf_sublist h.1.1 ts)

theorem print_strip_sublist {out : List Token} (h : strip ts stale = .ok out) :
    (print out).Sublist (print ts) := by
  obtain ⟨hremovable, rfl⟩ := strip_eq_ok_iff.1 h
  exact print_foldl_cutHalf_sublist hremovable

end Remove

/-! ## Values and texts -/

section Values

variable {boxer : Boxer} {action : Action} {v w : List Token} {f : List Token → List Token}
  {file : List Stretch} {i : Nat}

theorem moves_run (hold : action = .unbox ∨ boxer.old = none) (h : boxer.run action v = .ok w) :
    action.Moves (print v) (print w) := by
  cases action with
  | box =>
    have hnone : boxer.old = none := hold.resolve_left (by simp)
    rw [Boxer.run, Boxer.box, hnone] at h
    obtain ⟨groups, -, rfl⟩ := Boxer.wrapPending_eq_ok_iff.1 h
    exact print_sublist_wrap boxer.template v _
  | unbox =>
    obtain ⟨stale, -, hstrip⟩ := Boxer.unwrap_eq_ok_iff.1 h
    exact print_strip_sublist hstrip

/-- Texts whose values all go one way go that way, and stay the same only if the values do. -/
theorem moves_refill (h : ∀ v ∈ valuesOf file, action.Moves (print v) (print (f v))) :
    action.Moves (print (joined file)) (print (joined (file.map (Stretch.refill f)))) ∧
      (print (joined (file.map (Stretch.refill f))) = print (joined file) →
        ∀ v ∈ valuesOf file, print (f v) = print v) := by
  induction file with
  | nil => exact ⟨.refl action _, by simp [valuesOf]⟩
  | cons x file ih =>
    obtain ⟨hmoves, hsame⟩ := ih fun v hv => h v (mem_valuesOf_cons.2 (Or.inr hv))
    have hx : action.Moves (print x.tokens) (print (x.refill f).tokens) ∧
        (print (x.refill f).tokens = print x.tokens → ∀ v ∈ x.value?, print (f v) = print v) := by
      cases x with
      | still ts => exact ⟨.refl action _, by simp [Stretch.value?]⟩
      | site address front value behind =>
        have hvalue := h value (mem_valuesOf_cons.2 (Or.inl rfl))
        simp only [Stretch.refill, Stretch.tokens, print_append, Stretch.value?]
        refine ⟨(Action.Moves.refl action _).append (hvalue.append (.refl action _)), ?_⟩
        rintro heq _ ⟨⟩
        exact (hvalue.eq_of_append_eq (.refl action _) (List.append_cancel_left heq)).1
    rw [List.map_cons, joined_cons, joined_cons, print_append, print_append]
    refine ⟨hx.1.append hmoves, fun heq v hv => ?_⟩
    obtain ⟨hhead, htail⟩ := hx.1.eq_of_append_eq hmoves heq
    rcases mem_valuesOf_cons.1 hv with hv | hv
    · exact hx.2 hhead v hv
    · exact hsame htail v hv

theorem editsAt_eq_nil_iff :
    editsAt f i file = [] ↔ ∀ v ∈ valuesOf file, print (f v) = print v := by
  induction file generalizing i with
  | nil => simp [editsAt, valuesOf]
  | cons x file ih =>
    have hx : x.edit? f i = none ↔ ∀ v ∈ x.value?, print (f v) = print v := by
      cases x <;> simp [Stretch.edit?, Stretch.value?]
    simp only [editsAt, List.append_eq_nil_iff, Option.toList_eq_nil_iff, hx, ih, mem_valuesOf_cons]
    constructor
    · rintro ⟨hhead, htail⟩ v (hv | hv)
      · exact hhead v hv
      · exact htail v hv
    · exact fun h => ⟨fun v hv => h v (Or.inl hv), fun v hv => h v (Or.inr hv)⟩

end Values

/-! ## What is said to have changed -/

section Truthful

variable {path source : Text} {boxer : Boxer} {action : Action} {r : Revision}

theorem moves_revise (hold : action = .unbox ∨ boxer.old = none)
    (h : revise path boxer action source = .ok r) : action.Moves source r.output := by
  obtain ⟨-, file, trail, f, hopen, -, -, hf, rfl⟩ := Opened.of_revise h
  rw [hopen.source_eq]
  exact (moves_refill fun v hv => moves_run hold (hf v hv)).1.append (.refl action trail)

theorem isChanged_iff (hold : action = .unbox ∨ boxer.old = none)
    (h : revise path boxer action source = .ok r) : r.isChanged = true ↔ r.output ≠ source := by
  obtain ⟨-, file, trail, f, hopen, -, -, hf, rfl⟩ := Opened.of_revise h
  have hchanged : Revision.isChanged ⟨print (joined (file.map (Stretch.refill f))) ++ trail,
      (editsAt f 0 file).map Replacement.address⟩ = true ↔ editsAt f 0 file ≠ [] := by
    simp [Revision.isChanged]
  rw [hchanged, Ne, editsAt_eq_nil_iff, hopen.source_eq, not_iff_not]
  constructor
  · intro hsame
    -- values with the same print go both ways
    have hin := (@moves_refill .box f file fun v hv => by rw [hsame v hv]; exact .refl .box _).1
    have hout := (@moves_refill .unbox f file fun v hv => by rw [hsame v hv]; exact .refl .unbox _).1
    rw [List.Sublist.antisymm hin hout]
  · intro heq
    exact (moves_refill fun v hv => moves_run hold (hf v hv)).2 (List.append_cancel_right heq)

/-- A file is reported as changed if writing it would change it, and only then. -/
theorem status_iff_contentAfter {recursive : Bool} {content : Content} {report : FileReport}
    (hold : action = .unbox ∨ boxer.old = none)
    (h : FileReport.ofResult path (reviseContent path boxer action content) = .ok report) :
    report.status = .changed ↔ contentAfter path boxer ⟨action, false, recursive⟩ content ≠ content := by
  obtain ⟨source, r, rfl, hrun, hchanged, hstatus, hafter⟩ | ⟨hstatus, hafter⟩ :=
    @contentAfter_cases action recursive path boxer content report h
  · refine iff_of_true hstatus ?_
    rw [hafter, Ne, Content.text.injEq]
    exact (isChanged_iff hold hrun).1 hchanged
  · exact iff_of_false hstatus (not_not.2 hafter)

/-- There is a report that a file has changed if writing it would change it, and only then. -/
theorem exists_changed_iff {check recursive : Bool} (hold : action = .unbox ∨ boxer.old = none)
    (content : Content) :
    (∃ report, runFile path boxer ⟨action, check, recursive⟩ content = .ok report ∧
        report.status = .changed) ↔
      contentAfter path boxer ⟨action, false, recursive⟩ content ≠ content := by
  cases hreport : FileReport.ofResult path (reviseContent path boxer action content) with
  | ok report =>
    rw [← @status_iff_contentAfter path boxer action recursive content report hold hreport]
    simp [runFile, hreport]
  | error e =>
    have hkeep := @contentAfter_of_runFile_error ⟨action, false, recursive⟩ path boxer content e hreport
    simp [runFile, hreport, hkeep]

end Truthful

/-! ## How a check ends -/

section Check

variable {renderer : Stencil.Renderer} {settings : Settings} {action : Action} {recursive : Bool}
  {path : Text} {root : Entry} {format : Format}

theorem Settings.old_eq_none {boxer : Boxer} {dir : Text} (h : settings.oldTemplate? = none)
    (hboxer : settings.boxer renderer dir = .ok boxer) : boxer.old = none := by
  have hrender : settings.renderOld renderer dir = .ok none := by rw [Settings.renderOld, h]
  unfold Settings.boxer at hboxer
  rw [hrender] at hboxer
  cases htext : settings.render renderer dir with
  | error e =>
    rw [htext] at hboxer
    cases hboxer
  | ok rendered =>
    rw [htext] at hboxer
    cases htemplate : Settings.compile rendered with
    | error e =>
      replace hboxer : (Settings.compile rendered >>= _) = _ := hboxer
      rw [htemplate] at hboxer
      cases hboxer
    | ok template =>
      replace hboxer : (Settings.compile rendered >>= _) = _ := hboxer
      rw [htemplate] at hboxer
      obtain rfl := Except.ok.inj hboxer
      rfl

theorem code_report_eq_zero_iff {report : Report} (hcheck : report.check = true) :
    (Command.report format report).code = 0 ↔ ∀ file ∈ report.files, file.status = .unchanged := by
  have hcode : (Command.report format report).code =
      if report.hasFailures || (report.check && !report.changed.isEmpty) then 1 else 0 := by
    cases format <;> rfl
  have hnone : ∀ status, report.withStatus status = [] ↔ ∀ file ∈ report.files, file.status ≠ status := by
    intro status
    simp [Report.withStatus, List.filter_eq_nil_iff]
  have hfree : (report.hasFailures || (report.check && !report.changed.isEmpty)) = false ↔
      report.withStatus .failed = [] ∧ report.withStatus .changed = [] := by
    simp [Report.hasFailures, Report.failed, Report.changed, hcheck]
  constructor
  · intro hzero file hfile
    have hnot : (report.hasFailures || (report.check && !report.changed.isEmpty)) = false := by
      by_contra hne
      rw [Bool.not_eq_false] at hne
      simp [hcode, hne] at hzero
    obtain ⟨hfailed, hchanged⟩ := hfree.1 hnot
    have hnotFailed := (hnone _).1 hfailed file hfile
    have hnotChanged := (hnone _).1 hchanged file hfile
    cases hstatus : file.status with
    | unchanged => rfl
    | changed => exact absurd hstatus hnotChanged
    | failed => exact absurd hstatus hnotFailed
  · intro hall
    have hnot := hfree.2 ⟨(hnone _).2 fun file hfile => by simp [hall file hfile],
      (hnone _).2 fun file hfile => by simp [hall file hfile]⟩
    simp [hcode, hnot]

theorem code_executeRun_eq_zero_iff {options : Options} :
    (Command.executeRun renderer settings path options format (root.get path)).2.code = 0 ↔
      ∃ report, (runDirectory renderer settings options path root).2 = .ok report ∧
        (Command.report format report).code = 0 := by
  have htarget : (runDirectory renderer settings options path root).2 =
      (runTarget renderer settings options path (root.get path)).2 := by
    unfold runDirectory
    split <;> simp [*]
  rw [htarget]
  unfold Command.executeRun
  cases hboxer : settings.boxer renderer path with
  | error e => simp [runTarget, hboxer, Command.Output.failed]
  | ok boxer =>
    cases hresult : (runTarget renderer settings options path (root.get path)).2 with
    | error e =>
      cases e <;> simp [hresult, RunError.isFatal, Command.Output.failed, Command.Output.crashed]
    | ok report => simp [hresult]

/-- Files that a run gets through are all reported as unchanged, or as failed, exactly if writing would
leave the tree as it is. -/
theorem runVisits_eq_self_iff_status {vs : List Visit} (hroot : root.Proper)
    (hstands : ∀ v ∈ vs, v.Stands root) (hnodup : (vs.map Visit.place).Nodup)
    (hold : ∀ v ∈ vs, action = .unbox ∨ v.boxer.old = none)
    (hreports : ∀ v ∈ vs, ∃ report, v.report action root = .ok report) :
    runVisits ⟨action, false, recursive⟩ vs root = root ↔
      ∀ v ∈ vs, ∀ report, v.report action root = .ok report → report.status ≠ .changed := by
  have hstatus : ∀ v ∈ vs, ∃ content report, root.contentAt? v.place = some content ∧
      v.report action root = .ok report ∧ (report.status = .changed ↔
        contentAfter v.path v.boxer ⟨action, false, recursive⟩ content ≠ content) := by
    intro v hv
    obtain ⟨-, name, content, hleads⟩ := hstands v hv
    obtain ⟨report, hreport⟩ := hreports v hv
    refine ⟨content, report, hleads.contentAt?_eq, hreport, ?_⟩
    rw [Visit.report, hleads.contentAt?_eq] at hreport
    exact status_iff_contentAfter (hold v hv) hreport
  constructor
  · intro hself v hv report hreport hchanged
    obtain ⟨content, report', hcontent, hreport', hiff⟩ := hstatus v hv
    obtain rfl : report' = report := Except.ok.inj (hreport'.symm.trans hreport)
    obtain ⟨-, hvisited, -⟩ := runVisits_spec ⟨action, false, recursive⟩ hroot hstands hnodup
    have hsame := hvisited v hv
    rw [hself, hcontent, Option.map_some, Option.some.injEq] at hsame
    exact hiff.1 hchanged hsame.symm
  · intro hall
    refine runVisits_eq_self hstands fun v hv content hcontent => ?_
    obtain ⟨content', report, hcontent', hreport, hiff⟩ := hstatus v hv
    obtain rfl : content = content' := Option.some.inj (hcontent.symm.trans hcontent')
    exact not_not.1 fun hne => hall v hv report hreport (hiff.2 hne)

/-- A check ends with code 0 if no file fails and a run that writes would leave the tree as it is, and only
then. -/
theorem code_check_eq_zero_iff (hroot : root.Proper)
    (hold : action = .unbox ∨ settings.oldTemplate? = none) :
    (Command.executeRun renderer settings path ⟨action, true, recursive⟩ format
        (root.get path)).2.code = 0 ↔
      ∃ report, (runDirectory renderer settings ⟨action, true, recursive⟩ path root).2 = .ok report ∧
        (∀ file ∈ report.files, file.status ≠ .failed) ∧
        (runDirectory renderer settings ⟨action, false, recursive⟩ path root).1 = root := by
  -- what there is to do does not depend on whether files are written
  have hsame : agenda renderer settings ⟨action, true, recursive⟩ path root =
      agenda renderer settings ⟨action, false, recursive⟩ path root := rfl
  rw [code_executeRun_eq_zero_iff, runDirectory_eq_reached hroot, runDirectory_eq_reached hroot, hsame]
  set vs := reached action root (agenda renderer settings ⟨action, false, recursive⟩ path root) with hvs
  obtain ⟨hvisits, hnodup⟩ :=
    @stands_of_reached renderer settings ⟨action, false, recursive⟩ path root hroot
  have holds : ∀ v ∈ vs, action = .unbox ∨ v.boxer.old = none := by
    intro v hv
    obtain ⟨-, ⟨stop, -, -, hboxer, -⟩, -⟩ := hvisits v hv
    exact hold.imp_right fun hnone => Settings.old_eq_none hnone hboxer
  rw [runVisits_eq_self_iff_status hroot (fun v hv => (hvisits v hv).1) hnodup holds
    fun v hv => (hvisits v hv).2.2]
  refine exists_congr fun report => and_congr_right fun hreport => ?_
  obtain rfl : report = ⟨action, true, vs.filterMap fun v => (v.report action root).toOption⟩ := by
    cases hend : faultOf action root (agenda renderer settings ⟨action, false, recursive⟩ path root) with
    | some e => simp [hend] at hreport
    | none => simpa [hend] using hreport.symm
  rw [code_report_eq_zero_iff rfl, ← forall_mem_reports, ← forall₂_and]
  refine forall₂_congr fun file _ => ?_
  cases file.status <;> simp

end Check

/-- What is said to have changed is what has changed.  For unboxing, and for boxing without an old template:
a revision is marked as changed exactly if its text differs from the source, and then it is longer if the
source was boxed and shorter if it was unboxed, with nothing else taken out or put in; a file is reported as
changed exactly if writing it would change it; and a check ends with code 0 exactly if no file fails and
writing would change none. -/
theorem changed_truthful (action : Action) :
    (∀ (path source : Text) (boxer : Boxer) (r : Revision), (action = .unbox ∨ boxer.old = none) →
      revise path boxer action source = .ok r →
      (r.isChanged = true ↔ r.output ≠ source) ∧
      (r.isChanged = true → action = .box →
        source.byteLength < r.output.byteLength ∧ source.Sublist r.output) ∧
      (r.isChanged = true → action = .unbox →
        r.output.byteLength < source.byteLength ∧ r.output.Sublist source)) ∧
    (∀ (path : Text) (boxer : Boxer) (check recursive : Bool) (content : Content),
      (action = .unbox ∨ boxer.old = none) →
      ((∃ report, runFile path boxer ⟨action, check, recursive⟩ content = .ok report ∧
          report.status = .changed) ↔
        contentAfter path boxer ⟨action, false, recursive⟩ content ≠ content)) ∧
    ∀ (renderer : Stencil.Renderer) (settings : Settings) (path : Text) (recursive : Bool)
        (format : Format) (root : Entry), root.Proper →
      (action = .unbox ∨ settings.oldTemplate? = none) →
      ((Command.executeRun renderer settings path ⟨action, true, recursive⟩ format
          (root.get path)).2.code = 0 ↔
        ∃ report, (runDirectory renderer settings ⟨action, true, recursive⟩ path root).2 = .ok report ∧
          (∀ file ∈ report.files, file.status ≠ .failed) ∧
          (runDirectory renderer settings ⟨action, false, recursive⟩ path root).1 = root) := by
  refine ⟨?_, ?_, ?_⟩
  · intro path source boxer r hold h
    have hiff := isChanged_iff hold h
    have hmoves := moves_revise hold h
    refine ⟨hiff, ?_, ?_⟩
    · rintro hchanged rfl
      exact ⟨Text.byteLength_lt_of_sublist hmoves (Ne.symm (hiff.1 hchanged)), hmoves⟩
    · rintro hchanged rfl
      exact ⟨Text.byteLength_lt_of_sublist hmoves (hiff.1 hchanged), hmoves⟩
  · intro path boxer check recursive content hold
    exact exists_changed_iff hold content
  · intro renderer settings path recursive format root hroot hold
    exact code_check_eq_zero_iff hroot hold

/-- Groups in groups, boxed and unboxed; and a check of two files, of which one has no group. -/
theorem changed_truthful_nested :
    (∃ r, revise ['a'] sampleBoxer .box "module m {tags ={k =  { k=1}}  }\n".toList = .ok r ∧
      r.isChanged = true ∧ r.output ≠ "module m {tags ={k =  { k=1}}  }\n".toList ∧
      Text.byteLength "module m {tags ={k =  { k=1}}  }\n".toList < r.output.byteLength ∧
      ∃ r', revise ['b'] sampleBoxer .unbox r.output = .ok r' ∧ r'.output ≠ r.output ∧
        r'.output.byteLength < r.output.byteLength) ∧
    (∃ report, runFile ['a'] sampleBoxer ⟨.box, true, true⟩ (.text "resource r {tags={k=1}}".toList) =
      .ok report ∧ report.status = .changed) ∧
    (Command.executeRun Stencil.renderer (sampleSettings [')']) ['.'] ⟨.box, true, true⟩ .text
      ((sampleTree ['x'] (.text "resource r {tags={a=1}}".toList) (.text [])).get ['.'])).2.code = 0 := by
  obtain ⟨hrevise, hstatus, hcode⟩ := changed_truthful .box
  obtain ⟨hrevise', -, -⟩ := changed_truthful .unbox
  have hbox : revise ['a'] sampleBoxer .box "module m {tags ={k =  { k=1}}  }\n".toList =
      .ok ⟨"module m {tags =(var.t ? {k =  (var.t ? { k=1} : {})} : {})  }\n".toList,
        ["module.m".toList]⟩ := by decide +kernel
  have hunbox : revise ['b'] sampleBoxer .unbox
      "module m {tags =(var.t ? {k =  (var.t ? { k=1} : {})} : {})  }\n".toList =
      .ok ⟨"module m {tags ={k =  { k=1}}  }\n".toList, ["module.m".toList]⟩ := by decide +kernel
  obtain ⟨hiff, hlonger, -⟩ := hrevise _ _ _ _ (Or.inr rfl) hbox
  obtain ⟨hiff', -, hshorter⟩ := hrevise' _ _ _ _ (Or.inl rfl) hunbox
  refine ⟨⟨_, hbox, rfl, hiff.1 rfl, (hlonger rfl rfl).1, _, hunbox, hiff'.1 rfl, (hshorter rfl rfl).1⟩,
    (hstatus _ _ _ _ _ (Or.inr rfl)).2 (by decide +kernel), (hcode _ _ _ _ _ _ ?_ (Or.inr rfl)).2 ?_⟩
  · exact proper_sampleTree (by decide) (by decide) _ _
  · have hboxer : (sampleSettings [')']).boxer Stencil.renderer ['.'] = .ok sampleBoxer := by
      decide +kernel
    have hbelow : (sampleSettings [')']).boxer Stencil.renderer (Path.join ['.'] ['x']) =
        .ok sampleBoxer := by decide +kernel
    have hfirst : ∀ check, runFile "./main.tf".toList sampleBoxer ⟨.box, check, true⟩
        (.text "resource r {tags={a=1}}".toList) = .ok ⟨"./main.tf".toList, .unchanged, [], none⟩ := by
      decide +kernel
    have hsecond : ∀ check, runFile (Path.join (Path.join ['.'] ['x']) "main.tf".toList) sampleBoxer
        ⟨.box, check, true⟩ (.text []) = .ok ⟨"./x/main.tf".toList, .unchanged, [], none⟩ := by
      decide +kernel
    have hrun := fun check => @runDirectory_sampleTree Stencil.renderer _ ⟨.box, check, true⟩ _ _ ['x']
      _ _ _ _ rfl (by decide) hboxer hbelow (hfirst check) (hsecond check)
    refine ⟨_, congrArg Prod.snd (hrun true), by decide, ?_⟩
    rw [hrun false]
    exact congrArg₂ (sampleTree ['x']) (by decide +kernel) (by decide +kernel)

end TagBox
