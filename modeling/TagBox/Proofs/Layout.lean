import TagBox.Proofs.Migration

/-!
# Layout has no part in boxing

The blanks in front of tokens are read, moved and made up when halves are put in and taken out, and yet
no decision looks at them.  Two runs on lists that differ in layout only, by boxers whose templates differ
in layout only, fail in the same way or give lists that differ in layout only.

* `statements_congr` — statements are read from contents.
* `wrappers_sameShape`, `contents_wrap_congr` — wrappers are found, and put in, by their shape.
* `layout_irrelevant` — two runs that differ in layout give the same contents.
-/

namespace TagBox

/-! ## Statements -/

section Statements

variable {t u : Token} {ts us : List Token} {limit next i : Nat}

theorem closeFrom_congr {unclosed : NestingError} {opened : List Kind} (h : contents ts = contents us) :
    closeFrom unclosed opened i ts = closeFrom unclosed opened i us := by
  induction ts generalizing us opened i with
  | nil =>
    obtain rfl : us = [] := by simpa [contents] using h.symm
    rfl
  | cons t ts ih =>
    obtain ⟨u, us, rfl, hu, hus⟩ := exists_of_contents_cons h.symm
    obtain ⟨hkind, htext⟩ := content_eq_iff.1 hu
    simp only [closeFrom, hkind, htext, ih hus.symm]

theorem closeOf_congr (ht : t.content = u.content) (h : contents ts = contents us) :
    closeOf i t ts = closeOf i u us := by
  obtain ⟨-, htext⟩ := content_eq_iff.1 ht
  rw [closeOf, closeOf, htext]
  exact closeFrom_congr (by rw [contents_cons, contents_cons, ht, h])

theorem valueEnd_congr (h : contents ts = contents us) :
    valueEnd limit next i ts = valueEnd limit next i us := by
  induction ts generalizing us next i with
  | nil =>
    obtain rfl : us = [] := by simpa [contents] using h.symm
    rfl
  | cons t ts ih =>
    obtain ⟨u, us, rfl, hu, hus⟩ := exists_of_contents_cons h.symm
    obtain ⟨hkind, htext⟩ := content_eq_iff.1 hu
    simp only [valueEnd, hkind, htext, ih hus.symm, closeOf_congr hu hus]

theorem contents_takeWhile_isLabel (h : contents ts = contents us) :
    contents (ts.takeWhile Token.isLabel) = contents (us.takeWhile Token.isLabel) := by
  induction ts generalizing us with
  | nil =>
    obtain rfl : us = [] := by simpa [contents] using h.symm
    rfl
  | cons t ts ih =>
    obtain ⟨u, us, rfl, hu, hus⟩ := exists_of_contents_cons h.symm
    have hlabel : u.isLabel = t.isLabel := by simp [Token.isLabel, (content_eq_iff.1 hu).1]
    by_cases ht : t.isLabel = true
    · simp [ht, hlabel, hu, ih hus.symm]
    · simp [ht, hlabel]

theorem namedStatement_congr (ht : t.content = u.content) (h : contents ts = contents us) :
    namedStatement limit i t ts = namedStatement limit i u us := by
  have htake : contents (ts.take (limit - (i + 1))) = contents (us.take (limit - (i + 1))) := by
    rw [contents_take, contents_take, h]
  have hlabels := contents_takeWhile_isLabel htake
  unfold namedStatement
  generalize (ts.take (limit - (i + 1))).takeWhile Token.isLabel = labels at hlabels ⊢
  generalize (us.take (limit - (i + 1))).takeWhile Token.isLabel = labels' at hlabels ⊢
  have hlength := length_eq_of_contents_eq hlabels
  have htexts : labels.map Token.text = labels'.map Token.text := by
    have hsnd := congrArg (List.map Prod.snd) hlabels
    rw [contents, contents, List.map_map, List.map_map] at hsnd
    exact hsnd
  have hnil : labels = [] ↔ labels' = [] := by
    rw [← List.length_eq_zero_iff, hlength, List.length_eq_zero_iff]
  have hbehind : contents (ts.drop labels.length) = contents (us.drop labels'.length) := by
    rw [contents_drop, contents_drop, h, hlength]
  obtain ⟨-, htext⟩ := content_eq_iff.1 ht
  simp only [hlength, htexts, hnil, htext] at hbehind ⊢
  cases hts : ts.drop labels'.length with
  | nil =>
    obtain hus : us.drop labels'.length = [] := by simpa [contents, hts] using hbehind.symm
    rw [hus]
  | cons mark after =>
    rw [hts] at hbehind
    obtain ⟨mark', after', hus, hmark, hafter⟩ := exists_of_contents_cons hbehind.symm
    obtain ⟨hkind, -⟩ := content_eq_iff.1 hmark
    simp only [hus, hkind, valueEnd_congr hafter, closeOf_congr hmark hafter]

theorem statementAt_congr (ht : t.content = u.content) (h : contents ts = contents us) :
    statementAt limit i t ts = statementAt limit i u us := by
  obtain ⟨hkind, htext⟩ := content_eq_iff.1 ht
  simp only [statementAt, hkind, htext, namedStatement_congr ht h, closeOf_congr ht h]

theorem statementsFrom_congr (h : contents ts = contents us) :
    statementsFrom limit next i ts = statementsFrom limit next i us := by
  induction ts generalizing us next i with
  | nil =>
    obtain rfl : us = [] := by simpa [contents] using h.symm
    rfl
  | cons t ts ih =>
    obtain ⟨u, us, rfl, hu, hus⟩ := exists_of_contents_cons h.symm
    simp only [statementsFrom, statementAt_congr hu hus, ih hus.symm]

/-- Statements are read from contents. -/
theorem statements_congr (h : contents ts = contents us) (start limit : Nat) :
    statements ts start limit = statements us start limit :=
  statementsFrom_congr (by rw [contents_drop, contents_drop, h])

end Statements

/-! ## Templates of one shape -/

section Shape

variable {m : KeyMatcher} {T U : Template} {ts us : List Token} {i : Nat}

theorem sameShape_iff :
    T.sameShape U = true ↔ contents T.left = contents U.left ∧ contents T.right = contents U.right := by
  simp [Template.sameShape]

theorem occurrences_shape {side : Side} {half half' : List Token} (h : contents half = contents half') :
    occurrences side half ts = occurrences side half' ts := by
  have hlength := length_eq_of_contents_eq h
  have hnil : half = [] ↔ half' = [] := by
    rw [← List.length_eq_zero_iff, hlength, List.length_eq_zero_iff]
  simp only [occurrences, hnil, h, hlength]

/-- Where the halves of a template stand is a matter of its shape. -/
theorem wrappers_sameShape (hT : T.sameShape U = true) (h : contents ts = contents us) :
    T.wrappers ts = U.wrappers us := by
  obtain ⟨hleft, hright⟩ := sameShape_iff.1 hT
  rw [wrappers_congr h, Template.wrappers, Template.wrappers, occurrences_shape hleft,
    occurrences_shape hright]

theorem map_mapError {ε ε' α β : Type} (f : ε → ε') (g : α → β) (x : Except ε α) :
    (x.mapError f).map g = (x.map g).mapError f := by
  cases x <;> rfl

theorem unwrap_sameShape (hT : T.sameShape U = true) (h : contents ts = contents us) :
    (Boxer.unwrap m T ts).map contents = (Boxer.unwrap m U us).map contents := by
  have hhugging : Boxer.hugging m T ts = Boxer.hugging m U us := by
    rw [Boxer.hugging, Boxer.hugging, tagGroups_congr h, wrappers_sameShape hT h]
  rw [Boxer.unwrap, Boxer.unwrap, hhugging]
  cases Boxer.hugging m U us with
  | error e => rfl
  | ok stale =>
    show ((strip ts stale).mapError _).map contents = ((strip us stale).mapError _).map contents
    rw [map_mapError, map_mapError, contents_strip_congr h stale]

theorem contents_insertLeft (T : Template) (i : Nat) (ts : List Token) :
    contents (insertLeft T i ts) =
      if i < ts.length then (contents ts).take i ++ (contents T.left ++ (contents ts).drop i)
      else contents ts := by
  unfold insertLeft
  split
  next payload behind first more hdrop hleft =>
    have hlt : i < ts.length := by
      by_contra hge
      simp [List.drop_eq_nil_of_le (Nat.le_of_not_lt hge)] at hdrop
    rw [if_pos hlt, ← contents_take, ← contents_drop, hdrop, hleft]
    simp
  next hnot =>
    split_ifs with hlt
    · have hne : ts.drop i ≠ [] := fun hnil => absurd (List.drop_eq_nil_iff.1 hnil) (Nat.not_le_of_lt hlt)
      obtain ⟨payload, behind, hdrop⟩ := List.exists_cons_of_ne_nil hne
      have hleft : T.left = [] := by
        by_contra hne
        obtain ⟨first, more, hleft⟩ := List.exists_cons_of_ne_nil hne
        exact hnot payload behind first more hdrop hleft
      simp [hleft]
    · rfl

theorem contents_insertRight (T : Template) (i : Nat) (ts : List Token) :
    contents (insertRight T i ts) =
      (contents ts).take i ++ (contents T.right ++ (contents ts).drop i) := by
  unfold insertRight
  rw [← contents_take, ← contents_drop]
  split
  next next behind last hdrop hlast => simp [hdrop]
  next => simp

theorem contents_insertHalf_congr (hT : T.sameShape U = true) (h : contents ts = contents us)
    (insertion : Insertion) :
    contents (insertHalf T ts insertion) = contents (insertHalf U us insertion) := by
  obtain ⟨hleft, hright⟩ := sameShape_iff.1 hT
  unfold insertHalf
  cases insertion.side with
  | left => simp only [contents_insertLeft, h, hleft, length_eq_of_contents_eq h]
  | right => simp only [contents_insertRight, h, hright]

/-- What wrapping puts in is a matter of the template's shape. -/
theorem contents_wrap_congr (hT : T.sameShape U = true) (h : contents ts = contents us)
    (groups : List Span) : contents (wrap T ts groups) = contents (wrap U us groups) := by
  unfold wrap
  induction sortBy Insertion.ahead (groups.flatMap insertionsOf) generalizing ts us with
  | nil => exact h
  | cons insertion rest ih => exact ih (contents_insertHalf_congr hT h insertion)

end Shape

/-! ## Boxers -/

section Boxers

/-- Two boxers whose templates differ in layout only.  The blocks that they are for may differ. -/
structure Boxer.SameShape (b c : Boxer) : Prop where
  template : b.template.sameShape c.template = true
  old : Option.Rel (fun O P => O.sameShape P = true) b.old c.old
  matcher : b.matcher = c.matcher
  toggle : b.toggle = c.toggle

variable {b c : Boxer} {ts us : List Token}

theorem Boxer.SameShape.boxesIn_eq (h : b.SameShape c) (hts : contents ts = contents us) :
    b.boxesIn ts = c.boxesIn us := by
  simp only [Boxer.boxesIn, wrappers_sameShape h.template hts, h.toggle, toggleHeads_congr hts]

theorem Boxer.SameShape.wrapPending (h : b.SameShape c) (hts : contents ts = contents us) :
    (b.wrapPending ts).map contents = (c.wrapPending us).map contents := by
  rw [Boxer.wrapPending, Boxer.wrapPending, h.matcher, tagGroups_congr hts, h.boxesIn_eq hts]
  cases tagGroups c.matcher us with
  | error e => rfl
  | ok groups => exact congrArg Except.ok (contents_wrap_congr h.template hts _)

theorem Boxer.SameShape.box (h : b.SameShape c) (hts : contents ts = contents us) :
    (b.box ts).map contents = (c.box us).map contents := by
  unfold Boxer.box
  have hold := h.old
  generalize b.old = before at hold ⊢
  generalize c.old = before' at hold ⊢
  cases hold with
  | none => exact h.wrapPending hts
  | @some O P hOP =>
    -- groups are searched for in lists that have just been given new leads, not the same in both
    have hunwrap := @unwrap_sameShape c.matcher O P ts us hOP hts
    simp only [h.matcher]
    cases hO : Boxer.unwrap c.matcher O ts with
    | error e =>
      cases hP : Boxer.unwrap c.matcher P us with
      | error e' =>
        rw [hO, hP] at hunwrap
        exact congrArg Except.error (Except.error.inj hunwrap)
      | ok us' =>
        rw [hO, hP] at hunwrap
        cases hunwrap
    | ok ts' =>
      cases hP : Boxer.unwrap c.matcher P us with
      | error e' =>
        rw [hO, hP] at hunwrap
        cases hunwrap
      | ok us' =>
        rw [hO, hP] at hunwrap
        exact h.wrapPending (Except.ok.inj hunwrap)

theorem Boxer.SameShape.unbox (h : b.SameShape c) (hts : contents ts = contents us) :
    (b.unbox ts).map contents = (c.unbox us).map contents := by
  rw [Boxer.unbox, Boxer.unbox, h.matcher]
  exact unwrap_sameShape h.template hts

/-- Layout has no part in boxing.  On lists with the same contents, boxers whose templates have the same
shapes fail with the same error or give lists with the same contents; and the lists hold the same
statements. -/
theorem layout_irrelevant (h : b.SameShape c) (hts : contents ts = contents us) :
    (b.box ts).map contents = (c.box us).map contents ∧
    (b.unbox ts).map contents = (c.unbox us).map contents ∧
    ∀ start limit, statements ts start limit = statements us start limit :=
  ⟨h.box hts, h.unbox hts, statements_congr hts⟩

/-- The tokens with a tab in front of each. -/
def tabbed (tokens : List Token) : List Token :=
  tokens.map fun t => t.withLead ['\t']

/-- The template with a tab in front of each token. -/
def Template.tabbed (T : Template) : Template :=
  ⟨TagBox.tabbed T.left, TagBox.tabbed T.right, ['\t']⟩

/-- The boxer with a tab in front of each token of its templates. -/
def Boxer.tabbed (boxer : Boxer) : Boxer :=
  { boxer with template := boxer.template.tabbed, old := boxer.old.map Template.tabbed }

theorem contents_tabbed (ts : List Token) : contents (tabbed ts) = contents ts := by
  simp [contents, tabbed]

theorem Boxer.sameShape_tabbed (boxer : Boxer) : boxer.SameShape boxer.tabbed where
  template := sameShape_iff.2 ⟨(contents_tabbed _).symm, (contents_tabbed _).symm⟩
  old := by
    rw [Boxer.tabbed]
    cases boxer.old with
    | none => exact .none
    | some O => exact .some (sameShape_iff.2 ⟨(contents_tabbed _).symm, (contents_tabbed _).symm⟩)
  matcher := rfl
  toggle := rfl

/-- A boxer that replaces `var.b ? … : {}` by `(var.a ? … : {})`. -/
def migratingBoxer : Boxer :=
  ⟨(conditional ['a']).parenthesised, some (conditional ['b']), ⟨[], [['k']]⟩, some ['t'], {}⟩

/-- A group in an old wrapper. -/
def oldBoxed : List Token :=
  (conditional ['b']).left ++ (sampleGroup ['k'] ++ (conditional ['b']).right)

theorem layout_irrelevant_tabbed :
    ∃ y z, migratingBoxer.box oldBoxed = .ok y ∧ migratingBoxer.tabbed.box (tabbed oldBoxed) = .ok z ∧
      contents y = contents z ∧ print y ≠ print z := by
  obtain ⟨hbox, -, -⟩ := layout_irrelevant migratingBoxer.sameShape_tabbed (contents_tabbed oldBoxed).symm
  have hy : (migratingBoxer.box oldBoxed).map print = .ok "(var.a ? {k=} : {})".toList := by
    decide +kernel
  have hz : (migratingBoxer.tabbed.box (tabbed oldBoxed)).map print =
      .ok "\t(\tvar\t.\ta\t?\t\x7b\tk\t=\t\x7d\t:\t\x7b\t\x7d\t)".toList := by
    decide +kernel
  obtain ⟨y, hy, hprint⟩ := map_eq_ok_iff.1 hy
  obtain ⟨z, hz, hprint'⟩ := map_eq_ok_iff.1 hz
  rw [hy, hz] at hbox
  refine ⟨y, z, hy, hz, Except.ok.inj hbox, ?_⟩
  rw [hprint, hprint']
  decide

end Boxers

end TagBox
