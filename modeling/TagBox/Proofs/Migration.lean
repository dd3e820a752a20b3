import TagBox.Proofs.Boxed

/-!
# Replacing the wrappers of an old template

A boxer with an old template first takes its wrappers away and then boxes with the current one.  On
tokens boxed with the old template alone that is the same as boxing afresh.

* `unwrap_congr` — unwrapping does not look at layout.
* `migrate_eq_box_afresh` — migrating is boxing afresh.
-/

namespace TagBox

/-! ## Layout does not matter -/

section Layout

variable {m : KeyMatcher} {T : Template} {ts us : List Token}

theorem contents_cutHalf_congr (h : contents ts = contents us) (half : Half) :
    contents (cutHalf ts half) = contents (cutHalf us half) := by
  have hcut : ∀ vs : List Token, contents (cutHalf vs half) =
      (contents vs).take half.span.first ++ (contents vs).drop (half.span.last + 1) := by
    intro vs
    unfold cutHalf
    cases half.side <;> simp [contents_take, contents_drop]
  rw [hcut, hcut, h]

/-- Stripping does not look at layout, nor does it fail because of it. -/
theorem contents_strip_congr (h : contents ts = contents us) (stale : List Half) :
    (strip ts stale).map contents = (strip us stale).map contents := by
  unfold strip
  induction removals stale generalizing ts us with
  | nil => exact congrArg Except.ok h
  | cons half rest ih =>
    rw [List.foldlM_cons, List.foldlM_cons, removeHalf, removeHalf, length_eq_of_contents_eq h]
    split
    · exact ih (contents_cutHalf_congr h half)
    · rfl

theorem hugging_congr (h : contents us = contents ts) :
    Boxer.hugging m T us = Boxer.hugging m T ts := by
  rw [Boxer.hugging, Boxer.hugging, tagGroups_congr h, wrappers_congr h]

/-- Unwrapping does not look at layout. -/
theorem unwrap_congr {vs : List Token} (h : contents us = contents ts)
    (hts : Boxer.unwrap m T ts = .ok vs) :
    ∃ vs', Boxer.unwrap m T us = .ok vs' ∧ contents vs' = contents vs := by
  obtain ⟨stale, hstale, hstrip⟩ := Boxer.unwrap_eq_ok_iff.1 hts
  have hmap := contents_strip_congr h stale
  rw [hstrip] at hmap
  obtain ⟨vs', hstrip', hcontents⟩ := map_eq_ok_iff.1 hmap
  exact ⟨vs', Boxer.unwrap_eq_ok_iff.2 ⟨stale, (hugging_congr h).trans hstale, hstrip'⟩, hcontents⟩

end Layout

/-! ## Sample wrappers -/

/-- A group that holds a key and nothing else. -/
def sampleGroup (key : Text) : List Token :=
  [⟨.openBrace, ['{'], []⟩, ⟨.identifier, key, []⟩, ⟨.equals, ['='], []⟩, ⟨.closeBrace, ['}'], []⟩]

/-- The wrapper `var.name ? … : {}`. -/
def conditional (name : Text) : Template where
  left := [⟨.identifier, "var".toList, []⟩, ⟨.dot, ['.'], []⟩, ⟨.identifier, name, []⟩,
    ⟨.question, ['?'], [' ']⟩]
  right := [⟨.colon, [':'], [' ']⟩, ⟨.openBrace, ['{'], [' ']⟩, ⟨.closeBrace, ['}'], []⟩]
  payloadLead := [' ']

/-- The wrapper in parentheses. -/
def Template.parenthesised (T : Template) : Template where
  left := ⟨.openParen, ['('], []⟩ :: T.left
  right := T.right ++ [⟨.closeParen, [')'], []⟩]
  payloadLead := T.payloadLead

/-! ## Migrating and boxing afresh -/

section Afresh

theorem withOld_eq {boxer : Boxer} {O : Template} (h : O.sameShape boxer.template = false) :
    boxer.withOld (some O) = { boxer with old := some O } := by
  simp [Boxer.withOld, h]

theorem pending_eq_self {found : List Wrappers} {gs : List Span}
    (h : ∀ g ∈ gs, ∀ wrappers ∈ found, wrappers.boxes g = false) : Boxer.pending found gs = gs := by
  rw [Boxer.pending, List.filter_eq_self]
  intro g hg
  simp only [Bool.not_eq_true', List.any_eq_false]
  exact fun wrappers hin => by simp [h g hg wrappers hin]

/-- Boxing with `O` and then migrating from `O` to `N` gives, layout aside, what boxing with `N` gives
at once, if no tag group is boxed by `O` or by a test of the toggle to begin with. -/
theorem migrate_eq_box_afresh {m : KeyMatcher} {O N : Template} {toggle : Option Text}
    {selector : Selector} {x : List Token} {gs : List Span} (hO : O.Neutral m) (hN : N.Neutral m)
    (hshape : O.sameShape N = false) (hx : tagGroups m x = .ok gs)
    (hfree : ∀ g ∈ gs, ∀ wrappers ∈ Boxer.boxesIn ⟨O, none, m, toggle, selector⟩ x,
      wrappers.boxes g = false) :
    ∃ w y z, Boxer.box ⟨O, none, m, toggle, selector⟩ x = .ok w ∧
      Boxer.box (Boxer.withOld ⟨N, none, m, toggle, selector⟩ (some O)) w = .ok y ∧
      Boxer.box ⟨N, none, m, toggle, selector⟩ x = .ok z ∧ contents y = contents z := by
  obtain ⟨us, hus, -, hwrap⟩ := wrap_tagGroups hO.toHasHalves hx (List.Sublist.refl gs)
  have hgs : tagGroups m us = .ok gs := (tagGroups_congr hus).trans hx
  have hw : Boxer.box ⟨O, none, m, toggle, selector⟩ x = .ok (weave O gs 0 us) := by
    rw [← hwrap]
    simp only [Boxer.box, Boxer.wrapPending, hx, pending_eq_self hfree]
  obtain ⟨z, hz⟩ : ∃ z, Boxer.box ⟨N, none, m, toggle, selector⟩ x = .ok z := by
    simp only [Boxer.box, Boxer.wrapPending, hx]
    exact ⟨_, rfl⟩
  obtain ⟨y, hy, hyz⟩ :=
    @wrapPending_congr ⟨N, some O, m, toggle, selector⟩ x z us hN.toHasHalves hus hz
  refine ⟨_, y, z, hw, ?_, hz, hyz⟩
  rw [withOld_eq hshape]
  simp only [Boxer.box, unwrap_weave hO hgs]
  exact hy

/-- Two groups side by side, one of them with a current wrapper already: the migration takes the old
wrapper out of it and leaves it alone. -/
theorem migrate_eq_box_afresh_sample :
    ∃ w y z,
      Boxer.box ⟨conditional ['a'], none, ⟨[], [['k']]⟩, some ['t'], {}⟩
        (sampleGroup ['k'] ++
          ((conditional ['b']).left ++ (sampleGroup ['k'] ++ (conditional ['b']).right))) = .ok w ∧
      Boxer.box (Boxer.withOld ⟨conditional ['b'], none, ⟨[], [['k']]⟩, some ['t'], {}⟩
        (some (conditional ['a']))) w = .ok y ∧
      Boxer.box ⟨conditional ['b'], none, ⟨[], [['k']]⟩, some ['t'], {}⟩
        (sampleGroup ['k'] ++
          ((conditional ['b']).left ++ (sampleGroup ['k'] ++ (conditional ['b']).right))) = .ok z ∧
      print w = "var.a ? {k=} : {}var.b ?var.a ? {k=} : {} : {}".toList ∧
      print y = "var.b ? {k=} : {}var.b ?{k=} : {}".toList ∧
      print z = "var.b ? {k=} : {}var.b ?{k=} : {}".toList ∧ contents y = contents z := by
  set x := sampleGroup ['k'] ++
    ((conditional ['b']).left ++ (sampleGroup ['k'] ++ (conditional ['b']).right)) with hx
  set old : Boxer := ⟨conditional ['a'], none, ⟨[], [['k']]⟩, some ['t'], {}⟩ with hold
  set new : Boxer := ⟨conditional ['b'], none, ⟨[], [['k']]⟩, some ['t'], {}⟩ with hnew
  obtain ⟨w, y, z, hw, hy, hz, hyz⟩ := @migrate_eq_box_afresh ⟨[], [['k']]⟩ (conditional ['a'])
    (conditional ['b']) (some ['t']) {} x [⟨0, 3⟩, ⟨8, 11⟩]
    ⟨⟨by decide, by decide⟩, by decide, by decide, by decide⟩
    ⟨⟨by decide, by decide⟩, by decide, by decide, by decide⟩ (by decide) (by decide) (by decide)
  have hwprint : (old.box x).map print =
      .ok "var.a ? {k=} : {}var.b ?var.a ? {k=} : {} : {}".toList := by decide +kernel
  have hyprint : ((old.box x).bind (new.withOld (some (conditional ['a']))).box).map print =
      .ok "var.b ? {k=} : {}var.b ?{k=} : {}".toList := by decide +kernel
  have hzprint : (new.box x).map print = .ok "var.b ? {k=} : {}var.b ?{k=} : {}".toList := by
    decide +kernel
  rw [hw] at hwprint hyprint
  rw [Except.bind, hy] at hyprint
  rw [hz] at hzprint
  exact ⟨w, y, z, hw, hy, hz, Except.ok.inj hwprint, Except.ok.inj hyprint, Except.ok.inj hzprint, hyz⟩

end Afresh

end TagBox
