import TagBox.Proofs.Halves
import TagBox.Proofs.Migration
import TagBox.Proofs.Removal

/-!
# Boxing settles

A run of the boxer puts a wrapper around every tag group that has no box, and leaves the tokens between
the wrappers as they are.  The groups of the result are the old ones at their new places, each of them
with a box, so that a second run finds nothing left to do.

* `contents_remaining_weave` — without the woven halves, woven tokens are the tokens themselves.
* `contents_remaining_placed` — likewise inside of each group.
* `box_settles` — what a run leaves behind.
-/

namespace TagBox

/-- The halves of wrappers around the groups. -/
def Template.halvesAround (T : Template) (groups : List Span) : List Half :=
  groups.flatMap fun g => [T.frontHalf g, T.backHalf g]

/-! ## Where woven tokens stand -/

section Places

variable {T : Template} {gs : List Span} {g g' : Span} {i j k p : Nat} {half : Half} {t : Token}
  {ts us : List Token}

theorem mem_halvesAround :
    half ∈ T.halvesAround gs ↔ ∃ g ∈ gs, half = T.frontHalf g ∨ half = T.backHalf g := by
  simp [Template.halvesAround]

theorem strictMono_place : StrictMono (place T gs) := by
  intro j k h
  have hstep := reach_succ T gs j
  have hreach := @reach_succ_le T gs j k h
  have hplace := reach_le_place T gs k
  omega

theorem placed_injective : Function.Injective (placed T gs) := by
  intro g g' heq
  obtain ⟨hfirst, hlast⟩ := Span.mk.inj heq
  cases g
  cases g'
  rw [Span.mk.injEq]
  exact ⟨strictMono_place.injective hfirst, strictMono_place.injective hlast⟩

/-- What is put in front of a token is covered. -/
theorem covered_front (hp : reach T gs j ≤ p) (hp' : p < place T gs j) :
    covered (T.halvesAround (gs.map (placed T gs))) p = true := by
  have hs : startsAt gs j = true := by
    by_contra hne
    rw [place, front, if_neg hne] at hp'
    omega
  obtain ⟨g, hg, rfl⟩ := startsAt_iff.1 hs
  refine covered_iff.2 ⟨T.frontHalf (placed T gs g),
    mem_halvesAround.2 ⟨_, List.mem_map_of_mem hg, Or.inl rfl⟩, ?_⟩
  have hplace : place T gs g.first = reach T gs g.first + T.left.length := by
    rw [place, front, if_pos hs]
  simp only [Template.frontHalf, placed]
  omega

/-- What is put behind a token is covered. -/
theorem covered_back (hp : place T gs j < p) (hp' : p < reach T gs (j + 1)) :
    covered (T.halvesAround (gs.map (placed T gs))) p = true := by
  rw [reach_succ] at hp'
  have he : endsAt gs j = true := by
    by_contra hne
    rw [back, if_neg hne] at hp'
    omega
  obtain ⟨g, hg, rfl⟩ := endsAt_iff.1 he
  refine covered_iff.2 ⟨T.backHalf (placed T gs g),
    mem_halvesAround.2 ⟨_, List.mem_map_of_mem hg, Or.inr rfl⟩, ?_⟩
  rw [back, if_pos he] at hp'
  simp only [Template.backHalf, placed]
  omega

/-- The tokens themselves are not covered. -/
theorem covered_place (hT : T.left ≠ []) :
    covered (T.halvesAround (gs.map (placed T gs))) (place T gs j) = false := by
  have hpos := List.length_pos_iff.2 hT
  by_contra hne
  obtain ⟨half, hhalf, hle, hle'⟩ := covered_iff.1 (by simpa using hne)
  obtain ⟨g', hg', hhalf⟩ := mem_halvesAround.1 hhalf
  obtain ⟨g, hg, rfl⟩ := List.mem_map.1 hg'
  rcases hhalf with rfl | rfl
  · simp only [Template.frontHalf, placed] at hle hle'
    have hplace : place T gs g.first = reach T gs g.first + T.left.length := by
      rw [place, front, if_pos (startsAt_iff.2 ⟨g, hg, rfl⟩)]
    rcases Nat.lt_or_ge j g.first with hlt | hge
    · have hstep := reach_succ T gs j
      have hreach := @reach_succ_le T gs j g.first hlt
      omega
    · have := (@strictMono_place T gs).monotone hge
      omega
  · simp only [Template.backHalf, placed] at hle hle'
    have hreach : reach T gs (g.last + 1) = place T gs g.last + 1 + T.right.length := by
      rw [reach_succ, back, if_pos (endsAt_iff.2 ⟨g, hg, rfl⟩)]
    rcases Nat.lt_or_ge g.last j with hlt | hge
    · have hmono := @reach_succ_le T gs g.last j hlt
      have hplace := reach_le_place T gs j
      omega
    · have := (@strictMono_place T gs).monotone hge
      omega

/-- What is woven for one token: something in front of it, the token, and something behind it. -/
theorem exists_weave_cons :
    ∃ F t' K, weave T gs i (t :: ts) = F ++ t' :: (K ++ weave T gs (i + 1) ts) ∧
      F.length = front T gs i ∧ K.length = back T gs i ∧ t'.content = t.content := by
  by_cases hs : startsAt gs i = true
  · exact ⟨relead t.lead T.left, t.withLead T.payloadLead, if endsAt gs i then T.right else [],
      by simp [weave, hs], by simp [front, hs], by by_cases he : endsAt gs i = true <;> simp [back, he],
      rfl⟩
  · exact ⟨[], t, if endsAt gs i then T.right else [], by simp [weave, hs], by simp [front, hs],
      by by_cases he : endsAt gs i = true <;> simp [back, he], rfl⟩

/-- Without the woven halves, woven tokens are the tokens themselves. -/
theorem contents_remaining_weave (hT : T.left ≠ []) :
    contents ((remaining (T.halvesAround (gs.map (placed T gs))) (reach T gs i)
      (weave T gs i ts)).map Prod.fst) = contents ts := by
  induction ts generalizing i with
  | nil => rfl
  | cons t ts ih =>
    obtain ⟨F, t', K, hweave, hF, hK, ht⟩ := @exists_weave_cons T gs i t ts
    have hplace : reach T gs i + F.length = place T gs i := by rw [hF, place]
    have hreach : place T gs i + 1 + K.length = reach T gs (i + 1) := by rw [hK, reach_succ]
    rw [hweave, remaining_append,
      remaining_of_full fun j hj hj' => covered_front hj (by omega), List.nil_append, hplace,
      remaining_of_not_covered (covered_place hT), remaining_append,
      @remaining_of_full _ _ K fun j hj hj' => @covered_back T gs i j (by omega) (by omega),
      List.nil_append, hreach, List.map_cons, contents_cons, contents_cons, ih, ht]

/-- Without the woven halves, what is between the new places of two tokens is what was between
them. -/
theorem contents_remaining_placed (hT : T.left ≠ []) (hle : g.first ≤ g.last)
    (hlt : g.last < us.length) :
    contents ((remaining (T.halvesAround (gs.map (placed T gs))) (placed T gs g).first
      ((placed T gs g).slice (weave T gs 0 us))).map Prod.fst) = contents (g.slice us) := by
  set A := us.take g.first with hA
  set B := (us.drop g.first).drop (g.last + 1 - g.first) with hB
  have hcut : us = A ++ (g.slice us ++ B) := by
    rw [hA, hB, Span.slice, List.take_append_drop, List.take_append_drop]
  have hAlen : A.length = g.first := by
    rw [hA, List.length_take]
    omega
  have hGlen : g.first + (g.slice us).length = g.last + 1 := by
    rw [Span.slice, List.length_take, List.length_drop]
    omega
  set W := weave T gs g.first (g.slice us) with hW
  have hweave : weave T gs 0 us = weave T gs 0 A ++ (W ++ weave T gs (g.last + 1) B) := by
    conv_lhs => rw [hcut]
    rw [weave_append, weave_append, Nat.zero_add, hAlen, hGlen]
  -- what is woven for the span itself lies between what is put in front of it and behind it
  have hplaces : place T gs g.first ≤ place T gs g.last := strictMono_place.monotone hle
  have hWlen : reach T gs g.first + W.length = reach T gs (g.last + 1) := by
    rw [hW, reach_add_length_weave, hGlen]
  have hplace : place T gs g.first = reach T gs g.first + front T gs g.first := rfl
  rw [reach_succ] at hWlen
  obtain ⟨F, M, R, hcutW, hF, hM⟩ : ∃ F M R, W = F ++ (M ++ R) ∧ F.length = front T gs g.first ∧
      place T gs g.first + M.length = place T gs g.last + 1 := by
    refine ⟨W.take (front T gs g.first),
      (W.drop (front T gs g.first)).take (place T gs g.last + 1 - place T gs g.first),
      (W.drop (front T gs g.first)).drop (place T gs g.last + 1 - place T gs g.first), ?_, ?_, ?_⟩
    · rw [List.take_append_drop, List.take_append_drop]
    · rw [List.length_take]
      omega
    · rw [List.length_take, List.length_drop]
      omega
  have hslice : (placed T gs g).slice (weave T gs 0 us) = M := by
    have hlen : (weave T gs 0 A ++ F).length = place T gs g.first := by
      rw [List.length_append, length_weave, hAlen, hF, hplace]
    have hMne : M ≠ [] := by
      rw [← List.length_pos_iff]
      omega
    have hspan : placed T gs g = ⟨(weave T gs 0 A ++ F).length,
        (weave T gs 0 A ++ F).length + M.length - 1⟩ := by
      rw [placed, Span.mk.injEq, hlen]
      omega
    have hregroup : weave T gs 0 us =
        (weave T gs 0 A ++ F) ++ (M ++ (R ++ weave T gs (g.last + 1) B)) := by
      rw [hweave, hcutW]
      simp only [List.append_assoc]
    rw [hspan, hregroup, slice_append hMne]
  have hlens : W.length = F.length + (M.length + R.length) := by
    rw [hcutW, List.length_append, List.length_append]
  have hown := @contents_remaining_weave T gs g.first (g.slice us) hT
  rw [← hW, hcutW, remaining_append, remaining_append,
    remaining_of_full fun j hj hj' => covered_front hj (by omega), List.nil_append,
    @remaining_of_full _ _ R fun j hj hj' =>
      @covered_back T gs g.last j (by omega) (by rw [reach_succ]; omega),
    List.append_nil, hF] at hown
  rw [hslice]
  exact hown

theorem contents_slice_congr (h : contents ts = contents us) (g : Span) :
    contents (g.slice ts) = contents (g.slice us) := by
  rw [Span.slice, Span.slice, contents_take, contents_take, contents_drop, contents_drop, h]

end Places

/-! ## What a run leaves behind -/

section Settling

/-- Boxing puts wrappers around those tag groups that have no box.  The groups of the result are the
groups that were there, in the same order; without the wrappers that have been put in, each of them has
the tokens that it had, and so has the whole.  Every group of the result counts as boxed, and boxing
again changes nothing, layout included. -/
theorem box_settles {m : KeyMatcher} {T : Template} {toggle : Option Text} {selector : Selector}
    {x y : List Token} (hT : T.Neutral m) (h : Boxer.box ⟨T, none, m, toggle, selector⟩ x = .ok y) :
    ∃ found gs ws, tagGroups m x = .ok found ∧ tagGroups m y = .ok gs ∧
      ws ⊆ gs ∧ (∀ g ∈ ws, T.Hugs y g) ∧
      List.Forall₂ (fun g g' =>
        (g' ∈ ws ↔ ¬ Boxer.Boxed ⟨T, none, m, toggle, selector⟩ x g) ∧
        contents (g.slice x) =
          contents ((remaining (T.halvesAround ws) g'.first (g'.slice y)).map Prod.fst)) found gs ∧
      contents x = contents ((remaining (T.halvesAround ws) 0 y).map Prod.fst) ∧
      (∀ g ∈ gs, ((Boxer.boxesIn ⟨T, none, m, toggle, selector⟩ y).any
        fun wrappers => wrappers.boxes g) = true) ∧
      Boxer.box ⟨T, none, m, toggle, selector⟩ y = .ok y := by
  set boxer : Boxer := ⟨T, none, m, toggle, selector⟩ with hboxer
  obtain ⟨gs, hgs, hboxed⟩ := @boxed_of_wrapPending boxer x y hT h
  have hagain : boxer.box y = .ok y := @wrapPending_eq_self boxer y gs hT.toHasHalves hgs hboxed
  obtain ⟨found, hfound, hy⟩ := Boxer.wrapPending_eq_ok_iff.1 (show boxer.wrapPending x = .ok y from h)
  set ws := Boxer.pending (boxer.boxesIn x) found with hws
  have hsub : ws ⊆ found := (pending_sublist _ _).subset
  obtain ⟨us, hus, -, hwrap⟩ := wrap_tagGroups hT.toHasHalves hfound
    (pending_sublist (boxer.boxesIn x) found)
  obtain rfl : weave T ws 0 us = y := hwrap.symm.trans hy
  have hfound' : tagGroups m us = .ok found := (tagGroups_congr hus).trans hfound
  obtain rfl : found.map (placed T ws) = gs :=
    Except.ok.inj ((tagGroups_weave hT hfound' hsub).symm.trans hgs)
  refine ⟨found, _, ws.map (placed T ws), hfound, hgs, List.map_subset _ hsub, ?_, ?_, ?_, ?_, hagain⟩
  · intro g' hg'
    obtain ⟨g, hg, rfl⟩ := List.mem_map.1 hg'
    exact hugs_weave hfound' hsub hg
  · rw [List.forall₂_map_right_iff, List.forall₂_same]
    intro g hg
    obtain ⟨hlt, hlast⟩ := lt_of_mem_tagGroups hfound' hg
    constructor
    · rw [List.mem_map_of_injective placed_injective, hws, mem_pending_iff hT.toHasHalves (Nat.le_of_lt hlt)]
      exact and_iff_right hg
    · rw [contents_remaining_placed hT.left (Nat.le_of_lt hlt) hlast]
      exact contents_slice_congr hus.symm g
  · exact hus.symm.trans (@contents_remaining_weave T ws 0 us hT.left).symm
  · intro g hg
    exact (any_boxes_iff hT.toHasHalves (Nat.le_of_lt (lt_of_mem_tagGroups hgs hg).1)).2 (hboxed g hg)

/-- The wrapper `{for e in … : e}`, with a brace in each half. -/
def gathering : Template where
  left := [⟨.openBrace, ['{'], []⟩, ⟨.identifier, "for".toList, []⟩, ⟨.identifier, ['e'], [' ']⟩,
    ⟨.identifier, "in".toList, [' ']⟩]
  right := [⟨.colon, [':'], [' ']⟩, ⟨.identifier, ['e'], [' ']⟩, ⟨.closeBrace, ['}'], []⟩]
  payloadLead := [' ']

/-- A group in a group. -/
def nestedGroups : List Token :=
  [⟨.openBrace, ['{'], []⟩, ⟨.identifier, ['k'], []⟩, ⟨.equals, ['='], []⟩] ++
    (sampleGroup ['k'] ++ [⟨.closeBrace, ['}'], []⟩])

/-- Both groups are wrapped, and the braces of the halves mark nothing. -/
theorem box_settles_nested :
    ∃ y, gathering.Neutral ⟨[], [['k']]⟩ ∧
      Boxer.box ⟨gathering, none, ⟨[], [['k']]⟩, some ['t'], {}⟩ nestedGroups = .ok y ∧
      print y = "{for e in {k={for e in {k=} : e}} : e}".toList ∧
      tagGroups ⟨[], [['k']]⟩ y = .ok [⟨11, 14⟩, ⟨4, 18⟩] ∧
      (∀ g ∈ [(⟨11, 14⟩ : Span), ⟨4, 18⟩],
        ((Boxer.boxesIn ⟨gathering, none, ⟨[], [['k']]⟩, some ['t'], {}⟩ y).any
          fun wrappers => wrappers.boxes g) = true) ∧
      Boxer.box ⟨gathering, none, ⟨[], [['k']]⟩, some ['t'], {}⟩ y = .ok y := by
  have hT : gathering.Neutral ⟨[], [['k']]⟩ := ⟨⟨by decide, by decide⟩, by decide, by decide, by decide⟩
  obtain ⟨y, hy, hprint, hgroups⟩ : ∃ y,
      Boxer.box ⟨gathering, none, ⟨[], [['k']]⟩, some ['t'], {}⟩ nestedGroups = .ok y ∧
        print y = "{for e in {k={for e in {k=} : e}} : e}".toList ∧
        tagGroups ⟨[], [['k']]⟩ y = .ok [⟨11, 14⟩, ⟨4, 18⟩] :=
    ⟨_, rfl, by decide +kernel, by decide +kernel⟩
  obtain ⟨-, gs, -, -, hgs, -, -, -, -, hboxed, hagain⟩ := box_settles hT hy
  obtain rfl : gs = [⟨11, 14⟩, ⟨4, 18⟩] := Except.ok.inj (hgs.symm.trans hgroups)
  exact ⟨y, hT, hy, hprint, hgroups, hboxed, hagain⟩

end Settling

end TagBox
