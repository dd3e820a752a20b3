import TagBox.Proofs.Script

/-!
# Boxing reaches every group

Wrapping the groups that are left to be boxed leaves every group boxed: those that have been wrapped
stand between the two halves, and those that had a box keep it, since no group begins or ends inside of
a box that is around another one.  Unwrapping what has been wrapped gives the tokens back.

* `boxed_of_wrapPending` — after boxing every tag group is boxed.
* `unwrap_weave` — unwrapping undoes weaving.
* `wrapPending_congr` — boxing does not look at layout.
-/

namespace TagBox

section Kinds

variable {m : KeyMatcher} {us : List Token} {found gs : List Span} {g : Span} {j : Nat}

theorem kinds_of_mem_tagGroups (h : tagGroups m us = .ok found) (hg : g ∈ found) :
    (∃ t, us[g.first]? = some t ∧ t.kind = .openBrace) ∧
      ∃ t, us[g.last]? = some t ∧ t.kind = .closeBrace := by
  obtain ⟨A, o, inner, c, B, rfl, hfirst, hlast, ho, hc, -⟩ := exists_of_mem_tagGroups h hg
  refine ⟨⟨o, by simp [hfirst], ho⟩, c, ?_, hc⟩
  rw [hlast, List.getElem?_append_right (by omega)]
  have : A.length + inner.length + 1 - A.length = inner.length + 1 := by omega
  simp [this]

theorem kind_of_startsAt (h : tagGroups m us = .ok found) (hsub : gs ⊆ found)
    (hj : startsAt gs j = true) : ∃ t, us[j]? = some t ∧ t.kind = .openBrace := by
  obtain ⟨g, hg, rfl⟩ := startsAt_iff.1 hj
  exact (kinds_of_mem_tagGroups h (hsub hg)).1

theorem kind_of_endsAt (h : tagGroups m us = .ok found) (hsub : gs ⊆ found)
    (hj : endsAt gs j = true) : ∃ t, us[j]? = some t ∧ t.kind = .closeBrace := by
  obtain ⟨g, hg, rfl⟩ := endsAt_iff.1 hj
  exact (kinds_of_mem_tagGroups h (hsub hg)).2

theorem nodup_first_tagGroups (h : tagGroups m us = .ok found) : (found.map Span.first).Nodup :=
  ((groupsFrom_sublist_pairsFrom h).map _).nodup (nodup_first_pairsFrom (by simp) (by simp))

theorem nodup_last_tagGroups (h : tagGroups m us = .ok found) : (found.map Span.last).Nodup :=
  ((groupsFrom_sublist_pairsFrom h).map _).nodup (nodup_last_pairsFrom (by simp))

theorem lt_of_mem_tagGroups (h : tagGroups m us = .ok found) (hg : g ∈ found) :
    g.first < g.last ∧ g.last < us.length := by
  obtain ⟨-, hlt, -, hlast⟩ := mem_pairsFrom (by simp) ((groupsFrom_sublist_pairsFrom h).subset hg)
  exact ⟨hlt, by omega⟩

/-- Different tag groups have different ends, and these are positions of tokens. -/
theorem ends_of_subset (h : tagGroups m us = .ok found) (hsub : gs ⊆ found) (hn : gs.Nodup) :
    (gs.map Span.first).Nodup ∧ (gs.map Span.last).Nodup ∧
      ∀ g ∈ gs, g.first < us.length ∧ g.last < us.length := by
  refine ⟨?_, ?_, ?_⟩
  · refine List.Nodup.map_on (fun a ha b hb heq => ?_) hn
    exact List.inj_on_of_nodup_map (nodup_first_tagGroups h) (hsub ha) (hsub hb) heq
  · refine List.Nodup.map_on (fun a ha b hb heq => ?_) hn
    exact List.inj_on_of_nodup_map (nodup_last_tagGroups h) (hsub ha) (hsub hb) heq
  · intro g hg
    have := lt_of_mem_tagGroups h (hsub hg)
    omega

/-- A group that is not among the given ones shares no end with them. -/
theorem not_startsAt_of_not_mem (h : tagGroups m us = .ok found) (hsub : gs ⊆ found)
    (hg : g ∈ found) (hn : g ∉ gs) : startsAt gs g.first = false ∧ endsAt gs g.last = false := by
  constructor
  · by_contra hs
    obtain ⟨g', hg', heq⟩ := startsAt_iff.1 (by simpa using hs)
    exact hn (List.inj_on_of_nodup_map (nodup_first_tagGroups h) (hsub hg') hg heq ▸ hg')
  · by_contra he
    obtain ⟨g', hg', heq⟩ := endsAt_iff.1 (by simpa using he)
    exact hn (List.inj_on_of_nodup_map (nodup_last_tagGroups h) (hsub hg') hg heq ▸ hg')

end Kinds

/-! ## Groups in woven tokens -/

section Woven

variable {m : KeyMatcher} {T N : Template} {us : List Token} {found gs : List Span} {g : Span}

theorem length_weave (ts : List Token) : (weave T gs 0 ts).length = reach T gs ts.length := by
  have := @reach_add_length_weave T gs 0 ts
  rw [Nat.zero_add] at this
  rw [← this, reach, Nat.zero_add]

/-- A group that has been wrapped stands between the halves. -/
theorem hugs_weave (h : tagGroups m us = .ok found) (hsub : gs ⊆ found) (hg : g ∈ gs) :
    T.Hugs (weave T gs 0 us) (placed T gs g) := by
  obtain ⟨A, o, inner, c, B, rfl, hfirst, hlast, ho, hc, -⟩ := exists_of_mem_tagGroups h (hsub hg)
  have hs : startsAt gs A.length = true := startsAt_iff.2 ⟨g, hg, hfirst⟩
  have he : endsAt gs (A.length + 1 + inner.length) = true := endsAt_iff.2 ⟨g, hg, by omega⟩
  -- the ends of a group are different tokens
  have he' : endsAt gs A.length = false := by
    by_contra hne
    obtain ⟨t, ht, hk⟩ := kind_of_endsAt h hsub (by simpa using hne)
    obtain rfl : o = t := by simpa using ht
    simp [ho] at hk
  have hs' : startsAt gs (A.length + 1 + inner.length) = false := by
    by_contra hne
    obtain ⟨t, ht, hk⟩ := kind_of_startsAt h hsub (by simpa using hne)
    have hidx : A.length + 1 + inner.length - A.length = inner.length + 1 := by omega
    rw [List.getElem?_append_right (by omega), hidx] at ht
    obtain rfl : c = t := by simpa using ht
    simp [hc] at hk
  have hweave : weave T gs 0 (A ++ o :: (inner ++ c :: B)) =
      weave T gs 0 A ++ (relead o.lead T.left ++ ((o.withLead T.payloadLead ::
        (weave T gs (A.length + 1) inner ++ [c])) ++ (T.right ++
          weave T gs (A.length + 1 + inner.length + 1) B))) := by
    rw [weave_append, Nat.zero_add, weave_start hs he', weave_append, weave_end hs' he]
    simp
  have hmid := @reach_add_length_weave T gs (A.length + 1) inner
  rw [reach_succ, back, if_neg (by simp [he'])] at hmid
  have hplace : place T gs A.length = reach T gs A.length + T.left.length := by
    simp [place, front, hs]
  have hplace' : place T gs (A.length + 1 + inner.length) =
      reach T gs (A.length + 1 + inner.length) := by
    simp [place, front, hs']
  refine ⟨_, _, _, _, _, hweave, contents_relead _ _, rfl, ?_, ?_⟩
  · rw [length_weave, length_relead]
    exact (congrArg (place T gs) hfirst).trans hplace
  · have hq : g.last = A.length + 1 + inner.length := by omega
    have hp : (placed T gs g).first = place T gs A.length := congrArg (place T gs) hfirst
    have hl : (placed T gs g).last = place T gs (A.length + 1 + inner.length) :=
      congrArg (place T gs) hq
    rw [hp, hl, hplace', ← hmid]
    simp only [List.length_cons, List.length_append, List.length_nil]
    omega

/-- A stretch in which no group starts or ends is still there in woven tokens. -/
theorem weave_window {A l B : List Token}
    (hl : ∀ j, A.length ≤ j → j < A.length + l.length → startsAt gs j = false ∧ endsAt gs j = false) :
    weave T gs 0 (A ++ (l ++ B)) =
      weave T gs 0 A ++ (l ++ weave T gs (A.length + l.length) B) := by
  rw [weave_append, weave_append, Nat.zero_add, weave_eq_self hl]

/-- Where a position in front of which nothing is woven in is taken to. -/
theorem place_eq_length_weave {ts : List Token} (h : startsAt gs ts.length = false) :
    place T gs ts.length = (weave T gs 0 ts).length := by
  simp [place, front, h, length_weave]

/-- The tokens around a tag group with a wrapper: what is in front, the left half, the group, the right
half, and what is behind. -/
theorem exists_cut_of_hugs (h : tagGroups m us = .ok found) (hg : g ∈ found) (hhug : N.Hugs us g) :
    ∃ A l o inner c r B, us = A ++ (l ++ (o :: (inner ++ c :: (r ++ B)))) ∧
      contents l = contents N.left ∧ contents r = contents N.right ∧ o.kind = .openBrace ∧
      c.kind = .closeBrace ∧ BracesNest inner ∧ g.first = A.length + l.length ∧
      g.last = A.length + l.length + inner.length + 1 := by
  obtain ⟨A, l, G, r, B, rfl, hl, hr, hfirst, hlast⟩ := hhug
  obtain ⟨A', o, inner, c, B', hcut, hfirst', hlast', ho, hc, hinner⟩ := exists_of_mem_tagGroups h hg
  -- the group is what stands between the halves
  obtain ⟨rfl, hcut⟩ : A ++ l = A' ∧ G ++ (r ++ B) = o :: (inner ++ c :: B') := by
    rw [← List.append_assoc] at hcut
    exact List.append_inj hcut (by rw [List.length_append]; omega)
  obtain ⟨rfl, rfl⟩ : G = o :: (inner ++ [c]) ∧ r ++ B = B' := by
    have hcut' : G ++ (r ++ B) = (o :: (inner ++ [c])) ++ B' := by simpa using hcut
    refine List.append_inj hcut' ?_
    simp only [List.length_cons, List.length_append, List.length_nil] at hlast' ⊢
    omega
  rw [List.length_append] at hlast'
  exact ⟨A, l, o, inner, c, r, B, by simp, hl, hr, ho, hc, hinner, hfirst, hlast'⟩

/-- No tag group begins or ends in the halves of a wrapper around a tag group. -/
theorem outside_halves (hnest : BracesNest (N.left ++ N.right)) (hkey : Keyless m (N.left ++ N.right))
    (h : tagGroups m us = .ok found) (hg : g ∈ found) (hhug : N.Hugs us g) {g' : Span}
    (hg' : g' ∈ found) {j : Nat} (hj : g.first ≤ j + N.left.length ∧ j < g.first ∨
      g.last < j ∧ j ≤ g.last + N.right.length) : g'.first ≠ j ∧ g'.last ≠ j := by
  obtain ⟨A, l, o, inner, c, r, B, rfl, hl, hr, ho, hc, hinner, hfirst, hlast⟩ :=
    exists_cut_of_hugs h hg hhug
  have hnest' : BracesNest (l ++ r) := by
    have : contents (l ++ r) = contents (N.left ++ N.right) := by simp [hl, hr]
    exact (braceNest_congr this).trans hnest
  have hkeyl : Keyless m l :=
    Keyless.of_contents_eq (fun t ht => hkey t (List.mem_append_left _ ht)) hl
  have hkeyr : Keyless m r :=
    Keyless.of_contents_eq (fun t ht => hkey t (List.mem_append_right _ ht)) hr
  rw [← length_eq_of_contents_eq hl, ← length_eq_of_contents_eq hr] at hj
  exact endpoints_outside h ho hc hinner hkeyl hkeyr hnest' hg' (by omega)

/-- A group that has a wrapper keeps it when others are wrapped. -/
theorem hugs_weave_of_hugs (hN : N.Neutral m) (h : tagGroups m us = .ok found) (hsub : gs ⊆ found)
    (hg : g ∈ found) (hn : g ∉ gs) (hhug : N.Hugs us g) :
    N.Hugs (weave T gs 0 us) (placed T gs g) := by
  obtain ⟨hs, he⟩ := not_startsAt_of_not_mem h hsub hg hn
  have hends := fun g' hg' j => @outside_halves m N us found g hN.nests hN.keyless h hg hhug g' hg' j
  obtain ⟨A, l, o, inner, c, r, B, rfl, hl, hr, ho, hc, hinner, hfirst, hlast⟩ :=
    exists_cut_of_hugs h hg hhug
  rw [← length_eq_of_contents_eq hl, ← length_eq_of_contents_eq hr] at hends
  -- no group begins or ends in the halves
  have houtside : ∀ j, A.length ≤ j ∧ j < A.length + l.length ∨
      A.length + l.length + inner.length + 2 ≤ j ∧
        j < A.length + l.length + inner.length + 2 + r.length →
      startsAt gs j = false ∧ endsAt gs j = false := by
    intro j hj
    constructor
    · by_contra hne
      obtain ⟨g', hg', heq⟩ := startsAt_iff.1 (by simpa using hne)
      exact (hends g' (hsub hg') j (by omega)).1 heq
    · by_contra hne
      obtain ⟨g', hg', heq⟩ := endsAt_iff.1 (by simpa using hne)
      exact (hends g' (hsub hg') j (by omega)).2 heq
  set G := o :: (inner ++ [c]) with hG
  have hGlen : G.length = inner.length + 2 := by simp [hG]
  have hcut : A ++ (l ++ (o :: (inner ++ c :: (r ++ B)))) = A ++ (l ++ (G ++ (r ++ B))) := by
    simp [hG]
  have hweave : weave T gs 0 (A ++ (l ++ (o :: (inner ++ c :: (r ++ B))))) =
      weave T gs 0 A ++ (l ++ (weave T gs (A.length + l.length) G ++
        (r ++ weave T gs (A.length + l.length + G.length + r.length) B))) := by
    rw [hcut, weave_window fun j hj hj' => houtside j (Or.inl ⟨hj, hj'⟩), weave_append, weave_append,
      @weave_eq_self T gs _ r fun j hj hj' => houtside j (Or.inr ⟨by omega, by omega⟩)]
  have hplace : place T gs g.first = reach T gs (A.length + l.length) := by
    simp [place, front, hs, ← hfirst]
  refine ⟨_, l, _, r, _, hweave, hl, hr, ?_, ?_⟩
  · have hfront : weave T gs 0 (A ++ l) = weave T gs 0 A ++ l := by
      simpa [weave] using @weave_window T gs A l [] fun j hj hj' => houtside j (Or.inl ⟨hj, hj'⟩)
    rw [← List.length_append, ← hfront, length_weave, List.length_append]
    exact hplace
  · have hbehind : place T gs g.last + 1 = reach T gs (g.last + 1) := by
      simp [reach_succ, back, he]
    have hmid := @reach_add_length_weave T gs (A.length + l.length) G
    have hend : g.last + 1 = A.length + l.length + G.length := by omega
    change place T gs g.last + 1 = place T gs g.first + _
    rw [hbehind, hend, ← hmid, hplace]

/-- Nothing that tests the toggle is a brace. -/
theorem isBrace_of_isToggleHead {name : Text} {hd : List Token} (hlen : hd.length = 4)
    (h : isToggleHead name hd = true) {t : Token} (ht : t ∈ hd) : t.kind.isBrace = false := by
  match hd, hlen with
  | [a, b, c, d], _ =>
    simp only [isToggleHead, Token.isName, Bool.and_eq_true, beq_iff_eq] at h
    obtain ⟨⟨⟨⟨ha, -⟩, hb⟩, hc, -⟩, hd⟩ := h
    simp only [List.mem_cons, List.not_mem_nil, or_false] at ht
    rcases ht with rfl | rfl | rfl | rfl
    · simp [ha, Kind.isBrace]
    · simp [hb, Kind.isBrace]
    · simp [hc, Kind.isBrace]
    · simp [hd, Kind.isBrace]

/-- A group with a test of the toggle keeps it. -/
theorem toggled_weave {name : Text} (h : tagGroups m us = .ok found) (hsub : gs ⊆ found)
    (hg : g ∈ found) (hn : g ∉ gs) (ht : Toggled name us g) :
    Toggled name (weave T gs 0 us) (placed T gs g) := by
  obtain ⟨A, hd, B, rfl, hlen, hhd, hfirst⟩ := ht
  obtain ⟨hs, -⟩ := not_startsAt_of_not_mem h hsub hg hn
  have hplain : ∀ j t, A.length ≤ j → j < A.length + hd.length →
      (A ++ (hd ++ B))[j]? = some t → t.kind.isBrace = false := by
    intro j t hle hlt ht
    rw [List.getElem?_append_right hle, List.getElem?_append_left (by omega)] at ht
    exact isBrace_of_isToggleHead hlen hhd (List.mem_of_getElem? ht)
  have hwindow : ∀ j, A.length ≤ j → j < A.length + hd.length →
      startsAt gs j = false ∧ endsAt gs j = false := by
    intro j hle hlt
    constructor
    · by_contra hne
      obtain ⟨t, ht, hk⟩ := kind_of_startsAt h hsub (by simpa using hne)
      simpa [hk, Kind.isBrace] using hplain j t hle hlt ht
    · by_contra hne
      obtain ⟨t, ht, hk⟩ := kind_of_endsAt h hsub (by simpa using hne)
      simpa [hk, Kind.isBrace] using hplain j t hle hlt ht
  refine ⟨weave T gs 0 A, hd, _, weave_window hwindow, hlen, hhd, ?_⟩
  have hcut : g.first = (A ++ hd).length := by rw [hfirst, List.length_append, hlen]
  have hfront : weave T gs 0 (A ++ hd) = weave T gs 0 A ++ hd := by
    simpa [weave] using @weave_window T gs A hd [] hwindow
  rw [hcut] at hs
  change place T gs g.first = _
  rw [hcut, place_eq_length_weave hs, hfront, List.length_append, hlen]

end Woven

/-! ## Boxing -/

section Boxing

variable {boxer : Boxer} {x y : List Token} {gs : List Span} {g : Span}

theorem Boxer.Boxed.congr (hT : boxer.template.HasHalves) (hg : g.first ≤ g.last)
    (hxy : contents x = contents y) (h : boxer.Boxed x g) : boxer.Boxed y g := by
  rcases h with h | ⟨name, hname, h⟩
  · refine Or.inl ?_
    rwa [← boxes_wrappers_iff hT hg, ← wrappers_congr hxy, boxes_wrappers_iff hT hg]
  · refine Or.inr ⟨name, hname, ?_⟩
    rwa [← boxes_toggleHeads_iff, ← toggleHeads_congr hxy, boxes_toggleHeads_iff]

theorem pending_sublist (found : List Wrappers) (gs : List Span) :
    (Boxer.pending found gs).Sublist gs :=
  List.filter_sublist

/-- Wrapping some of the tag groups is weaving. -/
theorem wrap_tagGroups {m : KeyMatcher} {T : Template} {ws : List Span} (hT : T.HasHalves)
    (h : tagGroups m x = .ok gs) (hsub : ws.Sublist gs) :
    ∃ us, contents us = contents x ∧ (Settled T ws x → us = x) ∧ wrap T x ws = weave T ws 0 us := by
  have hn : gs.Nodup := List.Nodup.of_map _ (nodup_first_tagGroups h)
  obtain ⟨hfirst, hlast, hin⟩ := ends_of_subset h hsub.subset (hsub.nodup hn)
  obtain ⟨us, hus, hsettled, hwrap⟩ := wrap_eq_weave hT.left hfirst hlast hin
  exact ⟨us, hus.contents_eq, hsettled, hwrap⟩

/-- After boxing every tag group is boxed. -/
theorem boxed_of_wrapPending (hT : boxer.template.Neutral boxer.matcher)
    (h : boxer.wrapPending x = .ok y) :
    ∃ gs, tagGroups boxer.matcher y = .ok gs ∧ ∀ g ∈ gs, boxer.Boxed y g := by
  obtain ⟨found, hfound, rfl⟩ := Boxer.wrapPending_eq_ok_iff.1 h
  set ws := Boxer.pending (boxer.boxesIn x) found with hws
  obtain ⟨us, hus, -, hwrap⟩ := wrap_tagGroups hT.toHasHalves hfound
    (pending_sublist (boxer.boxesIn x) found)
  have hsub : ws ⊆ found := (pending_sublist _ _).subset
  have hfound' : tagGroups boxer.matcher us = .ok found := (tagGroups_congr hus).trans hfound
  rw [← hws] at hwrap
  rw [hwrap]
  refine ⟨found.map (placed boxer.template ws), tagGroups_weave hT hfound' hsub, fun g' hg' => ?_⟩
  obtain ⟨g, hg, rfl⟩ := List.mem_map.1 hg'
  have hle : g.first ≤ g.last := Nat.le_of_lt (lt_of_mem_tagGroups hfound hg).1
  by_cases hin : g ∈ ws
  · exact Or.inl (hugs_weave hfound' hsub hin)
  · have hboxed : boxer.Boxed x g := by
      by_contra hne
      exact hin ((mem_pending_iff hT.toHasHalves hle).2 ⟨hg, hne⟩)
    rcases hboxed.congr hT.toHasHalves hle hus.symm with hhug | ⟨name, hname, htoggled⟩
    · exact Or.inl (hugs_weave_of_hugs hT hfound' hsub hg hin hhug)
    · exact Or.inr ⟨name, hname, toggled_weave hfound' hsub hg hin htoggled⟩

/-- Where every tag group is boxed, boxing changes nothing. -/
theorem wrapPending_eq_self (hT : boxer.template.HasHalves)
    (h : tagGroups boxer.matcher y = .ok gs) (hboxed : ∀ g ∈ gs, boxer.Boxed y g) :
    boxer.wrapPending y = .ok y := by
  have hnil : Boxer.pending (boxer.boxesIn y) gs = [] := by
    rw [List.eq_nil_iff_forall_not_mem]
    intro g hg
    have hle : g.first ≤ g.last :=
      Nat.le_of_lt (lt_of_mem_tagGroups h ((pending_sublist _ _).subset hg)).1
    obtain ⟨hin, hne⟩ := (mem_pending_iff hT hle).1 hg
    exact hne (hboxed g hin)
  refine Boxer.wrapPending_eq_ok_iff.2 ⟨gs, h, ?_⟩
  rw [hnil]
  rfl

/-- Boxing does not look at layout. -/
theorem wrapPending_congr {x' : List Token} (hT : boxer.template.HasHalves)
    (hx : contents x' = contents x) (h : boxer.wrapPending x = .ok y) :
    ∃ y', boxer.wrapPending x' = .ok y' ∧ contents y' = contents y := by
  obtain ⟨found, hfound, rfl⟩ := Boxer.wrapPending_eq_ok_iff.1 h
  have hfound' : tagGroups boxer.matcher x' = .ok found := (tagGroups_congr hx).trans hfound
  refine ⟨_, Boxer.wrapPending_eq_ok_iff.2 ⟨found, hfound', rfl⟩, ?_⟩
  rw [boxesIn_congr hx]
  have hsub := pending_sublist (boxer.boxesIn x) found
  obtain ⟨us, hus, -, hwrap⟩ := wrap_tagGroups hT hfound hsub
  obtain ⟨us', hus', -, hwrap'⟩ := wrap_tagGroups hT hfound' hsub
  change contents (wrap boxer.template x' (Boxer.pending (boxer.boxesIn x) found)) = _
  rw [hwrap, hwrap']
  exact contents_weave_congr (hus'.trans (hx.trans hus.symm))

end Boxing

/-! ## Unboxing -/

section Unboxing

variable {m : KeyMatcher} {T : Template} {us : List Token} {gs : List Span}

theorem mem_hugs {found : Wrappers} {h : Half} :
    h ∈ Boxer.hugs found gs ↔
      ∃ g ∈ gs, ∃ left right, found.boxing g = some (left, right) ∧ (h = left ∨ h ∈ right) := by
  simp only [Boxer.hugs, List.mem_flatMap, List.mem_filterMap, Prod.exists, List.mem_cons,
    Option.mem_toList]
  constructor
  · rintro ⟨left, right, ⟨g, hg, hbox⟩, hin⟩
    exact ⟨g, hg, left, right, hbox, hin⟩
  · rintro ⟨g, hg, left, right, hbox, hin⟩
    exact ⟨left, right, ⟨g, hg, hbox⟩, hin⟩

/-- Unwrapping undoes weaving around all tag groups, layout included. -/
theorem unwrap_weave (hT : T.Neutral m) (h : tagGroups m us = .ok gs) :
    Boxer.unwrap m T (weave T gs 0 us) = .ok us := by
  have hgroups := tagGroups_weave hT h (List.Subset.refl gs)
  refine Boxer.unwrap_eq_ok_iff.2 ⟨_, by rw [Boxer.hugging, hgroups]; rfl,
    strip_weave hT.left hT.right fun half => ?_⟩
  have hbox : ∀ g ∈ gs, (T.wrappers (weave T gs 0 us)).boxing (placed T gs g) =
      some (T.frontHalf (placed T gs g), some (T.backHalf (placed T gs g))) := fun g hg =>
    boxing_of_hugs hT.toHasHalves (hugs_weave h (List.Subset.refl gs) hg)
  have hfront : ∀ g ∈ gs, T.frontHalf (placed T gs g) =
      ⟨.left, ⟨reach T gs g.first, reach T gs g.first + T.left.length - 1⟩⟩ := by
    intro g hg
    simp [Template.frontHalf, placed, place, front, startsAt_iff.2 ⟨g, hg, rfl⟩]
  rw [mem_hugs, mem_sweep]
  constructor
  · rintro ⟨g', hg', left, right, hboxing, hhalf⟩
    obtain ⟨g, hg, rfl⟩ := List.mem_map.1 hg'
    have hlt := lt_of_mem_tagGroups h hg
    rw [hbox g hg, Option.some.injEq, Prod.mk.injEq] at hboxing
    obtain ⟨rfl, rfl⟩ := hboxing
    rcases hhalf with rfl | hhalf
    · exact ⟨g.first, by omega, by omega, Or.inr ⟨startsAt_iff.2 ⟨g, hg, rfl⟩, hfront g hg⟩⟩
    · obtain rfl : T.backHalf (placed T gs g) = half := by simpa using hhalf
      exact ⟨g.last, by omega, by omega, Or.inl ⟨endsAt_iff.2 ⟨g, hg, rfl⟩, rfl⟩⟩
  · rintro ⟨j, -, -, ⟨hj, rfl⟩ | ⟨hj, rfl⟩⟩
    · obtain ⟨g, hg, rfl⟩ := endsAt_iff.1 hj
      exact ⟨_, List.mem_map_of_mem hg, _, _, hbox g hg, Or.inr rfl⟩
    · obtain ⟨g, hg, rfl⟩ := startsAt_iff.1 hj
      exact ⟨_, List.mem_map_of_mem hg, _, _, hbox g hg, Or.inl (hfront g hg).symm⟩

end Unboxing

end TagBox
