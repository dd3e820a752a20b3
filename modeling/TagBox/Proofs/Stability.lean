import TagBox.Proofs.Migration

/-!
# Boxing again after a migration

A second run finds its own wrappers in place and leaves them, unless it takes one of them for an old
one.  That can happen only if the end of the old left half is the end of the current one, or of a test
of the toggle, and the starts of the right halves agree likewise; and if the matcher accepts any key,
then it does happen.

* `Template.Rivals`, `Template.ReadsAsTest` — halves that can be taken for each other.
* `box_eq_self` — a second run changes nothing where no wrapper is taken for an old one.
* `exists_unstable_of_rivals`, `exists_unstable_of_readsAsTest` — where one is, it does.
* `box_stable_iff` — when a second run changes nothing.
-/

namespace TagBox

/-! ## Wrappers that can be taken for each other -/

namespace Template

/-- Whatever stands between the halves of one template can stand between the halves of the other too:
the left halves agree at the end, the right halves at the start, as far as the shorter one goes. -/
def Rivals (O N : Template) : Prop :=
  (contents O.left <:+ contents N.left ∨ contents N.left <:+ contents O.left) ∧
    (contents O.right <+: contents N.right ∨ contents N.right <+: contents O.right)

instance (O N : Template) : Decidable (O.Rivals N) :=
  inferInstanceAs (Decidable (_ ∧ _))

/-- The left half agrees at the end with a test of the toggle, as far as the shorter one goes. -/
def ReadsAsTest (O : Template) (name : Text) : Prop :=
  ∃ hd, hd.length = 4 ∧ isToggleHead name hd = true ∧
    (contents O.left <:+ contents hd ∨ contents hd <:+ contents O.left)

end Template

section Stable

variable {boxer : Boxer} {O N : Template} {x y : List Token} {g : Span} {gs : List Span}

theorem Template.Hugs.front (h : N.Hugs y g) : contents N.left <:+ (contents y).take g.first := by
  obtain ⟨A, l, G, r, B, rfl, hl, -, hfirst, -⟩ := h
  rw [← contents_take, ← List.append_assoc, hfirst, ← List.length_append, List.take_left, ← hl]
  exact ⟨contents A, by simp⟩

theorem Template.Hugs.back (h : N.Hugs y g) :
    contents N.right <+: (contents y).drop (g.last + 1) := by
  obtain ⟨A, l, G, r, B, rfl, -, hr, hfirst, hlast⟩ := h
  have hcut : A ++ (l ++ (G ++ (r ++ B))) = (A ++ (l ++ G)) ++ (r ++ B) := by simp
  have hlen : g.last + 1 = (A ++ (l ++ G)).length := by
    simp only [List.length_append]
    omega
  rw [← contents_drop, hcut, hlen, List.drop_left, ← hr]
  exact ⟨contents B, by simp⟩

/-- Templates that hug the same group are rivals. -/
theorem rivals_of_hugs (hO : O.Hugs y g) (hN : N.Hugs y g) : O.Rivals N :=
  ⟨List.suffix_or_suffix_of_suffix hO.front hN.front, List.prefix_or_prefix_of_prefix hO.back hN.back⟩

theorem readsAsTest_of_hugs {name : Text} (hO : O.Hugs y g) (ht : Toggled name y g) :
    O.ReadsAsTest name := by
  obtain ⟨A, hd, B, rfl, hlen, hhd, hfirst⟩ := ht
  refine ⟨hd, hlen, hhd, List.suffix_or_suffix_of_suffix hO.front ?_⟩
  rw [← contents_take, ← List.append_assoc, hfirst, ← hlen, ← List.length_append, List.take_left]
  exact ⟨contents A, by simp⟩

/-- Where no group is hugged, unwrapping changes nothing. -/
theorem unwrap_eq_self {m : KeyMatcher} (hO : O.HasHalves) (h : tagGroups m y = .ok gs)
    (hnot : ∀ g ∈ gs, ¬ O.Hugs y g) : Boxer.unwrap m O y = .ok y := by
  have hnil : Boxer.hugs (O.wrappers y) gs = [] := by
    rw [List.eq_nil_iff_forall_not_mem]
    intro half hhalf
    obtain ⟨g, hg, left, right, hboxing, -⟩ := mem_hugs.1 hhalf
    have hle : g.first ≤ g.last := Nat.le_of_lt (lt_of_mem_tagGroups h hg).1
    exact hnot g hg ((boxes_wrappers_iff hO hle).1 (by simp [Wrappers.boxes, hboxing]))
  refine Boxer.unwrap_eq_ok_iff.2 ⟨[], ?_, rfl⟩
  rw [Boxer.hugging, h, ← hnil]
  rfl

/-- A second run changes nothing if the wrappers that the first one left are not taken for old
ones. -/
theorem box_eq_self (hold : boxer.old = some O) (hO : O.HasHalves)
    (hN : boxer.template.Neutral boxer.matcher) (h : boxer.box x = .ok y)
    (hnot : ∀ gs, tagGroups boxer.matcher y = .ok gs → (∀ g ∈ gs, boxer.Boxed y g) →
      ∀ g ∈ gs, ¬ O.Hugs y g) : boxer.box y = .ok y := by
  simp only [Boxer.box, hold] at h ⊢
  cases hc : Boxer.unwrap boxer.matcher O x with
  | error e => simp [hc] at h
  | ok current =>
    simp only [hc] at h
    obtain ⟨gs, hgs, hboxed⟩ := boxed_of_wrapPending hN h
    simp only [unwrap_eq_self hO hgs (hnot gs hgs hboxed)]
    exact wrapPending_eq_self hN.toHasHalves hgs hboxed

end Stable

/-! ## A group that both templates hug -/

section Sample

variable {m : KeyMatcher} {key : Text} {T : Template} {A B : List Token}

theorem groupsFrom_sampleGroup (hkey : m.accepts key = true) (fs : List Frame) (i : Nat)
    (after : List Token) :
    groupsFrom m fs i (sampleGroup key ++ after) =
      (groupsFrom m fs (i + 4) after).map (⟨i, i + 3⟩ :: ·) := by
  have hmarks : m.marks ⟨.identifier, key, []⟩ (⟨.equals, ['='], []⟩ :: ⟨.closeBrace, ['}'], []⟩ ::
      after) = true := by
    simp [KeyMatcher.marks, assigned, Token.isGap, Token.keyText, hkey]
  have hmarks' : m.marks ⟨.equals, ['='], []⟩ (⟨.closeBrace, ['}'], []⟩ :: after) = false := by
    simp [KeyMatcher.marks, Token.keyText]
  simp only [sampleGroup, List.cons_append, List.nil_append]
  rw [groupsFrom_open (by rfl), groupsFrom_plain (by rfl), if_pos hmarks, groupsFrom_plain (by rfl),
    if_neg (by simp [hmarks'])]
  exact groupsFrom_close (by rfl)

/-- In front of the tokens nothing is found, and they leave `n` unmarked braces open. -/
def Passes (m : KeyMatcher) (tokens : List Token) (n : Nat) : Prop :=
  ∃ new : List Frame, new.length = n ∧ (∀ f ∈ new, f.marked = false) ∧
    ∀ after, groupsFrom m [] 0 (tokens ++ after) = groupsFrom m new tokens.length after

theorem Passes.of_keyless {opened : List Kind} (hk : Keyless m A) (hn : braceNest [] A = some opened) :
    Passes m A opened.length := by
  obtain ⟨new, hlen, hnew, hrun⟩ := @groupsFrom_keyless m A [] opened [] 0 hk hn rfl (by simp)
  refine ⟨new, hlen, hnew, fun after => ?_⟩
  simpa using hrun [] after

/-- Outside of braces a key marks nothing. -/
theorem Passes.of_plain (h : ∀ t ∈ A, t.kind.isBrace = false) : Passes m A 0 := by
  have hrun : ∀ i after, groupsFrom m [] i (A ++ after) = groupsFrom m [] (i + A.length) after := by
    induction A with
    | nil => exact fun i after => rfl
    | cons t A ih =>
      intro i after
      have hmark : (if m.marks t (A ++ after) then markInnermost [] else []) = ([] : List Frame) := by
        split <;> rfl
      rw [List.cons_append, groupsFrom_plain (h t (by simp)), hmark,
        ih (fun u hu => h u (by simp [hu])), List.length_cons]
      congr 1
      omega
  exact ⟨[], rfl, by simp, fun after => by simpa using hrun 0 after⟩

theorem tagGroups_sampleGroup {opened : List Kind} (hkey : m.accepts key = true)
    (hA : Passes m A opened.length) (hB : Keyless m B) (hn : braceNest opened B = some []) :
    tagGroups m (A ++ (sampleGroup key ++ B)) = .ok [⟨A.length, A.length + 3⟩] := by
  obtain ⟨new, hlen, hnew, hrun⟩ := hA
  obtain ⟨new', hlen', -, hrun'⟩ := @groupsFrom_keyless m B opened [] new (A.length + 4) hB hn hlen hnew
  obtain rfl : new' = [] := List.length_eq_zero_iff.1 hlen'
  have hbehind := hrun' [] []
  rw [List.append_nil, List.append_nil, List.append_nil] at hbehind
  rw [tagGroups, hrun, groupsFrom_sampleGroup hkey, hbehind]
  rfl

theorem startsAt_singleton (g : Span) (j : Nat) : startsAt [g] j = true ↔ g.first = j := by
  simp [startsAt]

theorem endsAt_singleton (g : Span) (j : Nat) : endsAt [g] j = true ↔ g.last = j := by
  simp [endsAt]

/-- Nothing is woven in outside of the group. -/
theorem weave_singleton_outside {g : Span} {i : Nat} (hg : g.first ≤ g.last)
    (h : i + A.length ≤ g.first ∨ g.last < i) : weave T [g] i A = A := by
  refine weave_eq_self fun j hj hj' => ?_
  rw [← Bool.not_eq_true, ← Bool.not_eq_true, startsAt_singleton, endsAt_singleton]
  omega

theorem contents_weave_sampleGroup :
    contents (weave T [⟨A.length, A.length + 3⟩] 0 (A ++ (sampleGroup key ++ B))) =
      contents (A ++ (T.left ++ (sampleGroup key ++ (T.right ++ B)))) := by
  set g : Span := ⟨A.length, A.length + 3⟩
  have hs : ∀ j, A.length < j → startsAt [g] j = false := fun j hj => by
    rw [← Bool.not_eq_true, startsAt_singleton]
    exact Nat.ne_of_lt hj
  have he : ∀ j, j < A.length + 3 → endsAt [g] j = false := fun j hj => by
    rw [← Bool.not_eq_true, endsAt_singleton]
    exact Nat.ne_of_gt hj
  have hG : contents (weave T [g] A.length (sampleGroup key)) =
      contents (T.left ++ (sampleGroup key ++ T.right)) := by
    rw [sampleGroup, weave_start ((startsAt_singleton _ _).2 rfl) (he A.length (by omega)),
      weave_plain (hs (A.length + 1) (by omega)) (he (A.length + 1) (by omega)),
      weave_plain (hs (A.length + 1 + 1) (by omega)) (he (A.length + 1 + 1) (by omega)),
      weave_end (hs (A.length + 1 + 1 + 1) (by omega)) ((endsAt_singleton _ _).2 rfl)]
    simp [weave]
  have hA : weave T [g] 0 A = A := weave_singleton_outside (by simp [g]) (Or.inl (by simp [g]))
  have hB : weave T [g] (A.length + 4) B = B :=
    weave_singleton_outside (by simp [g]) (Or.inr (by simp [g]))
  rw [weave_append, weave_append, hA, Nat.zero_add]
  change contents (A ++ (_ ++ weave T _ (A.length + 4) B)) = _
  rw [hB, contents_append, contents_append, hG]
  simp

theorem place_sampleGroup :
    place T [⟨A.length, A.length + 3⟩] A.length = A.length + T.left.length := by
  have hA : weave T [⟨A.length, A.length + 3⟩] 0 A = A :=
    weave_singleton_outside (by simp) (Or.inl (by simp))
  rw [place, ← length_weave, hA, front, if_pos ((startsAt_singleton _ _).2 rfl)]

end Sample

section Unstable

variable {boxer : Boxer} {O N : Template} {key : Text} {A l r B : List Token}

/-- An old wrapper around a sample group is taken away. -/
theorem unwrap_sampleGroup {m : KeyMatcher} (hO : O.Neutral m) (hl : contents l = contents O.left)
    (hr : contents r = contents O.right)
    (h : tagGroups m (A ++ (sampleGroup key ++ B)) = .ok [⟨A.length, A.length + 3⟩]) :
    ∃ v, Boxer.unwrap m O (A ++ (l ++ (sampleGroup key ++ (r ++ B)))) = .ok v ∧
      contents v = contents (A ++ (sampleGroup key ++ B)) := by
  refine unwrap_congr ?_ (unwrap_weave hO h)
  rw [contents_weave_sampleGroup]
  simp [hl, hr]

/-- If an old wrapper around a sample group counts as a box, a second run takes it away. -/
theorem exists_unstable (hold : boxer.old = some O) (hshape : O.sameShape boxer.template = false)
    (hO : O.Neutral boxer.matcher) (hN : boxer.template.Neutral boxer.matcher)
    (hl : contents l = contents O.left) (hr : contents r = contents O.right)
    (hin : tagGroups boxer.matcher (A ++ (l ++ (sampleGroup key ++ (r ++ B)))) =
      .ok [⟨A.length + l.length, A.length + l.length + 3⟩])
    (hout : tagGroups boxer.matcher (A ++ (sampleGroup key ++ B)) = .ok [⟨A.length, A.length + 3⟩])
    (hboxed : boxer.Boxed (A ++ (l ++ (sampleGroup key ++ (r ++ B))))
      ⟨A.length + l.length, A.length + l.length + 3⟩) :
    ∃ x y, boxer.box x = .ok y ∧ ∀ z, boxer.box y = .ok z → contents z ≠ contents y := by
  set y := A ++ (l ++ (sampleGroup key ++ (r ++ B))) with hy
  have hlen : (A ++ (sampleGroup key ++ B)).length < y.length := by
    have := List.length_pos_iff.2 hO.left
    rw [← length_eq_of_contents_eq hl] at this
    simp only [hy, List.length_append]
    omega
  refine ⟨weave O [⟨A.length + l.length, A.length + l.length + 3⟩] 0 y, y, ?_, fun z hz heq => ?_⟩
  · -- with one more old wrapper around it the first run takes that away and is done
    simp only [Boxer.box, hold, unwrap_weave hO hin]
    exact wrapPending_eq_self hN.toHasHalves hin (by simpa using hboxed)
  · obtain ⟨v, hv, hcontents⟩ := unwrap_sampleGroup hO hl hr hout
    have hgroups : tagGroups boxer.matcher v = .ok [⟨A.length, A.length + 3⟩] :=
      (tagGroups_congr hcontents).trans hout
    simp only [Boxer.box, hold, hy, hv] at hz
    obtain ⟨found, hfound, rfl⟩ := Boxer.wrapPending_eq_ok_iff.1 hz
    obtain rfl : found = [⟨A.length, A.length + 3⟩] := Except.ok.inj (hfound.symm.trans hgroups)
    have hsub := pending_sublist (boxer.boxesIn v) [⟨A.length, A.length + 3⟩]
    obtain ⟨us, hus, -, hwrap⟩ := wrap_tagGroups hN.toHasHalves hgroups hsub
    rw [hwrap] at heq
    rcases List.sublist_singleton.1 hsub with hnil | hone
    · -- nothing is put in its place
      rw [hnil, weave_eq_self (by simp [startsAt, endsAt])] at heq
      have h₁ := length_eq_of_contents_eq heq
      have h₂ := length_eq_of_contents_eq (hus.trans hcontents)
      omega
    · -- the current wrapper is put in its place, and would have to be the same tokens
      rw [hone, contents_weave_congr (hus.trans hcontents)] at heq
      have hplaces := (tagGroups_weave hN hout (List.Subset.refl _)).symm.trans
        ((tagGroups_congr heq).trans hin)
      have hleft : boxer.template.left.length = l.length := by
        have : (placed boxer.template [⟨A.length, A.length + 3⟩] ⟨A.length, A.length + 3⟩).first =
            A.length + l.length := by
          simp only [List.map_cons, List.map_nil, Except.ok.injEq, List.cons.injEq, and_true] at hplaces
          rw [hplaces]
        change place _ _ _ = _ at this
        rw [place_sampleGroup] at this
        omega
      rw [contents_weave_sampleGroup, hy] at heq
      simp only [contents_append, List.append_cancel_left_eq] at heq
      obtain ⟨hl', heq⟩ := List.append_inj heq (by simpa using hleft)
      simp only [List.append_cancel_left_eq, List.append_cancel_right_eq] at heq
      simp [Template.sameShape, ← hl, ← hr, hl', heq] at hshape

end Unstable

/-! ## Where such a group can stand -/

section Between

variable {m : KeyMatcher} {T : Template} {A B l r ts us : List Token}

/-- Nothing in the tokens marks a group: they hold no marked key, or no brace. -/
def Quiet (m : KeyMatcher) (tokens : List Token) : Prop :=
  Keyless m tokens ∨ ∀ t ∈ tokens, t.kind.isBrace = false

theorem Quiet.of_append_left (h : Quiet m (ts ++ us)) : Quiet m ts :=
  h.imp (fun h t ht => h t (List.mem_append_left us ht)) fun h t ht => h t (List.mem_append_left us ht)

theorem braceNest_of_plain {opened : List Kind} (h : ∀ t ∈ ts, t.kind.isBrace = false) :
    braceNest opened ts = some opened := by
  have hnone : (kinds ts).filter Kind.isBrace = [] := by
    rw [List.filter_eq_nil_iff]
    intro k hk
    obtain ⟨t, ht, rfl⟩ := List.mem_map.1 hk
    simp [h t ht]
  simp [braceNest, hnone]

theorem Passes.of_quiet {opened : List Kind} (h : Quiet m A) (hn : braceNest [] A = some opened) :
    Passes m A opened.length := by
  rcases h with hk | hplain
  · exact .of_keyless hk hn
  · obtain rfl : [] = opened := Option.some.inj ((braceNest_of_plain hplain).symm.trans hn)
    exact .of_plain hplain

theorem braceNest_frame {opened left : List Kind} (around : List Kind)
    (h : braceNest opened ts = some left) : braceNest (opened ++ around) ts = some (left ++ around) :=
  nest_frame around h

theorem BracesNest.halves (h : BracesNest (ts ++ us)) :
    ∃ opened, braceNest [] ts = some opened ∧ braceNest opened us = some [] := by
  have hnest : braceNest [] (ts ++ us) = some [] := h
  rw [braceNest_append] at hnest
  exact Option.bind_eq_some_iff.1 hnest

/-- Braces that nest still do without a stretch in which they nest. -/
theorem BracesNest.remove (hmid : BracesNest (l ++ r)) (h : BracesNest ((A ++ l) ++ (r ++ B))) :
    BracesNest (A ++ B) := by
  have hregroup : (A ++ l) ++ (r ++ B) = A ++ ((l ++ r) ++ B) := by simp
  rw [hregroup] at h
  obtain ⟨opened, hA, hrest⟩ := h.halves
  have hsame : braceNest opened (l ++ r) = some opened := by
    simpa only [List.nil_append] using braceNest_frame opened hmid
  rw [braceNest_append, hsame, Option.bind_some] at hrest
  change braceNest [] (A ++ B) = some []
  rw [braceNest_append, hA]
  exact hrest

theorem exists_of_contents_suffix (h : contents ts <:+ contents us) :
    ∃ A l, us = A ++ l ∧ contents l = contents ts := by
  obtain ⟨front, heq⟩ := h
  obtain ⟨A, l, rfl, -, hl⟩ := List.map_eq_append_iff.1 heq.symm
  exact ⟨A, l, rfl, hl⟩

theorem exists_of_contents_prefix (h : contents ts <+: contents us) :
    ∃ r B, us = r ++ B ∧ contents r = contents ts := by
  obtain ⟨behind, heq⟩ := h
  obtain ⟨r, B, rfl, hr, -⟩ := List.map_eq_append_iff.1 heq.symm
  exact ⟨r, B, rfl, hr⟩

/-- If each of two templates has the longer half on one side, the longer halves nest too. -/
theorem BracesNest.cross {P Q : Template} (hP : BracesNest (P.left ++ P.right))
    (hQ : BracesNest (Q.left ++ Q.right)) (hleft : contents P.left <:+ contents Q.left)
    (hright : contents Q.right <+: contents P.right) : BracesNest (Q.left ++ P.right) := by
  obtain ⟨A, l, hA, hl⟩ := exists_of_contents_suffix hleft
  obtain ⟨r, B, hB, hr⟩ := exists_of_contents_prefix hright
  obtain ⟨opened, hopen, hclose⟩ := hP.halves
  obtain ⟨opened', hopen', hclose'⟩ := hQ.halves
  rw [hA, braceNest_append] at hopen'
  rw [hB, braceNest_append] at hclose
  obtain ⟨around, haround, hl'⟩ := Option.bind_eq_some_iff.1 hopen'
  obtain ⟨rest, hrest, hB'⟩ := Option.bind_eq_some_iff.1 hclose
  -- what the surplus on the left opens is still open behind the shorter right half, so it is nothing
  have hin := braceNest_frame around ((braceNest_congr hl).trans hopen)
  rw [List.nil_append, hl', Option.some.injEq] at hin
  have hout := braceNest_frame around ((braceNest_congr hr.symm).trans hrest)
  rw [← hin, hclose', Option.some.injEq, eq_comm, List.append_eq_nil_iff] at hout
  obtain ⟨rfl, rfl⟩ := hout
  rw [List.append_nil] at hin
  change braceNest [] (Q.left ++ P.right) = some []
  rw [braceNest_append, hA, braceNest_append, haround, Option.bind_some, hl', hin, Option.bind_some, hB,
    braceNest_append, hrest]
  exact hB'

end Between

section Unstable

variable {boxer : Boxer} {O N : Template} {key : Text} {A l r B : List Token}

/-- Tokens around a sample group that hold an old wrapper and count as a box. -/
theorem exists_unstable_of_quiet (hold : boxer.old = some O)
    (hshape : O.sameShape boxer.template = false) (hO : O.Neutral boxer.matcher)
    (hN : boxer.template.Neutral boxer.matcher) (hkey : boxer.matcher.accepts key = true)
    (hl : contents l = contents O.left) (hr : contents r = contents O.right)
    (hfront : Quiet boxer.matcher (A ++ l)) (hbehind : Keyless boxer.matcher (r ++ B))
    (hnest : BracesNest ((A ++ l) ++ (r ++ B)))
    (hboxed : boxer.Boxed ((A ++ l) ++ (sampleGroup key ++ (r ++ B)))
      ⟨(A ++ l).length, (A ++ l).length + 3⟩) :
    ∃ x y, boxer.box x = .ok y ∧ ∀ z, boxer.box y = .ok z → contents z ≠ contents y := by
  have hwrapper : BracesNest (l ++ r) := by
    have : contents (l ++ r) = contents (O.left ++ O.right) := by simp [hl, hr]
    exact (braceNest_congr this).trans hO.nests
  obtain ⟨opened, hopen, hclose⟩ := hnest.halves
  obtain ⟨opened', hopen', hclose'⟩ := (hwrapper.remove hnest).halves
  have hin := tagGroups_sampleGroup hkey (.of_quiet hfront hopen) hbehind hclose
  have hout := tagGroups_sampleGroup hkey (.of_quiet hfront.of_append_left hopen')
    (fun t ht => hbehind t (List.mem_append_right r ht)) hclose'
  rw [List.append_assoc, List.length_append] at hin hboxed
  exact exists_unstable hold hshape hO hN hl hr hin hout hboxed

/-- Halves at the end of what is in front of a group and at the start of what is behind it hug it. -/
theorem hugs_of_affixes {G : List Token} (hG : G ≠ []) (hleft : contents N.left <:+ contents A)
    (hright : contents N.right <+: contents B) :
    N.Hugs (A ++ (G ++ B)) ⟨A.length, A.length + G.length - 1⟩ := by
  obtain ⟨A, l, rfl, hl⟩ := exists_of_contents_suffix hleft
  obtain ⟨r, B, rfl, hr⟩ := exists_of_contents_prefix hright
  have hpos := List.length_pos_iff.2 hG
  refine ⟨A, l, G, r, B, by simp, hl, hr, by simp, ?_⟩
  change (A ++ l).length + G.length - 1 + 1 = (A ++ l).length + G.length
  omega

/-- If the templates are rivals, some second run changes something. -/
theorem exists_unstable_of_rivals (hold : boxer.old = some O)
    (hshape : O.sameShape boxer.template = false) (hO : O.Neutral boxer.matcher)
    (hN : boxer.template.Neutral boxer.matcher) (hkey : boxer.matcher.accepts key = true)
    (hrivals : O.Rivals boxer.template) :
    ∃ x y, boxer.box x = .ok y ∧ ∀ z, boxer.box y = .ok z → contents z ≠ contents y := by
  have hgroup : sampleGroup key ≠ [] := by simp [sampleGroup]
  obtain ⟨hleft, hright⟩ := hrivals
  -- on each side the longer half holds both
  obtain ⟨A, l, hl, hfront, hfront', hA⟩ : ∃ A l, contents l = contents O.left ∧
      Quiet boxer.matcher (A ++ l) ∧ contents boxer.template.left <:+ contents (A ++ l) ∧
      (A ++ l = boxer.template.left ∨
        A ++ l = O.left ∧ contents boxer.template.left <:+ contents O.left) := by
    rcases hleft with hleft | hleft
    · obtain ⟨A, l, hA, hl⟩ := exists_of_contents_suffix hleft
      exact ⟨A, l, hl, hA ▸ Or.inl hN.keyless_left, hA ▸ List.suffix_refl _, Or.inl hA.symm⟩
    · exact ⟨[], O.left, rfl, Or.inl hO.keyless_left, hleft, Or.inr ⟨rfl, hleft⟩⟩
  obtain ⟨r, B, hr, hbehind, hbehind', hB⟩ : ∃ r B, contents r = contents O.right ∧
      Keyless boxer.matcher (r ++ B) ∧ contents boxer.template.right <+: contents (r ++ B) ∧
      (r ++ B = boxer.template.right ∨
        r ++ B = O.right ∧ contents boxer.template.right <+: contents O.right) := by
    rcases hright with hright | hright
    · obtain ⟨r, B, hB, hr⟩ := exists_of_contents_prefix hright
      exact ⟨r, B, hr, hB ▸ hN.keyless_right, hB ▸ List.prefix_refl _, Or.inl hB.symm⟩
    · refine ⟨O.right, [], rfl, ?_, ?_, Or.inr ⟨by simp, hright⟩⟩
      · simpa using hO.keyless_right
      · simpa using hright
  have hnest : BracesNest ((A ++ l) ++ (r ++ B)) := by
    have hlO : contents O.left <:+ contents (A ++ l) := ⟨contents A, by simp [hl]⟩
    have hrO : contents O.right <+: contents (r ++ B) := ⟨contents B, by simp [hr]⟩
    rcases hA with hA | ⟨hA, hlN⟩ <;> rcases hB with hB | ⟨hB, hrN⟩ <;> rw [hA] at hlO ⊢ <;>
      rw [hB] at hrO ⊢
    · exact hN.nests
    · exact .cross hO.nests hN.nests hlO hrN
    · exact .cross hN.nests hO.nests hlN hrO
    · exact hO.nests
  exact exists_unstable_of_quiet hold hshape hO hN hkey hl hr hfront hbehind hnest
    (Or.inl (hugs_of_affixes hgroup hfront' hbehind'))

/-- If an old left half can be taken for a test of the toggle, some second run changes something. -/
theorem exists_unstable_of_readsAsTest {name : Text} (hold : boxer.old = some O)
    (hshape : O.sameShape boxer.template = false) (hO : O.Neutral boxer.matcher)
    (hN : boxer.template.Neutral boxer.matcher) (hkey : boxer.matcher.accepts key = true)
    (hname : name ∈ boxer.toggle) (hreads : O.ReadsAsTest name) :
    ∃ x y, boxer.box x = .ok y ∧ ∀ z, boxer.box y = .ok z → contents z ≠ contents y := by
  obtain ⟨opened, hopen, hclose⟩ := hO.halves
  have hbehind : Keyless boxer.matcher (O.right ++ []) := by simpa using hO.keyless_right
  obtain ⟨hd, hlen, hhd, hleft | hleft⟩ := hreads
  · obtain ⟨A, l, rfl, hl⟩ := exists_of_contents_suffix hleft
    have hplain : ∀ t ∈ A ++ l, t.kind.isBrace = false := fun t ht =>
      isBrace_of_isToggleHead hlen hhd ht
    -- the half opens no brace, since the test does not
    obtain rfl : [] = opened := by
      have hl' : braceNest [] l = some [] :=
        braceNest_of_plain fun t ht => hplain t (List.mem_append_right A ht)
      exact Option.some.inj (hl'.symm.trans ((braceNest_congr hl).trans hopen))
    refine exists_unstable_of_quiet hold hshape hO hN hkey hl rfl (Or.inr hplain) hbehind ?_
      (Or.inr ⟨name, hname, [], A ++ l, _, rfl, hlen, hhd, by rw [hlen]; rfl⟩)
    change braceNest [] ((A ++ l) ++ (O.right ++ [])) = some []
    rw [braceNest_append, braceNest_of_plain hplain, List.append_nil]
    exact hclose
  · obtain ⟨A, hd', hA, hhd'⟩ := exists_of_contents_suffix hleft
    refine @exists_unstable_of_quiet boxer O key [] O.left O.right [] hold hshape hO hN hkey rfl rfl
      (Or.inl hO.keyless_left) hbehind (by simpa using hO.nests)
      (Or.inr ⟨name, hname, A, hd', sampleGroup key ++ (O.right ++ []), ?_⟩)
    have hlen' : hd'.length = 4 := (length_eq_of_contents_eq hhd').trans hlen
    refine ⟨?_, hlen', (isToggleHead_congr hhd').trans hhd, ?_⟩
    · rw [List.nil_append, hA, List.append_assoc]
    · rw [List.nil_append, hA, List.length_append, hlen']

end Unstable

/-! ## When a second run changes nothing -/

section Stability

variable {m : KeyMatcher} {ts : List Token} {gs : List Span}

theorem groupsFrom_eq_nil_of_keyless {fs : List Frame} {i : Nat} (hk : Keyless m ts)
    (hfs : ∀ f ∈ fs, f.marked = false) (h : groupsFrom m fs i ts = .ok gs) : gs = [] := by
  induction ts generalizing fs i gs with
  | nil => exact (groupsFrom_nil h).2
  | cons t ts ih =>
    have hk' : Keyless m ts := fun u hu => hk u (by simp [hu])
    rcases groupsFrom_cons_cases h with ⟨-, h'⟩ | ⟨-, f, around, later, rfl, h', rfl⟩ | ⟨-, h'⟩
    · exact ih hk' (by simpa using hfs) h'
    · obtain ⟨hf, haround⟩ : f.marked = false ∧ ∀ f' ∈ around, f'.marked = false := by simpa using hfs
      rw [if_neg (by simp [hf])]
      exact ih hk' haround h'
    · have hmarks : m.marks t ts = false := by simp [KeyMatcher.marks, hk t (by simp)]
      exact ih hk' hfs (by simpa [hmarks] using h')

theorem stripStart_append (head t : Text) : Text.stripStart head (head ++ t) = some t := by
  induction head with
  | nil => cases t <;> rfl
  | cons c head ih => simp [Text.stripStart, ih]

theorem keyless_of_keys_eq_nil (h : m.keys = []) : Keyless m ts := by
  intro t _
  cases t.keyText with
  | none => rfl
  | some key => cases hs : Text.stripStart m.head key <;> simp [KeyMatcher.accepts, hs, h]

theorem exists_accepts (h : m.keys ≠ []) : ∃ key, m.accepts key = true := by
  obtain ⟨key, hkey⟩ := List.exists_mem_of_ne_nil m.keys h
  exact ⟨m.head ++ key, by simp [KeyMatcher.accepts, stripStart_append, hkey]⟩

/-- A second run with an old template changes nothing, whatever the tokens are, if and only if the
matcher accepts no key, or neither the current wrapper nor a test of the toggle can be taken for an
old wrapper. -/
theorem box_stable_iff {boxer : Boxer} {O : Template} (hold : boxer.old = some O)
    (hshape : O.sameShape boxer.template = false) (hO : O.Neutral boxer.matcher)
    (hN : boxer.template.Neutral boxer.matcher) :
    (∀ x y, boxer.box x = .ok y → ∃ z, boxer.box y = .ok z ∧ contents z = contents y) ↔
      boxer.matcher.keys = [] ∨
        (¬ O.Rivals boxer.template ∧ ∀ name ∈ boxer.toggle, ¬ O.ReadsAsTest name) := by
  constructor
  · intro hstable
    have hno : ¬ ∃ x y, boxer.box x = .ok y ∧ ∀ z, boxer.box y = .ok z → contents z ≠ contents y := by
      rintro ⟨x, y, hx, hy⟩
      obtain ⟨z, hz, heq⟩ := hstable x y hx
      exact hy z hz heq
    by_cases hkeys : boxer.matcher.keys = []
    · exact Or.inl hkeys
    · obtain ⟨key, hkey⟩ := exists_accepts hkeys
      exact Or.inr ⟨fun h => hno (exists_unstable_of_rivals hold hshape hO hN hkey h),
        fun name hname h => hno (exists_unstable_of_readsAsTest hold hshape hO hN hkey hname h)⟩
  · intro h x y hx
    refine ⟨y, box_eq_self hold hO.toHasHalves hN hx fun gs hgs hboxed g hg hhug => ?_, rfl⟩
    rcases h with hkeys | ⟨hrivals, htests⟩
    · rw [groupsFrom_eq_nil_of_keyless (keyless_of_keys_eq_nil hkeys) (by simp) hgs] at hg
      simp at hg
    · rcases hboxed g hg with hN' | ⟨name, hname, ht⟩
      · exact hrivals (rivals_of_hugs hhug hN')
      · exact htests name hname (readsAsTest_of_hugs hhug ht)

/-- Neither the parenthesised wrapper of another variable nor a test of that variable is taken for an old
wrapper, so a second run changes nothing. -/
theorem box_stable_iff_parenthesised :
    ¬ (conditional ['a']).Rivals (conditional ['b']).parenthesised ∧
    ¬ (conditional ['a']).ReadsAsTest ['b'] ∧
    ∀ x y, Boxer.box ⟨(conditional ['b']).parenthesised, some (conditional ['a']), ⟨[], [['k']]⟩,
        some ['b'], {}⟩ x = .ok y →
      ∃ z, Boxer.box ⟨(conditional ['b']).parenthesised, some (conditional ['a']), ⟨[], [['k']]⟩,
        some ['b'], {}⟩ y = .ok z ∧ contents z = contents y := by
  have hrivals : ¬ (conditional ['a']).Rivals (conditional ['b']).parenthesised := by decide
  have htest : ¬ (conditional ['a']).ReadsAsTest ['b'] := by
    rintro ⟨hd, hlen, hhead, hends⟩
    have heq : contents hd = contents (conditional ['a']).left := by
      have hsame : (contents hd).length = (contents (conditional ['a']).left).length := by
        rw [length_contents, hlen]
        rfl
      rcases hends with hends | hends
      · exact (hends.eq_of_length hsame.symm).symm
      · exact hends.eq_of_length hsame
    obtain ⟨a, b, c, d, rfl⟩ : ∃ a b c d, hd = [a, b, c, d] := by
      match hd, hlen with
      | [a, b, c, d], _ => exact ⟨a, b, c, d, rfl⟩
    simp_all [isToggleHead, conditional, contents, Token.content, Token.isName]
  refine ⟨hrivals, htest, (@box_stable_iff
    ⟨(conditional ['b']).parenthesised, some (conditional ['a']), ⟨[], [['k']]⟩, some ['b'], {}⟩
    (conditional ['a']) rfl (by decide) ⟨⟨by decide, by decide⟩, by decide, by decide, by decide⟩
    ⟨⟨by decide, by decide⟩, by decide, by decide, by decide⟩).2 (Or.inr ⟨hrivals, ?_⟩)⟩
  rintro name ⟨⟩
  exact htest

/-- The current wrapper is the old one in parentheses: the second run takes the old one out of it, and
puts the current one into the parentheses that are left. -/
theorem box_adds_parentheses :
    ∃ O N boxer x y z,
      Template.compile "var.t ? /*<box>*/{}/*</box>*/ : {}".toList = .ok O ∧
      Template.compile "(var.t ? /*<box>*/{}/*</box>*/ : {})".toList = .ok N ∧
      boxer = Boxer.withOld ⟨N, none, ⟨[], KeyMatcher.defaultKeys⟩, none, {}⟩ (some O) ∧
      boxer.old = some O ∧ O.Neutral boxer.matcher ∧ N.Neutral boxer.matcher ∧
      Nested (O.left ++ O.right) ∧ Nested (N.left ++ N.right) ∧
      tokenize "{ yor_trace = 1 }".toList = .ok x ∧ boxer.box x = .ok y ∧ boxer.box y = .ok z ∧
      print y = "(var.t ? { yor_trace = 1 } : {})".toList ∧
      print z = "((var.t ? { yor_trace = 1 } : {}))".toList ∧ contents z ≠ contents y := by
  have hx : tokenize "{ yor_trace = 1 }".toList = .ok [⟨.openBrace, ['{'], []⟩,
      ⟨.identifier, "yor_trace".toList, [' ']⟩, ⟨.equals, ['='], [' ']⟩, ⟨.number, ['1'], [' ']⟩,
      ⟨.closeBrace, ['}'], [' ']⟩, ⟨.eof, [], []⟩] := by decide +kernel
  refine ⟨conditional ['t'], (conditional ['t']).parenthesised, _, _, _, _, by decide +kernel,
    by decide +kernel, rfl, by decide, ⟨⟨by decide, by decide⟩, by decide, by decide, by decide⟩,
    ⟨⟨by decide, by decide⟩, by decide, by decide, by decide⟩, by decide, by decide, hx, rfl, rfl,
    ?_, ?_, ?_⟩
  · decide +kernel
  · decide +kernel
  · decide +kernel

end Stability

end TagBox
