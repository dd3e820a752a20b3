import TagBox.Run.Revise
import TagBox.Proofs.Migration
import TagBox.Proofs.Rereading

/-!
# Revising a text twice

A run exchanges the values of a file, the last one first.  Since that leaves the rest of the file as it
is, the file is read the same way afterwards, with other values.  So what holds of a value that is
boxed twice, or boxed and unboxed, holds of a whole text.

* `Opened` — a text with the stretches that it is read as.
* `Opened.revise_eq` — what a run makes of a text, value by value.
* `Opened.of_revise` — the values of a text that a run went through.
* `revise_box_again` — boxing a boxed text changes nothing.
* `revise_unbox_box` — unboxing a boxed text gives the text back.
-/

namespace TagBox

/-! ## A run value by value -/

/-- The replacements for values that are given by address and position. -/
def changes (path : Text) (boxer : Boxer) (action : Action) (tokens : List Token) :
    List (Text × Span) → Except RunError (List Replacement)
  | [] => .ok []
  | (address, span) :: more =>
    match boxer.run action (span.slice tokens) with
    | .error e => .error (.ofBoxError path address e)
    | .ok revised =>
      (changes path boxer action tokens more).map
        ((if print revised = print (span.slice tokens) then [] else [⟨address, span, revised⟩]) ++ ·)

theorem replacements_eq_changes {path : Text} {boxer : Boxer} {action : Action} {tokens : List Token}
    {found : List Block} {spans : List (Text × Span)}
    (h : tagValues boxer.selector tokens found = .ok spans) :
    replacements path boxer action tokens found = changes path boxer action tokens spans := by
  induction found generalizing spans with
  | nil =>
    obtain rfl : [] = spans := Except.ok.inj h
    rfl
  | cons block found ih =>
    rw [tagValues] at h
    rw [replacements, replacement?]
    by_cases hs : boxer.selector.selects block = true
    · rw [if_pos hs] at h ⊢
      cases hvalue : block.attribute? tokens boxer.selector.name with
      | error e => simp [hvalue] at h
      | ok value =>
        simp only [hvalue] at h
        obtain ⟨later, hlater, rfl⟩ := map_eq_ok_iff.1 h
        cases value with
        | none =>
          simp only [ih hlater, Option.map_none, Option.toList_none, List.nil_append]
          cases changes path boxer action tokens later <;> rfl
        | some span =>
          simp only [Option.map_some, Option.toList_some, List.singleton_append, changes]
          cases hrun : boxer.run action (span.slice tokens) with
          | error e => rfl
          | ok revised =>
            simp only [ih hlater]
            by_cases hprint : print revised = print (span.slice tokens)
            · simp [hprint]
            · simp [hprint]
    · rw [if_neg hs] at h ⊢
      simp only [ih h]
      cases changes path boxer action tokens spans <;> rfl

/-- The replacement for the value of a stretch that starts at position `i`, if its text changes. -/
def Stretch.edit? (f : List Token → List Token) (i : Nat) : Stretch → Option Replacement
  | .still _ => none
  | .site address front value _ =>
    if print (f value) = print value then none
    else some ⟨address, ⟨i + front.length, i + front.length + value.length - 1⟩, f value⟩

/-- The replacements for the values of stretches that start at position `i`. -/
def editsAt (f : List Token → List Token) (i : Nat) : List Stretch → List Replacement
  | [] => []
  | x :: more => (x.edit? f i).toList ++ editsAt f (i + x.tokens.length) more

section Edits

variable {path : Text} {boxer : Boxer} {action : Action} {f : List Token → List Token}
  {file : List Stretch} {edits : List Replacement}

theorem slice_site {address : Text} {front value behind : List Token} (A Z : List Token)
    (hv : value ≠ []) :
    Span.slice ⟨A.length + front.length, A.length + front.length + value.length - 1⟩
      (A ++ ((Stretch.site address front value behind).tokens ++ joined file ++ Z)) = value := by
  have := @slice_append (A ++ front) value hv (behind ++ (joined file ++ Z))
  simpa [Stretch.tokens] using this

theorem apply_append {address : Text} {v : List Token} (hv : v ≠ []) (A u B : List Token) :
    Replacement.apply ⟨address, ⟨A.length, A.length + v.length - 1⟩, u⟩ (A ++ (v ++ B)) =
      A ++ (u ++ B) := by
  have hpos := List.length_pos_iff.2 hv
  have hlast : A.length + v.length - 1 + 1 = (A ++ v).length := by
    rw [List.length_append]
    omega
  simp only [Replacement.apply, List.take_left, hlast]
  rw [← List.append_assoc A v B, List.drop_left, List.append_assoc]

theorem changes_spansAt (A Z : List Token) (hne : ∀ v ∈ valuesOf file, v ≠ [])
    (hf : ∀ v ∈ valuesOf file, boxer.run action v = .ok (f v)) :
    changes path boxer action (A ++ (joined file ++ Z)) (spansAt A.length file) =
      .ok (editsAt f A.length file) := by
  induction file generalizing A with
  | nil => rfl
  | cons x file ih =>
    have hrest := @ih (A ++ x.tokens) (fun v hv => hne v (mem_valuesOf_cons.2 (Or.inr hv)))
      (fun v hv => hf v (mem_valuesOf_cons.2 (Or.inr hv)))
    rw [List.length_append, List.append_assoc, ← List.append_assoc x.tokens] at hrest
    cases x with
    | still ts => exact hrest
    | site address front value behind =>
      have hin : value ∈ valuesOf (.site address front value behind :: file) :=
        mem_valuesOf_cons.2 (Or.inl rfl)
      rw [joined_cons, spansAt, Stretch.span?, Option.toList_some, List.singleton_append, changes,
        slice_site A Z (hne value hin), hf value hin, hrest]
      by_cases hprint : print (f value) = print value <;> simp [hprint, editsAt, Stretch.edit?, Except.map]

/-- A run that gets through has a result for each value. -/
theorem exists_run_of_changes (A Z : List Token) (hne : ∀ v ∈ valuesOf file, v ≠ [])
    (h : changes path boxer action (A ++ (joined file ++ Z)) (spansAt A.length file) = .ok edits) :
    ∀ v ∈ valuesOf file, ∃ v', boxer.run action v = .ok v' := by
  induction file generalizing A edits with
  | nil => simp [valuesOf]
  | cons x file ih =>
    have hne' : ∀ v ∈ valuesOf file, v ≠ [] := fun v hv => hne v (mem_valuesOf_cons.2 (Or.inr hv))
    have hrest := fun edits => @ih edits (A ++ x.tokens) hne'
    rw [List.length_append, List.append_assoc, ← List.append_assoc x.tokens] at hrest
    intro v hv
    cases x with
    | still ts =>
      rcases mem_valuesOf_cons.1 hv with hv | hv
      · simp [Stretch.value?] at hv
      · exact hrest edits h v hv
    | site address front value behind =>
      rw [joined_cons, spansAt, Stretch.span?, Option.toList_some, List.singleton_append, changes,
        slice_site A Z (hne value (mem_valuesOf_cons.2 (Or.inl rfl)))] at h
      cases hrun : boxer.run action value with
      | error e => simp [hrun] at h
      | ok revised =>
        simp only [hrun] at h
        obtain ⟨later, hlater, -⟩ := map_eq_ok_iff.1 h
        rcases mem_valuesOf_cons.1 hv with hv | hv
        · obtain rfl : value = v := Option.some.inj hv
          exact ⟨revised, hrun⟩
        · exact hrest later hlater v hv

/-- Making the replacements exchanges the values. -/
theorem foldr_editsAt (f : List Token → List Token) (A Z : List Token)
    (hne : ∀ v ∈ valuesOf file, v ≠ []) :
    ∃ W, (editsAt f A.length file).foldr Replacement.apply (A ++ (joined file ++ Z)) = A ++ W ∧
      print W = print (joined (file.map (Stretch.refill f)) ++ Z) := by
  induction file generalizing A with
  | nil => exact ⟨Z, rfl, rfl⟩
  | cons x file ih =>
    obtain ⟨W, hW, hprint⟩ := ih (A ++ x.tokens) fun v hv => hne v (mem_valuesOf_cons.2 (Or.inr hv))
    rw [List.length_append, List.append_assoc, ← List.append_assoc x.tokens, ← joined_cons,
      List.append_assoc] at hW
    rw [editsAt, List.foldr_append, hW]
    cases x with
    | still ts =>
      refine ⟨ts ++ W, rfl, ?_⟩
      simp only [List.map_cons, joined_cons, print_append, List.append_assoc] at hprint ⊢
      rw [hprint]
      rfl
    | site address front value behind =>
      by_cases hsame : print (f value) = print value
      · refine ⟨_, by simp [Stretch.edit?, hsame]; rfl, ?_⟩
        simp only [List.map_cons, joined_cons, print_append, List.append_assoc, Stretch.refill,
          Stretch.tokens, hsame] at hprint ⊢
        rw [hprint]
      · refine ⟨front ++ (f value ++ (behind ++ W)), ?_, ?_⟩
        · have happly := @apply_append address value (hne value (mem_valuesOf_cons.2 (Or.inl rfl)))
            (A ++ front) (f value) (behind ++ W)
          simpa [Stretch.edit?, hsame, Stretch.tokens] using happly
        · simp only [List.map_cons, joined_cons, print_append, List.append_assoc, Stretch.refill,
            Stretch.tokens] at hprint ⊢
          rw [hprint]

end Edits

/-! ## Texts with their values -/

section Refill

variable {f g : List Token → List Token} {file : List Stretch}

theorem valuesOf_refill : valuesOf (file.map (Stretch.refill f)) = (valuesOf file).map f := by
  induction file with
  | nil => rfl
  | cons x file ih =>
    cases x with
    | still ts => exact ih
    | site address front value behind => exact congrArg (f value :: ·) ih

theorem refill_refill :
    (file.map (Stretch.refill f)).map (Stretch.refill g) = file.map (Stretch.refill (g ∘ f)) := by
  rw [List.map_map]
  refine List.map_congr_left fun x _ => ?_
  cases x <;> rfl

theorem refill_eq_self (h : ∀ v ∈ valuesOf file, f v = v) : file.map (Stretch.refill f) = file := by
  induction file with
  | nil => rfl
  | cons x file ih =>
    rw [List.map_cons, ih fun v hv => h v (mem_valuesOf_cons.2 (Or.inr hv))]
    cases x with
    | still ts => rfl
    | site address front value behind =>
      rw [Stretch.refill, h value (mem_valuesOf_cons.2 (Or.inl rfl))]

theorem editsAt_eq_nil {i : Nat} (h : ∀ v ∈ valuesOf file, f v = v) : editsAt f i file = [] := by
  induction file generalizing i with
  | nil => rfl
  | cons x file ih =>
    rw [editsAt, ih fun v hv => h v (mem_valuesOf_cons.2 (Or.inr hv))]
    cases x with
    | still ts => rfl
    | site address front value behind =>
      simp [Stretch.edit?, h value (mem_valuesOf_cons.2 (Or.inl rfl))]

end Refill

/-- The text is that of the stretches, and their values can be exchanged. -/
structure Opened (selector : Selector) (source : Text) (file : List Stretch) (trail : Text) : Prop where
  source_eq : source = print (joined file) ++ trail
  blank : ∀ c ∈ trail, Lexeme.isSpace c = true
  reads : Reads (joined file) trail
  fillable : ∀ v ∈ valuesOf file, Fillable v
  finds : ∀ f : List Token → List Token, (∀ v ∈ valuesOf file, Fillable (f v)) →
    Finds selector (file.map (Stretch.refill f)) (eofToken trail)

namespace Opened

variable {path source trail : Text} {boxer : Boxer} {action : Action} {selector : Selector}
  {f : List Token → List Token} {file : List Stretch} {r : Revision}

theorem tokenize_eq (h : Opened selector source file trail) :
    tokenize source = .ok (joined file ++ [eofToken trail]) :=
  tokenize_eq_ok_iff.2 ⟨_, trail, rfl, h.source_eq, h.blank, h.reads⟩

theorem finds_self (h : Opened selector source file trail) : Finds selector file (eofToken trail) := by
  have hid : file.map (Stretch.refill id) = file := refill_eq_self fun _ _ => rfl
  exact hid ▸ h.finds id h.fillable

theorem ne_nil (h : Opened selector source file trail) : ∀ v ∈ valuesOf file, v ≠ [] :=
  fun v hv => (h.fillable v hv).2

/-- A text whose tokens are cut into stretches is open. -/
theorem of_cuts {ps : List Piece} (hblank : ∀ c ∈ trail, Lexeme.isSpace c = true)
    (hreads : Reads (flatten ps) trail) (hps : Fitting ps)
    (hcuts : List.Forall₂ (Cuts selector) ps file) :
    Opened selector (print (flatten ps) ++ trail) file trail := by
  obtain ⟨hfile, hfillable, -⟩ := exchange_of_cuts hcuts hps
  exact ⟨by rw [hfile], hblank, by rw [hfile]; exact hreads, hfillable,
    fun _ hf => finds_of_cuts rfl hcuts hps hf⟩

/-- A text that has blocks can be opened. -/
theorem of_blocks {tokens : List Token} {found : List Block} (htokens : tokenize source = .ok tokens)
    (hfound : blocks tokens = .ok found) :
    ∃ ps file trail, Opened selector source file trail ∧ Fitting ps ∧
      List.Forall₂ (Cuts selector) ps file := by
  obtain ⟨ts, trail, rfl, rfl, hblank, hreads⟩ := tokenize_eq_ok_iff.1 htokens
  obtain ⟨ps, file, rfl, hps, hcuts⟩ := exists_stretches selector rfl hfound
  exact ⟨ps, file, trail, .of_cuts hblank hreads hps hcuts, hps, hcuts⟩

/-- The text with other values, if they are read back. -/
theorem exchange (h : Opened selector source file trail) (hf : ∀ v ∈ valuesOf file, Fillable (f v))
    (hreads : ∀ v ∈ valuesOf file, ∀ r, Reads v r →
      Reads (f v) r ∧ Alike (print v ++ r) (print (f v) ++ r)) :
    Opened selector (print (joined (file.map (Stretch.refill f))) ++ trail)
      (file.map (Stretch.refill f)) trail where
  source_eq := rfl
  blank := h.blank
  reads := (reads_refill hreads h.reads).1
  fillable := by
    rw [valuesOf_refill]
    exact List.forall_mem_map.2 hf
  finds g hg := by
    rw [refill_refill]
    rw [valuesOf_refill, List.forall_mem_map] at hg
    exact h.finds (g ∘ f) hg

/-- What a run makes of a text, value by value. -/
theorem revise_eq (h : Opened boxer.selector source file trail)
    (hf : ∀ v ∈ valuesOf file, boxer.run action v = .ok (f v)) :
    revise path boxer action source =
      .ok ⟨print (joined (file.map (Stretch.refill f))) ++ trail,
        (editsAt f 0 file).map Replacement.address⟩ := by
  obtain ⟨found, hfound, htags⟩ := h.finds_self
  have hchanges := @changes_spansAt path boxer action f file [] [eofToken trail] h.ne_nil hf
  obtain ⟨W, hW, hprint⟩ := @foldr_editsAt file f [] [eofToken trail] h.ne_nil
  rw [List.nil_append, List.length_nil] at hchanges hW
  have hW' : print ((editsAt f 0 file).foldr Replacement.apply (joined file ++ [eofToken trail])) =
      print (joined (file.map (Stretch.refill f))) ++ trail := by
    rw [hW, List.nil_append, hprint, print_append, print_eofToken]
  have hsource : print (joined file ++ [eofToken trail]) = source := by
    rw [h.source_eq, print_append, print_eofToken]
  simp only [revise, h.tokenize_eq, hfound, replacements_eq_changes htags]
  rw [hchanges]
  cases hedits : editsAt f 0 file with
  | nil =>
    rw [hedits, List.foldr_nil, hsource] at hW'
    rw [← hW']
    rfl
  | cons e edits =>
    rw [hedits] at hW'
    rw [← hW']

/-- A run that gets through opens its text and has a result for each value. -/
theorem of_revise (h : revise path boxer action source = .ok r) :
    ∃ ps file trail f, Opened boxer.selector source file trail ∧ Fitting ps ∧
      List.Forall₂ (Cuts boxer.selector) ps file ∧
      (∀ v ∈ valuesOf file, boxer.run action v = .ok (f v)) ∧
      r = ⟨print (joined (file.map (Stretch.refill f))) ++ trail,
        (editsAt f 0 file).map Replacement.address⟩ := by
  have hrevise := h
  unfold revise at h
  cases htokens : tokenize source with
  | error e => simp [htokens] at h
  | ok tokens =>
    simp only [htokens] at h
    cases hfound : blocks tokens with
    | error e => simp [hfound] at h
    | ok found =>
      simp only [hfound] at h
      obtain ⟨ps, file, trail, hopen, hps, hcuts⟩ :=
        @of_blocks source boxer.selector tokens found htokens hfound
      obtain rfl : tokens = joined file ++ [eofToken trail] :=
        Except.ok.inj (htokens.symm.trans hopen.tokenize_eq)
      obtain ⟨found', hfound', htags⟩ := hopen.finds_self
      obtain rfl : found = found' := Except.ok.inj (hfound.symm.trans hfound')
      rw [replacements_eq_changes htags] at h
      cases hchanges : changes path boxer action (joined file ++ [eofToken trail]) (spansAt 0 file) with
      | error e => simp [hchanges] at h
      | ok edits =>
        have hruns := @exists_run_of_changes path boxer action file edits [] [eofToken trail]
          hopen.ne_nil hchanges
        -- a value without a result does not occur, so any will do for it
        have hf : ∀ v ∈ valuesOf file,
            boxer.run action v = .ok ((boxer.run action v).toOption.getD v) := by
          intro v hv
          obtain ⟨v', hv'⟩ := hruns v hv
          rw [hv']
          rfl
        exact ⟨ps, file, trail, _, hopen, hps, hcuts, hf,
          Except.ok.inj (hrevise.symm.trans (hopen.revise_eq hf))⟩

end Opened

/-! ## Templates in brackets -/

/-- A bracket opens the left half and one closes the right half, and the brackets of both together
nest. -/
structure Template.Bracketed (T : Template) : Prop where
  first : ∃ first ∈ T.left.head?, first.kind.isOpening = true
  last : ∃ last ∈ T.right.getLast?, last.kind.isClosing = true
  nested : Nested (T.left ++ T.right)

/-- A bracket opens the left half and one closes the right half, the brackets of both together nest,
and no key in them is marked. -/
structure Template.Enclosing (m : KeyMatcher) (T : Template) : Prop where
  first : ∃ first ∈ T.left.head?, first.kind.isOpening = true
  last : ∃ last ∈ T.right.getLast?, last.kind.isClosing = true
  nested : Nested (T.left ++ T.right)
  keyless : Keyless m (T.left ++ T.right)

section Enclosing

variable {rendered : Text} {m : KeyMatcher} {T : Template}

theorem Template.Enclosing.neutral (h : T.Enclosing m) (hT : T.HasHalves) : T.Neutral m where
  toHasHalves := hT
  nests := bracesNest_of_nested h.nested
  keyless := h.keyless
  unassigned := by
    obtain ⟨first, hfirst, ho⟩ := h.first
    obtain ⟨more, hleft⟩ : ∃ more, T.left = first :: more := List.head?_eq_some_iff.1 hfirst
    have hgap : first.isGap = false := by
      cases hk : first.kind <;> simp_all [Token.isGap, Kind.isOpening]
    have hsign : (first.kind == .equals || first.kind == .colon) = false := by
      cases hk : first.kind <;> simp_all [Kind.isOpening]
    simp [hleft, assigned, hgap, hsign]

theorem Template.Enclosing.bracketed (h : T.Enclosing m) : T.Bracketed :=
  ⟨h.first, h.last, h.nested⟩

theorem Template.Bracketed.readable (h : T.Bracketed) (hT : Template.compile rendered = .ok T) :
    T.Readable := by
  obtain ⟨first, hfirst, ho⟩ := h.first
  obtain ⟨last, hlast, hc⟩ := h.last
  exact readable_of_compile hT ⟨first, hfirst, by simp [Kind.isBracket, ho]⟩
    ⟨last, hlast, by simp [Kind.isBracket, hc]⟩

end Enclosing

section Boxed

variable {rendered r : Text} {boxer : Boxer} {v w : List Token}

/-- What boxing makes of a value of a text. -/
theorem exists_weave_of_box (hcompile : Template.compile rendered = .ok boxer.template)
    (hT : boxer.template.Bracketed) (hold : boxer.old = none) (hv : Reads v r)
    (h : boxer.box v = .ok w) :
    ∃ gs, tagGroups boxer.matcher v = .ok gs ∧
      w = weave boxer.template (Boxer.pending (boxer.boxesIn v) gs) 0 v := by
  simp only [Boxer.box, hold] at h
  obtain ⟨gs, hgs, -⟩ := Boxer.wrapPending_eq_ok_iff.1 h
  have hweave := wrapPending_eq_weave (hT.readable hcompile) (hasHalves_of_compile hcompile) hgs hv
  exact ⟨gs, hgs, Except.ok.inj (h.symm.trans hweave)⟩

/-- A boxed value can stand in the place of the value. -/
theorem fillable_of_box (hcompile : Template.compile rendered = .ok boxer.template)
    (hT : boxer.template.Bracketed) (hold : boxer.old = none) (hv : Reads v r)
    (hfill : Fillable v) (h : boxer.box v = .ok w) : Fillable w := by
  obtain ⟨gs, hgs, rfl⟩ := exists_weave_of_box hcompile hT hold hv h
  set ws := Boxer.pending (boxer.boxesIn v) gs
  have hsub : ws ⊆ pairsFrom [] 0 v := fun g hg =>
    (groupsFrom_sublist_pairsFrom hgs).subset ((pending_sublist _ _).subset hg)
  refine ⟨nests_weave (inline_of_compile hcompile hT.nested) hfill.1 hsub, ?_⟩
  obtain ⟨t, v, rfl⟩ := List.exists_cons_of_ne_nil hfill.2
  rw [weave]
  split <;> simp

theorem reads_of_box (hcompile : Template.compile rendered = .ok boxer.template)
    (hT : boxer.template.Bracketed) (hold : boxer.old = none) (h : boxer.box v = .ok w)
    (hv : Reads v r) : Reads w r ∧ Alike (print v ++ r) (print w ++ r) := by
  obtain ⟨gs, hgs, rfl⟩ := exists_weave_of_box hcompile hT hold hv h
  have hsub := (pending_sublist (boxer.boxesIn v) gs).subset
  refine reads_weave (hT.readable hcompile) (fun j t ht hj => ?_) (fun j t ht hj => ?_) hv
  · rw [Nat.zero_add] at hj
    exact openBrace_of_startsAt hgs hsub j t ht hj
  · rw [Nat.zero_add] at hj
    exact closeBrace_of_endsAt hgs hsub j t ht hj

/-- A boxed value stays as it is. -/
theorem box_of_box (hT : boxer.template.Neutral boxer.matcher) (hold : boxer.old = none)
    (h : boxer.box v = .ok w) : boxer.box w = .ok w := by
  simp only [Boxer.box, hold] at h ⊢
  obtain ⟨gs, hgs, hboxed⟩ := boxed_of_wrapPending hT h
  exact wrapPending_eq_self hT.toHasHalves hgs hboxed

/-- Unboxing gives a value back, if none of its groups had a box. -/
theorem unbox_of_box (hcompile : Template.compile rendered = .ok boxer.template)
    (hT : boxer.template.Enclosing boxer.matcher) (hold : boxer.old = none) (hv : Reads v r)
    (h : boxer.box v = .ok w)
    (hfree : ∀ gs, tagGroups boxer.matcher v = .ok gs → ∀ g ∈ gs, ∀ wrappers ∈ boxer.boxesIn v,
      wrappers.boxes g = false) : boxer.unbox w = .ok v := by
  obtain ⟨gs, hgs, rfl⟩ := exists_weave_of_box hcompile hT.bracketed hold hv h
  rw [pending_eq_self (hfree gs hgs)]
  exact unwrap_weave (hT.neutral (hasHalves_of_compile hcompile)) hgs

end Boxed

/-! ## Boxing a text again, and unboxing it -/

section Twice

variable {rendered source path path' : Text} {boxer : Boxer} {r : Revision}

/-- The text with its values boxed, and that these can be exchanged again. -/
theorem Opened.exchange_box {file : List Stretch} {trail : Text} {f : List Token → List Token}
    (hcompile : Template.compile rendered = .ok boxer.template) (hT : boxer.template.Bracketed)
    (hold : boxer.old = none) (h : Opened boxer.selector source file trail)
    (hf : ∀ v ∈ valuesOf file, boxer.box v = .ok (f v)) :
    (∀ v ∈ valuesOf file, Fillable (f v)) ∧
      Opened boxer.selector (print (joined (file.map (Stretch.refill f))) ++ trail)
        (file.map (Stretch.refill f)) trail := by
  have hfill : ∀ v ∈ valuesOf file, Fillable (f v) := by
    intro v hv
    obtain ⟨after, hreads⟩ := exists_reads_of_mem_valuesOf h.reads hv
    exact fillable_of_box hcompile hT hold hreads (h.fillable v hv) (hf v hv)
  refine ⟨hfill, h.exchange hfill ?_⟩
  intro v hv after hreads
  exact reads_of_box hcompile hT hold (hf v hv) hreads

/-- Opened, a boxed text has the boxed values. -/
theorem exists_opened_of_box (hcompile : Template.compile rendered = .ok boxer.template)
    (hT : boxer.template.Enclosing boxer.matcher) (hold : boxer.old = none)
    (h : revise path boxer .box source = .ok r) :
    ∃ file trail f, Opened boxer.selector source file trail ∧
      (∀ v ∈ valuesOf file, boxer.box v = .ok (f v)) ∧
      Opened boxer.selector r.output (file.map (Stretch.refill f)) trail := by
  obtain ⟨-, file, trail, f, hopen, -, -, hf, rfl⟩ := Opened.of_revise h
  exact ⟨file, trail, f, hopen, hf, (hopen.exchange_box hcompile hT.bracketed hold hf).2⟩

/-- A boxer with the wrapper `(var.t ? … : {})`; a test of the variable counts as a box too. -/
def sampleBoxer : Boxer :=
  ⟨(conditional ['t']).parenthesised, none, ⟨[], [['k']]⟩, some ['t'], {}⟩

theorem compile_sampleBoxer :
    Template.compile "(var.t ? /*<box>*/{}/*</box>*/ : {})".toList = .ok sampleBoxer.template := by
  decide +kernel

theorem enclosing_sampleBoxer : sampleBoxer.template.Enclosing sampleBoxer.matcher :=
  ⟨⟨_, rfl, rfl⟩, ⟨_, rfl, rfl⟩, by decide, by decide⟩

/-- Boxing a boxed text changes nothing. -/
theorem revise_box_again (hcompile : Template.compile rendered = .ok boxer.template)
    (hT : boxer.template.Enclosing boxer.matcher) (hold : boxer.old = none)
    (h : revise path boxer .box source = .ok r) :
    revise path' boxer .box r.output = .ok ⟨r.output, []⟩ := by
  obtain ⟨file, trail, f, -, hf, hopen⟩ := exists_opened_of_box hcompile hT hold h
  have hneutral := hT.neutral (hasHalves_of_compile hcompile)
  have hagain : ∀ w ∈ valuesOf (file.map (Stretch.refill f)), boxer.run .box w = .ok (id w) := by
    rw [valuesOf_refill, List.forall_mem_map]
    exact fun v hv => box_of_box hneutral hold (hf v hv)
  have hid : ∀ w ∈ valuesOf (file.map (Stretch.refill f)), id w = w := fun _ _ => rfl
  rw [hopen.revise_eq hagain, refill_eq_self hid, editsAt_eq_nil hid, ← hopen.source_eq]
  rfl

/-- A text with two groups, of which one has a box. -/
theorem revise_box_again_sample :
    ∃ r, revise ['a'] sampleBoxer .box
        "resource r {tags = [{ k = 1 },var.t?{ k=2 }:{}]}\n".toList = .ok r ∧
      r.changed = ["resource.r".toList] ∧
      revise ['b'] sampleBoxer .box r.output = .ok ⟨r.output, []⟩ := by
  have hrun : revise ['a'] sampleBoxer .box
      "resource r {tags = [{ k = 1 },var.t?{ k=2 }:{}]}\n".toList =
    .ok ⟨"resource r {tags = [(var.t ? { k = 1 } : {}),var.t?{ k=2 }:{}]}\n".toList,
      ["resource.r".toList]⟩ := by decide +kernel
  exact ⟨_, hrun, rfl, revise_box_again compile_sampleBoxer enclosing_sampleBoxer rfl hrun⟩

/-- No tag group in the values of the selected blocks of the text has a box. -/
def Boxer.Unboxed (boxer : Boxer) (source : Text) : Prop :=
  ∀ tokens ∈ (tokenize source).toOption, ∀ found ∈ (blocks tokens).toOption, ∀ block ∈ found,
    boxer.selector.selects block = true →
    ∀ span ∈ (block.attribute? tokens boxer.selector.name).toOption.join,
    ∀ gs ∈ (tagGroups boxer.matcher (span.slice tokens)).toOption, ∀ g ∈ gs,
    ∀ wrappers ∈ boxer.boxesIn (span.slice tokens), wrappers.boxes g = false

instance (boxer : Boxer) (source : Text) : Decidable (boxer.Unboxed source) :=
  inferInstanceAs (Decidable (∀ tokens ∈ (tokenize source).toOption, _))

theorem exists_span_of_mem_valuesOf {file : List Stretch} (A Z : List Token)
    (hne : ∀ v ∈ valuesOf file, v ≠ []) {v : List Token} (hv : v ∈ valuesOf file) :
    ∃ address span, (address, span) ∈ spansAt A.length file ∧
      span.slice (A ++ (joined file ++ Z)) = v := by
  induction file generalizing A with
  | nil => simp [valuesOf] at hv
  | cons x file ih =>
    rcases mem_valuesOf_cons.1 hv with hx | hrest
    · cases x with
      | still ts => simp [Stretch.value?] at hx
      | site address front value behind =>
        obtain rfl : value = v := Option.some.inj hx
        exact ⟨address, _, by simp [spansAt, Stretch.span?], slice_site A Z (hne value hv)⟩
    · obtain ⟨address, span, hin, hslice⟩ := ih (A ++ x.tokens)
        (fun w hw => hne w (mem_valuesOf_cons.2 (Or.inr hw))) hrest
      rw [List.length_append] at hin
      rw [List.append_assoc, ← List.append_assoc x.tokens] at hslice
      exact ⟨address, span, List.mem_append_right _ hin, hslice⟩

/-- The groups of the values of an unboxed text have no box. -/
theorem Boxer.Unboxed.value {file : List Stretch} {trail : Text} (h : boxer.Unboxed source)
    (hopen : Opened boxer.selector source file trail) {v : List Token} (hv : v ∈ valuesOf file) :
    ∀ gs, tagGroups boxer.matcher v = .ok gs → ∀ g ∈ gs, ∀ wrappers ∈ boxer.boxesIn v,
      wrappers.boxes g = false := by
  obtain ⟨found, hfound, htags⟩ := hopen.finds_self
  obtain ⟨address, span, hin, hslice⟩ :=
    exists_span_of_mem_valuesOf [] [eofToken trail] hopen.ne_nil hv
  obtain ⟨block, hblock, hselects, hvalue⟩ := exists_block_of_mem_tagValues htags hin
  rw [List.nil_append] at hslice
  have hfree := h _ (by rw [hopen.tokenize_eq]; rfl) found (by rw [hfound]; rfl) block hblock hselects
    span (by rw [hvalue]; rfl)
  rw [hslice] at hfree
  exact fun gs hgs => hfree gs (by rw [hgs]; rfl)

/-- Unboxing a text that has been boxed gives it back, if it had no box. -/
theorem revise_unbox_box (hcompile : Template.compile rendered = .ok boxer.template)
    (hT : boxer.template.Enclosing boxer.matcher) (hold : boxer.old = none)
    (hfree : boxer.Unboxed source) (h : revise path boxer .box source = .ok r) :
    ∃ r', revise path' boxer .unbox r.output = .ok r' ∧ r'.output = source := by
  obtain ⟨file, trail, f, hopen, hf, hopen'⟩ := exists_opened_of_box hcompile hT hold h
  have hback : ∀ v ∈ valuesOf file, boxer.unbox (f v) = .ok v := by
    intro v hv
    obtain ⟨after, hreads⟩ := exists_reads_of_mem_valuesOf hopen.reads hv
    exact unbox_of_box hcompile hT hold hreads (hf v hv) (hfree.value hopen hv)
  let g : List Token → List Token := fun w => (boxer.unbox w).toOption.getD w
  have hg : ∀ v ∈ valuesOf file, g (f v) = v := fun v hv => by
    simp only [g, hback v hv]
    rfl
  have hrun : ∀ w ∈ valuesOf (file.map (Stretch.refill f)), boxer.run .unbox w = .ok (g w) := by
    rw [valuesOf_refill, List.forall_mem_map]
    exact fun v hv => (hback v hv).trans (congrArg Except.ok (hg v hv).symm)
  refine ⟨_, hopen'.revise_eq hrun, ?_⟩
  have hsame : file.map (Stretch.refill (g ∘ f)) = file := refill_eq_self hg
  rw [refill_refill, hsame, ← hopen.source_eq]

/-- A text with a group in a group. -/
theorem revise_unbox_box_sample :
    sampleBoxer.Unboxed "module m {tags ={k =  { k=1}}  }\n".toList ∧
    ∃ r r', revise ['a'] sampleBoxer .box
        "module m {tags ={k =  { k=1}}  }\n".toList = .ok r ∧
      r.changed = ["module.m".toList] ∧ revise ['b'] sampleBoxer .unbox r.output = .ok r' ∧
      r'.output = "module m {tags ={k =  { k=1}}  }\n".toList := by
  have hfree : sampleBoxer.Unboxed
      "module m {tags ={k =  { k=1}}  }\n".toList := by decide +kernel
  have hrun : revise ['a'] sampleBoxer .box
      "module m {tags ={k =  { k=1}}  }\n".toList =
    .ok ⟨"module m {tags =(var.t ? {k =  (var.t ? { k=1} : {})} : {})  }\n".toList,
      ["module.m".toList]⟩ := by decide +kernel
  obtain ⟨r', hback, houtput⟩ :=
    @revise_unbox_box _ _ ['a'] ['b'] _ _ compile_sampleBoxer enclosing_sampleBoxer rfl hfree hrun
  exact ⟨hfree, _, r', hrun, rfl, hback, houtput⟩

end Twice

end TagBox
