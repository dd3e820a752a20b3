import TagBox.Proofs.Revision

/-!
# What a run leaves alone

A run puts new values into a text, the last one first.  Seen from the text, it exchanges the print of
some values for other texts and keeps every character between them.  Which values these are is said
block by block: those of the selected blocks for which the print changes.

* `Change`, `Boxer.change?` — the change that a run makes to the text of a block.
* `gapsFrom`, `interlace` — the text between values, and texts put into it.
* `revise_frame` — the text before and after a run differ in these values only.
-/

namespace TagBox

/-- A value that a run changes: the address of its block, its positions, and its text before and after
the run. -/
structure Change where
  address : Text
  span : Span
  before : Text
  after : Text
  deriving DecidableEq, Repr

/-- The change that a run makes to a block of the file: there is one if the block is selected, has the
attribute, and the print of the revised value differs from that of the value. -/
def Boxer.change? (boxer : Boxer) (action : Action) (tokens : List Token) (block : Block) :
    Option Change :=
  if boxer.selector.selects block then
    (block.attribute? tokens boxer.selector.name).toOption.join.bind fun span =>
      (boxer.run action (span.slice tokens)).toOption.bind fun revised =>
        if print revised = print (span.slice tokens) then none
        else some ⟨block.address, span, print (span.slice tokens), print revised⟩
  else none

/-- The texts in front of, between and behind the spans, from position `i` of the file on. -/
def gapsFrom (tokens : List Token) (i : Nat) : List Span → List Text
  | [] => [print (tokens.drop i)]
  | span :: more =>
    print ((tokens.drop i).take (span.first - i)) :: gapsFrom tokens (span.last + 1) more

/-- The gaps with texts between them. -/
def interlace : (gaps texts : List Text) → Text
  | gap :: gaps, text :: texts => gap ++ (text ++ interlace gaps texts)
  | gaps, _ => gaps.flatten

/-- A replacement as a change of the text. -/
def Replacement.change (tokens : List Token) (edit : Replacement) : Change :=
  ⟨edit.address, edit.span, print (edit.span.slice tokens), print edit.tokens⟩

/-! ## Replacements and changes -/

section Replacements

variable {path : Text} {boxer : Boxer} {action : Action} {tokens : List Token} {block : Block}
  {found : List Block} {edits : List Replacement}

/-- A run gets through the block: the body can be read, and the value can be revised. -/
def Boxer.Handles (boxer : Boxer) (action : Action) (tokens : List Token) (block : Block) : Prop :=
  boxer.selector.selects block = true →
    ∃ value, block.attribute? tokens boxer.selector.name = .ok value ∧
      ∀ span ∈ value, ∃ revised, boxer.run action (span.slice tokens) = .ok revised

theorem change?_of_replacement? {edit : Option Replacement}
    (h : replacement? path boxer action tokens block = .ok edit) :
    boxer.Handles action tokens block ∧
      boxer.change? action tokens block = edit.map (Replacement.change tokens) := by
  unfold replacement? at h
  unfold Boxer.Handles Boxer.change?
  split_ifs at h ⊢ with hs
  · cases hvalue : block.attribute? tokens boxer.selector.name with
    | error e => simp [hvalue] at h
    | ok value =>
      cases value with
      | none =>
        simp only [hvalue, Except.ok.injEq] at h
        subst h
        exact ⟨fun _ => ⟨none, rfl, by simp⟩, rfl⟩
      | some span =>
        simp only [hvalue] at h
        cases hrun : boxer.run action (span.slice tokens) with
        | error e => simp [hrun] at h
        | ok revised =>
          simp only [hrun] at h
          refine ⟨fun _ => ⟨some span, rfl, by simpa using ⟨revised, hrun⟩⟩, ?_⟩
          split_ifs at h with hprint
          all_goals
            obtain rfl := Except.ok.inj h
            simp [Except.toOption, hrun, hprint, Replacement.change]
  · obtain rfl := Except.ok.inj h
    exact ⟨fun hs' => absurd hs' hs, rfl⟩

theorem filterMap_change? (h : replacements path boxer action tokens found = .ok edits) :
    (∀ block ∈ found, boxer.Handles action tokens block) ∧
      found.filterMap (boxer.change? action tokens) = edits.map (Replacement.change tokens) := by
  induction found generalizing edits with
  | nil =>
    obtain rfl := Except.ok.inj h
    exact ⟨by simp, rfl⟩
  | cons block found ih =>
    rw [replacements] at h
    cases hedit : replacement? path boxer action tokens block with
    | error e => simp [hedit] at h
    | ok edit =>
      simp only [hedit] at h
      obtain ⟨later, hlater, rfl⟩ := map_eq_ok_iff.1 h
      obtain ⟨hhandles, hchange⟩ := change?_of_replacement? hedit
      obtain ⟨hrest, hchanges⟩ := ih hlater
      refine ⟨by simpa using ⟨hhandles, hrest⟩, ?_⟩
      rw [List.filterMap_cons, hchange, hchanges]
      cases edit <;> rfl

end Replacements

/-! ## The text around the values -/

section Gaps

variable {f g : List Token → List Token} {x : Stretch} {file : List Stretch}
  {tokens A G Z : List Token} {edit : Replacement} {i : Nat}

/-- A stretch has a replacement if it has a value whose print changes. -/
theorem exists_of_edit? (h : x.edit? f i = some edit) :
    ∃ address front value behind, x = .site address front value behind ∧
      edit = ⟨address, ⟨i + front.length, i + front.length + value.length - 1⟩, f value⟩ := by
  cases x with
  | still ts => simp [Stretch.edit?] at h
  | site address front value behind =>
    rw [Stretch.edit?] at h
    split_ifs at h
    exact ⟨address, front, value, behind, rfl, (Option.some.inj h).symm⟩

/-- A stretch without a replacement prints the same with its revised value. -/
theorem print_refill_of_edit? (hg : ∀ v ∈ x.value?, print (f v) = print v → print (g v) = print v)
    (h : x.edit? f i = none) : print (x.refill g).tokens = print x.tokens := by
  cases x with
  | still ts => rfl
  | site address front value behind =>
    have hsame : print (f value) = print value := by
      by_contra hne
      simp [Stretch.edit?, hne] at h
    simp [Stretch.refill, Stretch.tokens, hg value rfl hsame]

/-- A replacement is for a value inside of the file. -/
theorem mem_editsAt (htokens : tokens = A ++ (joined file ++ Z)) (hne : ∀ v ∈ valuesOf file, v ≠ [])
    (h : edit ∈ editsAt f A.length file) :
    A.length ≤ edit.span.first ∧ edit.span.first ≤ edit.span.last ∧
      edit.span.last < A.length + (joined file).length ∧ edit.tokens = f (edit.span.slice tokens) := by
  induction file generalizing A with
  | nil => simp [editsAt] at h
  | cons x file ih =>
    rw [joined_cons, List.length_append]
    rcases List.mem_append.1 h with hx | hrest
    · obtain ⟨address, front, value, behind, rfl, rfl⟩ := exists_of_edit? (Option.mem_toList.1 hx)
      have hvalue := hne value (mem_valuesOf_cons.2 (Or.inl rfl))
      have hpos := List.length_pos_iff.2 hvalue
      have hslice := @slice_append (A ++ front) value hvalue (behind ++ (joined file ++ Z))
      simp only [htokens, joined_cons, Stretch.tokens, List.append_assoc, List.length_append]
        at hslice ⊢
      exact ⟨by omega, by omega, by omega, by rw [hslice]⟩
    · rw [← List.length_append] at hrest
      obtain ⟨hfirst, hspan, hlast, hvalue⟩ := ih (by simpa using htokens)
        (fun v hv => hne v (mem_valuesOf_cons.2 (Or.inr hv))) hrest
      rw [List.length_append] at hfirst hlast
      exact ⟨by omega, hspan, by omega, hvalue⟩

/-- The replacements are in order and apart from each other. -/
theorem pairwise_editsAt (htokens : tokens = A ++ (joined file ++ Z))
    (hne : ∀ v ∈ valuesOf file, v ≠ []) :
    (editsAt f A.length file).Pairwise fun a b => a.span.last < b.span.first := by
  induction file generalizing A with
  | nil => exact List.Pairwise.nil
  | cons x file ih =>
    have hne' : ∀ v ∈ valuesOf file, v ≠ [] := fun v hv => hne v (mem_valuesOf_cons.2 (Or.inr hv))
    have hcut : tokens = (A ++ x.tokens) ++ (joined file ++ Z) := by simpa using htokens
    have hrest := ih hcut hne'
    rw [List.length_append] at hrest
    refine List.pairwise_append.2 ⟨by cases x.edit? f A.length <;> simp, hrest, ?_⟩
    intro a ha b hb
    obtain ⟨address, front, value, behind, rfl, rfl⟩ := exists_of_edit? (Option.mem_toList.1 ha)
    have hpos := List.length_pos_iff.2 (hne value (mem_valuesOf_cons.2 (Or.inl rfl)))
    rw [← List.length_append] at hb
    have hfirst := (mem_editsAt hcut hne' hb).1
    simp only [Stretch.tokens, List.length_append] at hfirst ⊢
    omega

/-- Texts for the values, put between the gaps, give the print of the file with these values.  The
tokens `G` have been passed since the last value. -/
theorem interlace_editsAt (htokens : tokens = A ++ (G ++ (joined file ++ Z)))
    (hne : ∀ v ∈ valuesOf file, v ≠ [])
    (hg : ∀ v ∈ valuesOf file, print (f v) = print v → print (g v) = print v) :
    interlace
        (gapsFrom tokens A.length ((editsAt f (A.length + G.length) file).map Replacement.span))
        ((editsAt f (A.length + G.length) file).map fun edit => print (g (edit.span.slice tokens))) =
      print (G ++ (joined (file.map (Stretch.refill g)) ++ Z)) := by
  induction file generalizing A G with
  | nil => simp [editsAt, gapsFrom, interlace, htokens, joined]
  | cons x file ih =>
    have hne' : ∀ v ∈ valuesOf file, v ≠ [] := fun v hv => hne v (mem_valuesOf_cons.2 (Or.inr hv))
    have hg' : ∀ v ∈ valuesOf file, print (f v) = print v → print (g v) = print v :=
      fun v hv => hg v (mem_valuesOf_cons.2 (Or.inr hv))
    cases hedit : x.edit? f (A.length + G.length) with
    | none =>
      have hprint := print_refill_of_edit? (fun v hv => hg v (mem_valuesOf_cons.2 (Or.inl hv))) hedit
      have hrest := @ih A (G ++ x.tokens) (by simpa using htokens) hne' hg'
      rw [List.length_append, ← Nat.add_assoc] at hrest
      rw [editsAt, hedit, Option.toList_none, List.nil_append, hrest]
      simp [hprint]
    | some edit =>
      obtain ⟨address, front, value, behind, rfl, rfl⟩ := exists_of_edit? hedit
      have hvalue := hne value (mem_valuesOf_cons.2 (Or.inl rfl))
      have hpos := List.length_pos_iff.2 hvalue
      have hcut : tokens = (A ++ (G ++ front)) ++ (value ++ (behind ++ (joined file ++ Z))) := by
        simpa [Stretch.tokens] using htokens
      have hslice := @slice_append (A ++ (G ++ front)) value hvalue (behind ++ (joined file ++ Z))
      have hrest := @ih (A ++ (G ++ (front ++ value))) behind (by simpa using hcut) hne' hg'
      have hgap : (tokens.drop A.length).take (A.length + G.length + front.length - A.length) =
          G ++ front := by
        have hlen : A.length + G.length + front.length - A.length = (G ++ front).length := by
          rw [List.length_append]
          omega
        rw [hcut, List.append_assoc, List.drop_left, hlen, List.take_left]
      have hlast : A.length + G.length + front.length + value.length - 1 + 1 =
          (A ++ (G ++ (front ++ value))).length := by
        simp only [List.length_append]
        omega
      have hnext : A.length + G.length + (Stretch.site address front value behind).tokens.length =
          (A ++ (G ++ (front ++ value))).length + behind.length := by
        simp only [Stretch.tokens, List.length_append]
        omega
      rw [← hcut, List.length_append, List.length_append, ← Nat.add_assoc] at hslice
      rw [editsAt, hedit, hnext]
      simp only [Option.toList_some, List.singleton_append, List.map_cons, gapsFrom, interlace, hgap,
        hlast, hslice, hrest]
      simp [Stretch.refill, Stretch.tokens]

end Gaps

/-! ## Texts before and after a run -/

/-- Texts for the values of an opened text, put between its gaps. -/
theorem Opened.interlace_eq {selector : Selector} {source trail : Text} {file : List Stretch}
    {f g : List Token → List Token} (h : Opened selector source file trail)
    (hg : ∀ v ∈ valuesOf file, print (f v) = print v → print (g v) = print v) :
    interlace
        (gapsFrom (joined file ++ [eofToken trail]) 0 ((editsAt f 0 file).map Replacement.span))
        ((editsAt f 0 file).map fun edit =>
          print (g (edit.span.slice (joined file ++ [eofToken trail])))) =
      print (joined (file.map (Stretch.refill g))) ++ trail := by
  have hall := @interlace_editsAt f g file (joined file ++ [eofToken trail]) [] [] [eofToken trail] rfl
    h.ne_nil hg
  rw [List.nil_append, print_append, print_eofToken] at hall
  exact hall

/-- The text before and after a run differ in the values that the run changes, and in nothing else. -/
theorem revise_frame {path source : Text} {boxer : Boxer} {action : Action} {r : Revision}
    (h : revise path boxer action source = .ok r) :
    ∃ tokens found changed gaps,
      tokenize source = .ok tokens ∧ blocks tokens = .ok found ∧
      (∀ block ∈ found, boxer.Handles action tokens block) ∧
      found.filterMap (boxer.change? action tokens) = changed ∧
      (∀ c ∈ changed, c.span.first ≤ c.span.last ∧ c.span.last < tokens.length) ∧
      changed.Pairwise (fun c d => c.span.last < d.span.first) ∧
      gapsFrom tokens 0 (changed.map Change.span) = gaps ∧
      source = interlace gaps (changed.map Change.before) ∧
      r.output = interlace gaps (changed.map Change.after) ∧
      r.changed = changed.map Change.address ∧ (changed = [] → r.output = source) := by
  obtain ⟨-, file, trail, f, hopen, -, -, hf, rfl⟩ := Opened.of_revise h
  obtain ⟨found, hfound, htags⟩ := hopen.finds_self
  have hedits : replacements path boxer action (joined file ++ [eofToken trail]) found =
      .ok (editsAt f 0 file) :=
    (replacements_eq_changes htags).trans (changes_spansAt [] [eofToken trail] hopen.ne_nil hf)
  obtain ⟨hhandles, hchanges⟩ := filterMap_change? hedits
  have hin : ∀ edit ∈ editsAt f 0 file, edit.span.first ≤ edit.span.last ∧
      edit.span.last < (joined file).length ∧
      edit.tokens = f (edit.span.slice (joined file ++ [eofToken trail])) := by
    intro edit hedit
    obtain ⟨-, hspan, hlast, hvalue⟩ :=
      @mem_editsAt f file _ [] [eofToken trail] edit rfl hopen.ne_nil hedit
    exact ⟨hspan, by simpa using hlast, hvalue⟩
  have hbefore := @hopen.interlace_eq _ _ _ _ f id fun _ _ _ => rfl
  have hafter := @hopen.interlace_eq _ _ _ _ f f fun _ _ hsame => hsame
  have hid : file.map (Stretch.refill id) = file := refill_eq_self fun _ _ => rfl
  rw [hid, ← hopen.source_eq] at hbefore
  rw [List.map_congr_left fun edit hedit => congrArg print (hin edit hedit).2.2.symm] at hafter
  refine ⟨_, found, _, _, hopen.tokenize_eq, hfound, hhandles, hchanges, ?_, ?_, rfl, ?_, ?_, ?_, ?_⟩
  · intro c hc
    obtain ⟨edit, hedit, rfl⟩ := List.mem_map.1 hc
    obtain ⟨hspan, hlast, -⟩ := hin edit hedit
    refine ⟨hspan, Nat.lt_trans hlast ?_⟩
    simp
  · apply List.pairwise_map.2
    exact @pairwise_editsAt f file _ [] [eofToken trail] rfl hopen.ne_nil
  · rw [List.map_map, List.map_map]
    exact hbefore.symm
  · rw [List.map_map, List.map_map]
    exact hafter.symm
  · rw [List.map_map]
    rfl
  · intro hnone
    have hnil : editsAt f 0 file = [] := List.map_eq_nil_iff.1 hnone
    rw [hnil] at hbefore hafter
    exact hafter.symm.trans hbefore

/-- A text with three selected blocks: one has an old wrapper, one has no value, one has no wrapper. -/
theorem revise_frame_sample :
    ∃ (r : Revision) (changed : List Change) (gaps : List Text),
      revise ['p'] { sampleBoxer with old := some (conditional ['u']) } .box
        "resource r {tags=var.u ? {k=1} : {}}\nmodule b {}\nmodule c {tags={k=1}}\n".toList =
          .ok r ∧
      changed.map Change.address = ["resource.r".toList, "module.c".toList] ∧
      "resource r {tags=var.u ? {k=1} : {}}\nmodule b {}\nmodule c {tags={k=1}}\n".toList =
        interlace gaps (changed.map Change.before) ∧
      r.output = interlace gaps (changed.map Change.after) := by
  have hrun : revise ['p'] { sampleBoxer with old := some (conditional ['u']) } .box
      "resource r {tags=var.u ? {k=1} : {}}\nmodule b {}\nmodule c {tags={k=1}}\n".toList =
    .ok ⟨
      "resource r {tags=(var.t ? {k=1} : {})}\nmodule b {}\nmodule c {tags=(var.t ? {k=1} : {})}\n".toList,
      ["resource.r".toList, "module.c".toList]⟩ := by decide +kernel
  obtain ⟨-, -, changed, gaps, -, -, -, -, -, -, -, hbefore, hafter, hchanged, -⟩ := revise_frame hrun
  exact ⟨_, changed, gaps, hrun, hchanged.symm, hbefore, hafter⟩

end TagBox
