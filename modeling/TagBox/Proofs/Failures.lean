import TagBox.Proofs.Frame
import TagBox.Proofs.Unwrapping

/-!
# Which texts a run fails on

Brackets are checked three times: when the blocks of a file are found, when an attribute of a block is
looked up, and when the groups of a value are searched for.  The first check is for all brackets of the
file, and what passes it passes the other two: the body of a block and the value of an attribute nest if
the file does, and braces nest if all brackets do.

One failure is left.  Unboxing takes halves out one after the other, and where halves share tokens a half
can be gone by the time it is its turn.

* `exists_blocks_iff_nested` — the blocks of a file are found exactly if its brackets nest.
* `exists_attribute?` — no attribute of such a block is out of reach, and its value nests.
* `Boxer.Unboxable` — every half around a group of the text is there when it is to be removed.
* `revise_fails_iff` — which texts a run fails on, and how.
-/

namespace TagBox

/-! ## Blocks and their attributes -/

section Blocks

variable {tokens : List Token} {found : List Block} {block : Block}

theorem blocks_flatten {ps : List Piece} (h : Fitting ps) :
    blocks (flatten ps) = .ok (blocksIn (statementsAt 0 ps)) := by
  have hall := @statementsFrom_flatten 0 0 ps [] h (Nat.zero_le _) (by simp)
  rw [Nat.zero_add, List.append_nil] at hall
  rw [blocks, statements, List.drop_zero, hall]
  rfl

/-- The blocks of a file are found exactly if its brackets nest. -/
theorem exists_blocks_iff_nested : (∃ found, blocks tokens = .ok found) ↔ Nested tokens := by
  constructor
  · rintro ⟨found, hfound⟩
    obtain ⟨all, hall, -⟩ := map_eq_ok_iff.1 hfound
    exact nested_of_statements hall
  · intro h
    obtain ⟨ps, rfl, hps⟩ := exists_pieces h
    exact ⟨_, blocks_flatten hps⟩

theorem blocks_error_iff_not_nested : (∃ e, blocks tokens = .error e) ↔ ¬ Nested tokens := by
  rw [← exists_blocks_iff_nested]
  cases blocks tokens <;> simp

/-- A block among statements is one of the pieces. -/
theorem exists_block_of_mem_statementsAt {i : Nat} {ps : List Piece}
    (h : .block block ∈ statementsAt i ps) :
    ∃ before name labels opening inner closing after,
      ps = before ++ .block name labels opening inner closing :: after ∧
      block = ⟨name.text, labels.map Token.text, i + (flatten before).length + 1 + labels.length,
        i + (flatten before).length + 1 + labels.length + 1 + inner.length⟩ := by
  induction ps generalizing i with
  | nil => simp [statementsAt] at h
  | cons p ps ih =>
    rcases List.mem_append.1 h with hp | hps
    · cases p with
      | block name labels opening inner closing =>
        refine ⟨[], name, labels, opening, inner, closing, ps, rfl, ?_⟩
        simpa [Piece.statement?] using hp
      | assign name sign value =>
        by_cases hv : value = [] <;> simp [Piece.statement?, hv] at hp
      | _ => simp [Piece.statement?] at hp
    · obtain ⟨before, name, labels, opening, inner, closing, after, rfl, rfl⟩ := ih hps
      refine ⟨p :: before, name, labels, opening, inner, closing, after, rfl, ?_⟩
      simp only [flatten_cons, List.length_append, Block.mk.injEq, true_and]
      omega

/-- The value of an assignment in a block, at its place in the file. -/
theorem slice_value {A Z labels value : List Token} {name opening closing key sign : Token}
    {front behind : List Piece} (hv : value ≠ []) :
    Span.slice ⟨A.length + 1 + labels.length + 1 + (flatten front).length + 2,
        A.length + 1 + labels.length + 1 + (flatten front).length + 1 + value.length⟩
      (A ++ ((Piece.block name labels opening (flatten (front ++ .assign key sign value :: behind))
        closing).tokens ++ Z)) = value := by
  have hcut : A ++ ((Piece.block name labels opening (flatten (front ++ .assign key sign value :: behind))
        closing).tokens ++ Z) =
      (A ++ (name :: labels ++ (opening :: flatten front ++ [key, sign]))) ++
        (value ++ (flatten behind ++ closing :: Z)) := by
    simp [Piece.tokens]
  have hlen : A.length + 1 + labels.length + 1 + (flatten front).length + 2 =
      (A ++ (name :: labels ++ (opening :: flatten front ++ [key, sign]))).length := by
    simp only [List.length_append, List.length_cons, List.length_nil]
    omega
  have hlast : A.length + 1 + labels.length + 1 + (flatten front).length + 1 + value.length =
      A.length + 1 + labels.length + 1 + (flatten front).length + 2 + value.length - 1 := by
    omega
  rw [hcut, hlast, hlen, slice_append hv]

/-- No attribute of a block that was found is out of reach, and the brackets of its value nest. -/
theorem exists_attribute? (h : blocks tokens = .ok found) (hb : block ∈ found) (name : Text) :
    ∃ value, block.attribute? tokens name = .ok value ∧ ∀ span ∈ value, Nested (span.slice tokens) := by
  obtain ⟨ps, rfl, hps⟩ := exists_pieces (exists_blocks_iff_nested.1 ⟨found, h⟩)
  obtain rfl : blocksIn (statementsAt 0 ps) = found := Except.ok.inj ((blocks_flatten hps).symm.trans h)
  have hmem : .block block ∈ statementsAt 0 ps := by
    obtain ⟨s, hs, heq⟩ := List.mem_filterMap.1 hb
    cases s with
    | assign a => simp at heq
    | block b => exact Option.some.inj heq ▸ hs
  obtain ⟨before, kind, labels, opening, inner, closing, after, rfl, rfl⟩ :=
    exists_block_of_mem_statementsAt hmem
  obtain ⟨⟨-, -, -, hinner, hclosing⟩, -⟩ := hps.of_append
  obtain ⟨qs, rfl, hqs⟩ := exists_pieces hinner
  rw [flatten_append, flatten_cons, Nat.zero_add]
  refine ⟨_, attribute?_block hqs hclosing, ?_⟩
  rcases exists_assign_or name qs with hnone | ⟨front, key, sign, value, behind, rfl, hfront, hkey, hv⟩
  · rw [valueIn_eq_none hnone]
    simp
  · rw [valueIn_assign hfront hkey hv]
    rintro span ⟨⟩
    rw [slice_value hv]
    exact hqs.of_append.1.2.2.1.nested

end Blocks

/-! ## Values and blocks -/

section Values

variable {path : Text} {boxer : Boxer} {action : Action} {ts tokens : List Token} {block : Block}
  {found : List Block}

/-- A half that cannot be removed is one that is not there when its turn comes. -/
theorem Boxer.unbox_eq_overrun {cause : Overrun} (h : boxer.unbox ts = .error (.overrun cause)) :
    ∃ stale, Boxer.hugging boxer.matcher boxer.template ts = .ok stale ∧
      ¬ Removable ts (removals stale) := by
  obtain ⟨_, -, heq⟩ | ⟨stale, e, hstale, hstrip, -⟩ := Boxer.unwrap_eq_error_iff.1 h
  · cases heq
  · refine ⟨stale, hstale, fun hremovable => ?_⟩
    rw [strip_eq_ok_iff.2 ⟨hremovable, rfl⟩] at hstrip
    cases hstrip

/-- Of the values whose brackets nest, only those fail of which a half cannot be removed. -/
theorem Boxer.run_error_of_nested {e : BoxError} (hold : boxer.old = none) (h : Nested ts)
    (he : boxer.run action ts = .error e) : action = .unbox ∧ ∃ cause, e = .overrun cause := by
  obtain ⟨gs, hgs⟩ := @exists_tagGroups boxer.matcher ts (bracesNest_of_nested h)
  cases action with
  | box => simp [Boxer.run, Boxer.box, hold, Boxer.wrapPending, hgs] at he
  | unbox =>
    refine ⟨rfl, ?_⟩
    obtain ⟨_, hhugging, -⟩ | ⟨stale, cause, -, -, rfl⟩ := Boxer.unwrap_eq_error_iff.1 he
    · rw [Boxer.hugging, hgs] at hhugging
      cases hhugging
    · exact ⟨cause, rfl⟩

/-- How a run fails on a block that was found. -/
theorem replacement?_error {e : RunError} (hold : boxer.old = none) (hfound : blocks tokens = .ok found)
    (hb : block ∈ found) (h : replacement? path boxer action tokens block = .error e) :
    action = .unbox ∧ boxer.selector.selects block = true ∧ ∃ span cause,
      block.attribute? tokens boxer.selector.name = .ok (some span) ∧
      boxer.unbox (span.slice tokens) = .error (.overrun cause) ∧
      e = .overrun path block.address cause := by
  obtain ⟨value, hvalue, hnested⟩ := exists_attribute? hfound hb boxer.selector.name
  rw [replacement?] at h
  split_ifs at h with hselects
  cases value with
  | none => simp [hvalue] at h
  | some span =>
    simp only [hvalue] at h
    cases hrun : boxer.run action (span.slice tokens) with
    | ok revised =>
      simp only [hrun] at h
      split_ifs at h
    | error cause =>
      obtain ⟨rfl, cause, rfl⟩ := Boxer.run_error_of_nested hold (hnested span rfl) hrun
      simp only [hrun, Except.error.injEq] at h
      exact ⟨rfl, hselects, span, cause, hvalue, hrun, h.symm⟩

theorem exists_of_replacements_error {e : RunError}
    (h : replacements path boxer action tokens found = .error e) :
    ∃ block ∈ found, replacement? path boxer action tokens block = .error e := by
  induction found with
  | nil => simp [replacements] at h
  | cons block found ih =>
    rw [replacements] at h
    cases hedit : replacement? path boxer action tokens block with
    | error e' =>
      simp only [hedit, Except.error.injEq] at h
      exact ⟨block, by simp, h ▸ hedit⟩
    | ok edit =>
      simp only [hedit] at h
      cases hrest : replacements path boxer action tokens found with
      | error e' =>
        obtain rfl : e' = e := by simpa [hrest, Except.map] using h
        obtain ⟨b, hb, hrun⟩ := ih hrest
        exact ⟨b, by simp [hb], hrun⟩
      | ok edits => simp [hrest, Except.map] at h

end Values

/-! ## The whole run -/

/-- Every half around a tag group in the values of the selected blocks of the text is there when it is to
be removed. -/
def Boxer.Unboxable (boxer : Boxer) (source : Text) : Prop :=
  ∀ tokens ∈ (tokenize source).toOption, ∀ found ∈ (blocks tokens).toOption, ∀ block ∈ found,
    boxer.selector.selects block = true →
    ∀ span ∈ (block.attribute? tokens boxer.selector.name).toOption.join,
    ∀ stale ∈ (Boxer.hugging boxer.matcher boxer.template (span.slice tokens)).toOption,
    Removable (span.slice tokens) (removals stale)

instance (boxer : Boxer) (source : Text) : Decidable (boxer.Unboxable source) :=
  inferInstanceAs (Decidable (∀ tokens ∈ (tokenize source).toOption, _))

section Run

variable {path source : Text} {boxer : Boxer} {action : Action}

theorem Boxer.unboxable_iff {tokens : List Token} {found : List Block}
    (htokens : tokenize source = .ok tokens) (hfound : blocks tokens = .ok found) :
    boxer.Unboxable source ↔ ∀ block ∈ found, boxer.selector.selects block = true →
      ∀ span, block.attribute? tokens boxer.selector.name = .ok (some span) →
      ∀ stale, Boxer.hugging boxer.matcher boxer.template (span.slice tokens) = .ok stale →
      Removable (span.slice tokens) (removals stale) := by
  simp [Boxer.Unboxable, htokens, hfound, toOption_eq_some_iff, Option.join_eq_some_iff]

theorem Boxer.unboxable_of_no_blocks
    (h : ∀ tokens found, tokenize source = .ok tokens → blocks tokens ≠ .ok found) :
    boxer.Unboxable source := by
  intro tokens htokens found hfound
  exact absurd (toOption_eq_some_iff.1 hfound) (h tokens found (toOption_eq_some_iff.1 htokens))

/-- Halves that share no token are all there when they are to be removed. -/
theorem Boxer.unboxable_of_not_interlocks {rendered : Text} (source : Text)
    (hcompile : Template.compile rendered = .ok boxer.template)
    (hnest : BracesNest (boxer.template.left ++ boxer.template.right))
    (hkeyless : Keyless boxer.matcher (boxer.template.left ++ boxer.template.right))
    (hlock : ¬ boxer.template.Interlocks) : boxer.Unboxable source := by
  intro tokens _ found _ block _ _ span _ stale hstale
  have hT := hasHalves_of_compile hcompile
  obtain ⟨gs, hgs, rfl⟩ := map_eq_ok_iff.1 (toOption_eq_some_iff.1 hstale)
  have hseparate := separate_of_not_interlocks hT hnest hkeyless hlock hgs
  obtain ⟨out, hout, -⟩ := (stripsExactly_iff (within_of_mem_hugs hT hgs)).2 hseparate
  exact (strip_eq_ok_iff.1 hout).1

/-- If every block is unboxed, no half was gone. -/
theorem Boxer.unboxable_of_replacements {tokens : List Token} {found : List Block}
    {edits : List Replacement} (htokens : tokenize source = .ok tokens) (hfound : blocks tokens = .ok found)
    (hedits : replacements path boxer .unbox tokens found = .ok edits) : boxer.Unboxable source := by
  refine (Boxer.unboxable_iff htokens hfound).2 ?_
  intro block hb hselects span hvalue stale hstale
  obtain ⟨value, hvalue', hruns⟩ := (filterMap_change? hedits).1 block hb hselects
  obtain rfl : value = some span := Except.ok.inj (hvalue'.symm.trans hvalue)
  obtain ⟨revised, hrun⟩ := hruns span rfl
  obtain ⟨stale', hstale', hstrip⟩ := Boxer.unwrap_eq_ok_iff.1 hrun
  obtain rfl : stale' = stale := Except.ok.inj (hstale'.symm.trans hstale)
  exact (strip_eq_ok_iff.1 hstrip).1

/-- If a block cannot be revised, it was to be unboxed and a half was gone. -/
theorem Boxer.not_unboxable_of_replacements_error {tokens : List Token} {found : List Block}
    {e : RunError} (hold : boxer.old = none) (htokens : tokenize source = .ok tokens)
    (hfound : blocks tokens = .ok found) (hedits : replacements path boxer action tokens found = .error e) :
    action = .unbox ∧ ¬ boxer.Unboxable source ∧ ∃ address cause, e = .overrun path address cause := by
  obtain ⟨block, hb, hblock⟩ := exists_of_replacements_error hedits
  obtain ⟨rfl, hselects, span, cause, hvalue, hunbox, rfl⟩ := replacement?_error hold hfound hb hblock
  obtain ⟨stale, hstale, hstuck⟩ := Boxer.unbox_eq_overrun hunbox
  refine ⟨rfl, fun hunboxable => hstuck ?_, block.address, cause, rfl⟩
  exact (Boxer.unboxable_iff htokens hfound).1 hunboxable block hb hselects span hvalue stale hstale

/-- What a run without an old template makes of a text. -/
theorem revise_outcome (path : Text) (action : Action) (source : Text) (hold : boxer.old = none) :
    (∃ e, tokenize source = .error e ∧ boxer.Unboxable source ∧
      revise path boxer action source = .error (.lexing path e)) ∨
    (∃ tokens e, tokenize source = .ok tokens ∧ ¬ Nested tokens ∧ blocks tokens = .error e ∧
      boxer.Unboxable source ∧ revise path boxer action source = .error (.nesting path e)) ∨
    ∃ tokens found, tokenize source = .ok tokens ∧ Nested tokens ∧ blocks tokens = .ok found ∧
      ((∃ r, (action = .unbox → boxer.Unboxable source) ∧
          revise path boxer action source = .ok r) ∨
        action = .unbox ∧ ¬ boxer.Unboxable source ∧ ∃ address cause,
          revise path boxer action source = .error (.overrun path address cause)) := by
  cases htokens : tokenize source with
  | error e =>
    refine Or.inl ⟨e, rfl, Boxer.unboxable_of_no_blocks ?_, ?_⟩
    · simp [htokens]
    · simp [revise, htokens]
  | ok tokens =>
    right
    cases hfound : blocks tokens with
    | error e =>
      refine Or.inl ⟨tokens, e, rfl, blocks_error_iff_not_nested.1 ⟨e, hfound⟩, hfound,
        Boxer.unboxable_of_no_blocks ?_, ?_⟩
      · rintro tokens' found htokens' hfound'
        obtain rfl : tokens = tokens' := Except.ok.inj (htokens.symm.trans htokens')
        cases hfound.symm.trans hfound'
      · simp [revise, htokens, hfound]
    | ok found =>
      refine Or.inr ⟨tokens, found, rfl, exists_blocks_iff_nested.1 ⟨found, hfound⟩, hfound, ?_⟩
      cases hedits : replacements path boxer action tokens found with
      | error e =>
        obtain ⟨rfl, hstuck, address, cause, rfl⟩ :=
          Boxer.not_unboxable_of_replacements_error hold htokens hfound hedits
        exact Or.inr ⟨rfl, hstuck, address, cause, by simp [revise, htokens, hfound, hedits]⟩
      | ok edits =>
        refine Or.inl ⟨if edits = [] then ⟨source, []⟩ else
          ⟨print (edits.foldr Replacement.apply tokens), edits.map Replacement.address⟩, ?_, ?_⟩
        · rintro rfl
          exact Boxer.unboxable_of_replacements htokens hfound hedits
        · simp only [revise, htokens, hfound, hedits]
          cases edits <;> simp

/-- A run without an old template fails on texts without tokens, on texts whose brackets do not nest, and,
if it unboxes, on texts with a half that is gone when it is to be removed; it fails on no others.  Neither
the attributes of the blocks that were found nor the groups in their values are out of reach.  No half is
gone if the right half of the template does not end as its left half begins. -/
theorem revise_fails_iff (hold : boxer.old = none) :
    (∀ q e, revise path boxer action source = .error (.lexing q e) ↔
      q = path ∧ tokenize source = .error e) ∧
    (∀ q e, revise path boxer action source = .error (.nesting q e) ↔
      q = path ∧ ∃ tokens, tokenize source = .ok tokens ∧ blocks tokens = .error e) ∧
    ((∃ q e, revise path boxer action source = .error (.nesting q e)) ↔
      ∃ tokens, tokenize source = .ok tokens ∧ ¬ Nested tokens) ∧
    ((∃ q address e, revise path boxer action source = .error (.overrun q address e)) ↔
      action = .unbox ∧ ¬ boxer.Unboxable source) ∧
    (∀ e, revise path boxer action source = .error e →
      (∃ cause, e = .lexing path cause) ∨ (∃ cause, e = .nesting path cause) ∨
        ∃ address cause, e = .overrun path address cause) ∧
    (∀ rendered, Template.compile rendered = .ok boxer.template →
      BracesNest (boxer.template.left ++ boxer.template.right) →
      Keyless boxer.matcher (boxer.template.left ++ boxer.template.right) →
      ¬ boxer.template.Interlocks → boxer.Unboxable source) ∧
    ∀ tokens found, tokenize source = .ok tokens → blocks tokens = .ok found →
      ∀ block ∈ found, ∀ name, ∃ value, block.attribute? tokens name = .ok value := by
  have hattributes : ∀ tokens found, tokenize source = .ok tokens → blocks tokens = .ok found →
      ∀ block ∈ found, ∀ name, ∃ value, block.attribute? tokens name = .ok value := by
    intro tokens found _ hfound block hb name
    obtain ⟨value, hvalue, -⟩ := exists_attribute? hfound hb name
    exact ⟨value, hvalue⟩
  have hclear : ∀ rendered, Template.compile rendered = .ok boxer.template →
      BracesNest (boxer.template.left ++ boxer.template.right) →
      Keyless boxer.matcher (boxer.template.left ++ boxer.template.right) →
      ¬ boxer.template.Interlocks → boxer.Unboxable source := fun _ =>
    Boxer.unboxable_of_not_interlocks source
  obtain ⟨e, htokens, hquiet, hrun⟩ | ⟨tokens, e, htokens, hnested, hfound, hquiet, hrun⟩ |
    ⟨tokens, found, htokens, hnested, hfound,
      ⟨r, hquiet, hrun⟩ | ⟨rfl, hstuck, address, cause, hrun⟩⟩ := revise_outcome path action source hold
  · refine ⟨?_, ?_, ?_, ⟨by simp [hrun], fun h => absurd hquiet h.2⟩, ?_, hclear, hattributes⟩ <;>
      simp [htokens, hrun, eq_comm]
  · refine ⟨?_, ?_, ?_, ⟨by simp [hrun], fun h => absurd hquiet h.2⟩, ?_, hclear, hattributes⟩ <;>
      simp [htokens, hrun, hnested, hfound, eq_comm]
  · refine ⟨?_, ?_, ?_, ⟨by simp [hrun], fun h => absurd (hquiet h.1) h.2⟩, ?_, hclear, hattributes⟩ <;>
      simp [htokens, hrun, hnested, hfound]
  · refine ⟨?_, ?_, ?_, ?_, ?_, hclear, hattributes⟩ <;>
      simp [htokens, hrun, hnested, hfound, hstuck]

/-- A parenthesis that is closed by a square bracket, in a block that is not selected. -/
theorem revise_fails_iff_crossed :
    revise ['a'] sampleBoxer .unbox "resource r {tags={k=1}}\nlocals {a=(]}".toList =
      .error (.nesting ['a'] (.unmatchedClose 17 [']'])) := by
  have htokens : ∃ tokens, tokenize "resource r {tags={k=1}}\nlocals {a=(]}".toList = .ok tokens ∧
      blocks tokens = .error (.unmatchedClose 17 [']']) := by
    have hread : (match tokenize "resource r {tags={k=1}}\nlocals {a=(]}".toList with
        | .ok tokens => blocks tokens
        | .error _ => .ok []) = .error (.unmatchedClose 17 [']']) := by decide +kernel
    split at hread
    · exact ⟨_, ‹_›, hread⟩
    · simp at hread
  exact ((revise_fails_iff rfl).2.1 ['a'] _).2 ⟨rfl, htokens⟩

/-- A wrapper with two tag groups in its right half. -/
def overlapping : Template where
  left := [⟨.openBracket, ['['], []⟩]
  right := [⟨.closeBracket, [']'], []⟩, ⟨.operator, ['=', '='], [' ']⟩, ⟨.openBracket, ['['], [' ']⟩,
    ⟨.openBrace, ['{'], []⟩, ⟨.identifier, ['k'], []⟩, ⟨.equals, ['='], []⟩, ⟨.number, ['1'], []⟩,
    ⟨.closeBrace, ['}'], []⟩, ⟨.closeBracket, [']'], []⟩, ⟨.operator, ['=', '='], [' ']⟩,
    ⟨.openBracket, ['['], [' ']⟩, ⟨.openBrace, ['{'], []⟩, ⟨.identifier, ['k'], []⟩,
    ⟨.equals, ['='], []⟩, ⟨.number, ['1'], []⟩, ⟨.closeBrace, ['}'], []⟩, ⟨.closeBracket, [']'], []⟩]
  payloadLead := []

/-- The text has tokens and its brackets nest.  The right halves around the first two groups share the
third group, so that without the second of them too few tokens are left for the first. -/
theorem unbox_overruns :
    Template.compile "[/*<box>*/{}/*</box>*/] == [{k=1}] == [{k=1}]".toList = .ok overlapping ∧
    (∃ tokens, tokenize "resource r {tags=[{k=1}] == [{k=1}] == [{k=1}] == [{k=1}]}".toList = .ok tokens ∧
      Nested tokens) ∧
    revise ['a'] ⟨overlapping, none, ⟨[], [['k']]⟩, none, {}⟩ .unbox
        "resource r {tags=[{k=1}] == [{k=1}] == [{k=1}] == [{k=1}]}".toList =
      .error (.overrun ['a'] "resource.r".toList ⟨⟨.right, ⟨6, 22⟩⟩, 14⟩) := by
  refine ⟨by decide +kernel, ?_, by decide +kernel⟩
  have hread : ((tokenize "resource r {tags=[{k=1}] == [{k=1}] == [{k=1}] == [{k=1}]}".toList).toOption.bind
      fun tokens => (blocks tokens).toOption).isSome = true := by decide +kernel
  obtain ⟨found, hfound⟩ := Option.isSome_iff_exists.1 hread
  obtain ⟨tokens, htokens, hblocks⟩ := Option.bind_eq_some_iff.1 hfound
  rw [toOption_eq_some_iff] at htokens hblocks
  exact ⟨tokens, htokens, exists_blocks_iff_nested.1 ⟨found, hblocks⟩⟩

end Run

end TagBox
