import TagBox.Proofs.Revision

/-!
# The statements of a text as trees

A body is read one level at a time, and the bodies in it are found by position.  Read down to the last
level, a text is a list of trees: attributes with the text of their value, and blocks with their
bodies.  Boxing puts other values into some of the trees and does nothing else to them.

* `Tree`, `outline` — the trees of a text.
* `Grows` — the trees of a body that is cut into pieces.
* `Retagged` — trees that differ in the values of some blocks at the top.
* `revise_box_outline` — the trees of a boxed text.
-/

namespace TagBox

/-! ## Trees -/

section Positions

variable {limit next i stop : Nat} {t : Token} {ts : List Token} {b : Block} {found : List Statement}

theorem opening_of_namedStatement (h : namedStatement limit i t ts = .ok (some (.block b), stop)) :
    i < b.opening ∧ b.opening < i + 1 + ts.length := by
  rw [namedStatement] at h
  generalize (ts.take (limit - (i + 1))).takeWhile Token.isLabel = labels at h
  cases hdrop : ts.drop labels.length with
  | nil => simp [hdrop] at h
  | cons mark after =>
    have hlen := congrArg List.length hdrop
    rw [List.length_drop, List.length_cons] at hlen
    simp only [hdrop] at h
    split_ifs at h with hsign hopen
    · cases hend : valueEnd limit 0 (i + 1 + labels.length + 1) after with
      | error e => simp [hend] at h
      | ok stop' =>
        simp only [hend] at h
        split_ifs at h <;> simp at h
    · cases hclose : closeOf (i + 1 + labels.length) mark after with
      | error e => simp [hclose] at h
      | ok close =>
        have hb : b.opening = i + 1 + labels.length := by
          simp only [hclose, Except.ok.injEq, Prod.mk.injEq, Option.some.injEq,
            Statement.block.injEq] at h
          rw [← h.1]
        omega
    · simp at h

theorem opening_of_statementAt (h : statementAt limit i t ts = .ok (some (.block b), stop)) :
    i < b.opening ∧ b.opening < i + 1 + ts.length := by
  unfold statementAt at h
  split_ifs at h with hname ho hc
  · exact opening_of_namedStatement h
  · cases hclose : closeOf i t ts <;> simp [hclose] at h
  · simp at h

theorem opening_of_statementsFrom (h : statementsFrom limit next i ts = .ok found)
    (hb : .block b ∈ found) : i < b.opening ∧ b.opening < i + ts.length := by
  induction ts generalizing next i found with
  | nil =>
    obtain rfl := Except.ok.inj h
    simp at hb
  | cons t ts ih =>
    rw [statementsFrom] at h
    rw [List.length_cons]
    split_ifs at h
    · obtain rfl := Except.ok.inj h
      simp at hb
    · have := ih h hb
      omega
    · cases hstep : statementAt limit i t ts with
      | error e => simp [hstep] at h
      | ok step =>
        obtain ⟨one, stop⟩ := step
        simp only [hstep] at h
        obtain ⟨later, hlater, rfl⟩ := map_eq_ok_iff.1 h
        rcases List.mem_append.1 hb with hone | hb
        · rw [Option.mem_toList.1 hone] at hstep
          have := opening_of_statementAt hstep
          omega
        · have := ih hlater hb
          omega

/-- The brace of a block stands behind the start of the body that the block is in. -/
theorem opening_of_statements {tokens : List Token} {start : Nat}
    (h : statements tokens start limit = .ok found) (hb : .block b ∈ found) :
    start < b.opening ∧ b.opening < tokens.length := by
  have := opening_of_statementsFrom h hb
  rw [List.length_drop] at this
  omega

end Positions

/-- A statement with all that is in it: an attribute with the text of its value, or a block with its
body. -/
inductive Tree where
  | assign (name value : Text)
  | block (kind : Text) (labels : List Text) (body : List Tree)
  deriving Repr

/-- The tree without the values of attributes. -/
def Tree.bare : Tree → Tree
  | .assign name _ => .assign name []
  | .block kind labels body => .block kind labels (body.map bare)

/-- Is the tree a value for the name? -/
def Tree.assigns (key : Text) : Tree → Bool
  | .assign name _ => name == key
  | .block .. => false

/-- The trees in the body of a block. -/
def Block.body (tokens : List Token) (block : Block) : Except NestingError (List Tree) :=
  match _found : block.statements tokens with
  | .error e => .error e
  | .ok found =>
    found.attach.mapM fun
      | ⟨.assign a, _⟩ => .ok (.assign a.name (print (a.value.slice tokens)))
      | ⟨.block b, _⟩ => (b.body tokens).map (.block b.kind b.labels)
termination_by tokens.length - block.opening
decreasing_by
  have := opening_of_statements _found (by assumption)
  omega

/-- The tree of a statement. -/
def Statement.tree (tokens : List Token) : Statement → Except NestingError Tree
  | .assign a => .ok (.assign a.name (print (a.value.slice tokens)))
  | .block b => (b.body tokens).map (.block b.kind b.labels)

/-- The trees of a file. -/
def outline (tokens : List Token) : Except NestingError (List Tree) :=
  match statements tokens 0 tokens.length with
  | .error e => .error e
  | .ok found => found.mapM (Statement.tree tokens)

theorem Block.body_eq {tokens : List Token} {block : Block} {found : List Statement}
    (h : block.statements tokens = .ok found) :
    block.body tokens = found.mapM (Statement.tree tokens) := by
  rw [Block.body]
  split
  next e he => simp [he] at h
  next found' hfound =>
    obtain rfl : found' = found := Except.ok.inj (hfound.symm.trans h)
    rw [List.mapM_subtype (g := Statement.tree tokens), List.unattach_attach]
    rintro (a | b) hb <;> rfl

/-! ## Trees of pieces -/

/-- The trees that pieces are read as. -/
inductive Grows : List Piece → List Tree → Prop
  | nil : Grows [] []
  | pass {p : Piece} {ps : List Piece} {trees : List Tree} (hp : ∀ i, p.statement? i = none)
      (rest : Grows ps trees) : Grows (p :: ps) trees
  | assign {name sign : Token} {value : List Token} {ps : List Piece} {trees : List Tree}
      (hv : value ≠ []) (rest : Grows ps trees) :
      Grows (.assign name sign value :: ps) (.assign name.text (print value) :: trees)
  | block {name opening closing : Token} {labels : List Token} {qs ps : List Piece}
      {body trees : List Tree} (hc : closing.kind = .closeBrace) (hqs : Fitting qs)
      (inner : Grows qs body) (rest : Grows ps trees) :
      Grows (.block name labels opening (flatten qs) closing :: ps)
        (.block name.text (labels.map Token.text) body :: trees)

section Growth

variable {key : Text} {ps qs : List Piece} {trees more : List Tree}

theorem Grows.append (h : Grows ps trees) (h' : Grows qs more) : Grows (ps ++ qs) (trees ++ more) := by
  induction h with
  | nil => exact h'
  | pass hp _ ih => exact .pass hp ih
  | assign hv _ ih => exact .assign hv ih
  | block hc hqs inner _ _ ih => exact .block hc hqs inner ih

theorem Grows.assigns (h : Grows ps trees) (hps : ∀ p ∈ ps, p.assigns key = false) :
    ∀ tree ∈ trees, tree.assigns key = false := by
  induction h with
  | nil => simp
  | pass _ _ ih => exact ih fun p hp => hps p (by simp [hp])
  | @assign name sign value _ _ hv _ ih =>
    have hname : (Piece.assign name sign value).assigns key = false := hps _ (by simp)
    have hother : (Tree.assign name.text (print value)).assigns key = false := by
      simpa [Piece.assigns, Tree.assigns, hv] using hname
    exact List.forall_mem_cons.2 ⟨hother, ih fun p hp => hps p (by simp [hp])⟩
  | block _ _ _ _ _ ih => exact List.forall_mem_cons.2 ⟨rfl, ih fun p hp => hps p (by simp [hp])⟩

theorem Fitting.fits (h : Fitting ps) : ∀ p ∈ ps, ∃ next, p.Fits next := by
  induction ps with
  | nil => simp
  | cons p ps ih =>
    intro q hq
    rcases List.mem_cons.1 hq with rfl | hq
    · exact ⟨_, h.1⟩
    · exact ih h.2 q hq

/-- Pieces are read as trees. -/
theorem exists_grows (h : ∀ p ∈ ps, ∃ next, p.Fits next) : ∃ trees, Grows ps trees := by
  -- the pieces of a body are cut anew, so the induction is on the number of tokens
  induction hn : (flatten ps).length using Nat.strongRecOn generalizing ps with
  | _ n ih =>
    cases ps with
    | nil => exact ⟨[], .nil⟩
    | cons p ps =>
      have hpos := List.length_pos_iff.2 p.tokens_ne_nil
      rw [flatten_cons, List.length_append] at hn
      obtain ⟨trees, hrest⟩ := ih (flatten ps).length (by omega)
        (fun q hq => h q (by simp [hq])) rfl
      obtain ⟨next, hp⟩ := h p (by simp)
      cases p with
      | assign name sign value =>
        by_cases hv : value = []
        · exact ⟨trees, .pass (by simp [Piece.statement?, hv]) hrest⟩
        · exact ⟨_, .assign hv hrest⟩
      | block name labels opening inner closing =>
        obtain ⟨-, -, -, hi, hc⟩ := hp
        obtain ⟨qs, rfl, hqs⟩ := exists_pieces hi
        have hlen : (flatten qs).length < n := by
          rw [← hn]
          simp only [Piece.tokens, List.length_append, List.length_cons]
          omega
        obtain ⟨body, hbody⟩ := ih _ hlen hqs.fits rfl
        exact ⟨_, .block hc hqs hbody hrest⟩
      | _ => exact ⟨trees, .pass (fun _ => rfl) hrest⟩

theorem mapM_tree_cons {p : Piece} {found : Statement} {tree : Tree} {A Z : List Token}
    (hp : p.statement? A.length = some found)
    (htree : found.tree (A ++ (p.tokens ++ (flatten ps ++ Z))) = .ok tree)
    (hrest : (statementsAt (A ++ p.tokens).length ps).mapM
      (Statement.tree ((A ++ p.tokens) ++ (flatten ps ++ Z))) = .ok trees) :
    (statementsAt A.length (p :: ps)).mapM (Statement.tree (A ++ (flatten (p :: ps) ++ Z))) =
      .ok (tree :: trees) := by
  rw [List.length_append, List.append_assoc] at hrest
  rw [statementsAt, hp, flatten_cons, List.append_assoc, Option.toList_some, List.singleton_append,
    List.mapM_cons, htree, hrest]
  rfl

/-- The statements of pieces in a file have the trees of the pieces. -/
theorem Grows.mapM_tree (h : Grows ps trees) (A Z : List Token) :
    (statementsAt A.length ps).mapM (Statement.tree (A ++ (flatten ps ++ Z))) = .ok trees := by
  induction h generalizing A Z with
  | nil => rfl
  | @pass p ps trees hp _ ih =>
    have hrest := ih (A ++ p.tokens) Z
    rw [List.length_append, List.append_assoc, ← List.append_assoc p.tokens] at hrest
    rw [statementsAt, hp]
    exact hrest
  | @assign name sign value ps trees hv _ ih =>
    refine mapM_tree_cons (by rw [Piece.statement?, if_neg hv]) ?_ (ih _ Z)
    have hpos := List.length_pos_iff.2 hv
    have hslice := @slice_append (A ++ [name, sign]) value hv (flatten ps ++ Z)
    have hlast : (A ++ [name, sign]).length + value.length - 1 = A.length + 1 + value.length := by
      simp only [List.length_append, List.length_cons, List.length_nil]
      omega
    rw [hlast, List.append_assoc, List.length_append] at hslice
    exact congrArg (fun ts => Except.ok (Tree.assign name.text (print ts))) hslice
  | @block name opening closing labels qs ps body trees hc hqs _ _ ihbody ih =>
    refine mapM_tree_cons rfl ?_ (ih _ Z)
    have hbody := ihbody (A ++ name :: labels ++ [opening]) (closing :: (flatten ps ++ Z))
    have hlen : (A ++ name :: labels ++ [opening]).length = A.length + 1 + labels.length + 1 := by
      simp only [List.length_append, List.length_cons, List.length_nil]
      omega
    have hcut : A ++ name :: labels ++ [opening] ++ (flatten qs ++ closing :: (flatten ps ++ Z)) =
        A ++ ((Piece.block name labels opening (flatten qs) closing).tokens ++ (flatten ps ++ Z)) := by
      simp [Piece.tokens]
    rw [hlen, hcut] at hbody
    rw [Statement.tree, Block.body_eq (statements_block hqs hc), hbody]
    rfl

end Growth

/-! ## Trees before and after -/

/-- The trees agree but for the values of some blocks at the top: in each of these, which is selected,
the first value for the name of the selector differs.  The blocks are listed by address. -/
inductive Retagged (selector : Selector) : (before after : List Tree) → (changed : List Text) → Prop
  | nil : Retagged selector [] [] []
  | same {before after : List Tree} {changed : List Text} (tree : Tree)
      (rest : Retagged selector before after changed) :
      Retagged selector (tree :: before) (tree :: after) changed
  | changed {kind value value' : Text} {labels : List Text} {front behind before after : List Tree}
      {changed : List Text} (selected : selector.selects ⟨kind, labels, 0, 0⟩ = true)
      (first : ∀ tree ∈ front, tree.assigns selector.name = false) (differs : value ≠ value')
      (rest : Retagged selector before after changed) :
      Retagged selector
        (.block kind labels (front ++ .assign selector.name value :: behind) :: before)
        (.block kind labels (front ++ .assign selector.name value' :: behind) :: after)
        (Block.address ⟨kind, labels, 0, 0⟩ :: changed)

section Retagging

variable {selector : Selector} {before after more more' : List Tree} {changed later : List Text}

theorem Retagged.append (h : Retagged selector before after changed)
    (h' : Retagged selector more more' later) :
    Retagged selector (before ++ more) (after ++ more') (changed ++ later) := by
  induction h with
  | nil => exact h'
  | same tree _ ih => exact .same tree ih
  | changed hs hfirst hne _ ih => exact .changed hs hfirst hne ih

theorem Retagged.refl (trees : List Tree) : Retagged selector trees trees [] := by
  induction trees with
  | nil => exact .nil
  | cons tree trees ih => exact .same tree ih

/-- Values aside, the trees are the same. -/
theorem Retagged.bare_eq (h : Retagged selector before after changed) :
    after.map Tree.bare = before.map Tree.bare := by
  induction h with
  | nil => rfl
  | same tree _ ih => rw [List.map_cons, List.map_cons, ih]
  | changed _ _ _ _ ih => simp [Tree.bare, ih]

end Retagging

section Cutting

variable {selector : Selector} {f : List Token → List Token} {p : Piece} {ps : List Piece} {x : Stretch}
  {file : List Stretch} {next : Option Token}

/-- The trees of a piece, and of the piece with another value. -/
theorem Cuts.exists_grows (h : Cuts selector p x) (hp : p.Fits next)
    (hf : ∀ v ∈ x.value?, Fillable (f v)) :
    ∃ (p' : Piece) (trees trees' : List Tree), p'.tokens = (x.refill f).tokens ∧
      p'.tokens.head? = p.tokens.head? ∧ (∀ next, p.Fits next → p'.Fits next) ∧
      Grows [p] trees ∧ Grows [p'] trees' ∧
      ∀ i, Retagged selector trees trees' ((x.edit? f i).toList.map Replacement.address) := by
  cases h with
  | still =>
    obtain ⟨trees, htrees⟩ := @TagBox.exists_grows [p] (by simpa using ⟨next, hp⟩)
    exact ⟨p, trees, trees, rfl, rfl, fun _ h => h, htrees, htrees, fun _ => .refl trees⟩
  | @site name opening key sign closing labels value before after hs hps hbefore hkey hv =>
    obtain ⟨hname, hlabels, ho, -, hc⟩ := hp
    obtain ⟨hinline, hne⟩ := hf value rfl
    have hps' := hps.exchange hinline
    have hfits := hps.fits
    obtain ⟨front, hfront⟩ := @TagBox.exists_grows before fun p hp => hfits p (by simp [hp])
    obtain ⟨behind, hbehind⟩ := @TagBox.exists_grows after fun p hp => hfits p (by simp [hp])
    refine ⟨.block name labels opening (flatten (before ++ .assign key sign (f value) :: after)) closing,
      _, _, ?_, rfl, fun _ _ => ⟨hname, hlabels, ho, hps'.nested, hc⟩,
      .block hc hps (hfront.append (.assign hv hbehind)) .nil,
      .block hc hps' (hfront.append (.assign hne hbehind)) .nil, fun i => ?_⟩
    · simp [Stretch.refill, Stretch.tokens, Piece.tokens]
    · rw [hkey]
      by_cases hsame : print (f value) = print value
      · rw [hsame, Stretch.edit?, if_pos hsame]
        exact .refl _
      · rw [Stretch.edit?, if_neg hsame]
        exact .changed hs (hfront.assigns hbefore) (Ne.symm hsame) .nil

/-- The trees of a file, and of the file with other values. -/
theorem exists_grows_refill (hcuts : List.Forall₂ (Cuts selector) ps file) (h : Fitting ps)
    (hf : ∀ v ∈ valuesOf file, Fillable (f v)) :
    flatten ps = joined file ∧
    ∃ (ps' : List Piece) (trees trees' : List Tree), flatten ps' = joined (file.map (Stretch.refill f)) ∧
      (flatten ps').head? = (flatten ps).head? ∧ Fitting ps' ∧ Grows ps trees ∧ Grows ps' trees' ∧
      ∀ i, Retagged selector trees trees' ((editsAt f i file).map Replacement.address) := by
  induction hcuts with
  | nil => exact ⟨rfl, [], [], [], rfl, rfl, trivial, .nil, .nil, fun _ => .nil⟩
  | @cons p x ps file hx _ ih =>
    obtain ⟨p', front, front', hp', hhead, hfits, hgrows, hgrows', htag⟩ :=
      hx.exists_grows h.1 fun v hv => hf v (mem_valuesOf_cons.2 (Or.inl hv))
    obtain ⟨hfile, ps', trees, trees', hps', hheads, hfitting, htrees, htrees', htags⟩ :=
      ih h.2 fun v hv => hf v (mem_valuesOf_cons.2 (Or.inr hv))
    refine ⟨?_, p' :: ps', front ++ trees, front' ++ trees', ?_, ?_, ⟨hheads ▸ hfits _ h.1, hfitting⟩,
      hgrows.append htrees, hgrows'.append htrees', fun i => ?_⟩
    · rw [flatten_cons, joined_cons, (hx.cut h.1).tokens_eq, hfile]
    · rw [flatten_cons, hp', hps', List.map_cons, joined_cons]
    · simp [hhead, hheads]
    · rw [editsAt, List.map_append]
      exact (htag i).append (htags _)

end Cutting

theorem outline_of_grows {ps : List Piece} {trees : List Tree} {last : Token} (hlast : last.kind = .eof)
    (h : Fitting ps) (hgrows : Grows ps trees) : outline (flatten ps ++ [last]) = .ok trees := by
  rw [outline, statements_of_pieces hlast h]
  exact hgrows.mapM_tree [] [last]

/-- A boxed text has the trees of the text, but for the values of the blocks that are reported as
changed. -/
theorem revise_box_outline {rendered path source : Text} {boxer : Boxer} {r : Revision}
    (hcompile : Template.compile rendered = .ok boxer.template) (hT : boxer.template.Bracketed)
    (hold : boxer.old = none) (h : revise path boxer .box source = .ok r) :
    ∃ tokens tokens' trees trees', tokenize source = .ok tokens ∧ tokenize r.output = .ok tokens' ∧
      outline tokens = .ok trees ∧ outline tokens' = .ok trees' ∧
      trees'.map Tree.bare = trees.map Tree.bare ∧
      Retagged boxer.selector trees trees' r.changed := by
  obtain ⟨ps, file, trail, f, hopen, hps, hcuts, hf, rfl⟩ := Opened.of_revise h
  obtain ⟨hfill, hopen'⟩ := hopen.exchange_box hcompile hT hold hf
  obtain ⟨hfile, ps', trees, trees', hps', -, hfitting, hgrows, hgrows', htags⟩ :=
    exists_grows_refill hcuts hps hfill
  have htrees := outline_of_grows (show (eofToken trail).kind = .eof from rfl) hps hgrows
  have htrees' := outline_of_grows (show (eofToken trail).kind = .eof from rfl) hfitting hgrows'
  rw [hfile] at htrees
  rw [hps'] at htrees'
  exact ⟨_, _, trees, trees', hopen.tokenize_eq, hopen'.tokenize_eq, htrees, htrees',
    (htags 0).bare_eq, htags 0⟩

/-- A boxer with a wrapper of two lines, in which a key is marked. -/
def listingBoxer : Boxer where
  template := {
    left := [⟨.openBracket, ['['], []⟩, ⟨.openBrace, ['{'], []⟩, ⟨.identifier, ['k'], []⟩,
      ⟨.equals, ['='], []⟩, ⟨.number, ['0'], []⟩, ⟨.closeBrace, ['}'], []⟩, ⟨.comma, [','], []⟩,
      ⟨.newline, ['\n'], []⟩]
    right := [⟨.closeBracket, [']'], []⟩]
    payloadLead := [] }
  matcher := ⟨[], [['k']]⟩

/-- A block with the attribute twice, and once more in a block inside of it. -/
theorem revise_box_outline_listed :
    ∃ (r : Revision) (tokens tokens' : List Token) (trees trees' : List Tree),
      revise ['p'] listingBoxer .box
        "resource r \x7bs {tags={k=1}}\ntags={k=1}\ntags={k=2}\n\x7d\nx=1\n".toList = .ok r ∧
      r.changed = ["resource.r".toList] ∧ tokenize r.output = .ok tokens' ∧
      outline tokens = .ok trees ∧ outline tokens' = .ok trees' ∧
      trees'.map Tree.bare = trees.map Tree.bare ∧
      Retagged listingBoxer.selector trees trees' r.changed := by
  have hcompile : Template.compile "[{k=0},\n/*<box>*/{}/*</box>*/]".toList =
      .ok listingBoxer.template := by decide +kernel
  have hrun : revise ['p'] listingBoxer .box
      "resource r \x7bs {tags={k=1}}\ntags={k=1}\ntags={k=2}\n\x7d\nx=1\n".toList =
    .ok ⟨"resource r \x7bs {tags={k=1}}\ntags=[{k=0},\n{k=1}]\ntags={k=2}\n\x7d\nx=1\n".toList,
      ["resource.r".toList]⟩ := by decide +kernel
  obtain ⟨tokens, tokens', trees, trees', -, htokens', htrees, htrees', hbare, htags⟩ :=
    revise_box_outline hcompile ⟨⟨_, rfl, rfl⟩, ⟨_, rfl, rfl⟩, by decide⟩ rfl hrun
  exact ⟨_, tokens, tokens', trees, trees', hrun, rfl, htokens', htrees, htrees', hbare, htags⟩

end TagBox
