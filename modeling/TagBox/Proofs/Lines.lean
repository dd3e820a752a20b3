import TagBox.Proofs.Sites

/-!
# Bodies line by line

A body as it is usually written is a list of lines: blank lines, comments, attributes and blocks, with
bodies of the same form in the braces of blocks.  The reader of statements does not know of lines, but
of such a body it recovers every attribute and every block, at each level and at any place in a file.

* `Body` — bodies made up of lines; `Body.tokens` are their tokens.
* `Body.value?` — the value of an attribute in the body itself.
* `Recovered` — statements that are those of a body, down to the last level.
* `statements_body` — what is read of a body.
-/

namespace TagBox

/-- The tokens of a kind. -/
abbrev TokenOf (kind : Kind) : Type :=
  { t : Token // t.kind = kind }

/-- The labels of blocks: identifiers and quoted literals. -/
abbrev LabelToken : Type :=
  { t : Token // t.isLabel = true }

/-- The values of attributes: tokens whose brackets nest, and in which no line ends outside of
brackets. -/
abbrev ValueTokens : Type :=
  { tokens : List Token // tokens ≠ [] ∧ Inline tokens }

/-- A body made up of lines: its first line, in the form of one of the constructors, and the rest. -/
inductive Body where
  | empty
  | blank (stop : TokenOf .newline) (rest : Body)
  | comment (remark : TokenOf .comment) (stop : TokenOf .newline) (rest : Body)
  | assign (name : TokenOf .identifier) (sign : TokenOf .equals) (value : ValueTokens)
      (stop : TokenOf .newline) (rest : Body)
  | block (kind : TokenOf .identifier) (labels : List LabelToken) (opening : TokenOf .openBrace)
      (inner : Body) (closing : TokenOf .closeBrace) (stop : TokenOf .newline) (rest : Body)

namespace Body

/-- The tokens of a body. -/
def tokens : Body → List Token
  | empty => []
  | blank stop rest => stop.val :: rest.tokens
  | comment remark stop rest => remark.val :: stop.val :: rest.tokens
  | assign name sign value stop rest =>
    name.val :: sign.val :: (value.val ++ stop.val :: rest.tokens)
  | block kind labels opening inner closing stop rest =>
    kind.val :: (labels.map Subtype.val ++
      opening.val :: (inner.tokens ++ closing.val :: stop.val :: rest.tokens))

/-- Positions of the value of the first attribute `key` in the lines of the body itself, if the body
starts at position `i`.  Bodies in it are passed by. -/
def value? (key : Text) (i : Nat) : Body → Option Span
  | empty => none
  | blank _ rest => rest.value? key (i + 1)
  | comment _ _ rest => rest.value? key (i + 2)
  | assign name _ value _ rest =>
    if name.val.text = key then some ⟨i + 2, i + 1 + value.val.length⟩
    else rest.value? key (i + value.val.length + 3)
  | block _ labels _ inner _ _ rest =>
    rest.value? key (i + labels.length + inner.tokens.length + 4)

end Body

/-- The statements are those of the body that starts at position `i`: its attributes and blocks in order,
each with the positions of the tokens it is made up of.  From the body of each of its blocks the same is
read in turn, and a search in a block for an attribute gives the one in the lines of its own body. -/
inductive Recovered (tokens : List Token) : Nat → Body → List Statement → Prop
  | empty (i : Nat) : Recovered tokens i .empty []
  | blank {i : Nat} {stop : TokenOf .newline} {rest : Body} {found : List Statement}
      (later : Recovered tokens (i + 1) rest found) : Recovered tokens i (.blank stop rest) found
  | comment {i : Nat} {remark : TokenOf .comment} {stop : TokenOf .newline} {rest : Body}
      {found : List Statement} (later : Recovered tokens (i + 2) rest found) :
      Recovered tokens i (.comment remark stop rest) found
  | assign {i : Nat} {name : TokenOf .identifier} {sign : TokenOf .equals} {value : ValueTokens}
      {stop : TokenOf .newline} {rest : Body} {found : List Statement} {a : Attribute}
      (name_eq : a.name = name.val.text) (first : a.value.first = i + 2)
      (last : a.value.last = i + 1 + value.val.length) (slice : a.value.slice tokens = value.val)
      (later : Recovered tokens (i + value.val.length + 3) rest found) :
      Recovered tokens i (.assign name sign value stop rest) (.assign a :: found)
  | block {i : Nat} {kind : TokenOf .identifier} {labels : List LabelToken}
      {opening : TokenOf .openBrace} {inner : Body} {closing : TokenOf .closeBrace}
      {stop : TokenOf .newline} {rest : Body} {within found : List Statement} {b : Block}
      (kind_eq : b.kind = kind.val.text) (labels_eq : b.labels = labels.map fun l => l.val.text)
      (opening_eq : b.opening = i + 1 + labels.length)
      (closing_eq : b.closing = b.opening + 1 + inner.tokens.length)
      (at_opening : tokens[b.opening]? = some opening.val)
      (at_closing : tokens[b.closing]? = some closing.val)
      (read : b.statements tokens = .ok within)
      (body : Recovered tokens (b.opening + 1) inner within)
      (search : ∀ key, b.attribute? tokens key = .ok (inner.value? key (b.opening + 1)))
      (later : Recovered tokens (i + labels.length + inner.tokens.length + 4) rest found) :
      Recovered tokens i (.block kind labels opening inner closing stop rest) (.block b :: found)

/-! ## One line -/

section Step

variable {limit next i : Nat} {t name sign stop opening closing : Token}
  {ts value labels inner more : List Token} {found : Option Statement}

/-- A reading that takes some tokens as one statement, or passes them by, goes on behind them. -/
theorem statementsFrom_step (hnext : next ≤ i) (hlimit : i + 1 + ts.length ≤ limit)
    (h : statementAt limit i t (ts ++ more) = .ok (found, i + 1 + ts.length)) :
    statementsFrom limit next i (t :: (ts ++ more)) =
      (statementsFrom limit (i + 1 + ts.length) (i + 1 + ts.length) more).map (found.toList ++ ·) := by
  rw [statementsFrom, if_neg (by omega), if_neg (by omega), h]
  simp only [statementsFrom_skip ts (Nat.le_refl _) hlimit]

/-- Line ends and comments are passed by. -/
theorem statementsFrom_gap (h : t.isGap = true) (hnext : next ≤ i) (hlimit : i + 1 ≤ limit) :
    statementsFrom limit next i (t :: more) = statementsFrom limit (i + 1) (i + 1) more := by
  have hplain : t.kind ≠ .identifier ∧ t.kind.isOpening = false ∧ t.kind.isClosing = false := by
    cases hk : t.kind <;> simp_all [Token.isGap, Kind.isOpening, Kind.isClosing]
  have hstep := @statementsFrom_step limit next i t [] more none hnext hlimit
    (by simp [statementAt, hplain])
  rw [List.nil_append] at hstep
  rw [hstep]
  cases statementsFrom limit (i + 1) (i + 1) more <;> rfl

/-- The line of an attribute. -/
theorem statementsFrom_assign (hname : name.kind = .identifier) (hsign : sign.kind = .equals)
    (hne : value ≠ []) (hvalue : Inline value) (hstop : stop.kind = .newline) (hnext : next ≤ i)
    (hlimit : i + value.length + 3 ≤ limit) :
    statementsFrom limit next i (name :: sign :: (value ++ stop :: more)) =
      (statementsFrom limit (i + value.length + 3) (i + value.length + 3) more).map
        (.assign ⟨name.text, ⟨i + 2, i + 1 + value.length⟩⟩ :: ·) := by
  have hend : stop.kind.endsLine = true := by rw [hstop]; rfl
  have hgap : stop.isGap = true := by simp [Token.isGap, hstop]
  have hlen : i + 1 + (sign :: value).length = i + 2 + value.length := by
    rw [List.length_cons]
    omega
  have hstep := @statementsFrom_step limit next i name (sign :: value) (stop :: more)
    (some (.assign ⟨name.text, ⟨i + 2, i + 1 + value.length⟩⟩)) hnext (by rw [hlen]; omega) (by
      rw [statementAt, if_pos hname, List.cons_append, namedStatement_assign hsign hvalue (by omega)
        fun _ => ⟨stop, more, rfl, hend⟩, Piece.statement?, if_neg hne, hlen])
  have hbehind : i + 2 + value.length + 1 = i + value.length + 3 := by omega
  rw [hlen, statementsFrom_gap hgap (Nat.le_refl _) (by omega), hbehind] at hstep
  exact hstep

/-- The lines of a block. -/
theorem statementsFrom_block (hname : name.kind = .identifier) (hlabels : ∀ l ∈ labels, l.isLabel = true)
    (ho : opening.kind = .openBrace) (hinner : Nested inner) (hc : closing.kind = .closeBrace)
    (hstop : stop.kind = .newline) (hnext : next ≤ i)
    (hlimit : i + labels.length + inner.length + 4 ≤ limit) :
    statementsFrom limit next i (name :: (labels ++ opening :: (inner ++ closing :: stop :: more))) =
      (statementsFrom limit (i + labels.length + inner.length + 4) (i + labels.length + inner.length + 4)
        more).map (.block ⟨name.text, labels.map Token.text, i + 1 + labels.length,
          i + 1 + labels.length + 1 + inner.length⟩ :: ·) := by
  have hgap : stop.isGap = true := by simp [Token.isGap, hstop]
  have hlen : i + 1 + (labels ++ (opening :: inner ++ [closing])).length =
      i + labels.length + inner.length + 3 := by
    simp only [List.length_append, List.length_cons, List.length_nil]
    omega
  have hcut : labels ++ (opening :: inner ++ [closing]) ++ stop :: more =
      labels ++ (opening :: inner ++ closing :: (stop :: more)) := by simp
  have hstep := @statementsFrom_step limit next i name (labels ++ (opening :: inner ++ [closing]))
    (stop :: more) ((Piece.block name labels opening inner closing).statement? i) hnext
    (by rw [hlen]; omega) (by
      rw [statementAt, if_pos hname, hcut, namedStatement_block hlabels ho hinner hc (by omega), hlen])
  rw [hlen, hcut, statementsFrom_gap hgap (Nat.le_refl _) (by omega)] at hstep
  exact hstep

end Step

/-! ## Whole bodies -/

section Whole

variable {tokens A Z : List Token} {i : Nat} {body : Body} {found : List Statement}

theorem isLabel_of_mem {labels : List LabelToken} : ∀ l ∈ labels.map Subtype.val, l.isLabel = true := by
  intro l hl
  obtain ⟨l, -, rfl⟩ := List.mem_map.1 hl
  exact l.property

/-- The brackets of a body nest. -/
theorem Body.nested (body : Body) : Nested body.tokens := by
  -- a token that is no bracket in front of nested ones
  have hplain : ∀ {t : Token} {ts : List Token}, t.kind.isBracket = false → Nested ts →
      Nested (t :: ts) := by
    intro t ts ht h
    obtain ⟨ho, hc⟩ : t.kind.isOpening = false ∧ t.kind.isClosing = false := by
      simpa [Kind.isBracket] using ht
    exact h.cons ho hc rfl
  induction body with
  | empty => rfl
  | blank stop rest ih => exact hplain (by rw [stop.property]; rfl) ih
  | comment remark stop rest ih =>
    exact hplain (by rw [remark.property]; rfl) (hplain (by rw [stop.property]; rfl) ih)
  | assign name sign value stop rest ih =>
    refine hplain (by rw [name.property]; rfl) (hplain (by rw [sign.property]; rfl) ?_)
    exact value.property.2.nested.append (hplain (by rw [stop.property]; rfl) ih)
  | block kind labels opening inner closing stop rest ihinner ih =>
    refine hplain (by rw [kind.property]; rfl) ((nested_of_labels isLabel_of_mem).append ?_)
    have hrest : Nested (stop.val :: rest.tokens) := hplain (by rw [stop.property]; rfl) ih
    exact hrest.group ihinner (by rw [opening.property, closing.property]; rfl)

/-- A search for an attribute among the statements of a body gives the one in its own lines. -/
theorem Recovered.valueIn_eq (h : Recovered tokens i body found) (key : Text) :
    valueIn key found = body.value? key i := by
  induction h with
  | empty => rfl
  | blank _ ih => exact ih
  | comment _ ih => exact ih
  | @assign i name sign value stop rest found a hname hfirst hlast hslice _ ih =>
    have hspan : a.value = ⟨i + 2, i + 1 + value.val.length⟩ := by rw [← hfirst, ← hlast]
    rw [Body.value?, ← ih, ← hname, ← hspan]
    unfold valueIn
    rw [List.findSome?_cons]
    by_cases hkey : a.name = key
    · simp only [if_pos hkey]
    · simp only [if_neg hkey]
  | block _ _ _ _ _ _ _ _ _ _ _ ih => exact ih

theorem drop_of_drop_append (front : List Token) {back : List Token}
    (h : tokens.drop i = front ++ back) :
    tokens.drop (i + front.length) = back := by
  rw [← List.drop_drop, h, List.drop_left]

theorem getElem?_of_drop {t : Token} {back : List Token} (h : tokens.drop i = t :: back) :
    tokens[i]? = some t := by
  have hget : (tokens.drop i)[0]? = some t := by rw [h]; rfl
  rwa [List.getElem?_drop, Nat.add_zero] at hget

/-- A body is read wherever it stands. -/
theorem exists_recovered (body : Body) {Z : List Token} {i next : Nat} (hnext : next ≤ i)
    (hat : tokens.drop i = body.tokens ++ Z) :
    ∃ found, statementsFrom (i + body.tokens.length) next i (body.tokens ++ Z) = .ok found ∧
      Recovered tokens i body found := by
  induction body generalizing i next Z with
  | empty =>
    refine ⟨[], ?_, .empty i⟩
    cases Z with
    | nil => rfl
    | cons t Z => exact if_pos (Nat.le_refl i)
  | blank stop rest ih =>
    have hgap : stop.val.isGap = true := by simp [Token.isGap, stop.property]
    have hlen : i + (Body.blank stop rest).tokens.length = i + 1 + rest.tokens.length := by
      simp only [Body.tokens, List.length_cons]
      omega
    obtain ⟨found, hfound, hrest⟩ := ih (Nat.le_refl (i + 1)) (drop_of_drop_append [stop.val] hat)
    refine ⟨found, ?_, .blank hrest⟩
    rw [hlen, ← hfound]
    exact statementsFrom_gap hgap hnext (by omega)
  | comment remark stop rest ih =>
    have hremark : remark.val.isGap = true := by simp [Token.isGap, remark.property]
    have hgap : stop.val.isGap = true := by simp [Token.isGap, stop.property]
    have hlen : i + (Body.comment remark stop rest).tokens.length = i + 2 + rest.tokens.length := by
      simp only [Body.tokens, List.length_cons]
      omega
    obtain ⟨found, hfound, hrest⟩ :=
      ih (Nat.le_refl (i + 2)) (drop_of_drop_append [remark.val, stop.val] hat)
    refine ⟨found, ?_, .comment hrest⟩
    rw [hlen, ← hfound]
    exact (statementsFrom_gap hremark hnext (by omega)).trans
      (statementsFrom_gap hgap (Nat.le_refl _) (by omega))
  | assign name sign value stop rest ih =>
    have hlen : i + (Body.assign name sign value stop rest).tokens.length =
        i + value.val.length + 3 + rest.tokens.length := by
      simp only [Body.tokens, List.length_cons, List.length_append]
      omega
    have hcut : (Body.assign name sign value stop rest).tokens ++ Z =
        name.val :: sign.val :: (value.val ++ stop.val :: (rest.tokens ++ Z)) := by
      simp [Body.tokens]
    rw [hcut] at hat ⊢
    have hvalue : tokens.drop (i + 2) = value.val ++ stop.val :: (rest.tokens ++ Z) :=
      drop_of_drop_append [name.val, sign.val] hat
    have hbehind : tokens.drop (i + value.val.length + 3) = rest.tokens ++ Z := by
      have hstop := drop_of_drop_append [stop.val] (drop_of_drop_append value.val hvalue)
      rwa [List.length_singleton, show i + 2 + value.val.length + 1 = i + value.val.length + 3 by omega]
        at hstop
    obtain ⟨found, hfound, hrest⟩ := ih (Nat.le_refl _) hbehind
    refine ⟨_, ?_, .assign (a := ⟨name.val.text, i + 2, i + 1 + value.val.length⟩) rfl rfl rfl ?_ hrest⟩
    · rw [hlen, statementsFrom_assign name.property sign.property value.property.1 value.property.2
        stop.property hnext (by omega), hfound]
      rfl
    · rw [Span.slice, hvalue]
      exact List.take_left' (by simp only; omega)
  | block kind labels opening inner closing stop rest ihinner ih =>
    have hlen : i + (Body.block kind labels opening inner closing stop rest).tokens.length =
        i + labels.length + inner.tokens.length + 4 + rest.tokens.length := by
      simp only [Body.tokens, List.length_cons, List.length_append, List.length_map]
      omega
    have hcut : (Body.block kind labels opening inner closing stop rest).tokens ++ Z =
        kind.val :: (labels.map Subtype.val ++ opening.val ::
          (inner.tokens ++ closing.val :: stop.val :: (rest.tokens ++ Z))) := by
      simp [Body.tokens]
    rw [hcut] at hat ⊢
    -- the places of the braces and of the two bodies, from left to right
    have hopening : tokens.drop (i + 1 + labels.length) = opening.val ::
        (inner.tokens ++ closing.val :: stop.val :: (rest.tokens ++ Z)) := by
      have hlabels := drop_of_drop_append (labels.map Subtype.val) (drop_of_drop_append [kind.val] hat)
      rwa [List.length_singleton, List.length_map] at hlabels
    have hinner : tokens.drop (i + 1 + labels.length + 1) =
        inner.tokens ++ closing.val :: stop.val :: (rest.tokens ++ Z) :=
      drop_of_drop_append [opening.val] hopening
    have hclosing := drop_of_drop_append inner.tokens hinner
    have hbehind : tokens.drop (i + labels.length + inner.tokens.length + 4) = rest.tokens ++ Z := by
      have hstop := drop_of_drop_append [closing.val, stop.val] hclosing
      rwa [List.length_cons, List.length_singleton, show i + 1 + labels.length + 1 + inner.tokens.length +
        (1 + 1) = i + labels.length + inner.tokens.length + 4 by omega] at hstop
    obtain ⟨within, hwithin, hbody⟩ := ihinner (Nat.zero_le _) hinner
    obtain ⟨found, hfound, hrest⟩ := ih (Nat.le_refl _) hbehind
    let b : Block := ⟨kind.val.text, labels.map fun l => l.val.text, i + 1 + labels.length,
      i + 1 + labels.length + 1 + inner.tokens.length⟩
    have hread : b.statements tokens = .ok within := by
      rw [Block.statements, statements, hinner]
      exact hwithin
    refine ⟨.block b :: found, ?_, .block rfl rfl rfl rfl (getElem?_of_drop hopening)
      (getElem?_of_drop hclosing) hread hbody (fun key => ?_) hrest⟩
    · rw [hlen, statementsFrom_block kind.property isLabel_of_mem opening.property inner.nested
        closing.property stop.property hnext (by rw [List.length_map]; omega), List.length_map, hfound]
      simp [Except.map, b]
    · have hsearch : b.attribute? tokens key = (b.statements tokens).map (valueIn key) := rfl
      rw [hsearch, hread, ← hbody.valueIn_eq key, Except.map]

end Whole

/-- Of a body made up of lines, anywhere between other tokens, exactly its attributes and blocks are
read, and so on in each of its blocks. -/
theorem statements_body (A Z : List Token) (body : Body) :
    ∃ found, statements (A ++ (body.tokens ++ Z)) A.length (A.length + body.tokens.length) = .ok found ∧
      Recovered (A ++ (body.tokens ++ Z)) A.length body found := by
  obtain ⟨found, hfound, hbody⟩ :=
    @exists_recovered (A ++ (body.tokens ++ Z)) body Z A.length 0 (Nat.zero_le _) List.drop_left
  exact ⟨found, by rw [statements, List.drop_left, hfound], hbody⟩

end TagBox
