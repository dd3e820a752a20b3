import TagBox.Box.Boxer
import TagBox.Proofs.Outline

/-!
# Values that can be exchanged

The values that a run looks at are found by position: blocks at the top of a file, and in each selected
block the first attribute of a given name.  Here a file is cut into stretches instead, some of which
hold such a value.  Any other value on one line, brackets aside, can be put in its place, and is then
found there.

* `tagValues` — the values that a selector is for, with their blocks.
* `Stretch`, `joined`, `spansAt` — a file with its values, and where they stand.
* `Cuts` — which stretch a piece of a file becomes.
* `exists_stretches` — every readable file can be cut so.
* `finds_of_cuts` — the values of such a file are found, also after they have been exchanged.
-/

namespace TagBox

/-- The addresses of the selected blocks that have the attribute, with the positions of its value. -/
def tagValues (selector : Selector) (tokens : List Token) :
    List Block → Except NestingError (List (Text × Span))
  | [] => .ok []
  | block :: more =>
    if selector.selects block then
      match block.attribute? tokens selector.name with
      | .error e => .error e
      | .ok value =>
        (tagValues selector tokens more).map ((value.map fun span => (block.address, span)).toList ++ ·)
    else tagValues selector tokens more

section TagValues

variable {selector : Selector} {tokens : List Token} {blocks more : List Block}
  {spans later : List (Text × Span)}

theorem tagValues_append (h : tagValues selector tokens blocks = .ok spans)
    (h' : tagValues selector tokens more = .ok later) :
    tagValues selector tokens (blocks ++ more) = .ok (spans ++ later) := by
  induction blocks generalizing spans with
  | nil =>
    obtain rfl : [] = spans := Except.ok.inj h
    exact h'
  | cons block blocks ih =>
    rw [List.cons_append, tagValues] at *
    by_cases hs : selector.selects block = true
    · rw [if_pos hs] at h ⊢
      cases hvalue : block.attribute? tokens selector.name with
      | error e => simp [hvalue] at h
      | ok value =>
        simp only [hvalue] at h ⊢
        obtain ⟨spans, hspans, rfl⟩ := map_eq_ok_iff.1 h
        rw [ih hspans]
        simp [Except.map]
    · rw [if_neg hs] at h ⊢
      exact ih h

/-- Each value belongs to a selected block. -/
theorem exists_block_of_mem_tagValues (h : tagValues selector tokens blocks = .ok spans)
    {address : Text} {span : Span} (hin : (address, span) ∈ spans) :
    ∃ block ∈ blocks, selector.selects block = true ∧
      block.attribute? tokens selector.name = .ok (some span) := by
  induction blocks generalizing spans with
  | nil =>
    obtain rfl : [] = spans := Except.ok.inj h
    simp at hin
  | cons block blocks ih =>
    rw [tagValues] at h
    by_cases hs : selector.selects block = true
    · rw [if_pos hs] at h
      cases hvalue : block.attribute? tokens selector.name with
      | error e => simp [hvalue] at h
      | ok value =>
        simp only [hvalue] at h
        obtain ⟨later, hlater, rfl⟩ := map_eq_ok_iff.1 h
        rcases List.mem_append.1 hin with hin | hin
        · cases value with
          | none => simp at hin
          | some found =>
            obtain ⟨-, rfl⟩ : address = block.address ∧ span = found := by simpa using hin
            exact ⟨block, by simp, hs, hvalue⟩
        · obtain ⟨b, hb, hrest⟩ := ih hlater hin
          exact ⟨b, by simp [hb], hrest⟩
    · rw [if_neg hs] at h
      obtain ⟨b, hb, hrest⟩ := ih h hin
      exact ⟨b, by simp [hb], hrest⟩

end TagValues

/-! ## The attribute in a body -/

/-- Is the piece a value for the name? -/
def Piece.assigns (key : Text) : Piece → Bool
  | .assign name _ value => name.text == key && !value.isEmpty
  | _ => false

section Attribute

variable {key : Text} {i : Nat} {p : Piece} {ps qs : List Piece}

/-- Positions of the first value for a name. -/
def valueIn (key : Text) (found : List Statement) : Option Span :=
  found.findSome? fun
    | .assign a => if a.name = key then some a.value else none
    | .block _ => none

theorem valueIn_eq_none (h : ∀ p ∈ ps, p.assigns key = false) :
    valueIn key (statementsAt i ps) = none := by
  induction ps generalizing i with
  | nil => rfl
  | cons p ps ih =>
    have hrest := @ih (i + p.tokens.length) fun q hq => h q (by simp [hq])
    have hp := h p (by simp)
    unfold valueIn at hrest ⊢
    rw [statementsAt, List.findSome?_append, hrest, Option.or_none]
    cases p with
    | assign name sign value =>
      by_cases hv : value = []
      · simp [Piece.statement?, hv]
      · simpa [Piece.statement?, Piece.assigns, hv] using hp
    | _ => simp [Piece.statement?]

theorem valueIn_assign {name sign : Token} {value : List Token}
    (h : ∀ p ∈ ps, p.assigns key = false) (hname : name.text = key) (hv : value ≠ []) :
    valueIn key (statementsAt i (ps ++ .assign name sign value :: qs)) =
      some ⟨i + (flatten ps).length + 2, i + (flatten ps).length + 1 + value.length⟩ := by
  have hnone := @valueIn_eq_none key i ps h
  unfold valueIn at hnone ⊢
  rw [statementsAt_append, List.findSome?_append, hnone]
  simp [statementsAt, Piece.statement?, hv, hname]

/-- The pieces have no value for the name, or one of them is the first. -/
theorem exists_assign_or (key : Text) (ps : List Piece) :
    (∀ p ∈ ps, p.assigns key = false) ∨
      ∃ before name sign value after, ps = before ++ .assign name sign value :: after ∧
        (∀ p ∈ before, p.assigns key = false) ∧ name.text = key ∧ value ≠ [] := by
  induction ps with
  | nil => exact Or.inl (by simp)
  | cons p ps ih =>
    by_cases hp : p.assigns key = true
    · cases p with
      | assign name sign value =>
        obtain ⟨hname, hv⟩ : name.text = key ∧ value ≠ [] := by simpa [Piece.assigns] using hp
        exact Or.inr ⟨[], name, sign, value, ps, rfl, by simp, hname, hv⟩
      | _ => simp [Piece.assigns] at hp
    · rcases ih with hnone | ⟨before, name, sign, value, after, rfl, hbefore, hname, hv⟩
      · exact Or.inl (by simpa [hp] using hnone)
      · exact Or.inr ⟨p :: before, name, sign, value, after, rfl, by simpa [hp] using hbefore, hname, hv⟩

/-- Another value on one line can stand in the place of a value. -/
theorem Fitting.exchange {name sign : Token} {value value' : List Token} (hv : Inline value')
    (h : Fitting (ps ++ .assign name sign value :: qs)) :
    Fitting (ps ++ .assign name sign value' :: qs) := by
  induction ps with
  | nil =>
    obtain ⟨⟨hname, hsign, -, hnext⟩, hqs⟩ := h
    exact ⟨⟨hname, hsign, hv, hnext⟩, hqs⟩
  | cons p ps ih =>
    have hhead : (flatten (ps ++ .assign name sign value' :: qs)).head? =
        (flatten (ps ++ .assign name sign value :: qs)).head? := by
      simp [Piece.tokens]
    exact ⟨hhead ▸ h.1, ih h.2⟩

/-- The statements of a block, from the pieces of its body. -/
theorem statements_block {A Z labels : List Token} {name opening closing : Token} (h : Fitting ps)
    (hc : closing.kind = .closeBrace) :
    Block.statements ⟨name.text, labels.map Token.text, A.length + 1 + labels.length,
        A.length + 1 + labels.length + 1 + (flatten ps).length⟩
      (A ++ ((Piece.block name labels opening (flatten ps) closing).tokens ++ Z)) =
      .ok (statementsAt (A.length + 1 + labels.length + 1) ps) := by
  have hcut : A ++ ((Piece.block name labels opening (flatten ps) closing).tokens ++ Z) =
      (A ++ name :: labels ++ [opening]) ++ (flatten ps ++ closing :: Z) := by
    simp [Piece.tokens]
  have hlen : A.length + 1 + labels.length + 1 = (A ++ name :: labels ++ [opening]).length := by
    simp only [List.length_append, List.length_cons, List.length_nil]
    omega
  have htail : ∀ t ∈ (closing :: Z).head?, t.kind.isClosing = true := by simp [hc, Kind.isClosing]
  rw [Block.statements, statements, hcut, hlen, List.drop_left,
    statementsFrom_flatten h (Nat.zero_le _) htail]

/-- The attribute of a block, from the pieces of its body. -/
theorem attribute?_block {A Z labels : List Token} {name opening closing : Token} (h : Fitting ps)
    (hc : closing.kind = .closeBrace) :
    Block.attribute? ⟨name.text, labels.map Token.text, A.length + 1 + labels.length,
        A.length + 1 + labels.length + 1 + (flatten ps).length⟩
      (A ++ ((Piece.block name labels opening (flatten ps) closing).tokens ++ Z)) key =
      .ok (valueIn key (statementsAt (A.length + 1 + labels.length + 1) ps)) := by
  rw [Block.attribute?, statements_block h hc]
  rfl

end Attribute

/-! ## Stretches of a file -/

/-- A stretch of a file: one that stays as it is, or the block at an address, cut at the value that may
be exchanged. -/
inductive Stretch where
  | still (tokens : List Token)
  | site (address : Text) (front value behind : List Token)

namespace Stretch

def tokens : Stretch → List Token
  | still tokens => tokens
  | site _ front value behind => front ++ (value ++ behind)

def value? : Stretch → Option (List Token)
  | still _ => none
  | site _ _ value _ => some value

/-- The stretch with another value. -/
def refill (f : List Token → List Token) : Stretch → Stretch
  | still tokens => still tokens
  | site address front value behind => site address front (f value) behind

/-- The address and the value, if the first token stands at position `i`. -/
def span? (i : Nat) : Stretch → Option (Text × Span)
  | still _ => none
  | site address front value _ =>
    some (address, ⟨i + front.length, i + front.length + value.length - 1⟩)

end Stretch

/-- The tokens of stretches. -/
def joined (file : List Stretch) : List Token :=
  file.flatMap Stretch.tokens

/-- The values of stretches. -/
def valuesOf (file : List Stretch) : List (List Token) :=
  file.filterMap Stretch.value?

/-- The values of stretches that start at position `i`, by address and position. -/
def spansAt (i : Nat) : List Stretch → List (Text × Span)
  | [] => []
  | x :: more => (x.span? i).toList ++ spansAt (i + x.tokens.length) more

/-- What may stand in the place of a value. -/
def Fillable (value : List Token) : Prop :=
  Inline value ∧ value ≠ []

/-- The blocks among statements. -/
def blocksIn (found : List Statement) : List Block :=
  found.filterMap fun
    | .block b => some b
    | .assign _ => none

section Stretches

variable {selector : Selector} {f : List Token → List Token} {p : Piece} {ps : List Piece}
  {x : Stretch} {file : List Stretch}

@[simp]
theorem joined_cons (x : Stretch) (file : List Stretch) : joined (x :: file) = x.tokens ++ joined file :=
  rfl

theorem mem_valuesOf_cons {v : List Token} :
    v ∈ valuesOf (x :: file) ↔ v ∈ x.value? ∨ v ∈ valuesOf file := by
  cases hv : x.value? <;> simp [valuesOf, hv, eq_comm]

theorem blocksIn_append (found later : List Statement) :
    blocksIn (found ++ later) = blocksIn found ++ blocksIn later := by
  simp [blocksIn]

/-- The piece can be cut into the stretch: whatever is put in the place of the value, there is a piece
for it, and the value is found. -/
structure Cut (selector : Selector) (p : Piece) (x : Stretch) : Prop where
  tokens_eq : x.tokens = p.tokens
  fillable : ∀ v ∈ x.value?, Fillable v
  exchange : ∀ f : List Token → List Token, (∀ v ∈ x.value?, Fillable (f v)) →
    ∃ p' : Piece, p'.tokens = (x.refill f).tokens ∧ p'.tokens.head? = p.tokens.head? ∧
      (∀ next, p.Fits next → p'.Fits next) ∧
      ∀ A Z, tagValues selector (A ++ (p'.tokens ++ Z)) (blocksIn (p'.statement? A.length).toList) =
        .ok ((x.refill f).span? A.length).toList

/-- A piece without a value that the selector is for stays as it is. -/
theorem Cut.still (h : ∀ A Z, tagValues selector (A ++ (p.tokens ++ Z))
    (blocksIn (p.statement? A.length).toList) = .ok []) : Cut selector p (.still p.tokens) where
  tokens_eq := rfl
  fillable := by simp [Stretch.value?]
  exchange _ _ := ⟨p, rfl, rfl, fun _ h => h, h⟩

theorem tagValues_block {A Z labels : List Token} {name opening closing : Token} (h : Fitting ps)
    (hc : closing.kind = .closeBrace)
    (hs : selector.selects ⟨name.text, labels.map Token.text, 0, 0⟩ = true) :
    tagValues selector (A ++ ((Piece.block name labels opening (flatten ps) closing).tokens ++ Z))
      (blocksIn ((Piece.block name labels opening (flatten ps) closing).statement? A.length).toList) =
      .ok ((valueIn selector.name (statementsAt (A.length + 1 + labels.length + 1) ps)).map
        fun span => (Block.address ⟨name.text, labels.map Token.text, 0, 0⟩, span)).toList := by
  have hvalue := @attribute?_block selector.name ps A Z labels name opening closing h hc
  have hs' : selector.selects ⟨name.text, labels.map Token.text, A.length + 1 + labels.length,
      A.length + 1 + labels.length + 1 + (flatten ps).length⟩ = true := hs
  simp only [Piece.statement?, Option.toList_some, blocksIn, List.filterMap_cons, List.filterMap_nil,
    tagValues, if_pos hs', hvalue, Except.map, List.append_nil]
  rfl

/-- The stretch that is made of a piece: a selected block with the attribute is cut at its first value,
anything else stays as it is. -/
inductive Cuts (selector : Selector) : Piece → Stretch → Prop
  | still {p : Piece} (h : ∀ A Z, tagValues selector (A ++ (p.tokens ++ Z))
      (blocksIn (p.statement? A.length).toList) = .ok []) : Cuts selector p (.still p.tokens)
  | site {name opening key sign closing : Token} {labels value : List Token} {before after : List Piece}
      (selected : selector.selects ⟨name.text, labels.map Token.text, 0, 0⟩ = true)
      (fitting : Fitting (before ++ .assign key sign value :: after))
      (first : ∀ p ∈ before, p.assigns selector.name = false) (named : key.text = selector.name)
      (filled : value ≠ []) :
      Cuts selector
        (.block name labels opening (flatten (before ++ .assign key sign value :: after)) closing)
        (.site (Block.address ⟨name.text, labels.map Token.text, 0, 0⟩)
          (name :: labels ++ (opening :: flatten before ++ [key, sign])) value
          (flatten after ++ [closing]))

/-- The piece that a stretch is made of with another value. -/
theorem Cuts.cut {next : Option Token} (h : Cuts selector p x) (hp : p.Fits next) :
    Cut selector p x := by
  cases h with
  | still h => exact .still h
  | @site name opening key sign closing labels value before after hs hps hbefore hkey hv =>
    obtain ⟨hname, hlabels, ho, -, hc⟩ := hp
    refine ⟨?_, ?_, fun f hf => ?_⟩
    · simp [Stretch.tokens, Piece.tokens]
    · rintro v ⟨⟩
      exact ⟨hps.of_append.1.2.2.1, hv⟩
    · obtain ⟨hf, hne⟩ := hf value rfl
      have hps' := hps.exchange hf
      refine ⟨.block name labels opening (flatten (before ++ .assign key sign (f value) :: after))
        closing, ?_, rfl, fun _ _ => ⟨hname, hlabels, ho, hps'.nested, hc⟩, fun A Z => ?_⟩
      · simp [Stretch.refill, Stretch.tokens, Piece.tokens]
      · have hpos := List.length_pos_iff.2 hne
        rw [tagValues_block hps' hc hs, valueIn_assign hbefore hkey hne]
        simp only [Stretch.refill, Stretch.span?, List.length_append, List.length_cons,
          List.length_nil, Option.map_some, Option.toList_some, Except.ok.injEq, List.cons.injEq,
          Prod.mk.injEq, Span.mk.injEq, true_and, and_true]
        omega

theorem exists_cut (selector : Selector) {next : Option Token} (h : p.Fits next) :
    ∃ x, Cuts selector p x := by
  cases p with
  | block name labels opening inner closing =>
    obtain ⟨hname, hlabels, ho, hi, hc⟩ := h
    by_cases hs : selector.selects ⟨name.text, labels.map Token.text, 0, 0⟩ = true
    · obtain ⟨ps, rfl, hps⟩ := exists_pieces hi
      rcases exists_assign_or selector.name ps with
        hnone | ⟨before, key, sign, value, after, rfl, hbefore, hkey, hv⟩
      · refine ⟨_, .still fun A Z => ?_⟩
        rw [tagValues_block hps hc hs, valueIn_eq_none hnone]
        rfl
      · exact ⟨_, .site hs hps hbefore hkey hv⟩
    · refine ⟨_, .still fun A Z => ?_⟩
      have hs' : ∀ o c, selector.selects ⟨name.text, labels.map Token.text, o, c⟩ = false := fun _ _ =>
        (Bool.not_eq_true _).mp hs
      simp [Piece.statement?, blocksIn, tagValues, hs']
  | assign name sign value =>
    refine ⟨_, .still fun A Z => ?_⟩
    by_cases hv : value = [] <;> simp [Piece.statement?, blocksIn, tagValues, hv]
  | _ => exact ⟨_, .still fun A Z => rfl⟩

theorem exists_cuts (selector : Selector) (h : Fitting ps) :
    ∃ file, List.Forall₂ (Cuts selector) ps file := by
  induction ps with
  | nil => exact ⟨[], .nil⟩
  | cons p ps ih =>
    obtain ⟨x, hx⟩ := exists_cut selector h.1
    obtain ⟨file, hfile⟩ := ih h.2
    exact ⟨x :: file, .cons hx hfile⟩

/-- Whatever is put in the place of the values of stretches, there are pieces for it, and the values are
found. -/
theorem exchange_of_cuts (hcuts : List.Forall₂ (Cuts selector) ps file) (h : Fitting ps) :
    joined file = flatten ps ∧ (∀ v ∈ valuesOf file, Fillable v) ∧
      ∀ f : List Token → List Token, (∀ v ∈ valuesOf file, Fillable (f v)) →
        ∃ ps', flatten ps' = joined (file.map (Stretch.refill f)) ∧
          (flatten ps').head? = (flatten ps).head? ∧ Fitting ps' ∧
          ∀ A Z, tagValues selector (A ++ (flatten ps' ++ Z)) (blocksIn (statementsAt A.length ps')) =
            .ok (spansAt A.length (file.map (Stretch.refill f))) := by
  induction hcuts with
  | nil =>
    exact ⟨rfl, by simp [valuesOf], fun f _ => ⟨[], rfl, rfl, trivial, fun A Z => rfl⟩⟩
  | @cons p x ps file hcuts _ ih =>
    have hx := hcuts.cut h.1
    obtain ⟨hfile, hfillable, hexchange⟩ := ih h.2
    refine ⟨?_, fun v hv => ?_, fun f hf => ?_⟩
    · rw [joined_cons, hx.tokens_eq, hfile, flatten_cons]
    · rcases mem_valuesOf_cons.1 hv with hv | hv
      · exact hx.fillable v hv
      · exact hfillable v hv
    · obtain ⟨p', hp', hhead, hfits, htag⟩ :=
        hx.exchange f fun v hv => hf v (mem_valuesOf_cons.2 (Or.inl hv))
      obtain ⟨ps', hps', hhead', hfits', htag'⟩ :=
        hexchange f fun v hv => hf v (mem_valuesOf_cons.2 (Or.inr hv))
      refine ⟨p' :: ps', ?_, ?_, ⟨hhead' ▸ hfits _ h.1, hfits'⟩, fun A Z => ?_⟩
      · rw [flatten_cons, hp', hps', List.map_cons, joined_cons]
      · simp [hhead, hhead']
      · have hfront := htag A (flatten ps' ++ Z)
        have hbehind := htag' (A ++ p'.tokens) Z
        rw [List.append_assoc, List.length_append] at hbehind
        rw [statementsAt, blocksIn_append, flatten_cons, List.append_assoc]
        rw [tagValues_append hfront hbehind, List.map_cons, spansAt, hp']

/-- In the file the values are found where the stretches have them. -/
def Finds (selector : Selector) (file : List Stretch) (last : Token) : Prop :=
  ∃ found, blocks (joined file ++ [last]) = .ok found ∧
    tagValues selector (joined file ++ [last]) found = .ok (spansAt 0 file)

/-- In a file that is cut into stretches the values are found, also after they have been exchanged. -/
theorem finds_of_cuts {last : Token} (hlast : last.kind = .eof)
    (hcuts : List.Forall₂ (Cuts selector) ps file) (h : Fitting ps)
    (hf : ∀ v ∈ valuesOf file, Fillable (f v)) :
    Finds selector (file.map (Stretch.refill f)) last := by
  obtain ⟨-, -, hexchange⟩ := exchange_of_cuts hcuts h
  obtain ⟨ps', hps', -, hfits, htag⟩ := hexchange f hf
  refine ⟨blocksIn (statementsAt 0 ps'), ?_, ?_⟩
  · rw [← hps', blocks, statements_of_pieces hlast hfits]
    rfl
  · rw [← hps']
    exact htag [] [last]

/-- A file that can be read can be cut into stretches. -/
theorem exists_stretches (selector : Selector) {ts : List Token} {last : Token} {found : List Block}
    (hlast : last.kind = .eof) (h : blocks (ts ++ [last]) = .ok found) :
    ∃ ps file, flatten ps = ts ∧ Fitting ps ∧ List.Forall₂ (Cuts selector) ps file := by
  obtain ⟨all, hall, -⟩ := map_eq_ok_iff.1 h
  obtain ⟨ps, rfl, hps, -⟩ := exists_pieces_of_statements hlast hall
  obtain ⟨file, hcuts⟩ := exists_cuts selector hps
  exact ⟨ps, file, rfl, hps, hcuts⟩

end Stretches

end TagBox
