import TagBox.Body.Statement
import TagBox.Proofs.Nesting

/-!
# Bodies piece by piece

Statements are read with positions and with a mark up to which tokens are skipped.  Here a body is cut
into pieces instead: a statement, a group of brackets, a name that starts no statement, or one other
token.  Which piece a token starts depends on the piece itself and on the token behind it only, so a
piece can be exchanged for another one without a change to the rest.

* `Piece`, `Fitting` — pieces, and when a list of them is read as such.
* `exists_pieces` — every body whose brackets nest can be cut.
* `statementsFrom_flatten` — the statements of a body are those of its pieces.
* `exists_pieces_of_statements`, `statements_of_pieces` — the same for a whole file.
-/

namespace TagBox

/-! ## Values -/

section Value

variable {limit next i : Nat} {t : Token} {ts b : List Token}

theorem valueEnd_skip (A : List Token) (hnext : i + A.length ≤ next) (hlimit : i + A.length ≤ limit) :
    valueEnd limit next i (A ++ b) = valueEnd limit next (i + A.length) b := by
  induction A generalizing i with
  | nil => rfl
  | cons t A ih =>
    rw [List.length_cons] at hnext hlimit
    rw [List.cons_append, valueEnd, if_neg (by omega), if_pos (by omega), ih (by omega) (by omega),
      List.length_cons]
    congr 1
    omega

theorem valueEnd_group {inner : List Token} {c : Token} (hnext : next ≤ i) (hi : Nested inner)
    (hc : t.kind.closer = some c.kind) (hlimit : i + inner.length + 2 ≤ limit) :
    valueEnd limit next i (t :: inner ++ c :: b) =
      valueEnd limit (i + inner.length + 2) (i + inner.length + 2) b := by
  have ho : t.kind.isOpening = true := Kind.isOpening_of_closer hc
  have hclose : closeOf i t (inner ++ c :: b) = .ok (i + 1 + inner.length) :=
    (closeOf_eq_ok_iff ho).2 ⟨inner, c, b, rfl, hi, hc, rfl⟩
  have hlen : (inner ++ [c]).length = inner.length + 1 := by simp
  have hskip := @valueEnd_skip limit (i + inner.length + 2) (i + 1) b (inner ++ [c]) (by omega)
    (by omega)
  rw [List.append_assoc, List.singleton_append] at hskip
  have hstop : i + 1 + inner.length + 1 = i + inner.length + 2 := by omega
  rw [List.cons_append, valueEnd, if_neg (by omega), if_neg (by omega), if_pos ho, hclose]
  simp only [hstop, hskip]
  congr 1
  omega

/-- A value ends in front of the first line end outside of brackets, or with the body. -/
theorem valueEnd_append {v : List Token} (hv : Inline v) (hnext : next ≤ i)
    (hlimit : i + v.length ≤ limit)
    (hstop : i + v.length < limit → ∃ t b', b = t :: b' ∧ t.kind.endsLine = true) :
    valueEnd limit next i (v ++ b) = .ok (i + v.length) := by
  induction v, hv using nests_induction generalizing i next with
  | nil =>
    rw [List.length_nil, Nat.add_zero] at hlimit hstop ⊢
    rcases Nat.eq_or_lt_of_le hlimit with rfl | hlt
    · cases b with
      | nil => rfl
      | cons t b => rw [List.nil_append, valueEnd, if_pos (Nat.le_refl i)]
    · obtain ⟨t, b', rfl, ht⟩ := hstop hlt
      have hk : t.kind = .newline ∨ t.kind = .eof := by
        cases hk : t.kind <;> simp_all [Kind.endsLine]
      have ho : t.kind.isOpening = false := by rcases hk with hk | hk <;> rw [hk] <;> rfl
      have hc : t.kind.isClosing = false := by rcases hk with hk | hk <;> rw [hk] <;> rfl
      rw [List.nil_append, valueEnd, if_neg (by omega), if_neg (by omega), if_neg (by simp [ho]),
        if_neg (by simp [hc]), if_pos hk]
  | plain t rest ho hc hs _ ih =>
    rw [List.length_cons] at hlimit hstop
    have hk : ¬ (t.kind = .newline ∨ t.kind = .eof) := by
      rintro (hk | hk) <;> simp [hk, Kind.endsLine] at hs
    rw [List.cons_append, valueEnd, if_neg (by omega), if_neg (by omega), if_neg (by simp [ho]),
      if_neg (by simp [hc]), if_neg hk,
      ih (by omega) (by omega) fun hlt => hstop (by omega), List.length_cons]
    congr 1
    omega
  | group t inner c rest hi hc _ ih =>
    have hlen : (t :: inner ++ c :: rest).length = inner.length + 2 + rest.length := by
      simp only [List.length_append, List.length_cons]
      omega
    rw [hlen] at hlimit hstop ⊢
    have hcut : t :: inner ++ c :: rest ++ b = t :: inner ++ c :: (rest ++ b) := by simp
    rw [hcut, valueEnd_group hnext hi hc (by omega),
      ih (by omega) (by omega) fun hlt => hstop (by omega)]
    congr 1
    omega

/-- Where the end of a value is found, the brackets in front of it nest. -/
theorem exists_of_valueEnd {stop : Nat} (hnext : next ≤ i)
    (h : valueEnd (i + ts.length) next i ts = .ok stop) :
    ∃ v b, ts = v ++ b ∧ Nested v ∧ stop = i + v.length := by
  -- a group is stepped over as a whole, so the induction is on the length
  induction hn : ts.length using Nat.strongRecOn generalizing ts i next with
  | _ n ih =>
    cases ts with
    | nil => exact ⟨[], [], rfl, rfl, by simpa [valueEnd] using h.symm⟩
    | cons t ts =>
      rw [List.length_cons] at h hn
      rw [valueEnd, if_neg (by omega), if_neg (by omega)] at h
      split_ifs at h with ho hc hk
      · cases hclose : closeOf i t ts with
        | error e => simp [hclose] at h
        | ok close =>
          obtain ⟨inner, c, rest, rfl, hi, hc, rfl⟩ := (closeOf_eq_ok_iff ho).1 hclose
          simp only [List.length_append, List.length_cons] at h hn
          have hlen : (inner ++ [c]).length = inner.length + 1 := by simp
          have hlimit : i + (inner.length + (rest.length + 1) + 1) =
              i + 1 + (inner ++ [c]).length + rest.length := by omega
          have hskip := @valueEnd_skip (i + 1 + (inner ++ [c]).length + rest.length)
            (i + 1 + inner.length + 1) (i + 1) rest (inner ++ [c]) (by omega) (by omega)
          rw [List.append_assoc, List.singleton_append] at hskip
          rw [hclose, hlimit] at h
          simp only [hskip] at h
          obtain ⟨v, b, rfl, hv, rfl⟩ := ih rest.length (by omega) (by omega) h rfl
          refine ⟨t :: inner ++ c :: v, b, by simp, hv.group hi hc, ?_⟩
          simp only [List.length_append, List.length_cons, List.length_nil]
          omega
      · rw [Except.ok.injEq] at h
        exact ⟨[], t :: ts, rfl, rfl, by simp [h]⟩
      · have hlen : i + (ts.length + 1) = i + 1 + ts.length := by omega
        rw [hlen] at h
        obtain ⟨v, b, rfl, hv, rfl⟩ := ih ts.length (by omega) (by omega) h rfl
        refine ⟨t :: v, b, rfl, hv.cons (by simpa using ho) (by simpa using hc) rfl, ?_⟩
        rw [List.length_cons]
        omega

/-- The part of nested tokens in front of the first line end outside of brackets. -/
theorem exists_inline_front (h : Nested ts) :
    ∃ v b, ts = v ++ b ∧ Inline v ∧ Nested b ∧ ∀ t ∈ b.head?, t.kind.endsLine = true := by
  induction ts, h using nests_induction with
  | nil => exact ⟨[], [], rfl, rfl, rfl, by simp⟩
  | plain t rest ho hc hs h ih =>
    by_cases hk : t.kind.endsLine = true
    · exact ⟨[], t :: rest, rfl, rfl, h.cons ho hc hs, by simpa using hk⟩
    · obtain ⟨v, b, rfl, hv, hb, hhead⟩ := ih
      exact ⟨t :: v, b, rfl, hv.cons ho hc (by simpa using hk), hb, hhead⟩
  | group t inner c rest hi hc h ih =>
    obtain ⟨v, b, rfl, hv, hb, hhead⟩ := ih
    exact ⟨t :: inner ++ c :: v, b, by simp, hv.group hi hc, hb, hhead⟩

end Value

/-! ## Pieces -/

/-- A stretch of a body: a statement, or something that is passed by between statements. -/
inductive Piece where
  | plain (t : Token)
  | group (opening : Token) (inner : List Token) (closing : Token)
  /-- A name, with labels behind it, that starts no statement. -/
  | word (name : Token) (labels : List Token)
  | assign (name sign : Token) (value : List Token)
  | block (name : Token) (labels : List Token) (opening : Token) (inner : List Token)
      (closing : Token)

namespace Piece

def tokens : Piece → List Token
  | plain t => [t]
  | group opening inner closing => opening :: inner ++ [closing]
  | word name labels => name :: labels
  | assign name sign value => name :: sign :: value
  | block name labels opening inner closing => name :: labels ++ (opening :: inner ++ [closing])

/-- The piece is read as such in front of the token `next`, or at the end of a body. -/
def Fits (next : Option Token) : Piece → Prop
  | plain t => t.kind ≠ .identifier ∧ t.kind.isOpening = false ∧ t.kind.isClosing = false
  | group opening inner closing => Nested inner ∧ opening.kind.closer = some closing.kind
  | word name labels => name.kind = .identifier ∧ (∀ l ∈ labels, l.isLabel = true) ∧
      ∀ t ∈ next, t.isLabel = false ∧ t.kind ≠ .openBrace ∧ ¬ (t.kind = .equals ∧ labels = [])
  | assign name sign value => name.kind = .identifier ∧ sign.kind = .equals ∧ Inline value ∧
      ∀ t ∈ next, t.kind.endsLine = true
  | block name labels opening inner closing => name.kind = .identifier ∧
      (∀ l ∈ labels, l.isLabel = true) ∧ opening.kind = .openBrace ∧ Nested inner ∧
      closing.kind = .closeBrace

/-- The statement that the piece is, if its first token stands at position `i`. -/
def statement? (i : Nat) : Piece → Option Statement
  | assign name _ value =>
    if value = [] then none else some (.assign ⟨name.text, ⟨i + 2, i + 1 + value.length⟩⟩)
  | block name labels _ inner _ =>
    some (.block ⟨name.text, labels.map Token.text, i + 1 + labels.length,
      i + 1 + labels.length + 1 + inner.length⟩)
  | _ => none

end Piece

/-- The tokens of pieces. -/
def flatten (pieces : List Piece) : List Token :=
  pieces.flatMap Piece.tokens

/-- Each of the pieces is read as such in front of the next one. -/
def Fitting : List Piece → Prop
  | [] => True
  | p :: ps => p.Fits (flatten ps).head? ∧ Fitting ps

/-- The statements among pieces that start at position `i`. -/
def statementsAt (i : Nat) : List Piece → List Statement
  | [] => []
  | p :: ps => (p.statement? i).toList ++ statementsAt (i + p.tokens.length) ps

section Pieces

variable {p : Piece} {ps qs : List Piece} {ts : List Token} {i : Nat}

@[simp]
theorem flatten_nil : flatten [] = [] := rfl

@[simp]
theorem flatten_cons (p : Piece) (ps : List Piece) : flatten (p :: ps) = p.tokens ++ flatten ps := rfl

@[simp]
theorem flatten_append (ps qs : List Piece) : flatten (ps ++ qs) = flatten ps ++ flatten qs := by
  simp [flatten]

theorem Piece.tokens_ne_nil (p : Piece) : p.tokens ≠ [] := by
  cases p <;> simp [Piece.tokens]

theorem plain_of_isLabel {t : Token} (h : t.isLabel = true) :
    t.kind.isOpening = false ∧ t.kind.isClosing = false := by
  cases hk : t.kind <;> simp_all [Token.isLabel, Kind.isOpening, Kind.isClosing]

theorem nested_of_plain (h : ∀ t ∈ ts, t.kind.isOpening = false ∧ t.kind.isClosing = false) :
    Nested ts := by
  induction ts with
  | nil => rfl
  | cons t ts ih =>
    obtain ⟨ho, hc⟩ := h t (by simp)
    exact (ih fun u hu => h u (by simp [hu])).cons ho hc rfl

theorem nested_of_labels (h : ∀ t ∈ ts, t.isLabel = true) : Nested ts :=
  nested_of_plain fun t ht => plain_of_isLabel (h t ht)

theorem Piece.Fits.nested {next : Option Token} (h : p.Fits next) : Nested p.tokens := by
  have hidentifier : ∀ {t : Token} {ts : List Token}, t.kind = .identifier → Nested ts →
      Nested (t :: ts) := fun ht h => h.cons (by rw [ht]; rfl) (by rw [ht]; rfl) rfl
  cases p with
  | plain t => exact nested_of_plain (by simpa [Piece.tokens] using h.2)
  | group opening inner closing => exact (show Nested [] from rfl).group h.1 h.2
  | word name labels => exact hidentifier h.1 (nested_of_labels h.2.1)
  | assign name sign value =>
    obtain ⟨hname, hsign, hvalue, -⟩ := h
    exact hidentifier hname (hvalue.nested.cons (by rw [hsign]; rfl) (by rw [hsign]; rfl) rfl)
  | block name labels opening inner closing =>
    obtain ⟨hname, hlabels, ho, hi, hc⟩ := h
    have hgroup : Nested (opening :: inner ++ [closing]) :=
      (show Nested [] from rfl).group hi (by rw [ho, hc]; rfl)
    exact hidentifier hname ((nested_of_labels hlabels).append hgroup)

theorem Fitting.nested (h : Fitting ps) : Nested (flatten ps) := by
  induction ps with
  | nil => rfl
  | cons p ps ih => exact h.1.nested.append (ih h.2)

theorem Fitting.of_append (h : Fitting (ps ++ qs)) : Fitting qs := by
  induction ps with
  | nil => exact h
  | cons p ps ih => exact ih h.2

theorem statementsAt_append (ps qs : List Piece) :
    statementsAt i (ps ++ qs) = statementsAt i ps ++ statementsAt (i + (flatten ps).length) qs := by
  induction ps generalizing i with
  | nil => rfl
  | cons p ps ih =>
    rw [List.cons_append, statementsAt, statementsAt, ih, List.append_assoc, flatten_cons,
      List.length_append]
    congr 3
    omega

theorem exists_labels (ts : List Token) :
    ∃ labels rest, ts = labels ++ rest ∧ (∀ l ∈ labels, l.isLabel = true) ∧
      ∀ t ∈ rest.head?, t.isLabel = false := by
  induction ts with
  | nil => exact ⟨[], [], rfl, by simp, by simp⟩
  | cons t ts ih =>
    by_cases ht : t.isLabel = true
    · obtain ⟨labels, rest, rfl, hlabels, hrest⟩ := ih
      exact ⟨t :: labels, rest, rfl, by simpa [ht] using hlabels, hrest⟩
    · exact ⟨[], t :: ts, rfl, by simp, by simpa using ht⟩

/-- The piece that a name starts. -/
theorem exists_named_piece {name : Token} (hname : name.kind = .identifier) (h : Nested ts) :
    ∃ (p : Piece) (rest : List Token), name :: ts = p.tokens ++ rest ∧ p.Fits rest.head? ∧
      Nested rest := by
  obtain ⟨labels, rest, rfl, hlabels, hhead⟩ := exists_labels ts
  have hrest : Nested rest := (nested_of_labels hlabels).of_append_left h
  have hword : (∀ t ∈ rest.head?, t.kind ≠ .openBrace ∧ ¬ (t.kind = .equals ∧ labels = [])) →
      ∃ (p : Piece) (rest' : List Token), name :: (labels ++ rest) = p.tokens ++ rest' ∧
        p.Fits rest'.head? ∧ Nested rest' := fun hnext =>
    ⟨.word name labels, rest, rfl, ⟨hname, hlabels, fun t ht => ⟨hhead t ht, hnext t ht⟩⟩, hrest⟩
  cases rest with
  | nil => exact hword (by simp)
  | cons mark after =>
    by_cases hsign : mark.kind = .equals ∧ labels = []
    · obtain ⟨hmark, rfl⟩ := hsign
      have hsingle : Nested [mark] := nested_of_plain (by simp [hmark, Kind.isOpening, Kind.isClosing])
      have hafter : Nested after := hsingle.of_append_left hrest
      obtain ⟨v, b, rfl, hv, hb, hend⟩ := exists_inline_front hafter
      exact ⟨.assign name mark v, b, rfl, ⟨hname, hmark, hv, hend⟩, hb⟩
    · by_cases hopen : mark.kind = .openBrace
      · rcases nest_cons_cases hrest with ⟨-, h'⟩ | ⟨b, around, heq, -, -⟩ | ⟨hbad, -⟩
        · obtain ⟨inner, c, rest, rfl, hi, hc, hr⟩ := @nest_split Kind.never [] mark.kind [] after h'
          rw [hopen] at hc
          have hc' : c.kind = .closeBrace := (Option.some.inj hc).symm
          exact ⟨.block name labels mark inner c, rest, by simp [Piece.tokens],
            ⟨hname, hlabels, hopen, hi, hc'⟩, hr⟩
        · simp at heq
        · simp [hopen, Kind.isOpening] at hbad
      · exact hword (by simpa using ⟨hopen, fun hm => by simpa [hm] using hsign⟩)

/-- One piece from the front of nested tokens. -/
theorem exists_piece {t : Token} (h : Nested (t :: ts)) :
    ∃ (p : Piece) (rest : List Token), t :: ts = p.tokens ++ rest ∧ p.Fits rest.head? ∧
      Nested rest := by
  rcases nest_cons_cases h with ⟨-, h'⟩ | ⟨b, around, heq, -, -⟩ | ⟨ho, hc, -, h'⟩
  · obtain ⟨inner, c, rest, rfl, hi, hc, hr⟩ := @nest_split Kind.never [] t.kind [] ts h'
    exact ⟨.group t inner c, rest, by simp [Piece.tokens], ⟨hi, hc⟩, hr⟩
  · simp at heq
  · by_cases hname : t.kind = .identifier
    · exact exists_named_piece hname h'
    · exact ⟨.plain t, ts, rfl, ⟨hname, ho, hc⟩, h'⟩

/-- Nested tokens can be cut into pieces. -/
theorem exists_pieces (h : Nested ts) : ∃ ps, flatten ps = ts ∧ Fitting ps := by
  induction hn : ts.length using Nat.strongRecOn generalizing ts with
  | _ n ih =>
    cases ts with
    | nil => exact ⟨[], rfl, trivial⟩
    | cons t ts =>
      obtain ⟨p, rest, hcut, hfits, hrest⟩ := exists_piece h
      have hlen : rest.length < n := by
        have hpos := List.length_pos_iff.2 p.tokens_ne_nil
        rw [← hn, hcut, List.length_append]
        omega
      obtain ⟨ps, rfl, hps⟩ := ih _ hlen hrest rfl
      exact ⟨p :: ps, hcut.symm, hfits, hps⟩

end Pieces

/-! ## Reading pieces -/

section Reading

variable {limit next i : Nat} {p : Piece} {ps : List Piece} {name t : Token}
  {labels Y following tail rest : List Token}

theorem takeWhile_isLabel (hlabels : ∀ l ∈ labels, l.isLabel = true)
    (hY : ∀ t ∈ Y.head?, t.isLabel = false) {n : Nat} (hn : labels.length ≤ n) :
    ((labels ++ Y).take n).takeWhile Token.isLabel = labels := by
  rw [List.take_append, List.take_of_length_le hn, List.takeWhile_append_of_pos hlabels]
  cases Y with
  | nil => simp
  | cons t Y =>
    have ht : t.isLabel = false := hY t rfl
    cases n - labels.length <;> simp [ht]

theorem namedStatement_word (hlabels : ∀ l ∈ labels, l.isLabel = true)
    (hY : ∀ t ∈ Y.head?, t.isLabel = false ∧ t.kind ≠ .openBrace ∧ ¬ (t.kind = .equals ∧ labels = []))
    (hlimit : i + 1 + labels.length ≤ limit) :
    namedStatement limit i name (labels ++ Y) = .ok (none, i + 1 + labels.length) := by
  rw [namedStatement, takeWhile_isLabel hlabels (fun t ht => (hY t ht).1) (by omega), List.drop_left]
  cases Y with
  | nil => rfl
  | cons mark after =>
    obtain ⟨-, hopen, hsign⟩ := hY mark rfl
    simp [hopen, hsign]

theorem namedStatement_assign {sign : Token} {value b : List Token} (hsign : sign.kind = .equals)
    (hvalue : Inline value) (hlimit : i + 2 + value.length ≤ limit)
    (hstop : i + 2 + value.length < limit → ∃ t b', b = t :: b' ∧ t.kind.endsLine = true) :
    namedStatement limit i name (sign :: (value ++ b)) =
      .ok ((Piece.assign name sign value).statement? i, i + 2 + value.length) := by
  have hnone : ((sign :: (value ++ b)).take (limit - (i + 1))).takeWhile Token.isLabel = [] :=
    @takeWhile_isLabel [] (sign :: (value ++ b)) (by simp)
      (by simp [Token.isLabel, hsign]) _ (Nat.zero_le _)
  rw [namedStatement, hnone]
  simp only [List.length_nil, List.drop_zero, Nat.add_zero, hsign, and_self, if_true,
    valueEnd_append hvalue (Nat.zero_le _) hlimit hstop]
  by_cases hnil : value = []
  · rw [if_neg (by simp [hnil]), Piece.statement?, if_pos hnil]
  · have hpos := List.length_pos_iff.2 hnil
    have hlast : i + 1 + 1 + value.length - 1 = i + 1 + value.length := by omega
    rw [if_pos (by omega), Piece.statement?, if_neg hnil, hlast]

theorem namedStatement_block {opening closing : Token} {inner b : List Token}
    (hlabels : ∀ l ∈ labels, l.isLabel = true) (ho : opening.kind = .openBrace) (hi : Nested inner)
    (hc : closing.kind = .closeBrace) (hlimit : i + 1 + labels.length < limit) :
    namedStatement limit i name (labels ++ (opening :: inner ++ closing :: b)) =
      .ok ((Piece.block name labels opening inner closing).statement? i,
        i + labels.length + inner.length + 3) := by
  have hclose : closeOf (i + 1 + labels.length) opening (inner ++ closing :: b) =
      .ok (i + 1 + labels.length + 1 + inner.length) :=
    (closeOf_eq_ok_iff (by rw [ho]; rfl)).2 ⟨inner, closing, b, rfl, hi, by rw [ho, hc]; rfl, rfl⟩
  rw [List.cons_append, namedStatement, takeWhile_isLabel hlabels (by simp [Token.isLabel, ho]) (by omega),
    List.drop_left]
  have hstop : i + 1 + labels.length + 1 + inner.length + 1 = i + labels.length + inner.length + 3 := by
    omega
  simp [ho, hlimit, hclose, Piece.statement?, hstop]

/-- A piece is read as what it is. -/
theorem statementAt_piece (hp : p.tokens = t :: rest) (hfits : p.Fits following.head?)
    (htail : ∀ t ∈ tail.head?, t.kind.isClosing = true) :
    statementAt (i + (p.tokens ++ following).length) i t (rest ++ (following ++ tail)) =
      .ok (p.statement? i, i + p.tokens.length) := by
  rw [List.length_append]
  cases p with
  | plain u =>
    obtain ⟨rfl, rfl⟩ : u = t ∧ [] = rest := by simpa [Piece.tokens] using hp
    obtain ⟨hname, ho, hc⟩ := hfits
    simp [statementAt, hname, ho, hc, Piece.statement?, Piece.tokens]
  | group opening inner closing =>
    obtain ⟨rfl, rfl⟩ : opening = t ∧ inner ++ [closing] = rest := by simpa [Piece.tokens] using hp
    obtain ⟨hi, hc⟩ := hfits
    have ho : opening.kind.isOpening = true := Kind.isOpening_of_closer hc
    have hname : opening.kind ≠ .identifier := by
      intro hk
      simp [hk, Kind.isOpening] at ho
    have hclose : closeOf i opening (inner ++ closing :: (following ++ tail)) =
        .ok (i + 1 + inner.length) :=
      (closeOf_eq_ok_iff ho).2 ⟨inner, closing, following ++ tail, rfl, hi, hc, rfl⟩
    have hstop : i + 1 + inner.length + 1 = i + (Piece.group opening inner closing).tokens.length := by
      simp only [Piece.tokens, List.length_append, List.length_cons, List.length_nil]
      omega
    rw [statementAt, if_neg hname, if_pos ho, List.append_assoc, List.singleton_append, hclose, ← hstop]
    rfl
  | word name labels =>
    obtain ⟨rfl, rfl⟩ : name = t ∧ labels = rest := by simpa [Piece.tokens] using hp
    obtain ⟨hname, hlabels, hnext⟩ := hfits
    have hstop : i + 1 + labels.length = i + (Piece.word name labels).tokens.length := by
      simp only [Piece.tokens, List.length_cons]
      omega
    have hY : ∀ t ∈ (following ++ tail).head?, t.isLabel = false ∧ t.kind ≠ .openBrace ∧
        ¬ (t.kind = .equals ∧ labels = []) := by
      cases following with
      | nil =>
        intro t ht
        have := htail t ht
        cases hk : t.kind <;> simp_all [Kind.isClosing, Token.isLabel]
      | cons u following => exact hnext
    rw [statementAt, if_pos hname, namedStatement_word hlabels hY (by omega), hstop]
    rfl
  | assign name sign value =>
    obtain ⟨rfl, rfl⟩ : name = t ∧ sign :: value = rest := by simpa [Piece.tokens] using hp
    obtain ⟨hname, hsign, hvalue, hnext⟩ := hfits
    have hstop : i + 2 + value.length = i + (Piece.assign name sign value).tokens.length := by
      simp only [Piece.tokens, List.length_cons]
      omega
    rw [statementAt, if_pos hname, List.cons_append, namedStatement_assign hsign hvalue (by omega), hstop]
    intro hlt
    cases following with
    | nil =>
      rw [List.length_nil] at hlt
      omega
    | cons u following => exact ⟨u, following ++ tail, rfl, hnext u rfl⟩
  | block name labels opening inner closing =>
    obtain ⟨rfl, rfl⟩ : name = t ∧ labels ++ (opening :: inner ++ [closing]) = rest := by
      simpa [Piece.tokens] using hp
    obtain ⟨hname, hlabels, ho, hi, hc⟩ := hfits
    have hstop : i + labels.length + inner.length + 3 =
        i + (Piece.block name labels opening inner closing).tokens.length := by
      simp only [Piece.tokens, List.length_append, List.length_cons, List.length_nil]
      omega
    have hcut : labels ++ (opening :: inner ++ [closing]) ++ (following ++ tail) =
        labels ++ (opening :: inner ++ closing :: (following ++ tail)) := by simp
    rw [statementAt, if_pos hname, hcut, namedStatement_block hlabels ho hi hc (by omega), hstop]

theorem statementsFrom_skip (A : List Token) {b : List Token} (hnext : i + A.length ≤ next)
    (hlimit : i + A.length ≤ limit) :
    statementsFrom limit next i (A ++ b) = statementsFrom limit next (i + A.length) b := by
  induction A generalizing i with
  | nil => rfl
  | cons t A ih =>
    rw [List.length_cons] at hnext hlimit
    rw [List.cons_append, statementsFrom, if_neg (by omega), if_pos (by omega),
      ih (by omega) (by omega), List.length_cons]
    congr 1
    omega

/-- The statements of a body are those of its pieces. -/
theorem statementsFrom_flatten (h : Fitting ps) (hnext : next ≤ i)
    (htail : ∀ t ∈ tail.head?, t.kind.isClosing = true) :
    statementsFrom (i + (flatten ps).length) next i (flatten ps ++ tail) =
      .ok (statementsAt i ps) := by
  induction ps generalizing i next with
  | nil => cases tail <;> simp [statementsFrom, statementsAt]
  | cons p ps ih =>
    obtain ⟨t, rest, hp⟩ := List.exists_cons_of_ne_nil p.tokens_ne_nil
    have hstep := @statementAt_piece i p t (flatten ps) tail rest hp h.1 htail
    have hlen : i + (flatten (p :: ps)).length = i + p.tokens.length + (flatten ps).length := by
      rw [flatten_cons, List.length_append]
      omega
    have hpos : i + 1 + rest.length = i + p.tokens.length := by
      rw [hp, List.length_cons]
      omega
    have hskip := @statementsFrom_skip (i + p.tokens.length + (flatten ps).length)
      (i + p.tokens.length) (i + 1) rest (flatten ps ++ tail) (by omega) (by omega)
    rw [← flatten_cons, hlen] at hstep
    rw [hlen, flatten_cons, List.append_assoc]
    nth_rewrite 2 [hp]
    rw [List.cons_append, statementsFrom, if_neg (by omega), if_neg (by omega), hstep]
    simp only [hskip, hpos, ih h.2 (Nat.le_refl _)]
    rfl

end Reading

/-! ## Files that can be read -/

section Readable

variable {next i stop : Nat} {name t : Token} {ts : List Token} {ps : List Piece}
  {found : Option Statement}

theorem exists_of_namedStatement (hname : name.kind = .identifier)
    (h : namedStatement (i + 1 + ts.length) i name ts = .ok (found, stop)) :
    ∃ a b, ts = a ++ b ∧ Nested (name :: a) ∧ stop = i + 1 + a.length := by
  have hfront : ∀ {a : List Token}, Nested a → Nested (name :: a) := fun ha =>
    ha.cons (by rw [hname]; rfl) (by rw [hname]; rfl) rfl
  obtain ⟨labels, rest, rfl, hlabels, hhead⟩ := exists_labels ts
  rw [namedStatement, takeWhile_isLabel hlabels hhead (by simp), List.drop_left] at h
  have hword : i + 1 + labels.length = stop →
      ∃ a b, labels ++ rest = a ++ b ∧ Nested (name :: a) ∧ stop = i + 1 + a.length := fun heq =>
    ⟨labels, rest, rfl, hfront (nested_of_labels hlabels), heq.symm⟩
  cases rest with
  | nil =>
    simp only [Except.ok.injEq, Prod.mk.injEq] at h
    exact hword h.2
  | cons mark after =>
    simp only at h
    split_ifs at h with hsign hopen
    · obtain ⟨hmark, rfl⟩ := hsign
      have hlimit : i + 1 + (after.length + 1) = i + 1 + 1 + after.length := by omega
      simp only [List.nil_append, List.length_nil, List.length_cons, Nat.add_zero, hlimit] at h
      cases hend : valueEnd (i + 1 + 1 + after.length) 0 (i + 1 + 1) after with
      | error e => simp [hend] at h
      | ok stop' =>
        obtain ⟨v, b, rfl, hv, rfl⟩ := exists_of_valueEnd (Nat.zero_le _) hend
        have hstop : i + 1 + 1 + v.length = stop := by
          simp only [hend] at h
          split_ifs at h <;> exact (Prod.mk.inj (Except.ok.inj h)).2
        refine ⟨mark :: v, b, rfl, hfront (hv.cons (by rw [hmark]; rfl) (by rw [hmark]; rfl) rfl), ?_⟩
        rw [← hstop, List.length_cons]
        omega
    · cases hclose : closeOf (i + 1 + labels.length) mark after with
      | error e => simp [hclose] at h
      | ok close =>
        obtain ⟨inner, c, b, rfl, hi, hc, rfl⟩ := (closeOf_eq_ok_iff (by rw [hopen.1]; rfl)).1 hclose
        rw [hclose] at h
        have hgroup : Nested (mark :: inner ++ [c]) := (show Nested [] from rfl).group hi hc
        refine ⟨labels ++ (mark :: inner ++ [c]), b, by simp,
          hfront ((nested_of_labels hlabels).append hgroup), ?_⟩
        rw [← (Prod.mk.inj (Except.ok.inj h)).2]
        simp only [List.length_append, List.length_cons, List.length_nil]
        omega
    · exact hword (Prod.mk.inj (Except.ok.inj h)).2

theorem exists_of_statementAt (h : statementAt (i + 1 + ts.length) i t ts = .ok (found, stop)) :
    ∃ a b, ts = a ++ b ∧ Nested (t :: a) ∧ stop = i + 1 + a.length := by
  unfold statementAt at h
  split_ifs at h with hname ho hc
  · exact exists_of_namedStatement hname h
  · cases hclose : closeOf i t ts with
    | error e => simp [hclose] at h
    | ok close =>
      obtain ⟨inner, c, b, rfl, hi, hc, rfl⟩ := (closeOf_eq_ok_iff ho).1 hclose
      rw [hclose] at h
      refine ⟨inner ++ [c], b, by simp, (show Nested [] from rfl).group hi hc, ?_⟩
      rw [← (Prod.mk.inj (Except.ok.inj h)).2]
      simp only [List.length_append, List.length_cons, List.length_nil]
      omega
  · refine ⟨[], ts, rfl, nested_of_plain (by simp [ho, hc]), ?_⟩
    exact (Prod.mk.inj (Except.ok.inj h)).2.symm

theorem nested_of_statementsFrom {found : List Statement} (hnext : next ≤ i)
    (h : statementsFrom (i + ts.length) next i ts = .ok found) : Nested ts := by
  induction hn : ts.length using Nat.strongRecOn generalizing ts i next found with
  | _ n ih =>
    cases ts with
    | nil => rfl
    | cons t ts =>
      rw [List.length_cons] at h hn
      have hlimit : i + (ts.length + 1) = i + 1 + ts.length := by omega
      rw [hlimit, statementsFrom, if_neg (by omega), if_neg (by omega)] at h
      cases hstep : statementAt (i + 1 + ts.length) i t ts with
      | error e => simp [hstep] at h
      | ok step =>
        obtain ⟨one, stop⟩ := step
        obtain ⟨a, b, rfl, ha, rfl⟩ := exists_of_statementAt hstep
        simp only [hstep] at h
        obtain ⟨later, hlater, -⟩ := map_eq_ok_iff.1 h
        have hlimit' : i + 1 + (a ++ b).length = i + 1 + a.length + b.length := by
          rw [List.length_append]
          omega
        rw [hlimit', statementsFrom_skip a (Nat.le_refl _) (by omega)] at hlater
        rw [List.length_append] at hn
        exact ha.append (ih b.length (by omega) (Nat.le_refl _) hlater rfl)

/-- The brackets of a file with statements nest. -/
theorem nested_of_statements {found : List Statement} (h : statements ts 0 ts.length = .ok found) :
    Nested ts := by
  have h' : statementsFrom (0 + ts.length) 0 0 ts = .ok found := by
    rw [Nat.zero_add]
    exact h
  exact nested_of_statementsFrom (Nat.le_refl 0) h'

/-- The end of a file behind pieces. -/
theorem Fitting.end_of_file {last : Token} (hlast : last.kind = .eof) (h : Fitting ps) :
    Fitting (ps ++ [.plain last]) := by
  induction ps with
  | nil => exact ⟨by simp [Piece.Fits, hlast, Kind.isOpening, Kind.isClosing], trivial⟩
  | cons p ps ih =>
    rw [List.cons_append]
    refine ⟨?_, ih h.2⟩
    cases hps : flatten ps with
    | cons t ts =>
      have hnext := h.1
      rw [hps] at hnext
      simpa [hps] using hnext
    | nil =>
      have hnext : (flatten (ps ++ [.plain last])).head? = some last := by
        simp [hps, Piece.tokens]
      have hp := h.1
      rw [hps] at hp
      rw [hnext]
      cases p with
      | plain t => exact hp
      | group opening inner closing => exact hp
      | word name labels => exact ⟨hp.1, hp.2.1, by simp [Token.isLabel, hlast]⟩
      | assign name sign value => exact ⟨hp.1, hp.2.1, hp.2.2.1, by simp [hlast, Kind.endsLine]⟩
      | block name labels opening inner closing => exact hp

theorem nested_of_end_of_file {last : Token} (hlast : last.kind = .eof)
    (h : Nested (ts ++ [last])) : Nested ts := by
  obtain ⟨opened, hopened, hend⟩ := h.halves
  rw [kinds_cons, nest_plain (by rw [hlast]; rfl) (by rw [hlast]; rfl) (by simp [Kind.never]), kinds_nil,
    nest_nil, Option.some.injEq] at hend
  rw [hend] at hopened
  exact hopened

/-- The statements of a file, from the pieces of what stands in front of its end. -/
theorem statements_of_pieces {last : Token} (hlast : last.kind = .eof)
    (h : Fitting ps) :
    statements (flatten ps ++ [last]) 0 (flatten ps ++ [last]).length = .ok (statementsAt 0 ps) := by
  have hread := @statementsFrom_flatten 0 0 (ps ++ [.plain last]) [] (h.end_of_file hlast)
    (Nat.le_refl 0) (by simp)
  simp only [flatten_append, flatten_cons, flatten_nil, Piece.tokens, List.append_nil, Nat.zero_add,
    statementsAt_append, statementsAt, Piece.statement?, Option.toList_none] at hread
  exact hread

/-- A file with statements can be cut into pieces. -/
theorem exists_pieces_of_statements {last : Token} {found : List Statement}
    (hlast : last.kind = .eof) (h : statements (ts ++ [last]) 0 (ts ++ [last]).length = .ok found) :
    ∃ ps, flatten ps = ts ∧ Fitting ps ∧ statementsAt 0 ps = found := by
  obtain ⟨ps, rfl, hps⟩ := exists_pieces (nested_of_end_of_file hlast (nested_of_statements h))
  exact ⟨ps, rfl, hps, Except.ok.inj ((statements_of_pieces hlast hps).symm.trans h)⟩

end Readable

end TagBox
