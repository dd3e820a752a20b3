import TagBox.Proofs.Bytes
import TagBox.Proofs.Endings
import TagBox.Proofs.Markers
import TagBox.Proofs.Seam

/-!
# What is read of the text of a template

A template is read as the value of an attribute, `tags = …`, and the text is refused unless that is the
only statement.  But statements are not all that a body may hold: stray tokens, groups of brackets and
names that start no statement are passed by without a word, and so is an attribute without a value.  So
a text is also accepted with such tokens on the lines behind the expression, or in front of it if the
expression is the value of another attribute.

* `Piece.isStatement`, `PassedBy` — what the walk over statements passes by.
* `Template.StandsIn` — where a template stands in its text.
* `Template.Whole` — a text of which nothing is dropped.
* `tokenize_host` — the tokens of the host attribute.
* `compile_eq_ok_iff` — which texts are accepted, and what is dropped of them.
-/

namespace TagBox

open Lexeme (isSpace)

/-! ## Pieces that are no statements -/

/-- Is the piece a statement?  An attribute without a value is none. -/
def Piece.isStatement : Piece → Bool
  | .assign _ _ value => !value.isEmpty
  | .block .. => true
  | _ => false

/-- Each of the pieces is read as such in front of the next one, and the last one in front of `next`. -/
def FittingBefore (next : Option Token) : List Piece → Prop
  | [] => True
  | p :: ps => p.Fits ((flatten ps).head?.or next) ∧ FittingBefore next ps

/-- In front of the token `next`, or at the end of a body, the tokens are passed by: they are pieces of
which none is a statement. -/
def PassedBy (next : Option Token) (tokens : List Token) : Prop :=
  ∃ ps, flatten ps = tokens ∧ FittingBefore next ps ∧ ∀ p ∈ ps, p.isStatement = false

section Pieces

variable {i : Nat} {p : Piece} {ps qs : List Piece} {next : Option Token}

theorem fitting_append : Fitting (ps ++ qs) ↔ FittingBefore (flatten qs).head? ps ∧ Fitting qs := by
  induction ps with
  | nil => exact ⟨fun h => ⟨trivial, h⟩, fun h => h.2⟩
  | cons p ps ih => rw [List.cons_append, Fitting, FittingBefore, ih, flatten_append, List.head?_append,
      and_assoc]

theorem fittingBefore_none : FittingBefore none ps ↔ Fitting ps := by
  simpa [Fitting] using (@fitting_append ps []).symm

theorem statement?_eq_none_iff : p.statement? i = none ↔ p.isStatement = false := by
  cases p with
  | assign name sign value => by_cases hv : value = [] <;> simp [Piece.statement?, Piece.isStatement, hv]
  | _ => simp [Piece.statement?, Piece.isStatement]

theorem statementsAt_eq_nil_iff : statementsAt i ps = [] ↔ ∀ p ∈ ps, p.isStatement = false := by
  induction ps generalizing i with
  | nil => simp [statementsAt]
  | cons p ps ih =>
    rw [statementsAt, List.append_eq_nil_iff, ih, Option.toList_eq_nil_iff, statement?_eq_none_iff]
    simp

/-- Pieces with one attribute and no other statement. -/
theorem exists_of_statementsAt_eq_singleton {a : Attribute} (h : statementsAt i ps = [.assign a]) :
    ∃ before name sign value after, ps = before ++ .assign name sign value :: after ∧ value ≠ [] ∧
      (∀ p ∈ before, p.isStatement = false) ∧ ∀ p ∈ after, p.isStatement = false := by
  obtain ⟨before, name, sign, value, after, rfl, hv, ha⟩ :=
    exists_of_mem_statementsAt (show .assign a ∈ statementsAt i ps by simp [h])
  have hlen := congrArg List.length h
  rw [statementsAt_append, statementsAt] at hlen
  simp only [Piece.statement?, hv, if_false, Option.toList_some, List.length_append, List.length_cons,
    List.length_nil] at hlen
  have hbefore : statementsAt i before = [] := List.length_eq_zero_iff.1 (by omega)
  have hafter : statementsAt (i + (flatten before).length + (Piece.assign name sign value).tokens.length)
      after = [] := List.length_eq_zero_iff.1 (by omega)
  exact ⟨before, name, sign, value, after, rfl, hv, statementsAt_eq_nil_iff.1 hbefore,
    statementsAt_eq_nil_iff.1 hafter⟩

theorem statementsAt_of_single {before after : List Piece} {name sign : Token} {value : List Token}
    (hv : value ≠ []) (hbefore : ∀ p ∈ before, p.isStatement = false)
    (hafter : ∀ p ∈ after, p.isStatement = false) :
    statementsAt 0 (before ++ .assign name sign value :: after) =
      [.assign ⟨name.text, ⟨(flatten before).length + 2, (flatten before).length + 1 + value.length⟩⟩] := by
  rw [statementsAt_append, statementsAt, statementsAt_eq_nil_iff.2 hbefore,
    statementsAt_eq_nil_iff.2 hafter]
  simp [Piece.statement?, hv]

end Pieces

/-! ## The tokens of the host -/

/-- The name of the host attribute. -/
def hostName : Token := ⟨.identifier, ['t', 'a', 'g', 's'], []⟩

/-- The sign behind the name of the host attribute. -/
def hostSign : Token := ⟨.equals, ['='], [' ']⟩

theorem host_eq (rendered : Text) :
    Template.host rendered =
      hostName.text ++ ([' '] ++ (hostSign.text ++ (' ' :: (rendered ++ ['\n'])))) := by
  have htext : "tags = ".toList = hostName.text ++ ([' '] ++ (hostSign.text ++ [' '])) := by decide
  unfold Template.host
  rw [htext, List.append_assoc, List.append_assoc, List.append_assoc, List.append_assoc,
    List.singleton_append, List.singleton_append, List.singleton_append]

theorem stands_hostName (after : Text) : hostName.Stands (' ' :: after) := by
  refine ⟨'t', ['a', 'g', 's'], .ok .identifier, rfl, ?_, rfl⟩
  have hname : isNameStart 't' = true := by decide
  simp [Lexeme.measure, hname, show isNamePart 'a' = true by decide, show isNamePart 'g' = true by decide,
    show isNamePart 's' = true by decide, show isNamePart ' ' = false by decide]

theorem stands_hostSign (after : Text) : hostSign.Stands (' ' :: after) :=
  ⟨'=', [], .ok .equals, rfl, by simp [Lexeme.measure, Lexeme.oneOrTwo], rfl⟩

theorem getLast?_host (rendered : Text) : (' ' :: (rendered ++ ['\n'])).getLast? = some '\n' := by
  rw [← List.cons_append, List.getLast?_concat]

/-- The host attribute starts with its name and its sign; the tokens behind them print to the text of
the template and the line end behind it. -/
theorem tokenize_host {rendered : Text} {tokens : List Token}
    (h : tokenize (Template.host rendered) = .ok tokens) :
    ∃ ts, tokens = hostName :: hostSign :: (ts ++ [eofToken []]) ∧
      print ts = ' ' :: (rendered ++ ['\n']) ∧ Reads ts [] := by
  have hname : hostName.Stands ([' '] ++ (hostSign.text ++ ' ' :: (rendered ++ ['\n']))) :=
    stands_hostName _
  have hsign := stands_hostSign (rendered ++ ['\n'])
  have hblank : ∀ c ∈ [' '], isSpace c = true := by simp [isSpace]
  rw [tokenize, host_eq, tokensOf_stands hname] at h
  obtain ⟨rest, hrest, rfl⟩ := map_eq_ok_iff.1 h
  rw [tokensOf_spaces hblank (hsign.takeWhile_isSpace _), tokensOf_stands hsign] at hrest
  obtain ⟨rest, hread, rfl⟩ := map_eq_ok_iff.1 hrest
  obtain ⟨ts, trail, rfl, hprint, htrail, hreads⟩ := exists_reads_of_tokensOf hread
  have hend : (print ts ++ trail).getLast? = some '\n' := hprint ▸ getLast?_host rendered
  obtain ⟨rfl, -, -⟩ := hreads.ends_line htrail (Or.inr hend)
  rw [List.append_nil] at hprint
  exact ⟨ts, rfl, hprint.symm, hreads⟩

/-! ## Where a template stands in its text -/

/-- Behind the sign of the host attribute stand `front`, the value that becomes the template, and
`back`. -/
def Template.StandsIn (T : Template) (rendered : Text) (front back : List Token) : Prop :=
  ∃ L b P e R,
    tokenize (Template.host rendered) = .ok (hostName :: hostSign ::
      (front ++ ((L ++ b :: (P ++ e :: R)) ++ back) ++ [eofToken []])) ∧
    Template.Marks (L ++ b :: (P ++ e :: R)) L b P e R ∧ Inline (L ++ b :: (P ++ e :: R)) ∧
    L ≠ [] ∧ R ≠ [] ∧ T = Template.ofParts L b P e R

/-- The tokens start with the end of a line. -/
def StartsLine (tokens : List Token) : Prop :=
  ∃ t ∈ tokens.head?, t.kind = .newline

/-- What may stand in front of the value: nothing, or on the lines below the sign of the host attribute,
behind tokens that are passed by, the name and the sign of another attribute. -/
def MayPrecede (front : List Token) : Prop :=
  front = [] ∨ ∃ skipped name sign, front = skipped ++ [name, sign] ∧ name.kind = .identifier ∧
    sign.kind = .equals ∧ StartsLine skipped ∧ PassedBy (some name) skipped

/-- The tokens of the text are those of the template, with markers and a placeholder between the halves,
and line ends and comments behind it. -/
def Template.Whole (T : Template) (rendered : Text) : Prop :=
  ∃ us trail b P e back, tokenize rendered = .ok (us ++ [eofToken trail]) ∧ isBegin b = true ∧
    isEnd e = true ∧ (∀ t ∈ P, isEnd t = false) ∧
    contents us = contents (T.left ++ b :: (P ++ e :: (T.right ++ back))) ∧
    ∀ t ∈ back, t.isGap = true

section Host

variable {rendered : Text} {before after : List Piece} {name sign : Token} {v ts : List Token}

/-- If one attribute is the only statement in the host, its value is compiled. -/
theorem compile_of_single
    (htokens : tokenize (Template.host rendered) =
      .ok (flatten (before ++ .assign name sign v :: after) ++ [eofToken []]))
    (hfits : Fitting (before ++ .assign name sign v :: after)) (hv : v ≠ [])
    (hbefore : ∀ p ∈ before, p.isStatement = false) (hafter : ∀ p ∈ after, p.isStatement = false) :
    Template.compile rendered = Template.ofValue ((flatten before).length + 2) v := by
  have hall := statements_of_pieces (show (eofToken []).kind = .eof from rfl) hfits
  rw [statementsAt_of_single hv hbefore hafter] at hall
  rw [compile_of_attribute htokens hall]
  have hcut : flatten (before ++ .assign name sign v :: after) ++ [eofToken []] =
      (flatten before ++ [name, sign]) ++ (v ++ (flatten after ++ [eofToken []])) := by
    simp [Piece.tokens]
  have hspan : Span.mk ((flatten before).length + 2) ((flatten before).length + 1 + v.length) =
      ⟨(flatten before ++ [name, sign]).length,
        (flatten before ++ [name, sign]).length + v.length - 1⟩ := by
    simp
  rw [hspan, hcut, slice_append hv]
  simp

/-- In front of the only statement the host attribute is passed by, or it is that statement. -/
theorem eq_nil_or_hostName {rest : List Token}
    (hcut : flatten before ++ name :: sign :: rest = hostName :: hostSign :: ts)
    (hfits : FittingBefore (some name) before) (hbefore : ∀ p ∈ before, p.isStatement = false) :
    before = [] ∨ ∃ skipped, before = .assign hostName hostSign [] :: skipped := by
  cases before with
  | nil => exact Or.inl rfl
  | cons p skipped =>
    refine Or.inr ⟨skipped, ?_⟩
    have hp := hfits.1
    have hplain := hbefore p (by simp)
    rw [flatten_cons] at hcut
    cases p with
    | plain t =>
      obtain ⟨rfl, -⟩ := List.cons.inj hcut
      exact absurd rfl hp.1
    | group opening inner closing =>
      obtain ⟨rfl, -⟩ := List.cons.inj hcut
      exact absurd hp.2 (by simp [hostName, Kind.closer])
    | word w labels =>
      obtain ⟨rfl, hrest⟩ := List.cons.inj hcut
      exfalso
      cases labels with
      | nil =>
        -- the sign would be the next token
        have hnext : (flatten skipped).head?.or (some name) = some hostSign := by
          cases hs : flatten skipped with
          | nil =>
            rw [hs] at hrest
            simp [(List.cons.inj hrest).1]
          | cons t us =>
            rw [hs] at hrest
            simp [(List.cons.inj hrest).1]
        exact (hp.2.2 hostSign hnext).2.2 ⟨rfl, rfl⟩
      | cons l labels =>
        obtain ⟨rfl, -⟩ := List.cons.inj hrest
        simpa [Token.isLabel, hostSign] using hp.2.1 hostSign (by simp)
    | assign n s value =>
      obtain ⟨rfl, hrest⟩ := List.cons.inj hcut
      obtain ⟨rfl, -⟩ := List.cons.inj hrest
      obtain rfl : value = [] := by simpa [Piece.isStatement] using hplain
      rfl
    | block => simp [Piece.isStatement] at hplain

end Host

/-- A line end is one or two characters. -/
theorem Token.Stands.newline_text {t : Token} {r : Text} (h : t.Stands r) (hk : t.kind = .newline) :
    t.text = ['\n'] ∨ t.text = ['\r', '\n'] := by
  obtain ⟨first, tail, reading, htext, hm, hread⟩ := h
  obtain rfl : reading = .ok .newline := by
    rw [hk] at hread
    cases reading with
    | error fault => cases fault <;> simp [Lexeme.kindOf] at hread
    | ok shape => cases shape <;> simp [Lexeme.kindOf, Shape.kind?] at hread ⊢
  rw [htext]
  rcases Lexeme.spans_of_measure hm with ⟨rfl, hlen⟩ | ⟨rfl, hfeed, hlen⟩
  · rw [List.length_eq_zero_iff.1 hlen]
    exact Or.inl rfl
  · obtain ⟨c, rfl⟩ := List.length_eq_one_iff.1 hlen
    obtain rfl : c = '\n' := by simpa using hfeed
    exact Or.inr rfl

section Accepted

variable {rendered : Text} {T : Template}

/-- A token of the host that ends a line is a line end. -/
theorem startsLine_of_endsLine {ts us : List Token} {trail : Text} (hreads : Reads ts trail)
    (hsub : us ⊆ hostName :: hostSign :: ts) (hne : us ≠ [])
    (h : ∀ t ∈ us.head?, t.kind.endsLine = true) : StartsLine us := by
  obtain ⟨t, us, rfl⟩ := List.exists_cons_of_ne_nil hne
  have hends : t.kind.endsLine = true := h t rfl
  refine ⟨t, rfl, ?_⟩
  rcases List.mem_cons.1 (hsub (List.mem_cons_self ..)) with rfl | ht
  · exact absurd hends (by decide)
  · rcases List.mem_cons.1 ht with rfl | ht
    · exact absurd hends (by decide)
    · obtain ⟨after, hstands⟩ := hreads.stands ht
      have heof := hstands.kind_ne_eof
      cases hk : t.kind <;> simp_all [Kind.endsLine]

/-- The value of an attribute is followed by something, as the text of the host ends with a line end. -/
theorem ne_nil_of_inline {front v back ts : List Token} (hreads : Reads ts [])
    (hfeed : (print ts).getLast? = some '\n') (hinline : Inline v) (hv : v ≠ [])
    (hcut : front ++ (v ++ back) = hostName :: hostSign :: ts) : back ≠ [] := by
  rintro rfl
  obtain ⟨us, last, rfl, hkind, -⟩ := hreads.exists_lineEnd hfeed
  obtain ⟨w, final, rfl⟩ := (List.eq_nil_or_concat' v).resolve_left hv
  have hlast := congrArg List.getLast? hcut
  rw [List.append_nil, ← List.append_assoc, List.getLast?_concat, ← List.cons_append,
    ← List.cons_append, List.getLast?_concat] at hlast
  rw [← Option.some.inj hlast] at hkind
  exact hinline.getLast?_ne (List.getLast?_concat ..) hkind

/-- The line of the host's sign ends behind it, if the host attribute has no value. -/
theorem startsLine_behind_sign {skipped : List Piece} {name : Token} {ts rest : List Token} {trail : Text}
    (hreads : Reads ts trail) (hts : ts = flatten skipped ++ rest) (hname : name.kind = .identifier)
    (hfits : Piece.Fits ((flatten skipped).head?.or (some name)) (.assign hostName hostSign [])) :
    StartsLine (flatten skipped) := by
  have hline := hfits.2.2.2
  cases hskipped : flatten skipped with
  | nil =>
    have hends : name.kind.endsLine = true := hline name (by rw [hskipped]; rfl)
    rw [hname] at hends
    exact absurd hends (by decide)
  | cons t us =>
    apply startsLine_of_endsLine hreads _ (List.cons_ne_nil t us)
    · intro u hu
      exact hline u (by simpa [hskipped] using hu)
    · rw [hts, ← hskipped]
      intro u hu
      simp [hu]

theorem exists_standsIn_of_compile (h : Template.compile rendered = .ok T) :
    ∃ front back, T.StandsIn rendered front back ∧ MayPrecede front ∧ StartsLine back ∧
      PassedBy none back := by
  obtain ⟨tokens, a, htokens, hall, -⟩ := exists_attribute_of_compile h
  obtain ⟨ts, rfl, hprint, hreads⟩ := tokenize_host htokens
  obtain ⟨ps, hflat, hfits, hfound⟩ :=
    @exists_pieces_of_statements (hostName :: hostSign :: ts) (eofToken []) _ rfl hall
  obtain ⟨before, name, sign, v, after, rfl, hv, hbefore, hafter⟩ :=
    exists_of_statementsAt_eq_singleton hfound
  have hhost := htokens
  rw [← List.cons_append, ← List.cons_append, ← hflat] at hhost
  rw [compile_of_single hhost hfits hv hbefore hafter] at h
  obtain ⟨hfits', ⟨hname, hsign, hinline, hnext⟩, hback⟩ := fitting_append.1 hfits
  have hfront : FittingBefore (some name) before := hfits'
  have hcut : flatten before ++ name :: sign :: (v ++ flatten after) = hostName :: hostSign :: ts := by
    rw [← hflat, flatten_append, flatten_cons]
    rfl
  -- the line of the value ends behind it
  have hends : StartsLine (flatten after) := by
    apply startsLine_of_endsLine hreads _ _ hnext
    · rw [← hcut]
      intro t ht
      simp [ht]
    · have hfeed : (print ts).getLast? = some '\n' := hprint ▸ getLast?_host rendered
      apply ne_nil_of_inline hreads hfeed hinline hv
      show (flatten before ++ [name, sign]) ++ (v ++ flatten after) = _
      rw [List.append_assoc]
      exact hcut
  cases Template.ofValue_eq_iff.1 h with
  | @template L b P e R hL hR hmarks =>
    have hstands : ∀ front, ts = front ++ (v ++ flatten after) →
        (Template.ofParts L b P e R).StandsIn rendered front (flatten after) := by
      intro front hts
      refine ⟨L, b, P, e, R, ?_, ?_, ?_, hL, hR, rfl⟩
      · rw [htokens, hts, hmarks.cut]
      · exact hmarks.cut ▸ hmarks
      · exact hmarks.cut ▸ hinline
    have hpassed : PassedBy none (flatten after) := ⟨after, rfl, fittingBefore_none.2 hback, hafter⟩
    rcases eq_nil_or_hostName hcut hfront hbefore with rfl | ⟨skipped, rfl⟩
    · -- the host attribute itself has the value
      have hts : ts = [] ++ (v ++ flatten after) := (List.cons.inj (List.cons.inj hcut).2).2.symm
      exact ⟨[], flatten after, hstands [] hts, Or.inl rfl, hends, hpassed⟩
    · -- the host attribute has no value, and another attribute has
      have hts : ts = (flatten skipped ++ [name, sign]) ++ (v ++ flatten after) := by
        rw [List.append_assoc]
        exact (List.cons.inj (List.cons.inj hcut).2).2.symm
      have hbelow : StartsLine (flatten skipped) :=
        startsLine_behind_sign hreads (hts.trans (List.append_assoc ..)) hname hfront.1
      exact ⟨flatten skipped ++ [name, sign], flatten after, hstands _ hts, Or.inr
        ⟨flatten skipped, name, sign, rfl, hname, hsign, hbelow, skipped, rfl, hfront.2,
          fun p hp => hbefore p (by simp [hp])⟩, hends, hpassed⟩

theorem compile_of_standsIn {front back : List Token} (h : T.StandsIn rendered front back)
    (hfront : MayPrecede front) (hline : StartsLine back) (hback : PassedBy none back) :
    Template.compile rendered = .ok T := by
  obtain ⟨L, b, P, e, R, htokens, hmarks, hinline, hL, hR, rfl⟩ := h
  obtain ⟨after, rfl, hafter, hplain⟩ := hback
  obtain ⟨t, ht, hkind⟩ := hline
  have hv : L ++ b :: (P ++ e :: R) ≠ [] := by simp
  have hnext : ∀ u ∈ (flatten after).head?, u.kind.endsLine = true := by
    intro u hu
    rw [Option.mem_unique hu ht, hkind]
    rfl
  have hverdict := fun i => Template.ofValue_of_verdict (.template (i := i) hL hR hmarks)
  rcases hfront with rfl | ⟨skipped, name, sign, rfl, hname, hsign, ⟨s, hs, hbelow⟩, sk, rfl, hsk, hnone⟩
  · rw [@compile_of_single rendered [] after hostName hostSign _ htokens
      ⟨⟨rfl, rfl, hinline, hnext⟩, fittingBefore_none.1 hafter⟩ hv (by simp) hplain]
    exact hverdict _
  · have hhost : tokenize (Template.host rendered) =
        .ok (flatten ((.assign hostName hostSign [] :: sk) ++
          .assign name sign (L ++ b :: (P ++ e :: R)) :: after) ++ [eofToken []]) := by
      rw [htokens]
      simp [Piece.tokens]
    have hfits : Fitting ((.assign hostName hostSign [] :: sk) ++
        .assign name sign (L ++ b :: (P ++ e :: R)) :: after) := by
      refine fitting_append.2 ⟨⟨⟨rfl, rfl, rfl, ?_⟩, hsk⟩, ⟨hname, hsign, hinline, hnext⟩,
        fittingBefore_none.1 hafter⟩
      intro u hu
      rw [Option.mem_def.1 hs, Option.some_or, Option.mem_some_iff] at hu
      rw [← hu, hbelow]
      rfl
    rw [compile_of_single hhost hfits hv (by simpa [Piece.isStatement] using hnone) hplain]
    exact hverdict _

/-- The tokens of the host are those of the text, with a line end behind them, if that is not taken for
the second half of a longer one. -/
theorem tokenize_of_host {ts : List Token} (hprint : print ts = ' ' :: (rendered ++ ['\n']))
    (hreads : Reads ts []) (hend : rendered.getLast? ≠ some '\r') (hlen : 2 ≤ ts.length) :
    ∃ t body last lead, ts = t :: body ++ [last] ∧ last.kind = .newline ∧
      tokenize rendered = .ok (t.withLead lead :: body ++ [eofToken last.lead]) := by
  have hfeed : (print ts).getLast? = some '\n' := hprint ▸ getLast?_host rendered
  obtain ⟨front, last, rfl, hkind, -, hall⟩ := hreads.exists_lineEnd hfeed
  obtain ⟨hfront, hblank, -, -⟩ := reads_append.1 hreads
  have hlast : last.text = ['\n'] := by
    refine ((hall []).newline_text hkind).resolve_right fun htext => hend ?_
    have hcut : (print front ++ last.lead ++ ['\r']) ++ ['\n'] = (' ' :: rendered) ++ ['\n'] := by
      rw [List.cons_append, ← hprint]
      simp [Token.print, htext]
    have hlast := congrArg List.getLast? (List.append_cancel_right hcut)
    rw [List.getLast?_concat] at hlast
    cases rendered with
    | nil => simp at hlast
    | cons c rendered => rw [hlast, List.getLast?_cons_cons]
  have htext : print front ++ last.lead = ' ' :: rendered := by
    have hcut : (print front ++ last.lead) ++ ['\n'] = (' ' :: rendered) ++ ['\n'] := by
      rw [List.cons_append, ← hprint]
      simp [Token.print, hlast]
    exact List.append_cancel_right hcut
  cases front with
  | nil => simp at hlen
  | cons t body =>
    -- the blank behind the sign of the host is in front of the first token
    obtain ⟨lead, hlead⟩ : ∃ lead, t.lead = ' ' :: lead := by
      obtain ⟨c, hc, hspace, -⟩ := hfront.2.1.exists_head
      obtain ⟨tail, htail⟩ := List.head?_eq_some_iff.1 hc
      cases ht : t.lead with
      | nil =>
        rw [print_cons, Token.print, ht, htail] at htext
        exact absurd (List.cons.inj htext).1 hspace
      | cons d lead =>
        rw [print_cons, Token.print, ht] at htext
        rw [(List.cons.inj htext).1]
        exact ⟨lead, rfl⟩
    have hspaces : ∀ c ∈ lead, isSpace c = true := fun c hc => hfront.1 c (by simp [hlead, hc])
    have halike : Alike (print [last] ++ []) last.lead := by
      have hcut := Alike.append last.lead (.cut (last.text ++ []))
      simpa [Token.print] using hcut
    refine ⟨t, body, last, lead, rfl, hkind, tokenize_eq_ok_iff.2 ⟨t.withLead lead :: body, last.lead, rfl,
      ?_, hblank, (hfront.relead hspaces).alike halike⟩⟩
    rw [print_cons, Token.print, hlead] at htext
    exact (List.cons.inj htext).2.symm

end Accepted

/-- Lists that agree up to layout agree behind their first end markers. -/
theorem contents_after_isEnd {A B X Y : List Token} {e f : Token} (he : Template.isEnd e = true)
    (hf : Template.isEnd f = true) (hA : ∀ t ∈ A, Template.isEnd t = false)
    (hB : ∀ t ∈ B, Template.isEnd t = false) (h : contents (A ++ e :: X) = contents (B ++ f :: Y)) :
    contents X = contents Y := by
  -- an end marker is one by its content
  have hmarker : ∀ {t u : Token}, t.content = u.content → Template.isEnd t = Template.isEnd u := by
    intro t u htu
    obtain ⟨hkind, htext⟩ := Prod.mk.inj htu
    rw [Template.isEnd, Template.isEnd, hkind, htext]
  induction A generalizing B with
  | nil =>
    cases B with
    | nil => exact (List.cons.inj h).2
    | cons u B =>
      have hu := hmarker (List.cons.inj h).1
      rw [he, hB u (by simp)] at hu
      exact absurd hu (by decide)
  | cons t A ih =>
    cases B with
    | nil =>
      have ht := hmarker (List.cons.inj h).1
      rw [hf, hA t (by simp)] at ht
      exact absurd ht (by decide)
    | cons u B =>
      exact ih (fun t ht => hA t (by simp [ht])) (fun u hu => hB u (by simp [hu])) (List.cons.inj h).2

theorem isGap_of_contents {ts us : List Token} (h : contents ts = contents us)
    (hus : ∀ t ∈ us, t.isGap = true) : ∀ t ∈ ts, t.isGap = true := by
  intro t ht
  obtain ⟨u, hu, hcontent⟩ := List.mem_map.1 (h ▸ List.mem_map_of_mem ht : t.content ∈ contents us)
  have hkind : u.kind = t.kind := (Prod.mk.inj hcontent).1
  rw [Token.isGap, ← hkind]
  exact hus u hu

/-- A value does not start with a line end. -/
theorem Inline.kind_ne_newline {t : Token} {ts : List Token} (h : Inline (t :: ts)) :
    t.kind ≠ .newline := by
  intro hkind
  simp [Nests, hkind, nest, nestStep, Kind.isOpening, Kind.isClosing, Kind.endsLine] at h

section Whole

variable {rendered : Text} {T : Template} {front back : List Token}

/-- The tokens of the text are those of the host, but for the line end at its end. -/
theorem Template.StandsIn.exists_tokens (h : T.StandsIn rendered front back)
    (hend : rendered.getLast? ≠ some '\r') :
    ∃ L b P e R us trail last, T = Template.ofParts L b P e R ∧
      Template.Marks (L ++ b :: (P ++ e :: R)) L b P e R ∧ Inline (L ++ b :: (P ++ e :: R)) ∧ L ≠ [] ∧
      tokenize rendered = .ok (us ++ [eofToken trail]) ∧ last.kind = .newline ∧
      contents (us ++ [last]) = contents (front ++ (L ++ b :: (P ++ e :: (R ++ back)))) ∧
      back.getLast? = some last := by
  obtain ⟨L, b, P, e, R, htokens, hmarks, hinline, hL, hR, rfl⟩ := h
  obtain ⟨ts, hts, hprint, hreads⟩ := tokenize_host htokens
  have hcut : front ++ ((L ++ b :: (P ++ e :: R)) ++ back) = ts :=
    List.append_cancel_right (List.cons.inj (List.cons.inj hts).2).2
  have hlen : 2 ≤ ts.length := by
    rw [← hcut]
    simp only [List.length_append, List.length_cons]
    omega
  have hfeed : (print ts).getLast? = some '\n' := hprint ▸ getLast?_host rendered
  have hback : back ≠ [] := by
    apply ne_nil_of_inline hreads hfeed hinline (by simp)
    show (hostName :: hostSign :: front) ++ _ = hostName :: hostSign :: ts
    rw [List.cons_append, List.cons_append, hcut]
  obtain ⟨t, body, last, lead, hsplit, hkind, htext⟩ := tokenize_of_host hprint hreads hend hlen
  refine ⟨L, b, P, e, R, t.withLead lead :: body, last.lead, last, rfl, hmarks, hinline, hL, htext,
    hkind, ?_, ?_⟩
  · calc contents (t.withLead lead :: body ++ [last]) = contents (t :: body ++ [last]) := rfl
      _ = contents (front ++ ((L ++ b :: (P ++ e :: R)) ++ back)) := by rw [hcut, hsplit]
      _ = contents (front ++ (L ++ b :: (P ++ e :: (R ++ back)))) := by simp
  · have hlast := congrArg List.getLast? (hcut.trans hsplit)
    rwa [List.getLast?_concat, ← List.append_assoc, List.getLast?_append_of_ne_nil _ hback] at hlast

/-- Nothing of the text is dropped exactly if nothing stands in front of the value, and line ends and
comments are all that stands behind it. -/
theorem Template.StandsIn.whole_iff (h : T.StandsIn rendered front back) (hfront : MayPrecede front)
    (hend : rendered.getLast? ≠ some '\r') :
    T.Whole rendered ↔ front = [] ∧ ∀ t ∈ back, t.isGap = true := by
  obtain ⟨L, b, P, e, R, us, trail, last, rfl, hmarks, hinline, hL, htokens, hkind, hcontents, hlast⟩ :=
    h.exists_tokens hend
  constructor
  · rintro ⟨us', trail', b', P', e', gaps, htokens', -, he', hP', hcontents', hgaps⟩
    obtain ⟨rfl, -⟩ := List.append_inj' (Except.ok.inj (htokens.symm.trans htokens')) rfl
    have hboth : contents (front ++ (L ++ b :: (P ++ e :: (R ++ back)))) =
        contents (L ++ b' :: (P' ++ e' :: (R ++ (gaps ++ [last])))) := by
      rw [← hcontents, contents_append, hcontents', ← contents_append]
      simp [Template.ofParts, contents_relead]
    obtain rfl : front = [] := by
      refine hfront.resolve_right ?_
      rintro ⟨skipped, name, sign, rfl, -, -, ⟨s, hs, hline⟩, -⟩
      obtain ⟨more, rfl⟩ := List.head?_eq_some_iff.1 hs
      obtain ⟨first, L, rfl⟩ := List.exists_cons_of_ne_nil hL
      have hsame : s.kind = first.kind := (Prod.mk.inj (List.cons.inj hboth).1).1
      exact hinline.kind_ne_newline (hsame ▸ hline)
    refine ⟨rfl, ?_⟩
    rw [List.nil_append, contents_append, contents_append] at hboth
    have hrest := (List.cons.inj (List.append_cancel_left hboth)).2
    have hbehind := contents_after_isEnd hmarks.ends he'
      (fun t ht => hmarks.onlyEnd t (by simp [ht])) hP' hrest
    rw [contents_append, contents_append] at hbehind
    apply isGap_of_contents (List.append_cancel_left hbehind)
    intro t ht
    rcases List.mem_append.1 ht with ht | ht
    · exact hgaps t ht
    · rw [List.mem_singleton.1 ht, Token.isGap, hkind]
      rfl
  · rintro ⟨rfl, hgap⟩
    obtain ⟨gaps, rfl⟩ := List.getLast?_eq_some_iff.1 hlast
    have hus : contents us = contents (L ++ b :: (P ++ e :: (R ++ gaps))) := by
      have hsplit : contents us ++ contents [last] =
          contents (L ++ b :: (P ++ e :: (R ++ gaps))) ++ contents [last] := by
        rw [← contents_append, hcontents]
        simp
      exact List.append_cancel_right hsplit
    refine ⟨us, trail, b, P, e, gaps, htokens, hmarks.begins, hmarks.ends,
      fun t ht => hmarks.onlyEnd t (by simp [ht]), ?_, fun t ht => hgap t (by simp [ht])⟩
    rw [hus]
    simp [Template.ofParts, contents_relead]

end Whole

/-- A text is accepted exactly if its only statement is the host attribute or, where that has no value,
another attribute below it; what else stands in the text is dropped.  Nothing is dropped exactly if the
host attribute has the value, and line ends and comments are all that is behind it. -/
theorem compile_eq_ok_iff (rendered : Text) (T : Template) :
    (Template.compile rendered = .ok T ↔ ∃ front back, T.StandsIn rendered front back ∧ MayPrecede front ∧
      StartsLine back ∧ PassedBy none back) ∧
    ∀ front back, T.StandsIn rendered front back → MayPrecede front → rendered.getLast? ≠ some '\r' →
      (T.Whole rendered ↔ front = [] ∧ ∀ t ∈ back, t.isGap = true) := by
  refine ⟨⟨exists_standsIn_of_compile, ?_⟩, fun front back => Template.StandsIn.whole_iff⟩
  rintro ⟨front, back, hstands, hfront, hline, hback⟩
  exact compile_of_standsIn hstands hfront hline hback

/-- A comment on a line of its own. -/
theorem compile_eq_ok_iff_comment :
    ∃ (T : Template) (back : List Token), T.StandsIn "(/*<box>*/\x7b\x7d/*</box>*/)\n# c".toList [] back ∧
      (∀ t ∈ back, t.isGap = true) ∧ T.Whole "(/*<box>*/\x7b\x7d/*</box>*/)\n# c".toList := by
  have hgap : ∀ t ∈ [(⟨.newline, ['\n'], []⟩ : Token), ⟨.comment, ['#', ' ', 'c'], []⟩,
      ⟨.newline, ['\n'], []⟩], t.isGap = true := by decide
  have hstands : (⟨[⟨.openParen, ['('], []⟩], [⟨.closeParen, [')'], []⟩], []⟩ : Template).StandsIn
      "(/*<box>*/\x7b\x7d/*</box>*/)\n# c".toList [] [⟨.newline, ['\n'], []⟩,
        ⟨.comment, ['#', ' ', 'c'], []⟩, ⟨.newline, ['\n'], []⟩] := by
    refine ⟨[⟨.openParen, ['('], [' ']⟩], ⟨.comment, Template.beginMarker, []⟩,
      [⟨.openBrace, ['{'], []⟩, ⟨.closeBrace, ['}'], []⟩], ⟨.comment, Template.endMarker, []⟩,
      [⟨.closeParen, [')'], []⟩], by decide +kernel, ⟨rfl, ?_, ?_, ?_, ?_⟩, by decide +kernel, by simp,
      by simp, by decide +kernel⟩
    all_goals decide +kernel
  have hwhole := ((compile_eq_ok_iff _ _).2 _ _ hstands (Or.inl rfl) (by decide +kernel)).2 ⟨rfl, hgap⟩
  exact ⟨_, _, hstands, hgap, hwhole⟩

/-- A number on the line below the expression is dropped. -/
theorem compile_drops_number :
    ∃ T, Template.compile "(/*<box>*/\x7b\x7d/*</box>*/)\n1".toList = .ok T ∧
      ¬ T.Whole "(/*<box>*/\x7b\x7d/*</box>*/)\n1".toList := by
  refine ⟨⟨[⟨.openParen, ['('], []⟩], [⟨.closeParen, [')'], []⟩], []⟩, by decide +kernel, ?_⟩
  rintro ⟨us, trail, b, P, e, back, htokens, -, -, -, hcontents, hgap⟩
  have hread : tokenize "(/*<box>*/\x7b\x7d/*</box>*/)\n1".toList =
      .ok ([⟨.openParen, ['('], []⟩, ⟨.comment, Template.beginMarker, []⟩, ⟨.openBrace, ['{'], []⟩,
        ⟨.closeBrace, ['}'], []⟩, ⟨.comment, Template.endMarker, []⟩, ⟨.closeParen, [')'], []⟩,
        ⟨.newline, ['\n'], []⟩, ⟨.number, ['1'], []⟩] ++ [eofToken []]) := by decide +kernel
  obtain ⟨rfl, -⟩ := List.append_inj' (Except.ok.inj (htokens.symm.trans hread)) rfl
  have hback := congrArg List.reverse hcontents
  obtain rfl | ⟨gaps, final, rfl⟩ := List.eq_nil_or_concat' back
  · -- the expression does not end with a number
    simp [contents, Token.content] at hback
  · -- a number is no gap
    have hkind : .number = final.kind := by
      simp only [contents, Token.content, List.map_append, List.map_cons, List.map_nil,
        List.reverse_append, List.reverse_cons, List.reverse_nil, List.nil_append, List.cons_append,
        List.append_assoc, List.cons.injEq, Prod.mk.injEq] at hback
      exact hback.1.1
    simpa [Token.isGap, ← hkind] using hgap final (by simp)

end TagBox
