import TagBox.Proofs.Revision

/-!
# Texts one behind the other

Where a line ends outside of quoted texts, comments and heredocs, a text can be cut: the tokens on both
sides are those of the whole, and so are the blocks, the values and what a run makes of them.  A text
that can be read and whose last character is a line feed ends at such a place, since no token but that
of the line end has a line feed at its end.

* `Token.Stands.lineEnd` — a token with a line feed at its end is a line end.
* `Reads.of_lineEnd` — tokens that end a line are read back in front of anything.
* `Fitting.append` — pieces that end a line fit in front of any others.
* `revise_append` — a run over two texts, one behind the other, is a run over each.
-/

namespace TagBox

open Lexeme (isSpace)

/-! ## The last character of a lexeme -/

/-- A quoted text ends with a quote. -/
theorem Quoted.getLast?_take_bodyLength {depth : Nat} {outer : List Nat} {u : Text} {n : Nat}
    (h : bodyLength depth outer u = some n) : (u.take n).getLast? = some '"' := by
  fun_induction bodyLength depth outer u generalizing n with
  | case1 => simp at h
  | case7 =>
    obtain rfl : 1 = n := by simpa using h
    rfl
  | case10 => simp at h
  | case2 _ _ _ _ ih | case3 _ _ _ ih | case4 _ _ _ ih | case5 _ _ _ ih | case6 _ _ _ ih
  | case8 _ _ _ _ _ _ _ _ ih | case9 _ _ _ _ _ _ _ _ ih | case11 _ _ _ _ _ _ _ _ _ _ _ _ ih
  | case12 _ _ _ _ _ _ _ _ _ _ _ _ _ ih | case13 _ _ _ _ _ _ _ _ _ _ _ _ _ ih =>
    obtain ⟨m, hm, rfl⟩ := Option.map_eq_some_iff.1 h
    simp [List.getLast?_cons, ih hm]

/-- A block comment ends with a slash. -/
theorem Lexeme.getLast?_take_commentLength {u : Text} {n : Nat} (h : commentLength u = some n) :
    (u.take n).getLast? = some '/' := by
  fun_induction commentLength u generalizing n with
  | case1 => simp at h
  | case2 rest =>
    obtain rfl : 2 = n := by simpa using h
    rfl
  | case3 c rest _ ih =>
    obtain ⟨m, hm, rfl⟩ := Option.map_eq_some_iff.1 h
    simp [List.getLast?_cons, ih hm]

namespace Lexeme

theorem lineFeed_not_mem_take_takeWhile {p : Char → Bool} (hp : p '\n' = false) (u : Text) :
    '\n' ∉ u.take (u.takeWhile p).length := by
  intro hmem
  rw [← List.prefix_iff_eq_take.1 (List.takeWhile_prefix p)] at hmem
  have := List.mem_takeWhile_imp hmem
  simp [hp] at this

theorem lineFeed_not_mem_take_digitCount (u : Text) : '\n' ∉ u.take (digitCount u) :=
  lineFeed_not_mem_take_takeWhile rfl u

theorem lineFeed_not_mem_take_fractionLength (u : Text) : '\n' ∉ u.take (fractionLength u) := by
  unfold fractionLength
  split
  · rename_i rest
    split
    · simp
    · simpa using lineFeed_not_mem_take_digitCount rest
  · simp

theorem lineFeed_not_mem_take_exponentLength (u : Text) : '\n' ∉ u.take (exponentLength u) := by
  cases u with
  | nil => simp
  | cons mark u =>
    cases u with
    | nil => simp [exponentLength]
    | cons sign rest =>
      have hrest := lineFeed_not_mem_take_digitCount rest
      have hsign := lineFeed_not_mem_take_digitCount (sign :: rest)
      rw [exponentLength_cons_cons]
      split_ifs with hm hs hd hd
      · simp
      · rcases hm with rfl | rfl <;> rcases hs with rfl | rfl <;> simpa using hrest
      · simp
      · rcases hm with rfl | rfl <;> simpa using hsign
      · simp

theorem lineFeed_not_mem_take_numberLength (u : Text) : '\n' ∉ u.take (numberLength u) := by
  simp only [numberLength, List.take_add, List.mem_append, not_or]
  refine ⟨⟨lineFeed_not_mem_take_digitCount u, ?_⟩, ?_⟩
  · exact lineFeed_not_mem_take_fractionLength _
  · exact lineFeed_not_mem_take_exponentLength _

end Lexeme

namespace Heredoc

/-- The body of a heredoc ends with its marker or with blanks behind it. -/
theorem IsBody.getLast?_ne {marker t : Text} (hne : marker ≠ []) (h : IsBody marker t) :
    t ≠ [] ∧ t.getLast? ≠ some '\n' := by
  induction h with
  | last hl _ hm =>
    refine ⟨?_, ?_⟩
    · rintro rfl
      exact hne hm.symm
    · intro hlast
      exact hl (List.mem_of_getLast? hlast)
  | @line l t _ _ _ ih =>
    refine ⟨by simp, ?_⟩
    rw [List.getLast?_append_of_ne_nil _ (by simp), List.getLast?_cons_of_ne_nil ih.1]
    exact ih.2

theorem lineFeed_not_mem_take_openingAfter {skipped n : Nat} {u : Text}
    (h : openingAfter skipped u = .broken n) : ∃ k, n = skipped + k ∧ '\n' ∉ u.take k := by
  rcases openingAfter_cases u with ⟨habs, -⟩ | ⟨c, m, x, rfl, hc, hm, hx⟩
  · simp [habs] at h
  · rw [openingAfter_marker hc hm hx] at h
    unfold openingBehind at h
    split at h
    · simp at h
    · simp at h
    · obtain rfl : skipped + (c :: m).length = n := by simpa using h
      refine ⟨(c :: m).length, rfl, ?_⟩
      rw [List.take_left]
      intro hmem
      rcases List.mem_cons.1 hmem with rfl | hmem
      · simp [isNameStart] at hc
      · have := hm _ hmem
        simp [isNamePart] at this

theorem lineFeed_not_mem_take_opening {n : Nat} {u : Text} (h : opening u = .broken n) :
    '\n' ∉ u.take n := by
  unfold opening at h
  split at h
  · obtain ⟨k, rfl, hk⟩ := lineFeed_not_mem_take_openingAfter h
    rw [Nat.add_comm]
    simpa using hk
  · obtain ⟨k, rfl, hk⟩ := lineFeed_not_mem_take_openingAfter h
    rw [Nat.add_comm]
    simpa using hk
  · simp at h

end Heredoc

/-! ## Tokens at the end of a line -/

namespace Lexeme

section LineFeed

variable {reading : Except Fault Shape} {k : Kind} {tail r : Text}

theorem getLast?_ne_of_not_mem {n : Nat} (hn : n = tail.length) (h : '\n' ∉ (tail ++ r).take n) :
    tail.getLast? ≠ some '\n' := by
  rw [hn, List.take_left] at h
  intro hlast
  exact h (List.mem_of_getLast? hlast)

/-- One more character belongs to the lexeme if it is `second`. -/
theorem getLast?_ne_of_second {second : Char} (hs : second ≠ '\n')
    (hn : (if (tail ++ r).head? = some second then 1 else 0) = tail.length) :
    tail.getLast? ≠ some '\n' := by
  cases tail with
  | nil => simp
  | cons c tail =>
    rw [List.cons_append, List.head?_cons, List.length_cons] at hn
    split at hn
    · rename_i heq
      obtain rfl : tail = [] := List.length_eq_zero_iff.1 (by omega)
      simpa [Option.some.inj heq] using hs
    · omega

theorem measureSlash_getLast?_ne (hk : kindOf reading = some k)
    (h : measureSlash (tail ++ r) = (reading, tail.length)) : tail.getLast? ≠ some '\n' := by
  unfold measureSlash at h
  split at h
  · exact getLast?_ne_of_not_mem (Prod.mk.inj h).2 (lineFeed_not_mem_take_takeWhile rfl _)
  · rename_i body heq
    split at h
    · rename_i n hn
      obtain ⟨rfl, hlen⟩ := Prod.mk.inj h
      have htail : tail = '*' :: body.take n := by
        rw [← List.take_succ_cons, ← heq, hlen, List.take_left]
      rw [htail, List.getLast?_cons, getLast?_take_commentLength hn]
      simp
    · obtain ⟨rfl, -⟩ := Prod.mk.inj h
      simp [kindOf] at hk
  · obtain rfl : tail = [] := List.length_eq_zero_iff.1 (Prod.mk.inj h).2.symm
    simp

theorem quoted_getLast?_ne (hk : kindOf reading = some k)
    (h : (match Quoted.length? (tail ++ r) with
      | some length => (.ok .quoted, length)
      | none => (.error .unterminatedString, 0)) = (reading, tail.length)) :
    tail.getLast? ≠ some '\n' := by
  split at h
  · rename_i n hn
    have hquote := Quoted.getLast?_take_bodyLength hn
    rw [(Prod.mk.inj h).2, List.take_left] at hquote
    rw [hquote]
    simp
  · obtain ⟨rfl, -⟩ := Prod.mk.inj h
    simp [kindOf] at hk

theorem measureLess_getLast?_ne (hk : kindOf reading = some k)
    (h : measureLess (tail ++ r) = (reading, tail.length)) : tail.getLast? ≠ some '\n' := by
  unfold measureLess at h
  split at h
  · rename_i marker n ho
    obtain ⟨hne, -, -⟩ := Heredoc.opening_take ho
    split at h
    · rename_i body hb
      have hlen : n + body = tail.length := (Prod.mk.inj h).2
      have hn : n ≤ tail.length := by omega
      rw [List.drop_append_of_le_length hn,
        show body = (tail.drop n).length by rw [List.length_drop]; omega] at hb
      obtain ⟨hbody, -⟩ := Heredoc.isBody_of_bodyLength hb
      obtain ⟨hdrop, hlast⟩ := hbody.getLast?_ne hne
      rw [← List.take_append_drop n tail, List.getLast?_append_of_ne_nil _ hdrop]
      exact hlast
    · obtain ⟨rfl, -⟩ := Prod.mk.inj h
      simp [kindOf] at hk
  · rename_i n ho
    exact getLast?_ne_of_not_mem (Prod.mk.inj h).2 (Heredoc.lineFeed_not_mem_take_opening ho)
  · exact getLast?_ne_of_second (by decide) (Prod.mk.inj h).2

theorem oneOrTwo_getLast?_ne {second : Char} {two one : Except Fault Shape} (hs : second ≠ '\n')
    (h : oneOrTwo second two one (tail ++ r) = (reading, tail.length)) :
    tail.getLast? ≠ some '\n' := by
  have hlen : (if (tail ++ r).head? = some second then 1 else 0) = tail.length := by
    unfold oneOrTwo at h
    split_ifs at h ⊢ <;> exact (Prod.mk.inj h).2
  exact getLast?_ne_of_second hs hlen

theorem getLast?_ne_of_zero (h : 0 = tail.length) : tail.getLast? ≠ some '\n' := by
  obtain rfl : tail = [] := List.length_eq_zero_iff.1 h.symm
  simp

/-- A lexeme with a line feed at its end is a line end. -/
theorem measure_lineFeed {first : Char} (hk : kindOf reading = some k)
    (h : measure first (tail ++ r) = (reading, tail.length))
    (hlast : (first :: tail).getLast? = some '\n') :
    k = .newline ∧ ∀ s, measure first (tail ++ s) = (reading, tail.length) := by
  -- unless the first character is the line feed, the last one is that of the rest
  have hcases : first = '\n' ∨ tail.getLast? = some '\n' := by
    cases hl : tail.getLast? with
    | none =>
      rw [List.getLast?_eq_none_iff] at hl
      exact Or.inl (by simpa [hl] using hlast)
    | some c => exact Or.inr (by simpa [List.getLast?_cons, hl] using hlast)
  unfold measure at h
  split at h
  case h_1 | h_2 =>
    obtain ⟨rfl, -⟩ := Prod.mk.inj h
    simp [kindOf, Shape.kind?] at hk
  case h_3 =>
    obtain ⟨rfl, hlen⟩ := Prod.mk.inj h
    exact ⟨(Option.some.inj hk).symm, fun s => by rw [← hlen]; rfl⟩
  case h_4 =>
    obtain hfirst | hlast' := hcases
    · exact absurd hfirst (by decide)
    · cases tail with
      | nil => simp at hlast'
      | cons c tail =>
        unfold oneOrTwo at h
        split_ifs at h with hc
        · obtain rfl : c = '\n' := Option.some.inj hc
          obtain ⟨rfl, hlen⟩ := Prod.mk.inj h
          exact ⟨(Option.some.inj hk).symm, fun s => by rw [← hlen]; rfl⟩
        · simp at h
  all_goals exfalso
  case h_28 =>
    obtain rfl | hlast' := hcases
    · exact absurd rfl (by assumption : '\n' ≠ '\n')
    · revert hlast'
      split_ifs at h
      · exact getLast?_ne_of_not_mem (Prod.mk.inj h).2 (lineFeed_not_mem_take_numberLength _)
      · exact getLast?_ne_of_not_mem (Prod.mk.inj h).2 (lineFeed_not_mem_take_takeWhile rfl _)
      · exact getLast?_ne_of_zero (Prod.mk.inj h).2
  all_goals refine hcases.elim (by decide) ?_
  case h_5 => exact getLast?_ne_of_not_mem (Prod.mk.inj h).2 (lineFeed_not_mem_take_takeWhile rfl _)
  case h_6 => exact measureSlash_getLast?_ne hk h
  case h_7 => exact quoted_getLast?_ne hk h
  case h_8 => exact measureLess_getLast?_ne hk h
  case h_15 =>
    split_ifs at h with harrow
    · refine getLast?_ne_of_second (r := r) (by decide : '>' ≠ '\n') ?_
      rw [if_pos harrow]
      exact (Prod.mk.inj h).2
    · exact oneOrTwo_getLast?_ne (by decide) h
  case h_16 =>
    split_ifs at h with hdots
    · obtain ⟨-, hlen⟩ := Prod.mk.inj h
      rw [hlen, List.take_left] at hdots
      simp [hdots]
    · exact getLast?_ne_of_zero (Prod.mk.inj h).2
  any_goals exact oneOrTwo_getLast?_ne (by decide) h
  all_goals exact getLast?_ne_of_zero (Prod.mk.inj h).2

end LineFeed

end Lexeme

section Seam

variable {t last : Token} {ts us : List Token} {r : Text}

/-- A token with a line feed at its end is a line end, and stands in front of anything. -/
theorem Token.Stands.lineEnd (h : t.Stands r) (hlast : t.text.getLast? = some '\n') :
    t.kind = .newline ∧ ∀ s, t.Stands s := by
  obtain ⟨first, tail, reading, htext, hm, hk⟩ := h
  rw [htext] at hlast
  obtain ⟨hkind, hall⟩ := Lexeme.measure_lineFeed hk hm hlast
  exact ⟨hkind, fun s => ⟨first, tail, reading, htext, hall s, hk⟩⟩

/-- Tokens whose print ends with a line feed end with a line end. -/
theorem Reads.exists_lineEnd (h : Reads ts r) (hlast : (print ts).getLast? = some '\n') :
    ∃ front last, ts = front ++ [last] ∧ last.kind = .newline ∧ last.text.getLast? = some '\n' ∧
      ∀ s, last.Stands s := by
  obtain rfl | ⟨front, last, rfl⟩ := List.eq_nil_or_concat' ts
  · simp at hlast
  · obtain ⟨after, hstands⟩ := h.stands (show last ∈ front ++ [last] by simp)
    have htext : last.text ≠ [] := by
      obtain ⟨first, tail, -, htext, -⟩ := hstands
      simp [htext]
    rw [print_append, print_cons, print_nil, List.append_nil, Token.print, ← List.append_assoc,
      List.getLast?_append_of_ne_nil _ htext] at hlast
    obtain ⟨hkind, hall⟩ := hstands.lineEnd hlast
    exact ⟨front, last, rfl, hkind, hlast, hall⟩

/-- Tokens that end a line are read back in front of anything. -/
theorem Reads.of_lineEnd (h : Reads ts r) (hlast : (print ts).getLast? = some '\n') (s : Text) :
    Reads ts s := by
  obtain ⟨front, last, rfl, -, hfeed, hall⟩ := h.exists_lineEnd hlast
  obtain ⟨hfront, hlead, -, -⟩ := reads_append.1 h
  obtain ⟨body, hbody⟩ : ∃ body, last.text = body ++ ['\n'] :=
    List.getLast?_eq_some_iff.1 hfeed
  -- up to the line feed the texts behind the tokens in front of it are the same
  have halike : Alike (print [last] ++ r) (print [last] ++ s) := by
    have hprint : ∀ u, print [last] ++ u = (last.lead ++ body) ++ '\n' :: u := by
      intro u
      simp [Token.print, hbody]
    rw [hprint r, hprint s]
    exact (Alike.line r s).append _
  exact reads_append.2 ⟨hfront.alike halike, hlead, hall _, trivial⟩

/-- A text that can be read and is empty or ends with a line feed ends a line. -/
theorem Reads.ends_line (h : Reads ts r) (hblank : ∀ c ∈ r, isSpace c = true)
    (hend : print ts ++ r = [] ∨ (print ts ++ r).getLast? = some '\n') :
    r = [] ∧ (∀ last ∈ ts.getLast?, last.kind = .newline) ∧ ∀ s, Reads ts s := by
  have hr : r = [] := by
    obtain rfl | ⟨front, c, rfl⟩ := List.eq_nil_or_concat' r
    · rfl
    · obtain rfl : c = '\n' := by simpa [← List.append_assoc] using hend
      exact absurd (hblank '\n' (by simp)) (by decide)
  subst hr
  rw [List.append_nil] at hend
  refine ⟨rfl, ?_⟩
  cases ts with
  | nil => exact ⟨by simp, fun _ => trivial⟩
  | cons t ts =>
    have hfeed : (print (t :: ts)).getLast? = some '\n' := by
      refine hend.resolve_left ?_
      obtain ⟨first, tail, -, htext, -⟩ := h.2.1
      simp [Token.print, htext]
    refine ⟨?_, h.of_lineEnd hfeed⟩
    obtain ⟨front, last, hts, hkind, -⟩ := h.exists_lineEnd hfeed
    rw [hts, List.getLast?_concat]
    intro last' hlast'
    rwa [← Option.some.inj hlast']

end Seam

/-! ## Pieces and values behind a line end -/

theorem Inline.getLast?_ne {ts : List Token} {last : Token} (h : Inline ts)
    (hlast : ts.getLast? = some last) : last.kind ≠ .newline := by
  obtain ⟨front, rfl⟩ := List.getLast?_eq_some_iff.1 hlast
  obtain ⟨opened, -, hend⟩ := h.halves
  intro hkind
  rw [kinds_cons, hkind, kinds_nil] at hend
  cases opened <;> simp [nest, nestStep, Kind.isOpening, Kind.isClosing, Kind.endsLine] at hend

/-- A piece that ends a line fits in front of anything. -/
theorem Piece.Fits.of_newline {p : Piece} {next : Option Token} {last : Token} (h : p.Fits next)
    (hlast : p.tokens.getLast? = some last) (hkind : last.kind = .newline)
    (next' : Option Token) : p.Fits next' := by
  cases p with
  | plain t => exact h
  | group | block => exact h
  | word name labels =>
    exfalso
    obtain ⟨hname, hlabels, -⟩ := h
    rcases List.mem_cons.1 (List.mem_of_getLast? hlast) with rfl | hmem
    · simp [hname] at hkind
    · simpa [Token.isLabel, hkind] using hlabels last hmem
  | assign name sign value =>
    exfalso
    obtain ⟨-, hsign, hvalue, -⟩ := h
    cases hv : value.getLast? with
    | none =>
      obtain rfl : sign = last := by simpa [tokens, List.getLast?_eq_none_iff.1 hv] using hlast
      simp [hsign] at hkind
    | some t =>
      obtain rfl : t = last := by simpa [tokens, List.getLast?_cons, hv] using hlast
      exact hvalue.getLast?_ne hv hkind

/-- Pieces that end a line fit in front of any others. -/
theorem Fitting.append {ps qs : List Piece} (h : Fitting ps) (h' : Fitting qs)
    (hend : ∀ last ∈ (flatten ps).getLast?, last.kind = .newline) : Fitting (ps ++ qs) := by
  induction ps with
  | nil => exact h'
  | cons p ps ih =>
    obtain ⟨hp, hps⟩ := h
    cases ps with
    | nil =>
      refine ⟨?_, h'⟩
      cases hlast : p.tokens.getLast? with
      | none => exact absurd (List.getLast?_eq_none_iff.1 hlast) p.tokens_ne_nil
      | some last => exact hp.of_newline hlast (hend last (by simpa using hlast)) _
    | cons q ps =>
      have hne : flatten (q :: ps) ≠ [] := by simp [q.tokens_ne_nil]
      refine ⟨?_, ih hps ?_⟩
      · show Piece.Fits (flatten ((q :: ps) ++ qs)).head? p
        rw [flatten_append, List.head?_append_of_ne_nil _ hne]
        exact hp
      · intro last hlast
        rw [flatten_cons, List.getLast?_append_of_ne_nil _ hne] at hend
        exact hend last hlast

/-- Where the stretches stand does not matter for the addresses. -/
theorem map_address_editsAt (f : List Token → List Token) (i : Nat) (file : List Stretch) :
    (editsAt f i file).map Replacement.address =
      file.flatMap fun x => ((x.edit? f 0).map Replacement.address).toList := by
  induction file generalizing i with
  | nil => rfl
  | cons x file ih =>
    have hx : (x.edit? f i).map Replacement.address = (x.edit? f 0).map Replacement.address := by
      cases x with
      | still ts => rfl
      | site address front value behind =>
        by_cases hprint : print (f value) = print value <;> simp [Stretch.edit?, hprint]
    rw [editsAt, List.map_append, ih, List.flatMap_cons, ← hx]
    cases x.edit? f i <;> rfl

theorem joined_append (file file' : List Stretch) :
    joined (file ++ file') = joined file ++ joined file' := by
  simp [joined]

/-! ## A run over two texts -/

section Append

variable {path path₁ path₂ first second trail₁ trail₂ : Text} {boxer : Boxer} {action : Action}
  {selector : Selector} {ps₁ ps₂ : List Piece} {file₁ file₂ : List Stretch} {r₁ r₂ : Revision}

/-- A text that ends a line and one behind it can be opened as one. -/
theorem Opened.append (h₁ : Opened selector first file₁ trail₁)
    (h₂ : Opened selector second file₂ trail₂)
    (hps₁ : Fitting ps₁) (hcuts₁ : List.Forall₂ (Cuts selector) ps₁ file₁)
    (hps₂ : Fitting ps₂) (hcuts₂ : List.Forall₂ (Cuts selector) ps₂ file₂)
    (hend : first = [] ∨ first.getLast? = some '\n') :
    trail₁ = [] ∧ Opened selector (first ++ second) (file₁ ++ file₂) trail₂ := by
  obtain ⟨hjoined₁, -, -⟩ := exchange_of_cuts hcuts₁ hps₁
  obtain ⟨hjoined₂, -, -⟩ := exchange_of_cuts hcuts₂ hps₂
  have hreads₁ := h₁.reads
  have hreads₂ := h₂.reads
  rw [h₁.source_eq, hjoined₁] at hend
  rw [hjoined₁] at hreads₁
  rw [hjoined₂] at hreads₂
  obtain ⟨htrail, hline, hall⟩ := hreads₁.ends_line h₁.blank hend
  have hreads : Reads (flatten (ps₁ ++ ps₂)) trail₂ := by
    rw [flatten_append]
    exact reads_append.2 ⟨hall _, hreads₂⟩
  have hopen := Opened.of_cuts h₂.blank hreads (hps₁.append hps₂ hline)
    (List.rel_append hcuts₁ hcuts₂)
  have hsource : first ++ second = print (flatten (ps₁ ++ ps₂)) ++ trail₂ := by
    rw [h₁.source_eq, h₂.source_eq, hjoined₁, hjoined₂, htrail, flatten_append, print_append,
      List.append_nil, List.append_assoc]
  exact ⟨htrail, hsource ▸ hopen⟩

/-- A run over two texts, the first of which ends a line, is a run over each. -/
theorem revise_append (hend : first = [] ∨ first.getLast? = some '\n')
    (h₁ : revise path₁ boxer action first = .ok r₁) (h₂ : revise path₂ boxer action second = .ok r₂) :
    revise path boxer action (first ++ second) =
      .ok ⟨r₁.output ++ r₂.output, r₁.changed ++ r₂.changed⟩ := by
  obtain ⟨ps₁, file₁, trail₁, f₁, hopen₁, hps₁, hcuts₁, hf₁, -⟩ := Opened.of_revise h₁
  obtain ⟨ps₂, file₂, trail₂, f₂, hopen₂, hps₂, hcuts₂, hf₂, -⟩ := Opened.of_revise h₂
  obtain ⟨rfl, hopen⟩ := hopen₁.append hopen₂ hps₁ hcuts₁ hps₂ hcuts₂ hend
  -- one function for the values of both texts
  obtain ⟨f, hf⟩ : ∃ f : List Token → List Token,
      ∀ v ∈ valuesOf file₁ ++ valuesOf file₂, boxer.run action v = .ok (f v) := by
    refine ⟨fun v => (boxer.run action v).toOption.getD v, fun v hv => ?_⟩
    rcases List.mem_append.1 hv with hv | hv
    · simp [hf₁ v hv, Except.toOption]
    · simp [hf₂ v hv, Except.toOption]
  have hboth : ∀ v ∈ valuesOf (file₁ ++ file₂), boxer.run action v = .ok (f v) := by
    intro v hv
    rw [valuesOf, List.filterMap_append] at hv
    exact hf v hv
  have hrun₁ := h₁.symm.trans (hopen₁.revise_eq fun v hv => hf v (List.mem_append_left _ hv))
  have hrun₂ := h₂.symm.trans (hopen₂.revise_eq fun v hv => hf v (List.mem_append_right _ hv))
  rw [Except.ok.inj hrun₁, Except.ok.inj hrun₂, hopen.revise_eq hboth]
  simp only [map_address_editsAt, List.map_append, List.flatMap_append, joined_append, print_append,
    List.append_nil, List.append_assoc]

/-- A heredoc ends with the first text, and the second one starts with its marker once more. -/
theorem revise_append_sample :
    ∃ first second : Text, first.getLast? = some '\n' ∧
      first ++ second = "resource r {tags={k=1}}\na=<<E\nE\nE\nresource s {tags={k=2}}".toList ∧
      revise ['a'] sampleBoxer .box (first ++ second) =
        .ok ⟨"resource r {tags=(var.t ? {k=1} : {})}\na=<<E\nE\n".toList ++
            "E\nresource s {tags=(var.t ? {k=2} : {})}".toList,
          ["resource.r".toList, "resource.s".toList]⟩ := by
  have h₁ : revise ['b'] sampleBoxer .box "resource r {tags={k=1}}\na=<<E\nE\n".toList =
      .ok ⟨"resource r {tags=(var.t ? {k=1} : {})}\na=<<E\nE\n".toList, ["resource.r".toList]⟩ := by
    decide +kernel
  have h₂ : revise ['c'] sampleBoxer .box "E\nresource s {tags={k=2}}".toList =
      .ok ⟨"E\nresource s {tags=(var.t ? {k=2} : {})}".toList, ["resource.s".toList]⟩ := by
    decide +kernel
  exact ⟨_, _, rfl, rfl, revise_append (Or.inr rfl) h₁ h₂⟩

end Append

end TagBox
