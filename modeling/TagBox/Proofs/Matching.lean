import TagBox.Proofs.Braces

/-!
# Which bracket closes which

The search for a closing bracket reads on with a stack of open brackets and stops at the first token that
settles the matter.  Its answers can be said without a stack, by a grammar of tokens whose brackets nest:
two brackets match if such tokens stand between them, a bracket is open in front of a position if such
tokens stand between the two, and tokens nest so far if they can be completed to such tokens.

The search for tag groups has a stack of its own, for braces alone and over the whole list.  Where all
brackets nest, the two searches agree.

* `WellBracketed`, `wellBracketed_iff` — the grammar, and the reading with a stack.
* `BracketPair`, `Innermost`, `Misfit` — brackets that match, the innermost open bracket, and a closing
  bracket that does not fit it.
* `stillOpen_or_unfit`, `misfit_iff` — what the stack says of a bracket up to a position.
* `matchingClose_exact` — when the search finds a bracket, and which error it gives otherwise.
* `bracePair_iff_matchingClose`, `tagGroups_iff_matchingClose` — the two searches agree.
-/

namespace TagBox

/-! ## A grammar of brackets -/

/-- Tokens whose brackets nest: a bracket that is opened is closed by one of its own kind, with such
tokens in between.  Tokens that are no brackets stand anywhere. -/
inductive WellBracketed : List Token → Prop
  | nil : WellBracketed []
  | plain {t : Token} {rest : List Token} (ht : t.kind.isBracket = false)
      (hrest : WellBracketed rest) : WellBracketed (t :: rest)
  | group {t c : Token} {inner rest : List Token} (hc : t.kind.closer = some c.kind)
      (hinner : WellBracketed inner) (hrest : WellBracketed rest) :
      WellBracketed (t :: inner ++ c :: rest)

/-- The brackets at the positions `o` and `c` match: they are of one kind, and the brackets between them
nest. -/
structure BracketPair (tokens : List Token) (o c : Nat) : Prop where
  lt : o < c
  fit : ∃ b z, tokens[o]? = some b ∧ tokens[c]? = some z ∧ b.kind.closer = some z.kind
  between : WellBracketed ((tokens.take c).drop (o + 1))

/-- The token `b` at position `p` is the innermost bracket that is open in front of position `i`: the
brackets between them nest. -/
structure Innermost (tokens : List Token) (i p : Nat) (b : Token) : Prop where
  lt : p < i
  token : tokens[p]? = some b
  opening : b.kind.isOpening = true
  between : WellBracketed ((tokens.take i).drop (p + 1))

/-- From position `o` on, position `i` holds the first bracket that does not fit: in front of it the
brackets nest so far and the one at `o` is still open, and it closes another kind than the innermost open
bracket is of. -/
structure Misfit (tokens : List Token) (o i : Nat) : Prop where
  begun : ∃ rest, WellBracketed ((tokens.take i).drop o ++ rest)
  unclosed : ∀ c < i, ¬ BracketPair tokens o c
  unfit : ∃ p b z, o ≤ p ∧ Innermost tokens i p b ∧ tokens[i]? = some z ∧
    z.kind.isClosing = true ∧ b.kind.closer ≠ some z.kind

theorem wellBracketed_of_nested {ts : List Token} (h : Nested ts) : WellBracketed ts := by
  -- both parts of a group are shorter than the whole
  induction hn : ts.length using Nat.strongRecOn generalizing ts with
  | _ n ih =>
    cases ts with
    | nil => exact .nil
    | cons t ts =>
      rw [List.length_cons] at hn
      rcases nest_cons_cases h with ⟨-, h'⟩ | ⟨b, around, heq, -, -⟩ | ⟨ho, hc, -, h'⟩
      · obtain ⟨inner, c, rest, rfl, hi, hc, hr⟩ := @nest_split Kind.never [] t.kind [] ts h'
        rw [List.length_append, List.length_cons] at hn
        exact .group hc (ih _ (by omega) hi rfl) (ih _ (by omega) hr rfl)
      · simp at heq
      · exact .plain (Bool.or_eq_false_iff.2 ⟨ho, hc⟩) (ih _ (by omega) h' rfl)

/-- The grammar and the reading with a stack accept the same tokens. -/
theorem wellBracketed_iff {ts : List Token} : WellBracketed ts ↔ Nested ts := by
  refine ⟨fun h => ?_, wellBracketed_of_nested⟩
  induction h with
  | nil => rfl
  | plain ht _ ih =>
    obtain ⟨ho, hc⟩ := Bool.or_eq_false_iff.1 ht
    exact ih.cons ho hc rfl
  | group hc _ _ ihi ihr => exact ihr.group ihi hc

/-! ## Readings that are not finished -/

/-- The kind closes a bracket, and not the innermost one of `opened`. -/
def Unfit (opened : List Kind) (k : Kind) : Prop :=
  k.isClosing = true ∧ ∀ innermost ∈ opened.head?, innermost.closer ≠ some k

section Unfinished

variable {opened left around : List Kind} {k innermost : Kind} {ks : List Kind} {ts : List Token}

/-- A reading gets stuck at kinds that are unfit, and at no others. -/
theorem nestStep_eq_none_iff : nestStep Kind.never opened k = none ↔ Unfit opened k := by
  unfold nestStep Unfit
  by_cases ho : k.isOpening = true
  · have hc : ¬ k.isClosing = true := by
      intro hc
      simp [Kind.not_isOpening_of_isClosing hc] at ho
    simp [ho, hc]
  · by_cases hc : k.isClosing = true
    · cases opened <;> simp [ho, hc]
    · simp [ho, hc, Kind.never]

theorem nest_of_unfit (h : Unfit opened k) : nest Kind.never opened (k :: ks) = none := by
  rw [nest, nestStep_eq_none_iff.2 h, Option.bind_none]

/-- Only opening brackets are left open. -/
theorem isOpening_of_mem_nest (h : nest Kind.never opened ks = some left)
    (ho : ∀ b ∈ opened, b.isOpening = true) : ∀ b ∈ left, b.isOpening = true := by
  induction ks generalizing opened with
  | nil =>
    obtain rfl : opened = left := by simpa using h
    exact ho
  | cons k ks ih =>
    rcases nest_cons_cases h with ⟨hk, h'⟩ | ⟨b, around, rfl, -, h'⟩ | ⟨-, -, -, h'⟩
    · exact ih h' (by simpa [hk] using ho)
    · exact ih h' fun b' hb' => ho b' (List.mem_cons_of_mem b hb')
    · exact ih h' ho

/-- Opening brackets can be closed. -/
theorem exists_closing (h : ∀ b ∈ left, b.isOpening = true) :
    ∃ rest : List Token, nest Kind.never left (kinds rest) = some [] := by
  induction left with
  | nil => exact ⟨[], rfl⟩
  | cons b left ih =>
    obtain ⟨rest, hrest⟩ := ih fun b' hb' => h b' (List.mem_cons_of_mem b hb')
    obtain ⟨c, hc⟩ := Option.isSome_iff_exists.1 ((Kind.isOpening_iff_closer b).1 (h b (by simp)))
    refine ⟨⟨c, [], []⟩ :: rest, ?_⟩
    rw [kinds_cons, nest_closing hc]
    exact hrest

/-- Tokens that can be read to their end can be completed to tokens whose brackets nest. -/
theorem exists_completion (h : nest Kind.never [] (kinds ts) = some left) :
    ∃ rest, WellBracketed (ts ++ rest) := by
  obtain ⟨rest, hrest⟩ := exists_closing (isOpening_of_mem_nest h (by simp))
  refine ⟨rest, wellBracketed_of_nested ?_⟩
  rw [Nested, Nests, kinds_append, nest_append, h]
  exact hrest

/-- The innermost bracket that is left open was opened by one of the tokens, behind which the brackets
nest, or it was open before, and the tokens close what was opened inside of it. -/
theorem exists_innermost (h : nest Kind.never opened (kinds ts) = some (innermost :: around)) :
    (∃ front t behind, ts = front ++ t :: behind ∧ t.kind = innermost ∧ t.kind.isOpening = true ∧
      Nested behind) ∨
    ∃ inside, opened = inside ++ innermost :: around ∧
      nest Kind.never inside (kinds ts) = some [] := by
  induction ts generalizing opened with
  | nil =>
    obtain rfl : opened = innermost :: around := by simpa using h
    exact Or.inr ⟨[], rfl, rfl⟩
  | cons t ts ih =>
    have hbehind : (∃ front u behind, ts = front ++ u :: behind ∧ u.kind = innermost ∧
        u.kind.isOpening = true ∧ Nested behind) →
        ∃ front u behind, t :: ts = front ++ u :: behind ∧ u.kind = innermost ∧
          u.kind.isOpening = true ∧ Nested behind := by
      rintro ⟨front, u, behind, rfl, hu⟩
      exact ⟨t :: front, u, behind, rfl, hu⟩
    rcases nest_cons_cases h with ⟨ho, h'⟩ | ⟨b, rest, rfl, hb, h'⟩ | ⟨ho, hc, -, h'⟩
    · rcases ih h' with hfound | ⟨inside, heq, hinside⟩
      · exact Or.inl (hbehind hfound)
      · cases inside with
        | nil =>
          obtain ⟨hkind, rfl⟩ := List.cons.inj heq
          exact Or.inl ⟨[], t, ts, rfl, hkind, ho, hinside⟩
        | cons k inside =>
          obtain ⟨rfl, rfl⟩ := List.cons.inj heq
          refine Or.inr ⟨inside, rfl, ?_⟩
          rw [kinds_cons, nest_opening ho]
          exact hinside
    · rcases ih h' with hfound | ⟨inside, rfl, hinside⟩
      · exact Or.inl (hbehind hfound)
      · refine Or.inr ⟨b :: inside, rfl, ?_⟩
        rw [kinds_cons, nest_closing hb]
        exact hinside
    · rcases ih h' with hfound | ⟨inside, rfl, hinside⟩
      · exact Or.inl (hbehind hfound)
      · refine Or.inr ⟨inside, rfl, ?_⟩
        rw [kinds_cons, nest_plain ho hc (by simp [Kind.never])]
        exact hinside

end Unfinished

/-! ## A bracket that stays open -/

/-- The brackets behind position `o` that are open in front of position `n`, innermost first.  There is no
result if one of the tokens between these positions closes a bracket that was not opened there. -/
def stillOpen (tokens : List Token) (o n : Nat) : Option (List Kind) :=
  nest Kind.never [] (kinds ((tokens.take n).drop (o + 1)))

section StillOpen

variable {tokens : List Token} {o n i p : Nat} {b z t : Token} {left : List Kind}

theorem drop_eq_cons (ht : tokens[n]? = some t) : tokens.drop n = t :: tokens.drop (n + 1) := by
  obtain ⟨hn, rfl⟩ := List.getElem?_eq_some_iff.1 ht
  exact List.drop_eq_getElem_cons hn

/-- A stretch up to position `n` is cut at position `i`. -/
theorem drop_take_cut (hi : o ≤ i) (hn : i ≤ n) :
    (tokens.take n).drop o = (tokens.take i).drop o ++ (tokens.take n).drop i := by
  have hsize : n - o = (i - o) + (n - i) := by omega
  rw [List.drop_take, List.drop_take, List.drop_take, hsize, List.take_add, List.drop_drop,
    Nat.add_sub_of_le hi]

theorem drop_take_cons (ht : tokens[i]? = some t) (hn : i < n) :
    (tokens.take n).drop i = t :: (tokens.take n).drop (i + 1) :=
  drop_eq_cons (by rw [List.getElem?_take_of_lt hn, ht])

theorem stillOpen_start (tokens : List Token) (o : Nat) : stillOpen tokens o (o + 1) = some [] := by
  rw [stillOpen, List.drop_eq_nil_of_le (List.length_take_le _ _)]
  rfl

theorem stillOpen_succ (hn : o < n) (ht : tokens[n]? = some t) :
    stillOpen tokens o (n + 1) = (stillOpen tokens o n).bind fun l => nestStep Kind.never l t.kind := by
  have hlast : (tokens.take (n + 1)).drop (n + 1) = [] :=
    List.drop_eq_nil_of_le (List.length_take_le _ _)
  rw [stillOpen, drop_take_cut hn (Nat.le_succ n), drop_take_cons ht (Nat.lt_succ_self n), hlast,
    kinds_append, nest_append]
  simp [stillOpen, nest]

/-- Up to each position a bracket stays open, or there is a first token that is unfit for the brackets
opened behind it. -/
theorem stillOpen_or_unfit (hn : o < n) (hlen : n ≤ tokens.length) :
    (∃ left, stillOpen tokens o n = some left) ∨
    ∃ i left z, o < i ∧ i < n ∧ stillOpen tokens o i = some left ∧ tokens[i]? = some z ∧
      Unfit left z.kind := by
  induction n, hn using Nat.le_induction with
  | base => exact Or.inl ⟨[], stillOpen_start tokens o⟩
  | succ n hn ih =>
    rcases ih (by omega) with ⟨left, hleft⟩ | ⟨i, left, z, hoi, hin, hfirst⟩
    · have hlt : n < tokens.length := by omega
      have ht := List.getElem?_eq_getElem hlt
      cases hstep : nestStep Kind.never left tokens[n].kind with
      | none => exact Or.inr ⟨n, left, _, hn, n.lt_succ_self, hleft, ht, nestStep_eq_none_iff.1 hstep⟩
      | some left' =>
        refine Or.inl ⟨left', ?_⟩
        rw [stillOpen_succ hn ht, hleft, Option.bind_some, hstep]
    · exact Or.inr ⟨i, left, z, hoi, by omega, hfirst⟩

/-- A stretch leaves its first bracket open, around all that is open behind it. -/
theorem nest_stretch (hb : tokens[o]? = some b) (ho : b.kind.isOpening = true) (hn : o < n)
    (h : stillOpen tokens o n = some left) :
    nest Kind.never [] (kinds ((tokens.take n).drop o)) = some (left ++ [b.kind]) := by
  rw [drop_take_cons hb hn, kinds_cons, nest_opening ho]
  exact nest_frame [b.kind] h

/-- The innermost open bracket is on top of the stack. -/
theorem Innermost.head?_eq (h : Innermost tokens i p t) (hb : tokens[o]? = some b) (hp : o ≤ p)
    (hleft : stillOpen tokens o i = some left) : (left ++ [b.kind]).head? = some t.kind := by
  have hbetween : nest Kind.never [] (kinds ((tokens.take i).drop (p + 1))) = some [] :=
    wellBracketed_iff.1 h.between
  rcases Nat.eq_or_lt_of_le hp with rfl | hlt
  · obtain rfl : left = [] := Option.some.inj (hleft.symm.trans hbetween)
    obtain rfl : b = t := Option.some.inj (hb.symm.trans h.token)
    rfl
  · rw [stillOpen, drop_take_cut hlt h.lt.le, drop_take_cons h.token h.lt, kinds_append,
      nest_append] at hleft
    obtain ⟨around, -, hrest⟩ := Option.bind_eq_some_iff.1 hleft
    rw [kinds_cons, nest_opening h.opening] at hrest
    -- what stands behind the bracket closes all that it opens
    have htop := nest_frame (t.kind :: around) hbetween
    obtain rfl : left = t.kind :: around := Option.some.inj (hrest.symm.trans htop)
    rfl

/-- The top of the stack is the innermost open bracket. -/
theorem exists_innermost_of_stillOpen (hb : tokens[o]? = some b) (ho : b.kind.isOpening = true)
    (hi : o < i) (hleft : stillOpen tokens o i = some left) :
    ∃ p t, o ≤ p ∧ Innermost tokens i p t ∧ (left ++ [b.kind]).head? = some t.kind := by
  cases left with
  | nil => exact ⟨o, b, Nat.le_refl o, ⟨hi, hb, ho, wellBracketed_of_nested hleft⟩, rfl⟩
  | cons innermost around =>
    rcases exists_innermost hleft with ⟨front, t, behind, hcut, hkind, hopening, hbehind⟩ | ⟨inside, hnil, -⟩
    · have hdrop : ∀ m, (tokens.take i).drop (o + 1 + m) = (front ++ t :: behind).drop m := by
        intro m
        rw [← hcut, List.drop_drop]
      have hsize : front.length + 1 ≤ i - (o + 1) := by
        have hlength := congrArg List.length hcut
        simp only [List.length_drop, List.length_take, List.length_append, List.length_cons] at hlength
        omega
      have htoken : (tokens.take i)[o + 1 + front.length]? = some t := by
        rw [← List.head?_drop, hdrop, List.drop_left]
        rfl
      rw [List.getElem?_take_of_lt (by omega)] at htoken
      refine ⟨o + 1 + front.length, t, by omega, ⟨by omega, htoken, hopening, ?_⟩, ?_⟩
      · rw [Nat.add_assoc, hdrop, ← List.drop_drop, List.drop_left]
        exact wellBracketed_of_nested hbehind
      · rw [hkind]
        rfl
    · simp at hnil

/-- A stretch with a token that is unfit in it cannot be completed. -/
theorem not_begun_of_unfit (hb : tokens[o]? = some b) (ho : b.kind.isOpening = true) (hi : o < i)
    (hn : i < n) (hleft : stillOpen tokens o i = some left) (hz : tokens[i]? = some z)
    (hunfit : Unfit (left ++ [b.kind]) z.kind) (rest : List Token) :
    ¬ WellBracketed ((tokens.take n).drop o ++ rest) := by
  intro hwhole
  have hnest : nest Kind.never [] (kinds ((tokens.take n).drop o ++ rest)) = some [] :=
    wellBracketed_iff.1 hwhole
  rw [drop_take_cut hi.le hn.le, drop_take_cons hz hn, List.append_assoc, kinds_append, nest_append,
    nest_stretch hb ho hi hleft, Option.bind_some, List.cons_append, kinds_cons,
    nest_of_unfit hunfit] at hnest
  exact absurd hnest (by simp)

end StillOpen

/-! ## The answers of the search -/

section Search

variable {tokens : List Token} {o i n c c' : Nat} {b z : Token} {left : List Kind}

/-- A token that is unfit for the brackets opened behind another one closes that one, or it is unfit for it
too. -/
theorem Unfit.closes_or_append {k l : Kind} (h : Unfit left k) :
    (left = [] ∧ l.closer = some k) ∨ Unfit (left ++ [l]) k := by
  cases left with
  | nil =>
    by_cases hl : l.closer = some k
    · exact Or.inl ⟨rfl, hl⟩
    · exact Or.inr ⟨h.1, by simpa using hl⟩
  | cons innermost around => exact Or.inr h

theorem closeFrom_unfit {u : NestingError} {opened : List Kind} {t : Token} {ts : List Token}
    (h : Unfit opened t.kind) :
    closeFrom u opened i (t :: ts) = .error (.unmatchedClose i t.text) := by
  cases opened with
  | nil => simp [closeFrom, h.1, Kind.not_isOpening_of_isClosing h.1]
  | cons innermost around => rw [closeFrom_closing h.1, if_neg (h.2 innermost rfl)]

theorem matchingClose_eq_closeOf (hb : tokens[o]? = some b) :
    matchingClose tokens o = closeOf o b (tokens.drop (o + 1)) := by
  rw [matchingClose, drop_eq_cons hb]

/-- The search reads on as long as its bracket is open. -/
theorem matchingClose_of_stillOpen (hb : tokens[o]? = some b) (ho : b.kind.isOpening = true)
    (hn : o < n) (hlen : n ≤ tokens.length) (h : stillOpen tokens o n = some left) :
    matchingClose tokens o =
      closeFrom (.unclosed o b.text) (left ++ [b.kind]) n (tokens.drop n) := by
  have hcut : tokens.drop (o + 1) = (tokens.take n).drop (o + 1) ++ tokens.drop n := by
    rw [← List.drop_append_of_le_length (by rw [List.length_take]; omega), List.take_append_drop]
  have hsize : o + 1 + ((tokens.take n).drop (o + 1)).length = n := by
    rw [List.length_drop, List.length_take]
    omega
  have hpass := @closeFrom_pass (.unclosed o b.text) [] (o + 1) b.kind left _ (tokens.drop n) h
  rw [hsize, ← hcut] at hpass
  rw [matchingClose_eq_closeOf hb, closeOf, closeFrom_opening ho]
  exact hpass

theorem matchingClose_of_unfit (hb : tokens[o]? = some b) (ho : b.kind.isOpening = true) (hi : o < i)
    (hleft : stillOpen tokens o i = some left) (hz : tokens[i]? = some z)
    (hunfit : Unfit (left ++ [b.kind]) z.kind) :
    matchingClose tokens o = .error (.unmatchedClose i z.text) := by
  have hlen := (List.getElem?_eq_some_iff.1 hz).1
  rw [matchingClose_of_stillOpen hb ho hi hlen.le hleft, drop_eq_cons hz, closeFrom_unfit hunfit]

/-- The search finds the bracket that matches. -/
theorem BracketPair.matchingClose_eq (h : BracketPair tokens o c) : matchingClose tokens o = .ok c := by
  obtain ⟨b, z, hb, hz, hfit⟩ := h.fit
  have hlen := (List.getElem?_eq_some_iff.1 hz).1
  have hleft : stillOpen tokens o c = some [] := wellBracketed_iff.1 h.between
  rw [matchingClose_of_stillOpen hb (Kind.isOpening_of_closer hfit) h.lt hlen.le hleft, drop_eq_cons hz,
    List.nil_append, closeFrom_closing (Kind.isClosing_of_closer hfit), if_pos hfit, if_pos rfl]

/-- A bracket that does not fit, by the stack. -/
theorem misfit_iff (hb : tokens[o]? = some b) (ho : b.kind.isOpening = true) :
    Misfit tokens o i ↔ o < i ∧ ∃ left z, stillOpen tokens o i = some left ∧ tokens[i]? = some z ∧
      Unfit (left ++ [b.kind]) z.kind := by
  constructor
  · rintro ⟨⟨rest, hbegun⟩, hunclosed, p, t, z, hop, hp, hz, hclosing, hunfit⟩
    have hi : o < i := Nat.lt_of_le_of_lt hop hp.lt
    have hlen := (List.getElem?_eq_some_iff.1 hz).1
    -- nothing in front of position `i` closes the bracket or is unfit
    have hopen : ∃ left, stillOpen tokens o i = some left := by
      rcases stillOpen_or_unfit hi hlen.le with hopen | ⟨j, left, y, hoj, hji, hleft, hy, hunfit'⟩
      · exact hopen
      · exfalso
        rcases hunfit'.closes_or_append (l := b.kind) with ⟨rfl, hfit⟩ | hunfit'
        · exact hunclosed j hji ⟨hoj, ⟨b, y, hb, hy, hfit⟩, wellBracketed_of_nested hleft⟩
        · exact not_begun_of_unfit hb ho hoj hji hleft hy hunfit' rest hbegun
    obtain ⟨left, hleft⟩ := hopen
    refine ⟨hi, left, z, hleft, hz, hclosing, ?_⟩
    intro innermost htop
    rw [hp.head?_eq hb hop hleft] at htop
    obtain rfl := Option.mem_some_iff.1 htop
    exact hunfit
  · rintro ⟨hi, left, z, hleft, hz, hunfit⟩
    obtain ⟨p, t, hop, hp, htop⟩ := exists_innermost_of_stillOpen hb ho hi hleft
    refine ⟨exists_completion (nest_stretch hb ho hi hleft), fun c _ hpair => ?_,
      p, t, z, hop, hp, hz, hunfit.1, hunfit.2 _ htop⟩
    have hanswer := hpair.matchingClose_eq.symm.trans (matchingClose_of_unfit hb ho hi hleft hz hunfit)
    simp at hanswer

/-- How the search can end. -/
theorem matchingClose_cases (hb : tokens[o]? = some b) (ho : b.kind.isOpening = true) :
    (∃ c, BracketPair tokens o c ∧ matchingClose tokens o = .ok c) ∨
    (∃ i z, Misfit tokens o i ∧ tokens[i]? = some z ∧
      matchingClose tokens o = .error (.unmatchedClose i z.text)) ∨
    matchingClose tokens o = .error (.unclosed o b.text) := by
  have hlen := (List.getElem?_eq_some_iff.1 hb).1
  rcases stillOpen_or_unfit hlen (Nat.le_refl _) with ⟨left, hleft⟩ | ⟨i, left, z, hi, -, hleft, hz, hunfit⟩
  · refine Or.inr (Or.inr ?_)
    rw [matchingClose_of_stillOpen hb ho hlen (Nat.le_refl _) hleft, List.drop_length]
    rfl
  · rcases hunfit.closes_or_append (l := b.kind) with ⟨rfl, hfit⟩ | hunfit
    · have hpair : BracketPair tokens o i := ⟨hi, ⟨b, z, hb, hz, hfit⟩, wellBracketed_of_nested hleft⟩
      exact Or.inl ⟨i, hpair, hpair.matchingClose_eq⟩
    · exact Or.inr (Or.inl ⟨i, z, (misfit_iff hb ho).2 ⟨hi, left, z, hleft, hz, hunfit⟩, hz,
        matchingClose_of_unfit hb ho hi hleft hz hunfit⟩)

/-- A bracket matches one bracket. -/
theorem BracketPair.unique (h : BracketPair tokens o c) (h' : BracketPair tokens o c') : c = c' :=
  Except.ok.inj (h.matchingClose_eq.symm.trans h'.matchingClose_eq)

theorem Misfit.matchingClose_eq (h : Misfit tokens o i) (hb : tokens[o]? = some b)
    (ho : b.kind.isOpening = true) (hz : tokens[i]? = some z) :
    matchingClose tokens o = .error (.unmatchedClose i z.text) := by
  obtain ⟨hi, left, z', hleft, hz', hunfit⟩ := (misfit_iff hb ho).1 h
  obtain rfl : z' = z := Option.some.inj (hz'.symm.trans hz)
  exact matchingClose_of_unfit hb ho hi hleft hz hunfit

theorem matchingClose_eq_ok_iff (hb : tokens[o]? = some b) (ho : b.kind.isOpening = true) :
    matchingClose tokens o = .ok c ↔ BracketPair tokens o c := by
  refine ⟨fun h => ?_, BracketPair.matchingClose_eq⟩
  rcases matchingClose_cases hb ho with ⟨c', hpair, hok⟩ | ⟨i, z, -, -, herror⟩ | herror
  · obtain rfl : c' = c := Except.ok.inj (hok.symm.trans h)
    exact hpair
  · simp [herror] at h
  · simp [herror] at h

theorem matchingClose_eq_unmatchedClose_iff (hb : tokens[o]? = some b) (ho : b.kind.isOpening = true)
    {text : Text} :
    matchingClose tokens o = .error (.unmatchedClose i text) ↔
      Misfit tokens o i ∧ tokens[i]?.map Token.text = some text := by
  constructor
  · intro h
    rcases matchingClose_cases hb ho with ⟨c, -, hok⟩ | ⟨j, z, hmisfit, hz, herror⟩ | herror
    · simp [hok] at h
    · obtain ⟨rfl, rfl⟩ : j = i ∧ z.text = text := by simpa using herror.symm.trans h
      exact ⟨hmisfit, by rw [hz, Option.map_some]⟩
    · simp [herror] at h
  · rintro ⟨hmisfit, htext⟩
    obtain ⟨z, hz, rfl⟩ := Option.map_eq_some_iff.1 htext
    exact hmisfit.matchingClose_eq hb ho hz

theorem matchingClose_eq_unclosed_iff (hb : tokens[o]? = some b) (ho : b.kind.isOpening = true)
    {text : Text} :
    matchingClose tokens o = .error (.unclosed i text) ↔
      i = o ∧ text = b.text ∧ (∀ c, ¬ BracketPair tokens o c) ∧ ∀ j, ¬ Misfit tokens o j := by
  constructor
  · intro h
    refine and_assoc.1 ⟨?_, fun c hpair => ?_, fun j hmisfit => ?_⟩
    · rcases matchingClose_cases hb ho with ⟨c, -, hok⟩ | ⟨j, z, -, -, herror⟩ | herror
      · simp [hok] at h
      · simp [herror] at h
      · simpa using h.symm.trans herror
    · simp [hpair.matchingClose_eq] at h
    · obtain ⟨-, -, z, -, -, hz, -⟩ := hmisfit.unfit
      simp [hmisfit.matchingClose_eq hb ho hz] at h
  · rintro ⟨rfl, rfl, hpair, hmisfit⟩
    rcases matchingClose_cases hb ho with ⟨c, hc, -⟩ | ⟨j, z, hj, -⟩ | herror
    · exact absurd hc (hpair c)
    · exact absurd hj (hmisfit j)
    · exact herror

/-- The search for the bracket that closes the one at position `o` finds exactly the bracket that matches
it, of which there is one at most.  It blames a closing bracket exactly if that is the first one that does
not fit, and the bracket at `o` exactly if there is neither a bracket that matches it nor one that does
not fit. -/
theorem matchingClose_exact (hb : tokens[o]? = some b) (ho : b.kind.isOpening = true) :
    (∀ c, matchingClose tokens o = .ok c ↔ BracketPair tokens o c) ∧
    (∀ c c', BracketPair tokens o c → BracketPair tokens o c' → c = c') ∧
    (∀ i text, matchingClose tokens o = .error (.unmatchedClose i text) ↔
      Misfit tokens o i ∧ tokens[i]?.map Token.text = some text) ∧
    ∀ i text, matchingClose tokens o = .error (.unclosed i text) ↔
      i = o ∧ text = b.text ∧ (∀ c, ¬ BracketPair tokens o c) ∧ ∀ j, ¬ Misfit tokens o j :=
  ⟨fun _ => matchingClose_eq_ok_iff hb ho, fun _ _ => BracketPair.unique,
    fun _ _ => matchingClose_eq_unmatchedClose_iff hb ho, fun _ _ => matchingClose_eq_unclosed_iff hb ho⟩

/-- A bracket that does not fit, a group, and a brace that is never closed. -/
def mixedRow : List Token :=
  [⟨.openBracket, ['['], []⟩, ⟨.openParen, ['('], []⟩, ⟨.closeBracket, [']'], []⟩,
    ⟨.openBrace, ['{'], []⟩, ⟨.identifier, ['k'], []⟩, ⟨.openParen, ['('], []⟩,
    ⟨.closeParen, [')'], []⟩, ⟨.closeBrace, ['}'], []⟩, ⟨.openBrace, ['{'], []⟩, ⟨.comma, [','], []⟩]

theorem matchingClose_exact_mixed :
    (matchingClose mixedRow 3 = .ok 7 ∧ BracketPair mixedRow 3 7) ∧
    (matchingClose mixedRow 0 = .error (.unmatchedClose 2 [']']) ∧ Misfit mixedRow 0 2) ∧
    matchingClose mixedRow 8 = .error (.unclosed 8 ['{']) ∧ ∀ c, ¬ BracketPair mixedRow 8 c := by
  have hgroup : matchingClose mixedRow 3 = .ok 7 := by decide
  have hmisfit : matchingClose mixedRow 0 = .error (.unmatchedClose 2 [']']) := by decide
  have hunclosed : matchingClose mixedRow 8 = .error (.unclosed 8 ['{']) := by decide
  obtain ⟨hok, -⟩ := @matchingClose_exact mixedRow 3 ⟨.openBrace, ['{'], []⟩ rfl rfl
  obtain ⟨-, -, hunmatched, -⟩ := @matchingClose_exact mixedRow 0 ⟨.openBracket, ['['], []⟩ rfl rfl
  obtain ⟨-, -, -, hnone⟩ := @matchingClose_exact mixedRow 8 ⟨.openBrace, ['{'], []⟩ rfl rfl
  exact ⟨⟨hgroup, (hok 7).1 hgroup⟩, ⟨hmisfit, ((hunmatched 2 _).1 hmisfit).1⟩, hunclosed,
    ((hnone 8 _).1 hunclosed).2.2.1⟩

end Search

/-! ## Two searches -/

/-- The key at position `k` stands directly in the braces at the ends of the span: no group of braces lies
between them and the key. -/
def HoldsDirectly (tokens : List Token) (g : Span) (k : Nat) : Prop :=
  g.first < k ∧ k < g.last ∧ ∀ o c, (kinds tokens)[o]? = some .openBrace →
    matchingClose tokens o = .ok c → ¬ (g.first < o ∧ o < k ∧ k < c ∧ c < g.last)

section Agreement

variable {tokens : List Token} {o c : Nat} {b : Token}

/-- Where all brackets nest, braces are balanced. -/
theorem balanced_of_nested (h : Nested tokens) : Balanced tokens :=
  (@exists_ok_iff_balanced ⟨[], []⟩ tokens).1 (exists_tagGroups (bracesNest_of_nested h))

/-- Braces that match among all brackets match among braces. -/
theorem bracePair_of_matchingClose (ho : (kinds tokens)[o]? = some .openBrace)
    (h : matchingClose tokens o = .ok c) : BracePair tokens o c := by
  obtain ⟨b, hb, hkind⟩ := exists_of_kinds ho
  have hpair := (matchingClose_eq_ok_iff hb (by rw [hkind]; rfl)).1 h
  obtain ⟨b', z, hb', hz, hfit⟩ := hpair.fit
  obtain rfl : b = b' := Option.some.inj (hb.symm.trans hb')
  rw [hkind] at hfit
  exact ⟨hpair.lt, kinds_of_getElem? hb hkind, kinds_of_getElem? hz (Option.some.inj hfit).symm,
    balanced_of_nested (wellBracketed_iff.1 hpair.between)⟩

/-- Where all brackets nest, each of them is closed. -/
theorem exists_matchingClose (h : Nested tokens) (hb : tokens[o]? = some b)
    (ho : b.kind.isOpening = true) : ∃ c, matchingClose tokens o = .ok c := by
  have hcut : tokens = tokens.take o ++ b :: tokens.drop (o + 1) := by
    rw [← drop_eq_cons hb, List.take_append_drop]
  rw [hcut] at h
  obtain ⟨around, -, hrest⟩ := h.halves
  rw [kinds_cons, nest_opening ho] at hrest
  obtain ⟨inner, z, rest, hinner, hi, hz, -⟩ := @nest_split Kind.never [] b.kind around _ hrest
  refine ⟨o + 1 + inner.length, ?_⟩
  rw [matchingClose_eq_closeOf hb]
  exact (closeOf_eq_ok_iff ho).2 ⟨inner, z, rest, hinner, hi, hz, rfl⟩

/-- Where all brackets nest, the same braces match among braces alone and among all brackets. -/
theorem bracePair_iff_matchingClose (h : Nested tokens) :
    BracePair tokens o c ↔
      (kinds tokens)[o]? = some .openBrace ∧ matchingClose tokens o = .ok c := by
  refine ⟨fun hpair => ⟨hpair.opening, ?_⟩, fun hc => bracePair_of_matchingClose hc.1 hc.2⟩
  obtain ⟨b, hb, hkind⟩ := exists_of_kinds hpair.opening
  obtain ⟨c', hc'⟩ := exists_matchingClose h hb (by rw [hkind]; rfl)
  rw [hpair.closing_unique (bracePair_of_matchingClose hpair.opening hc')]
  exact hc'

/-- Where all brackets nest, the search for tag groups succeeds, and what it finds are exactly the braces
that the search for a closing bracket matches and that hold a marked key directly. -/
theorem tagGroups_iff_matchingClose (m : KeyMatcher) (h : WellBracketed tokens) :
    ∃ gs, tagGroups m tokens = .ok gs ∧ ∀ g, g ∈ gs ↔
      (kinds tokens)[g.first]? = some .openBrace ∧ matchingClose tokens g.first = .ok g.last ∧
        ∃ k, MarkedAt m tokens k ∧ HoldsDirectly tokens g k := by
  have hnested : Nested tokens := wellBracketed_iff.1 h
  obtain ⟨gs, hgs⟩ := @exists_tagGroups m tokens (bracesNest_of_nested hnested)
  refine ⟨gs, hgs, fun g => ?_⟩
  rw [mem_tagGroups_iff hgs, Tagged, bracePair_iff_matchingClose hnested, and_assoc]
  refine and_congr_right fun _ => and_congr_right fun _ => exists_congr fun k => ?_
  simp only [HoldsDirectly, bracePair_iff_matchingClose hnested, and_imp]
  constructor
  · rintro ⟨hfirst, hlast, hk, hnone⟩
    exact ⟨hk, hfirst, hlast, hnone⟩
  · rintro ⟨hk, hfirst, hlast, hnone⟩
    exact ⟨hfirst, hlast, hk, hnone⟩

/-- A marked group in a marked group, with brackets of the other kinds between them. -/
def layeredRow : List Token :=
  [⟨.openBrace, ['{'], []⟩, ⟨.identifier, ['k'], []⟩, ⟨.equals, ['='], []⟩, ⟨.openParen, ['('], []⟩,
    ⟨.openBrace, ['{'], []⟩, ⟨.quoted, ['"', 'k', '"'], []⟩, ⟨.newline, ['\n'], []⟩,
    ⟨.colon, [':'], []⟩, ⟨.openBracket, ['['], []⟩, ⟨.closeBracket, [']'], []⟩,
    ⟨.closeBrace, ['}'], []⟩, ⟨.closeParen, [')'], []⟩, ⟨.closeBrace, ['}'], []⟩]

theorem tagGroups_iff_matchingClose_layered :
    WellBracketed layeredRow ∧ tagGroups ⟨[], [['k']]⟩ layeredRow = .ok [⟨4, 10⟩, ⟨0, 12⟩] ∧
      matchingClose layeredRow 4 = .ok 10 ∧ matchingClose layeredRow 0 = .ok 12 ∧
      ∃ k, MarkedAt ⟨[], [['k']]⟩ layeredRow k ∧ HoldsDirectly layeredRow ⟨0, 12⟩ k := by
  have hrow : WellBracketed layeredRow := wellBracketed_of_nested (by decide)
  have hrun : tagGroups ⟨[], [['k']]⟩ layeredRow = .ok [⟨4, 10⟩, ⟨0, 12⟩] := by decide
  obtain ⟨gs, hgs, hmem⟩ := tagGroups_iff_matchingClose ⟨[], [['k']]⟩ hrow
  obtain rfl : gs = [⟨4, 10⟩, ⟨0, 12⟩] := Except.ok.inj (hgs.symm.trans hrun)
  obtain ⟨-, hinner, -⟩ := (hmem ⟨4, 10⟩).1 (by simp)
  obtain ⟨-, houter, hkey⟩ := (hmem ⟨0, 12⟩).1 (by simp)
  exact ⟨hrow, hrun, hinner, houter, hkey⟩

end Agreement

end TagBox
