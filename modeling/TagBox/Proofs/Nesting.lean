import TagBox.Body.Bracket
import Mathlib.Tactic.Common

/-!
# How brackets nest

The three kinds of brackets are read by a stack: an opening bracket is pushed, a closing one has to
fit the bracket on top.  `nest` is that reading on kinds alone, so that it says nothing about
positions and cannot depend on text or layout.  It can also be told at which kinds to give up when
no bracket is open, which is how the value of an attribute ends at a line end.

* `nest` — the brackets open behind some kinds.
* `Nested`, `Inline` — token lists whose brackets nest, and those that hold no line end outside of
  brackets either.
* `nests_induction` — such a list is a run of plain tokens and bracketed groups.
* `closeOf_eq_ok_iff` — the search for a closing bracket finds exactly the end of its group.
* `bracesNest_of_nested` — braces alone nest if all brackets do.
-/

namespace TagBox

theorem map_eq_ok_iff {ε α β : Type} {f : α → β} {x : Except ε α} {b : β} :
    x.map f = .ok b ↔ ∃ a, x = .ok a ∧ f a = b := by
  cases x <;> simp [Except.map]

theorem toOption_eq_some_iff {ε α : Type} {x : Except ε α} {a : α} :
    x.toOption = some a ↔ x = .ok a := by
  cases x <;> simp [Except.toOption]

/-- The kinds of the tokens of a list. -/
def kinds (tokens : List Token) : List Kind :=
  tokens.map Token.kind

@[simp]
theorem kinds_nil : kinds [] = [] := rfl

@[simp]
theorem kinds_cons (t : Token) (ts : List Token) : kinds (t :: ts) = t.kind :: kinds ts := rfl

@[simp]
theorem kinds_append (ts us : List Token) : kinds (ts ++ us) = kinds ts ++ kinds us := by
  simp [kinds]

theorem kinds_eq_of_contents_eq {ts us : List Token} (h : contents ts = contents us) :
    kinds ts = kinds us := by
  have hk : ∀ ls : List Token, kinds ls = (contents ls).map Prod.fst := by
    intro ls
    simp [kinds, contents, Function.comp_def, Token.content]
  rw [hk, hk, h]

namespace Kind

/-- Is the kind a bracket? -/
def isBracket (k : Kind) : Bool :=
  k.isOpening || k.isClosing

/-- Is the kind one of the two braces? -/
def isBrace : Kind → Bool
  | openBrace | closeBrace => true
  | _ => false

/-- Does the kind end the line of an attribute? -/
def endsLine : Kind → Bool
  | newline | eof => true
  | _ => false

/-- Nothing gives up at any kind. -/
def never (_ : Kind) : Bool := false

theorem closer_injective {a b c : Kind} (ha : a.closer = some c) (hb : b.closer = some c) :
    a = b := by
  have h : a.closer = b.closer := ha.trans hb.symm
  have hne : a.closer ≠ none := by simp [ha]
  clear ha hb
  cases a <;> cases b <;> simp_all [closer]

theorem isOpening_of_closer {a c : Kind} (h : a.closer = some c) : a.isOpening = true := by
  rw [isOpening_iff_closer, h]
  rfl

theorem not_isOpening_of_isClosing {k : Kind} (h : k.isClosing = true) : k.isOpening = false := by
  cases k <;> simp_all [isClosing, isOpening]

theorem isBrace_closer {a c : Kind} (h : a.closer = some c) : c.isBrace = a.isBrace := by
  cases a <;> simp [closer] at h <;> subst h <;> rfl

end Kind

/-! ## Reading brackets with a stack -/

/-- The brackets that are open behind one more kind, innermost first.  There is no result if the kind
is a closing bracket that does not fit, or one of `stops` where no bracket is open. -/
def nestStep (stops : Kind → Bool) (opened : List Kind) (k : Kind) : Option (List Kind) :=
  if k.isOpening then some (k :: opened)
  else if k.isClosing then
    match opened with
    | [] => none
    | innermost :: around => if innermost.closer = some k then some around else none
  else if stops k = true ∧ opened = [] then none
  else some opened

/-- The brackets that are open behind some kinds, innermost first, if those of `opened` are open in
front of them. -/
def nest (stops : Kind → Bool) (opened : List Kind) : List Kind → Option (List Kind)
  | [] => some opened
  | k :: rest => (nestStep stops opened k).bind fun o => nest stops o rest

section Nest

variable {stops : Kind → Bool} {opened left : List Kind} {k : Kind} {ks : List Kind}

@[simp]
theorem nest_nil : nest stops opened [] = some opened := rfl

theorem nest_opening (h : k.isOpening = true) :
    nest stops opened (k :: ks) = nest stops (k :: opened) ks := by
  simp [nest, nestStep, h]

theorem nest_closing {b : Kind} (h : b.closer = some k) :
    nest stops (b :: opened) (k :: ks) = nest stops opened ks := by
  have hk : k.isClosing = true := Kind.isClosing_of_closer h
  have ho : k.isOpening = false := Kind.not_isOpening_of_isClosing hk
  simp [nest, nestStep, hk, ho, h]

theorem nest_plain (ho : k.isOpening = false) (hc : k.isClosing = false)
    (hs : ¬ (stops k = true ∧ opened = [])) :
    nest stops opened (k :: ks) = nest stops opened ks := by
  simp [nest, nestStep, ho, hc, hs]

/-- What a step of the reading can be. -/
theorem nest_cons_cases (h : nest stops opened (k :: ks) = some left) :
    (k.isOpening = true ∧ nest stops (k :: opened) ks = some left) ∨
    (∃ b around, opened = b :: around ∧ b.closer = some k ∧ nest stops around ks = some left) ∨
    (k.isOpening = false ∧ k.isClosing = false ∧ ¬ (stops k = true ∧ opened = []) ∧
      nest stops opened ks = some left) := by
  obtain ⟨o, hstep, hrest⟩ := Option.bind_eq_some_iff.1 h
  unfold nestStep at hstep
  split_ifs at hstep with ho hc hs
  · rw [Option.some.injEq] at hstep
    exact Or.inl ⟨ho, hstep ▸ hrest⟩
  · cases opened with
    | nil => simp at hstep
    | cons b around =>
      by_cases hb : b.closer = some k
      · simp only [hb, if_true, Option.some.injEq] at hstep
        exact Or.inr (Or.inl ⟨b, around, rfl, hb, hstep ▸ hrest⟩)
      · simp [hb] at hstep
  · rw [Option.some.injEq] at hstep
    exact Or.inr (Or.inr ⟨by simpa using ho, by simpa using hc, hs, hstep ▸ hrest⟩)

theorem nest_append (stops : Kind → Bool) (opened ks ls : List Kind) :
    nest stops opened (ks ++ ls) = (nest stops opened ks).bind fun o => nest stops o ls := by
  induction ks generalizing opened with
  | nil => rfl
  | cons k ks ih =>
    rw [List.cons_append, nest, nest, Option.bind_assoc]
    exact congrArg _ (funext fun o => ih o)

/-- More brackets around a reading are still there behind it. -/
theorem nest_frame (around : List Kind) (h : nest stops opened ks = some left) :
    nest stops (opened ++ around) ks = some (left ++ around) := by
  induction ks generalizing opened with
  | nil =>
    rw [nest_nil, Option.some.injEq] at h
    rw [nest_nil, h]
  | cons k ks ih =>
    rcases nest_cons_cases h with ⟨ho, h'⟩ | ⟨b, rest, rfl, hb, h'⟩ | ⟨ho, hc, hs, h'⟩
    · rw [nest_opening ho]
      exact ih h'
    · rw [List.cons_append, nest_closing hb]
      exact ih h'
    · rw [nest_plain ho hc (fun hbad => hs ⟨hbad.1, (List.append_eq_nil_iff.1 hbad.2).1⟩)]
      exact ih h'

/-- Below an open bracket no reading gives up at a kind. -/
theorem nest_within {stops' : Kind → Bool} {around : List Kind} (hne : around ≠ [])
    (h : nest stops opened ks = some left) :
    nest stops' (opened ++ around) ks = some (left ++ around) := by
  induction ks generalizing opened with
  | nil =>
    rw [nest_nil, Option.some.injEq] at h
    rw [nest_nil, h]
  | cons k ks ih =>
    rcases nest_cons_cases h with ⟨ho, h'⟩ | ⟨b, rest, rfl, hb, h'⟩ | ⟨ho, hc, -, h'⟩
    · rw [nest_opening ho]
      exact ih h'
    · rw [List.cons_append, nest_closing hb]
      exact ih h'
    · rw [nest_plain ho hc (fun hbad => hne (List.append_eq_nil_iff.1 hbad.2).2)]
      exact ih h'

/-- A reading that gives up at more kinds gives no other result. -/
theorem nest_of_stops {fewer : Kind → Bool} (hf : ∀ k, fewer k = true → stops k = true)
    (h : nest stops opened ks = some left) : nest fewer opened ks = some left := by
  induction ks generalizing opened with
  | nil => exact h
  | cons k ks ih =>
    rcases nest_cons_cases h with ⟨ho, h'⟩ | ⟨b, rest, rfl, hb, h'⟩ | ⟨ho, hc, hs, h'⟩
    · rw [nest_opening ho]
      exact ih h'
    · rw [nest_closing hb]
      exact ih h'
    · rw [nest_plain ho hc (fun hbad => hs ⟨hf k hbad.1, hbad.2⟩)]
      exact ih h'

/-- What some kinds leave open tells what was open in front of them. -/
theorem nest_injective {stops' : Kind → Bool} {opened' : List Kind}
    (h : nest stops opened ks = some left) (h' : nest stops' opened' ks = some left) :
    opened = opened' := by
  induction ks generalizing opened opened' with
  | nil =>
    rw [nest_nil, Option.some.injEq] at h h'
    rw [h, h']
  | cons k ks ih =>
    rcases nest_cons_cases h with ⟨ho, h1⟩ | ⟨b, rest, rfl, hb, h1⟩ | ⟨ho, hc, -, h1⟩ <;>
      rcases nest_cons_cases h' with ⟨ho', h2⟩ | ⟨b', rest', rfl, hb', h2⟩ | ⟨ho', hc', -, h2⟩
    · exact (List.cons.inj (ih h1 h2)).2
    · rw [Kind.not_isOpening_of_isClosing (Kind.isClosing_of_closer hb')] at ho
      simp at ho
    · simp [ho'] at ho
    · rw [Kind.not_isOpening_of_isClosing (Kind.isClosing_of_closer hb)] at ho'
      simp at ho'
    · rw [Kind.closer_injective hb hb', ih h1 h2]
    · simp [Kind.isClosing_of_closer hb] at hc'
    · simp [ho] at ho'
    · simp [Kind.isClosing_of_closer hb'] at hc
    · exact ih h1 h2

/-- If everything is closed in the end, each of the open brackets is closed by some token: what stands in
front of that token closes the brackets inside, and what stands behind it those around. -/
theorem nest_split {b : Kind} {around : List Kind} {ts : List Token}
    (h : nest stops (opened ++ b :: around) (kinds ts) = some []) :
    ∃ inner c rest, ts = inner ++ c :: rest ∧ nest Kind.never opened (kinds inner) = some [] ∧
      b.closer = some c.kind ∧ nest stops around (kinds rest) = some [] := by
  induction ts generalizing opened with
  | nil => simp at h
  | cons t ts ih =>
    rcases nest_cons_cases h with ⟨ho, h'⟩ | ⟨b', behind, heq, hb, h'⟩ | ⟨ho, hc, -, h'⟩
    · obtain ⟨inner, c, rest, rfl, hi, hc, hr⟩ := @ih (t.kind :: opened) h'
      exact ⟨t :: inner, c, rest, rfl, by rw [kinds_cons, nest_opening ho]; exact hi, hc, hr⟩
    · cases opened with
      | nil =>
        obtain ⟨rfl, rfl⟩ : b = b' ∧ around = behind := by simpa using heq
        exact ⟨[], t, ts, rfl, rfl, hb, h'⟩
      | cons o opened =>
        obtain ⟨rfl, rfl⟩ : o = b' ∧ opened ++ b :: around = behind := by simpa using heq
        obtain ⟨inner, c, rest, rfl, hi, hc, hr⟩ := ih h'
        exact ⟨t :: inner, c, rest, rfl, by rw [kinds_cons, nest_closing hb]; exact hi, hc, hr⟩
    · obtain ⟨inner, c, rest, rfl, hi, hc', hr⟩ := ih h'
      refine ⟨t :: inner, c, rest, rfl, ?_, hc', hr⟩
      rw [kinds_cons, nest_plain ho hc (by simp [Kind.never])]
      exact hi

/-- Braces alone are read as all brackets are, with the other brackets left out. -/
theorem nest_filter_isBrace (h : nest stops opened ks = some left) :
    nest Kind.never (opened.filter Kind.isBrace) (ks.filter Kind.isBrace) =
      some (left.filter Kind.isBrace) := by
  induction ks generalizing opened with
  | nil =>
    rw [nest_nil, Option.some.injEq] at h
    rw [h]
    rfl
  | cons k ks ih =>
    rcases nest_cons_cases h with ⟨ho, h'⟩ | ⟨b, around, rfl, hb, h'⟩ | ⟨ho, hc, -, h'⟩
    · have hk := ih h'
      by_cases hbr : k.isBrace = true
      · rw [List.filter_cons_of_pos hbr] at hk ⊢
        rw [nest_opening ho]
        exact hk
      · rwa [List.filter_cons_of_neg hbr] at hk ⊢
    · have hk := ih h'
      have hbk : k.isBrace = b.isBrace := Kind.isBrace_closer hb
      by_cases hbr : b.isBrace = true
      · rw [List.filter_cons_of_pos hbr, List.filter_cons_of_pos (hbk.trans hbr), nest_closing hb]
        exact hk
      · rw [List.filter_cons_of_neg hbr, List.filter_cons_of_neg (by rw [hbk]; exact hbr)]
        exact hk
    · have hbr : ¬ k.isBrace = true := by
        cases k <;> simp_all [Kind.isBrace, Kind.isOpening, Kind.isClosing]
      rw [List.filter_cons_of_neg hbr]
      exact ih h'

end Nest

/-! ## Token lists whose brackets nest -/

/-- The brackets of the tokens nest, and no kind of `stops` stands outside of them. -/
def Nests (stops : Kind → Bool) (tokens : List Token) : Prop :=
  nest stops [] (kinds tokens) = some []

/-- The brackets of the tokens nest. -/
abbrev Nested (tokens : List Token) : Prop :=
  Nests Kind.never tokens

/-- The brackets of the tokens nest, and no line ends outside of them. -/
abbrev Inline (tokens : List Token) : Prop :=
  Nests Kind.endsLine tokens

/-- The braces of the tokens nest, other brackets left aside. -/
def BracesNest (tokens : List Token) : Prop :=
  nest Kind.never [] ((kinds tokens).filter Kind.isBrace) = some []

instance (stops : Kind → Bool) (tokens : List Token) : Decidable (Nests stops tokens) :=
  inferInstanceAs (Decidable (_ = _))

instance (tokens : List Token) : Decidable (BracesNest tokens) :=
  inferInstanceAs (Decidable (_ = _))

section Nests

variable {stops : Kind → Bool} {ts us : List Token}

theorem bracesNest_of_nested (h : Nests stops ts) : BracesNest ts :=
  nest_filter_isBrace h

theorem Nests.nested (h : Nests stops ts) : Nested ts :=
  nest_of_stops (by simp [Kind.never]) h

theorem Nests.append (h : Nests stops ts) (h' : Nests stops us) : Nests stops (ts ++ us) := by
  rw [Nests, kinds_append, nest_append, h]
  exact h'

theorem Nests.of_append_left (h : Nests stops ts) (h' : Nests stops (ts ++ us)) :
    Nests stops us := by
  rw [Nests, kinds_append, nest_append, h] at h'
  exact h'

theorem Nests.cons {t : Token} (h : Nests stops ts) (ho : t.kind.isOpening = false)
    (hc : t.kind.isClosing = false) (hs : stops t.kind = false) : Nests stops (t :: ts) := by
  rw [Nests, kinds_cons, nest_plain ho hc (by simp [hs])]
  exact h

/-- A group holds nested tokens between two brackets that fit.  Inside of it nothing stops. -/
theorem Nests.group {t c : Token} {inner : List Token} (h : Nests stops ts) (hi : Nested inner)
    (hc : t.kind.closer = some c.kind) :
    Nests stops (t :: inner ++ c :: ts) := by
  have hin : nest stops [t.kind] (kinds inner) = some [t.kind] :=
    nest_within (by simp) hi
  rw [Nests, List.cons_append, kinds_cons, nest_opening (Kind.isOpening_of_closer hc), kinds_append,
    nest_append, hin, Option.bind_some, kinds_cons, nest_closing hc]
  exact h

/-- What the left part of a nested list leaves open is what the right part closes. -/
theorem Nests.halves (h : Nests stops (ts ++ us)) :
    ∃ opened, nest stops [] (kinds ts) = some opened ∧ nest stops opened (kinds us) = some [] := by
  rw [Nests, kinds_append, nest_append] at h
  exact Option.bind_eq_some_iff.1 h

/-- A nested list is a run of plain tokens and of groups. -/
theorem nests_induction {motive : (tokens : List Token) → Nests stops tokens → Prop}
    (nil : motive [] rfl)
    (plain : ∀ t rest (ho : t.kind.isOpening = false) (hc : t.kind.isClosing = false)
      (hs : stops t.kind = false) (h : Nests stops rest), motive rest h →
      motive (t :: rest) (h.cons ho hc hs))
    (group : ∀ t inner c rest (hi : Nested inner) (hc : t.kind.closer = some c.kind)
      (h : Nests stops rest), motive rest h → motive (t :: inner ++ c :: rest) (h.group hi hc))
    (tokens : List Token) (h : Nests stops tokens) : motive tokens h := by
  -- a group is longer than what follows it, so the induction is on the length
  induction hn : tokens.length using Nat.strongRecOn generalizing tokens with
  | _ n ih =>
    cases tokens with
    | nil => exact nil
    | cons t ts =>
      rcases nest_cons_cases h with ⟨-, h'⟩ | ⟨b, around, heq, -, -⟩ | ⟨ho, hc, hs, h'⟩
      · obtain ⟨inner, c, rest, rfl, hi, hc, hr⟩ := @nest_split stops [] t.kind [] ts h'
        have hlen : rest.length < n := by
          rw [← hn, List.length_cons, List.length_append, List.length_cons]
          omega
        exact group t inner c rest hi hc hr (ih _ hlen rest hr rfl)
      · simp at heq
      · have hlen : ts.length < n := by
          rw [← hn, List.length_cons]
          omega
        exact plain t ts ho hc (by simpa using hs) h' (ih _ hlen ts h' rfl)

end Nests

/-! ## The search for a closing bracket -/

section CloseFrom

variable {u : NestingError} {opened : List Kind} {i : Nat} {t : Token} {ts : List Token}

theorem closeFrom_opening (h : t.kind.isOpening = true) :
    closeFrom u opened i (t :: ts) = closeFrom u (t.kind :: opened) (i + 1) ts := by
  simp [closeFrom, h]

theorem closeFrom_plain (ho : t.kind.isOpening = false) (hc : t.kind.isClosing = false) :
    closeFrom u opened i (t :: ts) = closeFrom u opened (i + 1) ts := by
  simp [closeFrom, ho, hc]

theorem closeFrom_closing {b : Kind} (h : t.kind.isClosing = true) :
    closeFrom u (b :: opened) i (t :: ts) =
      if b.closer = some t.kind then
        if opened = [] then .ok i else closeFrom u opened (i + 1) ts
      else .error (.unmatchedClose i t.text) := by
  simp [closeFrom, h, Kind.not_isOpening_of_isClosing h]

/-- The search passes tokens that leave the outermost open bracket open. -/
theorem closeFrom_pass {b : Kind} {left : List Kind} {inner : List Token} (rest : List Token)
    (h : nest Kind.never opened (kinds inner) = some left) :
    closeFrom u (opened ++ [b]) i (inner ++ rest) =
      closeFrom u (left ++ [b]) (i + inner.length) rest := by
  induction inner generalizing opened i with
  | nil =>
    obtain rfl : opened = left := by simpa using h
    rfl
  | cons t inner ih =>
    have hlen : i + (t :: inner).length = i + 1 + inner.length := by
      rw [List.length_cons]
      omega
    rw [hlen, List.cons_append]
    rcases nest_cons_cases h with ⟨ho, h'⟩ | ⟨o, around, rfl, ho, h'⟩ | ⟨ho, hn, -, h'⟩
    · rw [closeFrom_opening ho]
      exact @ih (t.kind :: opened) _ h'
    · rw [List.cons_append, closeFrom_closing (Kind.isClosing_of_closer ho), if_pos ho,
        if_neg (by simp)]
      exact ih h'
    · rw [closeFrom_plain ho hn]
      exact ih h'

/-- The search ends at the token that closes the outermost open bracket. -/
theorem closeFrom_append {b : Kind} {inner : List Token} {c : Token} (rest : List Token)
    (hi : nest Kind.never opened (kinds inner) = some []) (hc : b.closer = some c.kind) :
    closeFrom u (opened ++ [b]) i (inner ++ c :: rest) = .ok (i + inner.length) := by
  rw [closeFrom_pass _ hi, List.nil_append, closeFrom_closing (Kind.isClosing_of_closer hc), if_pos hc,
    if_pos rfl]

/-- What the search finds closes the outermost open bracket. -/
theorem exists_of_closeFrom {b : Kind} {j : Nat} (h : closeFrom u (opened ++ [b]) i ts = .ok j) :
    ∃ inner c rest, ts = inner ++ c :: rest ∧ nest Kind.never opened (kinds inner) = some [] ∧
      b.closer = some c.kind ∧ j = i + inner.length := by
  induction ts generalizing opened i with
  | nil => simp [closeFrom] at h
  | cons t ts ih =>
    by_cases ho : t.kind.isOpening = true
    · rw [closeFrom_opening ho] at h
      obtain ⟨inner, c, rest, rfl, hi, hc, rfl⟩ := @ih (t.kind :: opened) _ h
      refine ⟨t :: inner, c, rest, rfl, ?_, hc, by rw [List.length_cons]; omega⟩
      rw [kinds_cons, nest_opening ho]
      exact hi
    · by_cases hcl : t.kind.isClosing = true
      · cases opened with
        | nil =>
          rw [List.nil_append, closeFrom_closing hcl] at h
          by_cases hb : b.closer = some t.kind
          · rw [if_pos hb, if_pos rfl, Except.ok.injEq] at h
            exact ⟨[], t, ts, rfl, rfl, hb, by simp [h]⟩
          · simp [hb] at h
        | cons o opened =>
          rw [List.cons_append, closeFrom_closing hcl] at h
          by_cases hb : o.closer = some t.kind
          · rw [if_pos hb, if_neg (by simp)] at h
            obtain ⟨inner, c, rest, rfl, hi, hc, rfl⟩ := ih h
            refine ⟨t :: inner, c, rest, rfl, ?_, hc, by rw [List.length_cons]; omega⟩
            rw [kinds_cons, nest_closing hb]
            exact hi
          · simp [hb] at h
      · rw [closeFrom_plain (by simpa using ho) (by simpa using hcl)] at h
        obtain ⟨inner, c, rest, rfl, hi, hc, rfl⟩ := ih h
        refine ⟨t :: inner, c, rest, rfl, ?_, hc, by rw [List.length_cons]; omega⟩
        rw [kinds_cons, nest_plain (by simpa using ho) (by simpa using hcl) (by simp [Kind.never])]
        exact hi

end CloseFrom

/-- The search for the bracket that closes `t` finds exactly the end of the group that `t` opens. -/
theorem closeOf_eq_ok_iff {i j : Nat} {t : Token} {ts : List Token} (h : t.kind.isOpening = true) :
    closeOf i t ts = .ok j ↔
      ∃ inner c rest, ts = inner ++ c :: rest ∧ Nested inner ∧ t.kind.closer = some c.kind ∧
        j = i + 1 + inner.length := by
  rw [closeOf, closeFrom_opening h]
  constructor
  · intro hclose
    have hclose' : closeFrom (.unclosed i t.text) ([] ++ [t.kind]) (i + 1) ts = .ok j := hclose
    exact exists_of_closeFrom hclose'
  · rintro ⟨inner, c, rest, rfl, hi, hc, rfl⟩
    have hclose := @closeFrom_append (.unclosed i t.text) [] (i + 1) t.kind inner c rest hi hc
    exact hclose

end TagBox
