import TagBox.Token.Lexer
import TagBox.Proofs.Extent

/-!
# How far a lexeme looks

A lexeme is the longest match at the front of a text, so its end depends on what follows.  The
dependence is short: quoted texts, block comments and heredocs carry their own end, and everything
else is decided at the latest by the next bracket, blank or line end.

* `Alike` — two continuations of a text that agree up to a bracket, a blank, a slash or a line end, or of
  which the second is the first cut short.
* `measure_alike` — a lexeme that ends in front of a text also ends in front of one that is alike.
* `measure_le` — a lexeme never reaches beyond the text.
-/

namespace TagBox

/-! ## Continuations that read alike -/

/-- Brackets and blanks: no lexeme but a comment, a quoted text or a heredoc goes on with one of
them. -/
def isStop (c : Char) : Bool :=
  c == '{' || c == '}' || c == '(' || c == ')' || c == '[' || c == ']' || c == ' ' || c == '\t'

/-- The texts agree up to a place where the second one ends or has a bracket or a blank.  There, if
the second one goes on, the first one has a bracket or a blank too, or the start of a comment.  Or they
agree up to the end of a line, or to a slash. -/
inductive Alike : Text → Text → Prop
  | cut (r : Text) : Alike r []
  | line (x y : Text) : Alike ('\n' :: x) ('\n' :: y)
  | slash (x y : Text) : Alike ('/' :: x) ('/' :: y)
  | stop {c d : Char} (x y : Text) (hc : isStop c = true ∨ c = '/') (hd : isStop d = true) :
      Alike (c :: x) (d :: y)
  | cons (c : Char) {x y : Text} (h : Alike x y) : Alike (c :: x) (c :: y)

namespace Alike

variable {r s : Text}

theorem refl : ∀ r : Text, Alike r r
  | [] => .cut []
  | c :: r => .cons c (refl r)

theorem append (w : Text) (h : Alike r s) : Alike (w ++ r) (w ++ s) := by
  induction w with
  | nil => exact h
  | cons c w ih => exact .cons c ih

theorem trans {q : Text} (h : Alike q r) (h' : Alike r s) : Alike q s := by
  induction h generalizing s with
  | cut q =>
    cases h'
    exact .cut q
  | line x y =>
    cases h' with
    | cut => exact .cut _
    | line => exact .line x _
    | stop _ _ hc => exact absurd hc (by decide)
    | cons => exact .line x _
  | slash x y =>
    cases h' with
    | cut => exact .cut _
    | slash => exact .slash x _
    | stop _ _ _ hd => exact .stop x _ (Or.inr rfl) hd
    | cons => exact .slash x _
  | stop x y hc hd =>
    cases h' with
    | cut => exact .cut _
    | line => exact absurd hd (by decide)
    | slash => exact absurd hd (by decide)
    | stop _ _ _ hd' => exact .stop x _ hc hd'
    | cons => exact .stop x _ hc hd
  | cons c _ ih =>
    cases h' with
    | cut => exact .cut _
    | line => exact .line _ _
    | slash => exact .slash _ _
    | stop _ _ hc hd => exact .stop _ _ hc hd
    | cons _ h' => exact .cons c (ih h')

/-- A class of characters to which no stop belongs, or to which all stops belong, does not start
one text without the other. -/
theorem takeWhile_eq_nil {p : Char → Bool}
    (hp : ∀ c d, isStop c = true ∨ c = '/' → isStop d = true → p c = false → p d = false)
    (h : Alike r s) (hr : r.takeWhile p = []) : s.takeWhile p = [] := by
  cases h with
  | cut => rfl
  | line =>
    have hpc : p '\n' = false := by
      by_contra hne
      simp [List.takeWhile_cons, hne] at hr
    simp [hpc]
  | slash =>
    have hpc : p '/' = false := by
      by_contra hne
      simp [List.takeWhile_cons, hne] at hr
    simp [hpc]
  | @stop c d x y hc hd =>
    have hpc : p c = false := by
      by_contra hne
      simp [List.takeWhile_cons, hne] at hr
    simp [hp c d hc hd hpc]
  | cons c h' =>
    have hpc : p c = false := by
      by_contra hne
      simp [List.takeWhile_cons, hne] at hr
    simp [hpc]

theorem head?_ne {d : Char} (hd : isStop d = false) (h : Alike r s) (hr : r.head? ≠ some d) :
    s.head? ≠ some d := by
  cases h with
  | cut => simp
  | line => simpa using hr
  | slash => simpa using hr
  | stop x y _ hd' =>
    rintro ⟨⟩
    rw [hd] at hd'
    simp at hd'
  | cons c h' => simpa using hr

end Alike

theorem takeWhile_append_length_eq_iff {p : Char → Bool} {tail r : Text} :
    ((tail ++ r).takeWhile p).length = tail.length ↔
      (∀ c ∈ tail, p c = true) ∧ r.takeWhile p = [] := by
  induction tail with
  | nil => simp
  | cons c tail ih =>
    by_cases hc : p c = true
    · simp [hc, ih]
    · simp [hc]

/-- A run of characters of a class that ends in front of a text ends in front of one alike. -/
theorem takeWhile_length_alike {p : Char → Bool} {tail r s : Text}
    (hp : ∀ c d, isStop c = true ∨ c = '/' → isStop d = true → p c = false → p d = false)
    (h : Alike r s) (hlen : ((tail ++ r).takeWhile p).length = tail.length) :
    ((tail ++ s).takeWhile p).length = tail.length := by
  rw [takeWhile_append_length_eq_iff] at hlen ⊢
  exact ⟨hlen.1, h.takeWhile_eq_nil hp hlen.2⟩

/-- The stops and the slash, one by one. -/
theorem stop_or_slash_cases {c : Char} (h : isStop c = true ∨ c = '/') :
    c = '{' ∨ c = '}' ∨ c = '(' ∨ c = ')' ∨ c = '[' ∨ c = ']' ∨ c = ' ' ∨ c = '\t' ∨ c = '/' := by
  simpa [isStop, or_assoc] using h

/-- A class without stops. -/
theorem stops_excluded {p : Char → Bool}
    (hp : ∀ d, isStop d = true → p d = false) :
    ∀ c d, isStop c = true ∨ c = '/' → isStop d = true → p c = false → p d = false :=
  fun _ d _ hd _ => hp d hd

theorem isDigit_of_isStop {d : Char} (h : isStop d = true) : d.isDigit = false := by
  rcases stop_or_slash_cases (Or.inl h) with rfl | rfl | rfl | rfl | rfl | rfl | rfl | rfl | rfl <;>
    decide

theorem isNamePart_of_isStop {d : Char} (h : isStop d = true) : isNamePart d = false := by
  rcases stop_or_slash_cases (Or.inl h) with rfl | rfl | rfl | rfl | rfl | rfl | rfl | rfl | rfl <;>
    decide

theorem isNameStart_of_isStop {d : Char} (h : isStop d = true) : isNameStart d = false := by
  rcases stop_or_slash_cases (Or.inl h) with rfl | rfl | rfl | rfl | rfl | rfl | rfl | rfl | rfl <;>
    decide

theorem isLineEnd_of_isStop {c : Char} (h : isStop c = true ∨ c = '/') :
    Lexeme.isLineEnd c = false := by
  rcases stop_or_slash_cases h with rfl | rfl | rfl | rfl | rfl | rfl | rfl | rfl | rfl <;> decide

/-! ## Numbers -/

namespace Lexeme

theorem digitCount_cons (c : Char) (u : Text) :
    digitCount (c :: u) = if c.isDigit then digitCount u + 1 else 0 := by
  by_cases hc : c.isDigit = true <;> simp [digitCount, hc]

theorem digitCount_alike (tail : Text) {r s : Text} (h : Alike r s)
    (hle : digitCount (tail ++ r) ≤ tail.length) :
    digitCount (tail ++ s) = digitCount (tail ++ r) := by
  induction tail with
  | nil =>
    have hr : r.takeWhile Char.isDigit = [] := by
      simpa [digitCount] using hle
    have hs := h.takeWhile_eq_nil (stops_excluded fun _ => isDigit_of_isStop) hr
    simp [digitCount, hr, hs]
  | cons c tail ih =>
    rw [List.cons_append, List.cons_append, digitCount_cons, digitCount_cons] at *
    by_cases hc : c.isDigit = true
    · rw [if_pos hc] at hle
      rw [if_pos hc, if_pos hc, ih (by simpa using hle)]
    · rw [if_neg hc, if_neg hc]

theorem digitCount_eq_zero_alike {r s : Text} (h : Alike r s) (hr : digitCount r = 0) :
    digitCount s = 0 := by
  have := digitCount_alike [] h (by simpa using hr.le)
  simpa [hr] using this

theorem fractionLength_point (u : Text) :
    fractionLength ('.' :: u) = if digitCount u = 0 then 0 else digitCount u + 1 := rfl

theorem fractionLength_of_head {u : Text} (h : u.head? ≠ some '.') : fractionLength u = 0 := by
  unfold fractionLength
  split
  · simp at h
  · rfl

theorem fractionLength_alike {tail r s : Text} (h : Alike r s)
    (hle : fractionLength (tail ++ r) ≤ tail.length) :
    fractionLength (tail ++ s) = fractionLength (tail ++ r) := by
  -- either the point is in front of `tail`, or `tail` is empty and the point is in both texts
  have hpoint : ∀ (t : Text) {x y : Text}, Alike x y →
      fractionLength ('.' :: (t ++ x)) ≤ t.length + 1 →
      fractionLength ('.' :: (t ++ y)) = fractionLength ('.' :: (t ++ x)) := by
    intro t x y hxy hle
    rw [fractionLength_point, fractionLength_point] at *
    have hcount : digitCount (t ++ y) = digitCount (t ++ x) := by
      refine digitCount_alike t hxy ?_
      split at hle <;> omega
    rw [hcount]
  cases tail with
  | nil =>
    rw [List.nil_append, List.nil_append] at *
    by_cases hr : r.head? = some '.'
    · cases h with
      | cut =>
        rw [List.length_nil, Nat.le_zero] at hle
        rw [hle]
        rfl
      | line => simp at hr
      | slash => simp at hr
      | stop x y hc hd =>
        obtain rfl : _ = '.' := by simpa using hr
        exact absurd hc (by decide)
      | cons c h' =>
        obtain rfl : c = '.' := by simpa using hr
        exact hpoint [] h' (by simp at hle; simp [hle])
    · rw [fractionLength_of_head hr, fractionLength_of_head (h.head?_ne (by decide) hr)]
  | cons c tail =>
    by_cases hc : c = '.'
    · subst hc
      exact hpoint tail h (by simpa using hle)
    · rw [fractionLength_of_head (by simpa using hc), fractionLength_of_head (by simpa using hc)]

theorem exponentLength_cons_cons (mark sign : Char) (u : Text) :
    exponentLength (mark :: sign :: u) =
      if mark = 'e' ∨ mark = 'E' then
        if sign = '+' ∨ sign = '-' then
          if digitCount u = 0 then 0 else digitCount u + 2
        else if digitCount (sign :: u) = 0 then 0 else digitCount (sign :: u) + 1
      else 0 := rfl

theorem exponentLength_eq_zero_alike {r s : Text} (h : Alike r s) (hr : exponentLength r = 0) :
    exponentLength s = 0 := by
  cases h with
  | cut => rfl
  | line x y =>
    cases y with
    | nil => rfl
    | cons e y => rw [exponentLength_cons_cons, if_neg (by decide)]
  | slash x y =>
    cases y with
    | nil => rfl
    | cons e y => rw [exponentLength_cons_cons, if_neg (by decide)]
  | stop x y _ hd =>
    cases y with
    | nil => rfl
    | cons e y =>
      rw [exponentLength_cons_cons, if_neg]
      rcases stop_or_slash_cases (Or.inl hd) with rfl | rfl | rfl | rfl | rfl | rfl | rfl | rfl | rfl <;>
        decide
  | cons mark h' =>
    cases h' with
    | cut => rfl
    | line x y =>
      have hcount : digitCount ('\n' :: y) = 0 := by
        rw [digitCount_cons]
        rfl
      rw [exponentLength_cons_cons, if_neg (by decide : ¬ ('\n' = '+' ∨ '\n' = '-')), if_pos hcount]
      split <;> rfl
    | slash x y =>
      have hcount : digitCount ('/' :: y) = 0 := by
        rw [digitCount_cons]
        rfl
      rw [exponentLength_cons_cons, if_neg (by decide : ¬ ('/' = '+' ∨ '/' = '-')), if_pos hcount]
      split <;> rfl
    | @stop c d x y _ hd =>
      have hsign : ¬ (d = '+' ∨ d = '-') := by
        rcases stop_or_slash_cases (Or.inl hd) with
          rfl | rfl | rfl | rfl | rfl | rfl | rfl | rfl | rfl <;> decide
      have hcount : digitCount (d :: y) = 0 := by
        rw [digitCount_cons, isDigit_of_isStop hd]
        simp
      rw [exponentLength_cons_cons, if_neg hsign, if_pos hcount]
      split <;> rfl
    | cons sign h'' =>
      rw [exponentLength_cons_cons] at hr ⊢
      split_ifs at hr with hm hs hd hd
      · rw [if_pos hm, if_pos hs, if_pos (digitCount_eq_zero_alike h'' hd)]
      · rw [if_pos hm, if_neg hs, if_pos (digitCount_eq_zero_alike (.cons sign h'') hd)]
      · rw [if_neg hm]

theorem exponentLength_alike (tail : Text) {r s : Text} (h : Alike r s)
    (hlen : exponentLength (tail ++ r) = tail.length) :
    exponentLength (tail ++ s) = tail.length := by
  match tail with
  | [] => exact exponentLength_eq_zero_alike h hlen
  | [mark] =>
    -- an exponent has a mark and a digit at least
    exfalso
    cases r with
    | nil => simp [exponentLength] at hlen
    | cons sign u =>
      rw [List.singleton_append, exponentLength_cons_cons, List.length_singleton] at hlen
      split_ifs at hlen <;> omega
  | mark :: sign :: tail =>
    rw [List.cons_append, List.cons_append, exponentLength_cons_cons, List.length_cons,
      List.length_cons] at hlen ⊢
    split_ifs at hlen with hm hs hd hd
    · have hcount := digitCount_alike tail h (by omega)
      rw [if_pos hm, if_pos hs, hcount, if_neg hd, hlen]
    · have hcount := digitCount_alike (sign :: tail) h (by
        rw [List.cons_append, List.length_cons]
        omega)
      rw [List.cons_append, List.cons_append] at hcount
      rw [if_pos hm, if_neg hs, hcount, if_neg hd, hlen]

theorem numberLength_alike {tail r s : Text} (h : Alike r s)
    (hlen : numberLength (tail ++ r) = tail.length) :
    numberLength (tail ++ s) = tail.length := by
  simp only [numberLength] at hlen ⊢
  have hcut : ∀ (n : Nat) (v : Text), n ≤ tail.length → (tail ++ v).drop n = tail.drop n ++ v :=
    fun n v hn => List.drop_append_of_le_length hn
  set whole := digitCount (tail ++ r) with hw
  have hwhole : digitCount (tail ++ s) = whole := digitCount_alike tail h (by omega)
  rw [hwhole]
  rw [hcut whole r (by omega)] at hlen
  rw [hcut whole s (by omega)]
  set fraction := fractionLength (tail.drop whole ++ r) with hf
  have hfraction : fractionLength (tail.drop whole ++ s) = fraction :=
    fractionLength_alike h (by rw [List.length_drop]; omega)
  rw [hfraction]
  rw [hcut _ r (by omega)] at hlen
  rw [hcut _ s (by omega)]
  have hexponent := exponentLength_alike (tail.drop (whole + fraction)) h (by
    rw [List.length_drop]
    omega)
  rw [List.length_drop] at hexponent
  omega

end Lexeme

/-! ## Openings of heredocs -/

namespace Heredoc

theorem atLineEnd_alike {r s : Text} (h : Alike r s) (hr : AtLineEnd r) : AtLineEnd s := by
  induction h with
  | cut => exact Or.inl rfl
  | line => exact Or.inr rfl
  | slash => simp [AtLineEnd] at hr
  | @stop c d x y hc hd =>
    exfalso
    have hne : c ≠ '\r' ∧ c ≠ '\n' := by
      rcases stop_or_slash_cases hc with rfl | rfl | rfl | rfl | rfl | rfl | rfl | rfl | rfl <;> decide
    simp [AtLineEnd, hne] at hr
  | @cons c x y _ ih =>
    by_cases hc : c = '\r'
    · subst hc
      simpa [AtLineEnd] using ih (by simpa [AtLineEnd] using hr)
    · simpa [AtLineEnd, hc] using hr

theorem openingBehind_alike {k n : Nat} {marker r s : Text} (h : Alike r s)
    (hr : openingBehind k marker r = .broken n) : openingBehind k marker s = .broken n := by
  obtain rfl : k + marker.length = n := by
    unfold openingBehind at hr
    split at hr <;> simp_all
  unfold openingBehind
  split
  · cases h with
    | line => simp [openingBehind] at hr
    | stop x y hc hd => exact absurd hd (by decide)
    | cons _ h' => simp [openingBehind] at hr
  · cases h with
    | stop x y hc hd => exact absurd hd (by decide)
    | cons _ h' =>
      cases h' with
      | line => simp [openingBehind] at hr
      | stop x y hc hd => exact absurd hd (by decide)
      | cons _ h'' => simp [openingBehind] at hr
  · rfl

theorem openingAfter_broken_alike {k : Nat} {t r s : Text} (h : Alike r s)
    (hr : openingAfter k (t ++ r) = .broken (k + t.length)) :
    openingAfter k (t ++ s) = .broken (k + t.length) := by
  rcases openingAfter_cases (t ++ r) with ⟨habs, -⟩ | ⟨c, m, x, heq, hc, hm, hx⟩
  · simp [habs] at hr
  · rw [heq, openingAfter_marker hc hm hx] at hr
    have hlen : (c :: m).length = t.length := by
      unfold openingBehind at hr
      split at hr
      · simp at hr
      · simp at hr
      · simpa using hr
    obtain ⟨rfl, rfl⟩ := List.append_inj heq hlen.symm
    rw [openingAfter_marker hc hm
      (h.takeWhile_eq_nil (stops_excluded fun _ => isNamePart_of_isStop) hx)]
    exact openingBehind_alike h hr

theorem openingAfter_absent_alike {k : Nat} {r s : Text} (h : Alike r s)
    (hr : openingAfter k r = .absent) : openingAfter k s = .absent := by
  have hnone : ∀ c ∈ r.head?, isNameStart c = false := by
    rcases openingAfter_cases r with ⟨-, hstart⟩ | ⟨c, m, x, rfl, hc, hm, hx⟩
    · exact hstart
    · rw [openingAfter_marker hc hm hx] at hr
      unfold openingBehind at hr
      split at hr <;> simp at hr
  cases h with
  | cut => rfl
  | line => simp [openingAfter, show isNameStart '\n' = false from by decide]
  | slash => simp [openingAfter, show isNameStart '/' = false from by decide]
  | stop x y _ hd => simp [openingAfter, isNameStart_of_isStop hd]
  | cons c _ =>
    have hc : isNameStart c = false := hnone c rfl
    simp [openingAfter, hc]

theorem opening_of_head {u : Text} (h : u.head? ≠ some '<') : opening u = .absent := by
  unfold opening
  split <;> simp_all

theorem lt_of_openingAfter_broken {k n : Nat} {q : Text} (h : openingAfter k q = .broken n) :
    k < n := by
  rcases openingAfter_cases q with ⟨habs, -⟩ | ⟨c, m, x, rfl, hc, hm, hx⟩
  · simp [habs] at h
  · rw [openingAfter_marker hc hm hx] at h
    unfold openingBehind at h
    split at h <;> simp at h
    omega

theorem opening_broken_alike {t r s : Text} (h : Alike r s)
    (hr : opening (t ++ r) = .broken t.length) : opening (t ++ s) = .broken t.length := by
  have hlt : 1 < t.length := by
    unfold opening at hr
    split at hr
    · have := lt_of_openingAfter_broken hr
      omega
    · exact lt_of_openingAfter_broken hr
    · simp at hr
  match t, hlt with
  | c :: d :: t, _ =>
    obtain rfl : c = '<' := by
      by_contra hc
      rw [opening_of_head (by simpa using hc)] at hr
      simp at hr
    by_cases hd : d = '-'
    · subst hd
      have hlen : ('<' :: '-' :: t).length = 2 + t.length := by
        simp only [List.length_cons]
        omega
      rw [hlen] at hr ⊢
      exact openingAfter_broken_alike h hr
    · have hlen : ('<' :: d :: t).length = 1 + (d :: t).length := by
        simp only [List.length_cons]
        omega
      rw [hlen, List.cons_append, opening_less (by simpa using hd)] at hr ⊢
      exact openingAfter_broken_alike h hr

theorem opening_absent_alike {r s : Text} (h : Alike r s) (hr : opening r = .absent) :
    opening s = .absent := by
  by_cases hs : s.head? = some '<'
  · cases h with
    | cut => rfl
    | line => simp at hs
    | slash => simp at hs
    | stop x y _ hd =>
      obtain rfl : _ = '<' := by simpa using hs
      exact absurd hd (by decide)
    | @cons c x y h' =>
      obtain rfl : c = '<' := by simpa using hs
      cases h' with
      | cut => rfl
      | line => rfl
      | slash => rfl
      | stop x y _ hd =>
        rw [opening_less]
        · simp [openingAfter, isNameStart_of_isStop hd]
        · rintro ⟨⟩
          exact absurd hd (by decide)
      | @cons d x y h'' =>
        by_cases hd : d = '-'
        · subst hd
          exact openingAfter_absent_alike h'' hr
        · rw [opening_less (by simpa using hd)] at hr ⊢
          exact openingAfter_absent_alike (.cons d h'') hr
  · exact opening_of_head hs

end Heredoc

/-! ## Lexemes -/

namespace Lexeme

/-- The kind of token that a reading stands for, if it stands for one: blanks do not, and neither do
quoted texts, comments and heredocs without an end. -/
def kindOf : Except Fault Shape → Option Kind
  | .ok shape => shape.kind?
  | .error .unrecognized => some .other
  | .error _ => none

section Measure

variable {reading : Except Fault Shape} {k : Kind} {tail r s : Text}

/-- A lexeme that ends where one more character would be tested for still ends there. -/
theorem head?_iff_alike {d : Char} (hd : isStop d = false) (h : Alike r s)
    (hr : tail = [] → r.head? ≠ some d) :
    (tail ++ s).head? = some d ↔ (tail ++ r).head? = some d := by
  cases tail with
  | nil => simp [hr rfl, h.head?_ne hd (hr rfl)]
  | cons c tail => simp

/-- A heredoc ends at the end of a line, and then it ends at any other end of a line too. -/
theorem measureLess_heredoc (h : measureLess (tail ++ r) = (.ok .heredoc, tail.length)) :
    Heredoc.AtLineEnd r ∧
      ∀ s, Heredoc.AtLineEnd s → measureLess (tail ++ s) = (.ok .heredoc, tail.length) := by
  unfold measureLess at h
  cases ho : Heredoc.opening (tail ++ r) with
  | absent => simp [ho] at h
  | broken n => simp [ho] at h
  | line marker n =>
    obtain ⟨hne, -, htake⟩ := Heredoc.opening_take ho
    cases hb : Heredoc.bodyLength marker ((tail ++ r).drop n) with
    | none => simp [ho, hb] at h
    | some body =>
      simp only [ho, hb] at h
      have hlen := (Prod.mk.inj h).2
      have hn : n ≤ tail.length := by omega
      rw [List.drop_append_of_le_length hn,
        show body = (tail.drop n).length by rw [List.length_drop]; omega] at hb
      obtain ⟨hbody, hend⟩ := Heredoc.isBody_of_bodyLength hb
      refine ⟨hend, fun s hs => ?_⟩
      have hopening : Heredoc.opening (tail ++ s) = .line marker n := by
        have := htake (tail.drop n ++ s)
        rwa [List.take_append_of_le_length hn, ← List.append_assoc, List.take_append_drop] at this
      have hb' := Heredoc.bodyLength_of_isBody hne hbody hs
      simp only [measureLess, hopening, List.drop_append_of_le_length hn, hb', List.length_drop]
      rw [Nat.add_sub_of_le hn]

theorem measureLess_alike (h : Alike r s) (hk : kindOf reading = some k)
    (hr : measureLess (tail ++ r) = (reading, tail.length)) :
    measureLess (tail ++ s) = (reading, tail.length) := by
  by_cases hheredoc : reading = .ok .heredoc
  · subst hheredoc
    obtain ⟨hend, hends⟩ := measureLess_heredoc hr
    exact hends s (Heredoc.atLineEnd_alike h hend)
  unfold measureLess at hr ⊢
  cases ho : Heredoc.opening (tail ++ r) with
  | absent =>
    simp only [ho] at hr
    have hhead : (tail ++ s).head? = some '=' ↔ (tail ++ r).head? = some '=' :=
      head?_iff_alike (by decide) h (by rintro rfl heq; simp [heq] at hr)
    simp only [Heredoc.opening_absent_alike (h.append tail) ho, hhead]
    exact hr
  | broken n =>
    rw [ho] at hr
    obtain ⟨rfl, rfl⟩ : .error .unrecognized = reading ∧ n = tail.length := by simpa using hr
    rw [Heredoc.opening_broken_alike h ho]
  | line marker n =>
    exfalso
    cases hb : Heredoc.bodyLength marker ((tail ++ r).drop n) with
    | none =>
      simp only [ho, hb] at hr
      obtain ⟨rfl, -⟩ := Prod.mk.inj hr
      simp [kindOf] at hk
    | some body =>
      simp only [ho, hb] at hr
      exact hheredoc (Prod.mk.inj hr).1.symm

theorem measureSlash_operator {u : Text} (h : u.head? ≠ some '/') (h' : u.head? ≠ some '*') :
    measureSlash u = (.ok .operator, 0) := by
  unfold measureSlash
  split <;> simp_all

theorem measureSlash_alike (h : Alike r s) (hk : kindOf reading = some k)
    (hr : measureSlash (tail ++ r) = (reading, tail.length)) :
    measureSlash (tail ++ s) = (reading, tail.length) := by
  by_cases hslash : (tail ++ r).head? = some '/'
  · cases tail with
    | nil =>
      exfalso
      obtain ⟨x, rfl⟩ : ∃ x, r = '/' :: x := by simpa using List.head?_eq_some_iff.1 hslash
      have hslash : isLineEnd '/' = false := by decide
      simp [measureSlash, hslash] at hr
    | cons c t =>
      obtain rfl : c = '/' := by simpa using hslash
      obtain ⟨rfl, hlen⟩ := Prod.mk.inj hr
      exact Prod.ext rfl (takeWhile_length_alike
        (fun c d hc _ hp => by simp [isLineEnd_of_isStop hc] at hp) h hlen)
  by_cases hstar : (tail ++ r).head? = some '*'
  · obtain ⟨body, hbody⟩ : ∃ body, tail ++ r = '*' :: body := List.head?_eq_some_iff.1 hstar
    rw [hbody] at hr
    cases hc : commentLength body with
    | none =>
      simp only [measureSlash, hc] at hr
      obtain ⟨rfl, -⟩ := Prod.mk.inj hr
      simp [kindOf] at hk
    | some n =>
      obtain ⟨-, -, htake⟩ := commentLength_take hc
      simp only [measureSlash, hc] at hr
      obtain ⟨rfl, hlen⟩ := Prod.mk.inj hr
      cases tail with
      | nil => simp at hlen
      | cons c t =>
        obtain ⟨rfl, rfl⟩ : c = '*' ∧ t ++ r = body := by simpa using hbody
        obtain rfl : n = t.length := by simpa using hlen
        have := htake s
        rw [List.take_left] at this
        simp [measureSlash, this]
  · rw [measureSlash_operator hslash hstar] at hr
    obtain ⟨rfl, hlen⟩ := Prod.mk.inj hr
    obtain rfl : tail = [] := List.length_eq_zero_iff.1 hlen.symm
    exact measureSlash_operator (h.head?_ne (by decide) hslash) (h.head?_ne (by decide) hstar)

theorem oneOrTwo_alike {second : Char} {two one : Except Fault Shape} (hd : isStop second = false)
    (h : Alike r s) (hr : oneOrTwo second two one (tail ++ r) = (reading, tail.length)) :
    oneOrTwo second two one (tail ++ s) = (reading, tail.length) := by
  have hhead : (tail ++ s).head? = some second ↔ (tail ++ r).head? = some second :=
    head?_iff_alike hd h (by rintro rfl heq; simp [oneOrTwo, heq] at hr)
  unfold oneOrTwo at hr ⊢
  simp only [hhead]
  exact hr

theorem takeWhile_alike {p : Char → Bool} {shape : Shape}
    (hp : ∀ c d, isStop c = true ∨ c = '/' → isStop d = true → p c = false → p d = false)
    (h : Alike r s)
    (hr : (Except.ok shape, ((tail ++ r).takeWhile p).length) = (reading, tail.length)) :
    (Except.ok shape, ((tail ++ s).takeWhile p).length) = (reading, tail.length) := by
  obtain ⟨rfl, hlen⟩ := Prod.mk.inj hr
  rw [takeWhile_length_alike hp h hlen]

theorem dots_alike (h : Alike r s)
    (hr : (if (tail ++ r).take 2 = ['.', '.'] then (.ok .ellipsis, 2) else (.ok .dot, 0)) =
      (reading, tail.length)) :
    (if (tail ++ s).take 2 = ['.', '.'] then (.ok .ellipsis, 2) else (.ok .dot, 0)) =
      (reading, tail.length) := by
  match tail with
  | [] =>
    have hne : r.take 2 ≠ ['.', '.'] := by
      intro heq
      simp [heq] at hr
    have hne' : s.take 2 ≠ ['.', '.'] := by
      intro heq
      match s, h with
      | _ :: _ :: _, .cons _ (.cons _ _) => exact hne (by simpa using heq)
      | _ :: _, .line _ _ => simp at heq
      | _ :: _, .slash _ _ => simp at heq
      | _ :: _ :: _, .cons _ (.line _ _) => simp at heq
      | _ :: _ :: _, .cons _ (.slash _ _) => simp at heq
      | _ :: _, .stop _ _ _ hd =>
        obtain ⟨rfl, -⟩ := List.cons.inj heq
        exact absurd hd (by decide)
      | _ :: _ :: _, .cons _ (.stop _ _ _ hd) =>
        obtain ⟨-, h2⟩ := List.cons.inj heq
        obtain ⟨rfl, -⟩ := List.cons.inj h2
        exact absurd hd (by decide)
      | [_], .cons _ _ => simp at heq
    simpa [hne, hne'] using hr
  | [c] =>
    exfalso
    split_ifs at hr <;> simp at hr
  | c :: d :: t => simpa using hr

theorem quoted_alike
    (hk : kindOf reading = some k)
    (hr : (match Quoted.length? (tail ++ r) with
      | some length => (.ok .quoted, length)
      | none => (.error .unterminatedString, 0)) = (reading, tail.length)) (s : Text) :
    (match Quoted.length? (tail ++ s) with
      | some length => (.ok .quoted, length)
      | none => (.error .unterminatedString, 0)) = (reading, tail.length) := by
  cases hq : Quoted.length? (tail ++ r) with
  | none =>
    simp only [hq] at hr
    obtain ⟨rfl, -⟩ := Prod.mk.inj hr
    simp [kindOf] at hk
  | some n =>
    simp only [hq] at hr
    obtain ⟨rfl, rfl⟩ := Prod.mk.inj hr
    obtain ⟨-, -, -, htake⟩ := Quoted.ends_of_bodyLength hq
    have := htake s
    rw [List.take_left] at this
    simp [Quoted.length?, this]

/-- A lexeme that ends in front of a text also ends in front of one that is alike. -/
theorem measure_alike {first : Char} (h : Alike r s) (hk : kindOf reading = some k)
    (hr : measure first (tail ++ r) = (reading, tail.length)) :
    measure first (tail ++ s) = (reading, tail.length) := by
  unfold measure at hr ⊢
  split at hr
  any_goals exact hr
  any_goals exact oneOrTwo_alike (by decide) h hr
  case h_1 | h_2 =>
    obtain ⟨rfl, -⟩ := Prod.mk.inj hr
    simp [kindOf, Shape.kind?] at hk
  case h_5 => exact takeWhile_alike (fun c d hc _ hp => by simp [isLineEnd_of_isStop hc] at hp) h hr
  case h_6 => exact measureSlash_alike h hk hr
  case h_7 => exact quoted_alike hk hr s
  case h_8 => exact measureLess_alike h hk hr
  case h_15 =>
    have hhead : (tail ++ s).head? = some '>' ↔ (tail ++ r).head? = some '>' :=
      head?_iff_alike (by decide) h (by rintro rfl heq; simp [heq] at hr)
    simp only [hhead]
    split_ifs at hr ⊢ with harrow
    · exact hr
    · exact oneOrTwo_alike (by decide) h hr
  case h_16 => exact dots_alike h hr
  case h_28 =>
    split_ifs at hr ⊢ with hdigit hname
    · obtain ⟨rfl, hlen⟩ := Prod.mk.inj hr
      rw [numberLength_alike h hlen]
    · exact takeWhile_alike (stops_excluded fun _ => isNamePart_of_isStop) h hr
    · exact hr

end Measure

/-! ## A lexeme stays inside of the text -/

theorem takeWhile_length_le (p : Char → Bool) (u : Text) : (u.takeWhile p).length ≤ u.length :=
  (List.takeWhile_prefix p).length_le

theorem digitCount_le (u : Text) : digitCount u ≤ u.length :=
  takeWhile_length_le _ u

theorem fractionLength_le (u : Text) : fractionLength u ≤ u.length := by
  unfold fractionLength
  split
  · rename_i rest
    have := digitCount_le rest
    split <;> simp
    omega
  · simp

theorem exponentLength_le (u : Text) : exponentLength u ≤ u.length := by
  unfold exponentLength
  split
  · rename_i mark sign rest
    have h1 := digitCount_le rest
    have h2 := digitCount_le (sign :: rest)
    rw [List.length_cons] at h2
    rw [List.length_cons, List.length_cons]
    split_ifs <;> omega
  · simp

theorem numberLength_le (u : Text) : numberLength u ≤ u.length := by
  simp only [numberLength]
  set whole := digitCount u with hw
  set fraction := fractionLength (u.drop whole) with hf
  have h1 : whole ≤ u.length := digitCount_le u
  have h2 := fractionLength_le (u.drop whole)
  have h3 := exponentLength_le (u.drop (whole + fraction))
  rw [List.length_drop] at h2 h3
  omega

theorem opening_broken_le {u : Text} {n : Nat} (h : Heredoc.opening u = .broken n) :
    n ≤ u.length := by
  have hafter : ∀ {k : Nat} {q : Text}, Heredoc.openingAfter k q = .broken n → n ≤ k + q.length := by
    intro k q hq
    rcases Heredoc.openingAfter_cases q with ⟨habs, -⟩ | ⟨c, m, x, rfl, hc, hm, hx⟩
    · simp [habs] at hq
    · rw [Heredoc.openingAfter_marker hc hm hx] at hq
      unfold Heredoc.openingBehind at hq
      split at hq <;> simp at hq
      simp only [List.length_append, List.length_cons]
      omega
  unfold Heredoc.opening at h
  split at h
  · have := hafter h
    simp only [List.length_cons]
    omega
  · have := hafter h
    simp only [List.length_cons]
    omega
  · simp at h

theorem oneOrTwo_le (second : Char) (two one : Except Fault Shape) (u : Text) :
    (oneOrTwo second two one u).2 ≤ u.length := by
  unfold oneOrTwo
  cases u with
  | nil => simp
  | cons c u => split <;> simp

theorem measureSlash_le (u : Text) : (measureSlash u).2 ≤ u.length := by
  unfold measureSlash
  split
  · exact takeWhile_length_le _ _
  · rename_i body
    cases hc : commentLength body with
    | none => simp
    | some n => simpa using (commentLength_take hc).2.1
  · simp

theorem measureLess_le (u : Text) : (measureLess u).2 ≤ u.length := by
  unfold measureLess
  cases ho : Heredoc.opening u with
  | absent =>
    cases u with
    | nil => simp
    | cons c u => simp only; split <;> simp
  | broken n => exact opening_broken_le ho
  | line marker n =>
    have hn := (Heredoc.opening_take ho).2.1
    cases hb : Heredoc.bodyLength marker (u.drop n) with
    | none => simpa [hb] using hn
    | some body =>
      have := Heredoc.bodyLength_le hb
      rw [List.length_drop] at this
      simp only [hb]
      omega

/-- A lexeme never reaches beyond the text. -/
theorem measure_le (first : Char) (u : Text) : (measure first u).2 ≤ u.length := by
  unfold measure
  split
  any_goals exact Nat.zero_le _
  any_goals exact takeWhile_length_le _ _
  any_goals exact oneOrTwo_le _ _ _ _
  case h_6 => exact measureSlash_le u
  case h_7 =>
    cases hq : Quoted.length? u with
    | none => simp
    | some n => exact (Quoted.ends_of_bodyLength hq).1
  case h_8 => exact measureLess_le u
  case h_15 =>
    split_ifs with harrow
    · cases u <;> simp at harrow ⊢
    · exact oneOrTwo_le _ _ _ _
  case h_16 =>
    split_ifs with hdots
    · have := congrArg List.length hdots
      simp only [List.length_take, List.length_cons, List.length_nil] at this
      simp only
      omega
    · simp
  case h_28 =>
    split_ifs
    · exact numberLength_le u
    · exact takeWhile_length_le _ _
    · simp

end Lexeme

end TagBox
