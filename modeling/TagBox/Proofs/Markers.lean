import TagBox.Proofs.Halves

/-!
# Values and their markers

A value is cut at its markers in one pass over three regions, and the pass fails at the first marker
that it does not expect.  Here the outcome is said without the pass: by how the value is made up of two
markers and of tokens that are none, or by the first marker that has no business at its place.

* `Template.Marks` — a value with one begin marker and one end marker behind it.
* `Template.OutOfPlace`, `Template.InOrder` — markers that are not expected.
* `Template.Verdict` — the template that a value becomes, or the reason why it becomes none.
* `Template.ofValue_eq_iff` — cutting a value comes to this verdict.
* `compile_eq_iff` — compiling a text comes to the verdict on its value, if it has one.
* `nested_of_compile` — which brackets of a compiled text nest.
-/

namespace TagBox

namespace Template

/-- The value `v` is made up of `L`, the begin marker `b`, the placeholder `P`, the end marker `e` and
`R`, and no other token of it is a marker. -/
structure Marks (v L : List Token) (b : Token) (P : List Token) (e : Token) (R : List Token) :
    Prop where
  cut : v = L ++ b :: (P ++ e :: R)
  begins : isBegin b = true
  ends : isEnd e = true
  onlyBegin : ∀ t ∈ L ++ (P ++ e :: R), isBegin t = false
  onlyEnd : ∀ t ∈ L ++ b :: (P ++ R), isEnd t = false

/-- Behind the tokens `front` the token is a marker out of place: an end marker with no begin marker in
front of it, a second begin marker, or a second end marker. -/
def OutOfPlace (front : List Token) (t : Token) : Prop :=
  (isEnd t = true ∧ ∀ u ∈ front, isBegin u = false) ∨
    (isBegin t = true ∧ ∃ u ∈ front, isBegin u = true) ∨
    (isEnd t = true ∧ ∃ u ∈ front, isEnd u = true)

/-- No marker is out of place. -/
def InOrder (v : List Token) : Prop :=
  ∀ front t rest, v = front ++ t :: rest → ¬ OutOfPlace front t

/-- The template with the halves `L` and `R`.  The blanks of the host in front of it are dropped, and the
blanks in front of the begin marker go before those behind it. -/
def ofParts (L : List Token) (b : Token) (P : List Token) (e : Token) (R : List Token) : Template where
  left := relead [] L
  right := R
  payloadLead := if b.lead = [] then leadAt (P ++ [e]) 0 else b.lead

/-- What becomes of a value whose first token stands at position `i`.  A marker that is missing goes
before one that is out of place, and that before a half without tokens. -/
inductive Verdict (i : Nat) (v : List Token) : Except TemplateError Template → Prop
  | missingBegin (hb : ∀ t ∈ v, isBegin t = false) : Verdict i v (.error .missingBegin)
  | missingEnd (hb : ∃ t ∈ v, isBegin t = true) (he : ∀ t ∈ v, isEnd t = false) :
      Verdict i v (.error .missingEnd)
  | mismatched {front : List Token} {t : Token} {rest : List Token}
      (hb : ∃ t ∈ v, isBegin t = true) (he : ∃ t ∈ v, isEnd t = true)
      (hcut : v = front ++ t :: rest) (ht : OutOfPlace front t) (hfirst : InOrder front) :
      Verdict i v (.error (.mismatched (i + front.length)))
  | emptyLeft {b : Token} {P : List Token} {e : Token} {R : List Token} (h : Marks v [] b P e R) :
      Verdict i v (.error (.emptySide .left))
  | emptyRight {L : List Token} {b : Token} {P : List Token} {e : Token} (hL : L ≠ [])
      (h : Marks v L b P e []) : Verdict i v (.error (.emptySide .right))
  | template {L : List Token} {b : Token} {P : List Token} {e : Token} {R : List Token}
      (hL : L ≠ []) (hR : R ≠ []) (h : Marks v L b P e R) : Verdict i v (.ok (ofParts L b P e R))

/-! ## Tokens that are no markers -/

/-- None of the tokens is a marker. -/
def Unmarked (ts : List Token) : Prop :=
  ∀ t ∈ ts, isBegin t = false ∧ isEnd t = false

section Pass

variable {i : Nat} {t b e : Token} {ts rest L P R : List Token}

theorem isEnd_of_isBegin (h : isBegin t = true) : isEnd t = false := by
  have hne : beginMarker ≠ endMarker := by decide
  simp only [isBegin, Bool.and_eq_true, beq_iff_eq] at h
  simp [isEnd, h.2, hne]

theorem rightHalf_append (h : Unmarked ts) :
    rightHalf i (ts ++ rest) = (rightHalf (i + ts.length) rest).map (ts ++ ·) := by
  induction ts generalizing i with
  | nil => cases hrest : rightHalf i rest <;> simp [Except.map, hrest]
  | cons t ts ih =>
    obtain ⟨hb, he⟩ := h t (by simp)
    have hi : i + (t :: ts).length = i + 1 + ts.length := by
      rw [List.length_cons]
      omega
    rw [List.cons_append, rightHalf, if_neg (by simp [hb, he]), hi, ih fun u hu => h u (by simp [hu])]
    cases rightHalf (i + 1 + ts.length) rest <;> rfl

theorem afterBegin_append (h : Unmarked ts) :
    afterBegin i (ts ++ rest) = afterBegin (i + ts.length) rest := by
  induction ts generalizing i with
  | nil => rfl
  | cons t ts ih =>
    obtain ⟨hb, he⟩ := h t (by simp)
    have hi : i + (t :: ts).length = i + 1 + ts.length := by
      rw [List.length_cons]
      omega
    rw [List.cons_append, afterBegin, if_neg (by simp [he]), if_neg (by simp [hb]), hi,
      ih fun u hu => h u (by simp [hu])]

theorem cut_append (h : Unmarked ts) :
    cut i (ts ++ rest) =
      (cut (i + ts.length) rest).map fun T => { T with left := ts ++ T.left } := by
  induction ts generalizing i with
  | nil => cases hrest : cut i rest <;> simp [Except.map, hrest]
  | cons t ts ih =>
    obtain ⟨hb, he⟩ := h t (by simp)
    have hi : i + (t :: ts).length = i + 1 + ts.length := by
      rw [List.length_cons]
      omega
    rw [List.cons_append, cut, if_neg (by simp [hb]), if_neg (by simp [he]), hi,
      ih fun u hu => h u (by simp [hu])]
    cases cut (i + 1 + ts.length) rest <;> rfl

/-- The pass from the begin marker on. -/
theorem cut_begin (hL : Unmarked L) (hb : isBegin b = true) :
    cut i (L ++ b :: rest) = (afterBegin (i + L.length + 1) rest).map fun right =>
      { left := L, right, payloadLead := if b.lead = [] then leadAt rest 0 else b.lead } := by
  rw [cut_append hL, cut, if_pos hb]
  have hlead : leadAt rest 0 = (rest.head?.map Token.lead).getD [] := by
    rw [leadAt, List.head?_eq_getElem?]
  cases afterBegin (i + L.length + 1) rest <;> simp [Except.map, hlead]

/-- The pass from the end marker on. -/
theorem afterBegin_end (hP : Unmarked P) (he : isEnd e = true) :
    afterBegin i (P ++ e :: rest) = rightHalf (i + P.length + 1) rest := by
  rw [afterBegin_append hP, afterBegin, if_pos he]

theorem rightHalf_unmarked (h : Unmarked ts) : rightHalf i ts = .ok ts := by
  have hall := @rightHalf_append i ts [] h
  simpa [rightHalf, Except.map] using hall

theorem Marks.unmarked {v : List Token} (h : Marks v L b P e R) :
    Unmarked L ∧ Unmarked P ∧ Unmarked R := by
  refine ⟨?_, ?_, ?_⟩ <;>
    exact fun t ht => ⟨h.onlyBegin t (by simp [ht]), h.onlyEnd t (by simp [ht])⟩

/-- The pass over a value with its two markers. -/
theorem cut_marks {v : List Token} (h : Marks v L b P e R) :
    cut i v = .ok { left := L, right := R
                    payloadLead := if b.lead = [] then leadAt (P ++ e :: R) 0 else b.lead } := by
  obtain ⟨hL, hP, hR⟩ := h.unmarked
  rw [h.cut, cut_begin hL h.begins, afterBegin_end hP h.ends, rightHalf_unmarked hR]
  rfl

end Pass

/-! ## Markers in order -/

section Order

variable {v front : List Token} {t : Token}

/-- Cut a list at the first token with a property. -/
theorem exists_first_of_mem {p : Token → Bool} (h : ∃ t ∈ v, p t = true) :
    ∃ front t rest, v = front ++ t :: rest ∧ p t = true ∧ ∀ u ∈ front, p u = false := by
  obtain ⟨t, rest, hfound⟩ : ∃ t rest, v.dropWhile (!p ·) = t :: rest := by
    apply List.exists_cons_of_ne_nil
    intro hnil
    obtain ⟨t, ht, hp⟩ := h
    simpa [hp] using List.dropWhile_eq_nil_iff.1 hnil t ht
  refine ⟨v.takeWhile (!p ·), t, rest, ?_, ?_, fun u hu => ?_⟩
  · rw [← hfound, List.takeWhile_append_dropWhile]
  · have hhead := List.head?_dropWhile_not (!p ·) v
    simpa [hfound] using hhead
  · simpa using List.mem_takeWhile_imp hu

/-- Markers in order are none, a begin marker alone, or one of each. -/
theorem InOrder.cases (h : InOrder v) :
    Unmarked v ∨
      (∃ L b P, v = L ++ b :: P ∧ isBegin b = true ∧ Unmarked L ∧ Unmarked P) ∨
      ∃ L b P e R, Marks v L b P e R := by
  by_cases hb : ∃ t ∈ v, isBegin t = true
  · obtain ⟨L, b, behind, rfl, hbegin, hL⟩ := exists_first_of_mem hb
    -- in front of the first begin marker there is no end marker, and behind it no begin marker
    have hLe : ∀ t ∈ L, isEnd t = false := by
      intro t ht
      obtain ⟨A, B, rfl⟩ := List.append_of_mem ht
      by_contra hne
      refine h A t (B ++ b :: behind) (by simp) (Or.inl ⟨by simpa using hne, ?_⟩)
      exact fun u hu => hL u (by simp [hu])
    have hbehind : ∀ t ∈ behind, isBegin t = false := by
      intro t ht
      obtain ⟨A, B, rfl⟩ := List.append_of_mem ht
      by_contra hne
      exact h (L ++ b :: A) t B (by simp) (Or.inr (Or.inl ⟨by simpa using hne, b, by simp, hbegin⟩))
    by_cases he : ∃ t ∈ behind, isEnd t = true
    · obtain ⟨P, e, R, rfl, hend, hP⟩ := exists_first_of_mem he
      have hR : ∀ t ∈ R, isEnd t = false := by
        intro t ht
        obtain ⟨A, B, rfl⟩ := List.append_of_mem ht
        by_contra hne
        exact h (L ++ b :: (P ++ e :: A)) t B (by simp)
          (Or.inr (Or.inr ⟨by simpa using hne, e, by simp, hend⟩))
      refine Or.inr (Or.inr ⟨L, b, P, e, R, rfl, hbegin, hend, ?_, ?_⟩)
      · intro t ht
        rcases List.mem_append.1 ht with ht | ht
        · exact hL t ht
        · exact hbehind t ht
      · intro t ht
        rcases List.mem_append.1 ht with ht | ht
        · exact hLe t ht
        · rcases List.mem_cons.1 ht with rfl | ht
          · exact isEnd_of_isBegin hbegin
          · rcases List.mem_append.1 ht with ht | ht
            · exact hP t ht
            · exact hR t ht
    · have he' : ∀ t ∈ behind, isEnd t = false := by simpa using he
      exact Or.inr (Or.inl ⟨L, b, behind, rfl, hbegin, fun t ht => ⟨hL t ht, hLe t ht⟩,
        fun t ht => ⟨hbehind t ht, he' t ht⟩⟩)
  · have hb' : ∀ t ∈ v, isBegin t = false := by simpa using hb
    refine Or.inl fun t ht => ⟨hb' t ht, ?_⟩
    obtain ⟨A, B, rfl⟩ := List.append_of_mem ht
    by_contra hne
    exact h A t B rfl (Or.inl ⟨by simpa using hne, fun u hu => hb' u (by simp [hu])⟩)

/-- If some marker is out of place, then there is a first one. -/
theorem exists_first_outOfPlace (v : List Token) :
    InOrder v ∨ ∃ front t rest, v = front ++ t :: rest ∧ OutOfPlace front t ∧ InOrder front := by
  -- the order is decided from the front, so the list grows at its end
  induction v using List.reverseRecOn with
  | nil => exact Or.inl fun front t rest hcut => by simp at hcut
  | append_singleton v t ih =>
    rcases ih with horder | ⟨front, u, rest, rfl, hu, hfront⟩
    · by_cases ht : OutOfPlace v t
      · exact Or.inr ⟨v, t, [], rfl, ht, horder⟩
      · refine Or.inl fun front u rest hcut => ?_
        obtain rfl | ⟨rest, w, rfl⟩ := List.eq_nil_or_concat' rest
        · obtain ⟨rfl, ⟨⟩⟩ := List.append_inj' hcut rfl
          exact ht
        · have hcut' : v ++ [t] = (front ++ u :: rest) ++ [w] := by simpa using hcut
          exact horder front u rest (List.append_inj' hcut' rfl).1
    · exact Or.inr ⟨front, u, rest ++ [t], by simp, hu, hfront⟩

/-- The pass stops at the first marker that is out of place. -/
theorem cut_outOfPlace {i : Nat} {rest : List Token} (ht : OutOfPlace front t)
    (hfront : InOrder front) :
    cut i (front ++ t :: rest) = .error (.mismatched (i + front.length)) := by
  rcases hfront.cases with hnone | ⟨L, b, P, rfl, hb, hL, hP⟩ | ⟨L, b, P, e, R, h⟩
  · -- no marker in front: only an end marker is out of place
    have hend : isEnd t = true := by
      rcases ht with ⟨hend, -⟩ | ⟨-, u, hu, hbad⟩ | ⟨hend, -⟩
      · exact hend
      · simp [(hnone u hu).1] at hbad
      · exact hend
    have hbegin : isBegin t = false := by
      by_contra hne
      simp [isEnd_of_isBegin (by simpa using hne)] at hend
    rw [cut_append hnone, cut, if_neg (by simp [hbegin]), if_pos hend]
    rfl
  · -- behind a begin marker: only a begin marker is
    have hbegin : isBegin t = true := by
      rcases ht with ⟨-, hbad⟩ | ⟨hbegin, -⟩ | ⟨-, u, hu, hbad⟩
      · simp [hbad b (by simp)] at hb
      · exact hbegin
      · rcases List.mem_append.1 hu with hu | hu
        · simp [(hL u hu).2] at hbad
        · rcases List.mem_cons.1 hu with rfl | hu
          · simp [isEnd_of_isBegin hb] at hbad
          · simp [(hP u hu).2] at hbad
    have hi : i + (L ++ b :: P).length = i + L.length + 1 + P.length := by
      rw [List.length_append, List.length_cons]
      omega
    have hstop : afterBegin (i + L.length + 1) (P ++ t :: rest) =
        .error (.mismatched (i + L.length + 1 + P.length)) := by
      rw [afterBegin_append hP, afterBegin, if_neg (by simp [isEnd_of_isBegin hbegin]), if_pos hbegin]
    rw [List.append_assoc, List.cons_append, cut_begin hL hb, hstop, hi]
    rfl
  · -- behind both of them: any marker is
    have hmarker : isBegin t = true ∨ isEnd t = true := by
      rcases ht with ⟨hend, -⟩ | ⟨hbegin, -⟩ | ⟨hend, -⟩
      · exact Or.inr hend
      · exact Or.inl hbegin
      · exact Or.inr hend
    obtain ⟨hL, hP, hR⟩ := h.unmarked
    have hcut : front ++ t :: rest = L ++ b :: (P ++ e :: (R ++ t :: rest)) := by
      rw [h.cut]
      simp
    have hi : i + front.length = i + L.length + 1 + P.length + 1 + R.length := by
      rw [h.cut]
      simp only [List.length_append, List.length_cons]
      omega
    have hstop : rightHalf (i + L.length + 1 + P.length + 1) (R ++ t :: rest) =
        .error (.mismatched (i + L.length + 1 + P.length + 1 + R.length)) := by
      rw [rightHalf_append hR, rightHalf, if_pos (by simpa using hmarker)]
      rfl
    rw [hcut, cut_begin hL h.begins, afterBegin_end hP h.ends, hstop, hi]
    rfl

end Order

/-! ## The verdict on a value -/

section Verdict

variable {i : Nat} {v : List Token} {x : Except TemplateError Template}

theorem ofValue_of_verdict (h : Verdict i v x) : ofValue i v = x := by
  have hany : ∀ {p : Token → Bool}, (∃ t ∈ v, p t = true) → (!v.any p) = false := by
    intro p hp
    simpa using hp
  cases h with
  | missingBegin hb => rw [ofValue, if_pos (by simpa using hb)]
  | missingEnd hb he =>
    rw [ofValue, if_neg (by simp [hany hb]), if_pos (by simpa using he)]
  | mismatched hb he hcut ht hfirst =>
    rw [ofValue, if_neg (by simp [hany hb]), if_neg (by simp [hany he]), hcut,
      cut_outOfPlace ht hfirst]
  | emptyLeft h =>
    rw [ofValue, if_neg (by simp [hany ⟨_, by simp [h.cut], h.begins⟩]),
      if_neg (by simp [hany ⟨_, by simp [h.cut], h.ends⟩]), cut_marks h]
  | @emptyRight L b P e hL h =>
    obtain ⟨first, more, rfl⟩ := List.exists_cons_of_ne_nil hL
    rw [ofValue, if_neg (by simp [hany ⟨_, by simp [h.cut], h.begins⟩]),
      if_neg (by simp [hany ⟨_, by simp [h.cut], h.ends⟩]), cut_marks h]
  | @template L b P e R hL hR h =>
    obtain ⟨first, more, rfl⟩ := List.exists_cons_of_ne_nil hL
    obtain ⟨r, right, rfl⟩ := List.exists_cons_of_ne_nil hR
    have hlead : leadAt (P ++ e :: r :: right) 0 = leadAt (P ++ [e]) 0 := by cases P <;> rfl
    rw [ofValue, if_neg (by simp [hany ⟨_, by simp [h.cut], h.begins⟩]),
      if_neg (by simp [hany ⟨_, by simp [h.cut], h.ends⟩]), cut_marks h, hlead]
    rfl

/-- There is a verdict on every value. -/
theorem exists_verdict (i : Nat) (v : List Token) : ∃ x, Verdict i v x := by
  by_cases hb : ∃ t ∈ v, isBegin t = true
  · by_cases he : ∃ t ∈ v, isEnd t = true
    · rcases exists_first_outOfPlace v with horder | ⟨front, t, rest, hcut, ht, hfirst⟩
      · obtain ⟨L, b, P, e, R, h⟩ : ∃ L b P e R, Marks v L b P e R := by
          rcases horder.cases with hnone | ⟨L, b, P, rfl, hbegin, hL, hP⟩ | hmarks
          · obtain ⟨t, ht, hbegin⟩ := hb
            simp [(hnone t ht).1] at hbegin
          · obtain ⟨t, ht, hend⟩ := he
            rcases List.mem_append.1 ht with ht | ht
            · simp [(hL t ht).2] at hend
            · rcases List.mem_cons.1 ht with rfl | ht
              · simp [isEnd_of_isBegin hbegin] at hend
              · simp [(hP t ht).2] at hend
          · exact hmarks
        by_cases hL : L = []
        · subst hL
          exact ⟨_, .emptyLeft h⟩
        · by_cases hR : R = []
          · subst hR
            exact ⟨_, .emptyRight hL h⟩
          · exact ⟨_, .template hL hR h⟩
      · exact ⟨_, .mismatched hb he hcut ht hfirst⟩
    · exact ⟨_, .missingEnd hb (by simpa using he)⟩
  · exact ⟨_, .missingBegin (by simpa using hb)⟩

/-- Cutting a value comes to the verdict on it. -/
theorem ofValue_eq_iff : ofValue i v = x ↔ Verdict i v x := by
  constructor
  · intro h
    obtain ⟨y, hy⟩ := exists_verdict i v
    rwa [← h, ofValue_of_verdict hy]
  · exact ofValue_of_verdict

end Verdict

end Template

/-! ## The verdict on a text -/

/-- The text has no value that could be cut. -/
def TemplateError.isParse : TemplateError → Bool
  | .lexing _ | .nesting _ | .notOneExpression _ => true
  | _ => false

section Compile

variable {rendered : Text} {T : Template}

theorem compile_of_attribute {tokens : List Token} {a : Attribute}
    (htokens : tokenize (Template.host rendered) = .ok tokens)
    (hall : statements tokens 0 tokens.length = .ok [.assign a]) :
    Template.compile rendered = Template.ofValue a.value.first (a.value.slice tokens) := by
  simp only [Template.compile, htokens, hall]

/-- If the host attribute is the only statement of its text, compiling comes to the verdict on its value,
positions counted in the host.  In every other case there is no value to cut. -/
theorem compile_eq_iff (rendered : Text) :
    (∀ tokens a, tokenize (Template.host rendered) = .ok tokens →
      statements tokens 0 tokens.length = .ok [.assign a] →
      ∀ x, Template.compile rendered = x ↔
        Template.Verdict a.value.first (a.value.slice tokens) x) ∧
    ((∃ e, Template.compile rendered = .error e ∧ e.isParse = true) ↔
      ¬ ∃ tokens a, tokenize (Template.host rendered) = .ok tokens ∧
        statements tokens 0 tokens.length = .ok [.assign a]) := by
  have hverdict : ∀ tokens a, tokenize (Template.host rendered) = .ok tokens →
      statements tokens 0 tokens.length = .ok [.assign a] → ∀ x, Template.compile rendered = x ↔
        Template.Verdict a.value.first (a.value.slice tokens) x := by
    intro tokens a htokens hall x
    rw [compile_of_attribute htokens hall]
    exact Template.ofValue_eq_iff
  refine ⟨hverdict, ?_, fun hnone => ?_⟩
  · rintro ⟨e, he, hparse⟩ ⟨tokens, a, htokens, hall⟩
    -- no verdict on a value says that there is none
    cases (hverdict tokens a htokens hall _).1 he <;> simp [TemplateError.isParse] at hparse
  · cases hcompile : Template.compile rendered with
    | ok T =>
      obtain ⟨tokens, a, htokens, hall, -⟩ := exists_attribute_of_compile hcompile
      exact absurd ⟨tokens, a, htokens, hall⟩ hnone
    | error e =>
      refine ⟨e, rfl, ?_⟩
      unfold Template.compile at hcompile
      cases htokens : tokenize (Template.host rendered) with
      | error cause =>
        simp only [htokens, Except.error.injEq] at hcompile
        rw [← hcompile]
        rfl
      | ok tokens =>
        simp only [htokens] at hcompile
        split at hcompile
        · rw [← Except.error.inj hcompile]
          rfl
        · rename_i a hall
          exact absurd ⟨tokens, a, htokens, hall⟩ hnone
        · rw [← Except.error.inj hcompile]
          rfl

/-- A second begin marker behind an end marker. -/
theorem compile_eq_iff_second :
    ∃ tokens a, tokenize (Template.host "a/*<box>*/()/*</box>*/b/*<box>*/".toList) = .ok tokens ∧
      statements tokens 0 tokens.length = .ok [.assign a] ∧
      Template.Verdict a.value.first (a.value.slice tokens) (.error (.mismatched 8)) := by
  have hcompile : Template.compile "a/*<box>*/()/*</box>*/b/*<box>*/".toList =
      .error (.mismatched 8) := by decide +kernel
  obtain ⟨hverdict, hparse⟩ := compile_eq_iff "a/*<box>*/()/*</box>*/b/*<box>*/".toList
  obtain ⟨tokens, a, htokens, hall⟩ : ∃ tokens a,
      tokenize (Template.host "a/*<box>*/()/*</box>*/b/*<box>*/".toList) = .ok tokens ∧
        statements tokens 0 tokens.length = .ok [.assign a] := by
    by_contra hnone
    obtain ⟨e, he, hbad⟩ := hparse.2 hnone
    obtain rfl : TemplateError.mismatched 8 = e := Except.error.inj (hcompile.symm.trans he)
    exact absurd hbad (by decide)
  exact ⟨tokens, a, htokens, hall, (hverdict tokens a htokens hall _).1 hcompile⟩

/-! ## Brackets of a compiled text -/

/-- If the brackets that the left half leaves open are open in front of the placeholder, then the same
ones are open behind it. -/
def Template.Restores (T : Template) (P : List Token) : Prop :=
  ∃ opened, nest Kind.never [] (kinds T.left) = some opened ∧
    nest Kind.never opened (kinds P) = some opened

/-- A nested list between two others makes no difference to their brackets. -/
theorem nested_between_iff {stops : Kind → Bool} {L R group : List Token} (h : Nests stops group) :
    Nests stops (L ++ (group ++ R)) ↔ Nests stops (L ++ R) := by
  have hgroup : ∀ opened, nest stops opened (kinds group) = some opened := fun opened =>
    nest_frame opened h
  simp only [Nests, kinds_append, nest_append, hgroup, Option.bind_some]

/-- If a list nests with another one in its midst, it nests without it exactly if that one leaves open
what is open in front of it. -/
theorem Template.nested_halves_iff {P : List Token} (h : Nested (T.left ++ (P ++ T.right))) :
    Nested (T.left ++ T.right) ↔ T.Restores P := by
  obtain ⟨opened, hopen, hrest⟩ := h.halves
  rw [kinds_append, nest_append] at hrest
  obtain ⟨opened', hP, hright⟩ := Option.bind_eq_some_iff.1 hrest
  constructor
  · intro hnested
    obtain ⟨opened'', hopen', hright'⟩ := hnested.halves
    obtain rfl : opened = opened'' := Option.some.inj (hopen.symm.trans hopen')
    -- the right half closes one list of brackets only
    obtain rfl : opened' = opened := nest_injective hright hright'
    exact ⟨opened', hopen, hP⟩
  · rintro ⟨opened'', hopen', hP'⟩
    obtain rfl : opened = opened'' := Option.some.inj (hopen.symm.trans hopen')
    obtain rfl : opened' = opened := Option.some.inj (hP.symm.trans hP')
    rw [Nested, Nests, kinds_append, nest_append, hopen]
    exact hright

/-- The brackets of a compiled text nest with its placeholder in place.  Those of the halves alone nest
exactly if the placeholder leaves open what is open in front of it, as a nested one does; and then any
nested group can be put between the halves. -/
theorem nested_of_compile (h : Template.compile rendered = .ok T) :
    ∃ tokens a L b P e, tokenize (Template.host rendered) = .ok tokens ∧
      statements tokens 0 tokens.length = .ok [.assign a] ∧
      Template.Marks (a.value.slice tokens) L b P e T.right ∧ T.left = relead [] L ∧
      Nested (T.left ++ (P ++ T.right)) ∧
      (Nested (T.left ++ T.right) ↔ T.Restores P) ∧
      (Nested P → Nested (T.left ++ T.right)) ∧
      ∀ group, Nested group →
        (Nested (T.left ++ (group ++ T.right)) ↔ Nested (T.left ++ T.right)) := by
  obtain ⟨tokens, a, htokens, hall, hvalue⟩ := exists_attribute_of_compile h
  obtain ⟨ts, trail, rfl, -, -, -⟩ := tokenize_eq_ok_iff.1 htokens
  obtain ⟨-, v, -, -, -, hinline, hslice⟩ :=
    exists_value_of_statements hall (List.mem_singleton_self _)
  rw [hslice] at hvalue
  cases Template.ofValue_eq_iff.1 hvalue with
  | @template L b P e R _ _ hmarks =>
    have hnested : Nested (relead [] L ++ (P ++ R)) := by
      have hv : Nested (L ++ b :: (P ++ e :: R)) := hmarks.cut ▸ hinline.nested
      -- markers are comments
      have hplain : ∀ t, Template.isBegin t = true ∨ Template.isEnd t = true → t.kind = .comment := by
        intro t ht
        simp only [Template.isBegin, Template.isEnd, Bool.and_eq_true, beq_iff_eq] at ht
        rcases ht with ht | ht
        · exact ht.1
        · exact ht.1
      have hb := hplain b (Or.inl hmarks.begins)
      have he := hplain e (Or.inr hmarks.ends)
      have hskip : ∀ (t : Token), t.kind = .comment → Nested [t] := fun t ht =>
        nested_of_plain (by simp [ht, Kind.isOpening, Kind.isClosing])
      have hv' : Nested (L ++ (P ++ ([e] ++ R))) := (nested_between_iff (hskip b hb)).1 hv
      rw [← List.append_assoc] at hv'
      have hv'' := (nested_between_iff (hskip e he)).1 hv'
      rw [List.append_assoc] at hv''
      rwa [Nested, Nests, kinds_append, kinds_relead, ← kinds_append]
    refine ⟨_, a, L, b, P, e, htokens, hall, hslice ▸ hmarks, rfl, hnested,
      Template.nested_halves_iff hnested, ?_, ?_⟩
    · exact fun hP => (nested_between_iff hP).1 hnested
    · exact fun group hgroup => nested_between_iff hgroup

/-- A placeholder that closes a bracket and opens one like it. -/
theorem nested_of_compile_sample :
    ∃ T P, Template.compile "(/*<box>*/)(/*</box>*/)".toList = .ok T ∧ Nested (T.left ++ T.right) ∧
      T.Restores P ∧ Nested (T.left ++ (P ++ T.right)) := by
  obtain ⟨T, hT, hnested⟩ : ∃ T, Template.compile "(/*<box>*/)(/*</box>*/)".toList = .ok T ∧
      Nested (T.left ++ T.right) :=
    ⟨⟨[⟨.openParen, ['('], []⟩], [⟨.closeParen, [')'], []⟩], []⟩, by decide +kernel, by decide⟩
  obtain ⟨-, -, -, -, P, -, -, -, -, -, hwhole, hiff, -⟩ := nested_of_compile hT
  exact ⟨T, P, hT, hnested, hiff.1 hnested, hwhole⟩

/-- The markers may stand around one bracket of a pair.  Then the brackets of the halves do not nest, and
neither do they around a group. -/
theorem compile_crossed :
    ∃ T, Template.compile "(/*<box>*/\x7b/*</box>*/\x7d)".toList = .ok T ∧
      ¬ Nested (T.left ++ T.right) ∧
      ¬ Nested (T.left ++ ([⟨.openBrace, ['{'], []⟩, ⟨.closeBrace, ['}'], []⟩] ++ T.right)) :=
  ⟨⟨[⟨.openParen, ['('], []⟩], [⟨.closeBrace, ['}'], []⟩, ⟨.closeParen, [')'], []⟩], []⟩,
    by decide +kernel, by decide, by decide⟩

end Compile

end TagBox
