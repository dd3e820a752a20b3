import TagBox.Proofs.Lexing
import TagBox.Proofs.Outline
import TagBox.Proofs.Weave

/-!
# Halves of a compiled template

A template is cut out of the value of one attribute.  So its halves are tokens that are read from a
text, and no line ends in them outside of brackets.  If a bracket opens the left half and one closes
the right half, then the halves are read back around any group too.

* `exists_of_compile` — the value that a template comes from.
* `exists_of_ofValue` — how it has been cut.
* `inline_of_compile` — no line ends in the halves outside of brackets.
* `Template.Readable`, `readable_of_compile` — the halves are read back.
-/

namespace TagBox

open Lexeme (isSpace)

theorem slice_append {A v : List Token} (hv : v ≠ []) (B : List Token) :
    Span.slice ⟨A.length, A.length + v.length - 1⟩ (A ++ (v ++ B)) = v := by
  have hpos := List.length_pos_iff.2 hv
  have hlen : A.length + v.length - 1 + 1 - A.length = v.length := by omega
  rw [Span.slice, hlen, List.drop_left, List.take_left]

/-! ## Cutting a value at the markers -/

namespace Template

variable {i : Nat} {ts right : List Token} {T : Template}

theorem rightHalf_eq_ok (h : rightHalf i ts = .ok right) : right = ts := by
  induction ts generalizing i right with
  | nil => exact (Except.ok.inj h).symm
  | cons t ts ih =>
    rw [rightHalf] at h
    split_ifs at h
    obtain ⟨rest, hrest, rfl⟩ := map_eq_ok_iff.1 h
    rw [ih hrest]

theorem exists_of_afterBegin (h : afterBegin i ts = .ok right) (hne : right ≠ []) :
    ∃ placeholder stop, ts = placeholder ++ stop :: right := by
  induction ts generalizing i with
  | nil => exact absurd (Except.ok.inj h).symm hne
  | cons t ts ih =>
    rw [afterBegin] at h
    split_ifs at h
    · exact ⟨[], t, by rw [rightHalf_eq_ok h]; rfl⟩
    · obtain ⟨placeholder, stop, rfl⟩ := ih h
      exact ⟨t :: placeholder, stop, rfl⟩

theorem exists_of_cut (h : cut i ts = .ok T) (hne : T.right ≠ []) :
    ∃ mark placeholder stop, ts = T.left ++ mark :: (placeholder ++ stop :: T.right) ∧
      isBegin mark = true ∧ T.payloadLead = if mark.lead = [] then
        ((placeholder ++ stop :: T.right).head?.map Token.lead).getD [] else mark.lead := by
  induction ts generalizing i T with
  | nil =>
    obtain rfl : _ = T := Except.ok.inj h
    exact absurd rfl hne
  | cons t ts ih =>
    rw [cut] at h
    by_cases hbegin : isBegin t = true
    · rw [if_pos hbegin] at h
      obtain ⟨right, hright, rfl⟩ := map_eq_ok_iff.1 h
      obtain ⟨placeholder, stop, rfl⟩ := exists_of_afterBegin hright hne
      exact ⟨t, placeholder, stop, rfl, hbegin, rfl⟩
    · rw [if_neg hbegin] at h
      split_ifs at h
      obtain ⟨T, hT, rfl⟩ := map_eq_ok_iff.1 h
      obtain ⟨mark, placeholder, stop, hts, hmark, hlead⟩ := ih hT hne
      exact ⟨mark, placeholder, stop, congrArg (t :: ·) hts, hmark, hlead⟩

/-- How a value has been cut. -/
theorem exists_of_ofValue (h : ofValue i ts = .ok T) :
    ∃ front mark placeholder stop, ts = front ++ mark :: (placeholder ++ stop :: T.right) ∧
      front ≠ [] ∧ T.left = relead [] front ∧ T.right ≠ [] ∧ isBegin mark = true ∧
      T.payloadLead = if mark.lead = [] then
        ((placeholder ++ stop :: T.right).head?.map Token.lead).getD [] else mark.lead := by
  unfold ofValue at h
  split_ifs at h
  cases hcut : cut i ts with
  | error e => simp [hcut] at h
  | ok U =>
    obtain ⟨left, right, lead⟩ := U
    cases left with
    | nil => simp [hcut] at h
    | cons first more =>
      cases right with
      | nil => simp [hcut] at h
      | cons r right =>
        simp only [hcut, Except.ok.injEq] at h
        subst h
        obtain ⟨mark, placeholder, stop, hts, hmark, hlead⟩ := exists_of_cut hcut (by simp)
        exact ⟨first :: more, mark, placeholder, stop, hts, by simp, rfl, by simp, hmark, hlead⟩

end Template

/-! ## The value that a template comes from -/

section Compile

variable {rendered : Text} {T : Template}

theorem exists_of_mem_statementsAt {i : Nat} {ps : List Piece} {a : Attribute}
    (h : .assign a ∈ statementsAt i ps) :
    ∃ before name sign value after, ps = before ++ .assign name sign value :: after ∧ value ≠ [] ∧
      a.value = ⟨i + (flatten before).length + 2, i + (flatten before).length + 1 + value.length⟩ := by
  induction ps generalizing i with
  | nil => simp [statementsAt] at h
  | cons p ps ih =>
    rcases List.mem_append.1 h with hp | hps
    · cases p with
      | assign name sign value =>
        by_cases hv : value = []
        · simp [Piece.statement?, hv] at hp
        · refine ⟨[], name, sign, value, ps, rfl, hv, ?_⟩
          simp only [Piece.statement?, hv, if_false, Option.toList_some, List.mem_singleton,
            Statement.assign.injEq] at hp
          rw [hp]
          rfl
      | _ => simp [Piece.statement?] at hp
    · obtain ⟨before, name, sign, value, after, rfl, hv, ha⟩ := ih hps
      refine ⟨p :: before, name, sign, value, after, rfl, hv, ?_⟩
      rw [ha, flatten_cons, List.length_append]
      simp only [Span.mk.injEq]
      omega

/-- Where the value of an attribute of a file stands, and that no line ends in it outside of brackets. -/
theorem exists_value_of_statements {ts : List Token} {trail : Text} {found : List Statement}
    {a : Attribute}
    (h : statements (ts ++ [eofToken trail]) 0 (ts ++ [eofToken trail]).length = .ok found)
    (ha : .assign a ∈ found) :
    ∃ A v B, ts = A ++ (v ++ B) ∧ a.value.first = A.length ∧ Inline v ∧
      a.value.slice (ts ++ [eofToken trail]) = v := by
  obtain ⟨ps, rfl, hfits, rfl⟩ := exists_pieces_of_statements rfl h
  obtain ⟨before, name, sign, v, after, rfl, hne, hspan⟩ := exists_of_mem_statementsAt ha
  have hcut : flatten (before ++ .assign name sign v :: after) =
      (flatten before ++ [name, sign]) ++ (v ++ flatten after) := by
    simp [Piece.tokens]
  have hspan' : a.value = ⟨(flatten before ++ [name, sign]).length,
      (flatten before ++ [name, sign]).length + v.length - 1⟩ := by
    rw [hspan]
    simp
  refine ⟨flatten before ++ [name, sign], v, flatten after, hcut, by rw [hspan'],
    hfits.of_append.1.2.2.1, ?_⟩
  rw [hspan', hcut, List.append_assoc, List.append_assoc v, slice_append hne]

/-- What is compiled is the value of the only statement of the host attribute. -/
theorem exists_attribute_of_compile (h : Template.compile rendered = .ok T) :
    ∃ tokens a, tokenize (Template.host rendered) = .ok tokens ∧
      statements tokens 0 tokens.length = .ok [.assign a] ∧
      Template.ofValue a.value.first (a.value.slice tokens) = .ok T := by
  unfold Template.compile at h
  cases htokens : tokenize (Template.host rendered) with
  | error e => simp [htokens] at h
  | ok tokens =>
    simp only [htokens] at h
    cases hall : statements tokens 0 tokens.length with
    | error e => simp [hall] at h
    | ok found =>
      simp only [hall] at h
      match found, h with
      | [.assign a], h => exact ⟨tokens, a, rfl, hall, h⟩

/-- A template comes from the value of one attribute. -/
theorem exists_of_compile (h : Template.compile rendered = .ok T) :
    ∃ i value after, Template.ofValue i value = .ok T ∧ Inline value ∧ Reads value after := by
  obtain ⟨tokens, a, htokens, hall, hvalue⟩ := exists_attribute_of_compile h
  obtain ⟨ts, trail, rfl, -, -, hreads⟩ := tokenize_eq_ok_iff.1 htokens
  obtain ⟨A, v, B, rfl, -, hinline, hslice⟩ := exists_value_of_statements hall (List.mem_singleton_self _)
  rw [hslice] at hvalue
  exact ⟨_, v, _, hvalue, hinline, (reads_append.1 (reads_append.1 hreads).2).1⟩

/-- The halves have tokens. -/
theorem hasHalves_of_compile (h : Template.compile rendered = .ok T) : T.HasHalves := by
  obtain ⟨i, value, after, hvalue, -, -⟩ := exists_of_compile h
  obtain ⟨front, mark, placeholder, stop, -, hfront, hleft, hright, -, -⟩ :=
    Template.exists_of_ofValue hvalue
  refine ⟨?_, hright⟩
  rw [hleft]
  cases front with
  | nil => exact absurd rfl hfront
  | cons t front => simp [relead]

/-- No line ends in the halves outside of brackets, if the brackets of both together nest. -/
theorem inline_of_compile (h : Template.compile rendered = .ok T) (hn : Nested (T.left ++ T.right)) :
    Inline (T.left ++ T.right) := by
  obtain ⟨i, value, after, hvalue, hinline, -⟩ := exists_of_compile h
  obtain ⟨front, mark, placeholder, stop, rfl, -, hleft, -, -, -⟩ :=
    Template.exists_of_ofValue hvalue
  have hkinds : kinds T.left = kinds front := by rw [hleft, kinds_relead]
  obtain ⟨opened, hopen, hrest⟩ := hinline.halves
  obtain ⟨opened', hopen', hclose⟩ := hn.halves
  rw [hkinds] at hopen'
  -- the placeholder leaves open what was open in front of it, since the right half closes just that
  obtain rfl : opened = opened' :=
    Option.some.inj ((nest_of_stops (by simp [Kind.never]) hopen).symm.trans hopen')
  have hcut : kinds (mark :: (placeholder ++ stop :: T.right)) =
      kinds (mark :: (placeholder ++ [stop])) ++ kinds T.right := by simp
  rw [hcut, nest_append] at hrest
  obtain ⟨left, -, hright⟩ := Option.bind_eq_some_iff.1 hrest
  obtain rfl : left = opened := nest_injective hright hclose
  rw [Inline, Nests, kinds_append, hkinds, nest_append, hopen]
  exact hright

end Compile

/-! ## Halves that are read back -/

/-- The halves are read back around any group: the left half in front of a bracket, with any blanks in
front of it, and the right half in front of anything. -/
structure Template.Readable (T : Template) : Prop where
  payloadLead : ∀ c ∈ T.payloadLead, isSpace c = true
  left : ∀ lead, (∀ c ∈ lead, isSpace c = true) → ∀ c after, isStop c = true →
    Reads (relead lead T.left) (T.payloadLead ++ c :: after)
  right : ∀ after, Reads T.right after
  first : ∃ first ∈ T.left.head?, first.kind.isBracket = true
  last : ∃ last ∈ T.right.getLast?, last.kind.isBracket = true

section Readable

variable {T : Template} {ts : List Token} {r : Text}

theorem isStop_of_isSpace {c : Char} (h : isSpace c = true) : isStop c = true := by
  have hcases : c = ' ' ∨ c = '\t' := by simpa [isSpace] using h
  rcases hcases with rfl | rfl <;> rfl

theorem Reads.relead (h : Reads ts r) {lead : Text} (hlead : ∀ c ∈ lead, isSpace c = true) :
    Reads (relead lead ts) r := by
  cases ts with
  | nil => trivial
  | cons t ts => exact ⟨hlead, h.2.1, h.2.2⟩

/-- Tokens with a bracket at the end are read back in front of anything. -/
theorem Reads.of_last {last : Token} (h : Reads ts r) (hlast : last ∈ ts.getLast?)
    (hb : last.kind.isBracket = true) (s : Text) : Reads ts s := by
  obtain ⟨ts, rfl⟩ : ∃ us, ts = us ++ [last] := List.getLast?_eq_some_iff.1 hlast
  obtain ⟨hfront, hlead, hstands, -⟩ := reads_append.1 h
  obtain ⟨⟨c, htext, hstop⟩, hany⟩ := hstands.bracket hb
  have halike : Alike (print [last] ++ r) (print [last] ++ s) := by
    simp only [print_cons, print_nil, Token.print, htext, List.append_assoc, List.append_nil]
    exact Alike.append _ (.stop r s (Or.inl hstop) hstop)
  exact reads_append.2 ⟨hfront.alike halike, hlead, hany _, trivial⟩

theorem alike_of_marker {lead lead' : Text} (hlead : ∀ c ∈ lead', isSpace c = true)
    (h : lead = [] ∨ lead' = lead) (x after : Text) {c : Char} (hc : isStop c = true ∨ c = '/') :
    Alike (lead ++ '/' :: x) (lead' ++ c :: after) := by
  have halike : Alike ('/' :: x) (c :: after) := by
    rcases hc with hc | rfl
    · exact .stop x after (Or.inr rfl) hc
    · exact .slash x after
  rcases h with rfl | rfl
  · cases lead' with
    | nil => exact halike
    | cons d lead' => exact .stop x _ (Or.inr rfl) (isStop_of_isSpace (hlead d (by simp)))
  · exact Alike.append _ halike

/-- The left half of a compiled template is read back in front of any group and of any comment that starts
with a slash, and the right half in front of some text. -/
theorem reads_halves_of_compile {rendered : Text} (h : Template.compile rendered = .ok T) :
    (∀ c ∈ T.payloadLead, isSpace c = true) ∧
    (∀ lead, (∀ c ∈ lead, isSpace c = true) → ∀ c after, isStop c = true ∨ c = '/' →
      Reads (relead lead T.left) (T.payloadLead ++ c :: after)) ∧
    ∃ after, Reads T.right after := by
  obtain ⟨i, value, after, hvalue, -, hreads⟩ := exists_of_compile h
  obtain ⟨front, mark, placeholder, stop, rfl, -, hleft, -, hmark, hpayload⟩ :=
    Template.exists_of_ofValue hvalue
  obtain ⟨hfront, hmarkLead, -, hrest⟩ := reads_append.1 hreads
  have hspaces : ∀ c ∈ T.payloadLead, isSpace c = true := by
    rw [hpayload]
    split_ifs
    · cases placeholder with
      | nil => exact hrest.lead (by simp)
      | cons t placeholder => exact hrest.lead (by simp)
    · exact hmarkLead
  refine ⟨hspaces, fun lead hlead c behind hc => ?_, after, (reads_append.1 hrest).2.2.2⟩
  have htext : mark.text = '/' :: "*<box>*/".toList := by
    simp only [Template.isBegin, Bool.and_eq_true, beq_iff_eq] at hmark
    exact hmark.2.trans rfl
  have halike := @alike_of_marker mark.lead T.payloadLead hspaces
    (by rw [hpayload]; split_ifs with hnil <;> simp [hnil])
    ("*<box>*/".toList ++ (print (placeholder ++ stop :: T.right) ++ after)) behind c hc
  rw [hleft]
  have hrelead : relead lead (relead [] front) = relead lead front := by cases front <;> rfl
  rw [hrelead]
  refine Reads.relead (hfront.alike ?_) hlead
  rw [print_cons, Token.print, htext, List.append_assoc, List.append_assoc]
  exact halike

/-- The halves of a compiled template are read back, if a bracket opens the left one and a bracket
closes the right one. -/
theorem readable_of_compile {rendered : Text} (h : Template.compile rendered = .ok T)
    (hfirst : ∃ first ∈ T.left.head?, first.kind.isBracket = true)
    (hlast : ∃ last ∈ T.right.getLast?, last.kind.isBracket = true) : T.Readable := by
  obtain ⟨hspaces, hleft, after, hright⟩ := reads_halves_of_compile h
  refine ⟨hspaces, fun lead hlead c after hc => hleft lead hlead c after (Or.inl hc), ?_, hfirst, hlast⟩
  obtain ⟨last, hin, hb⟩ := hlast
  exact fun s => hright.of_last hin hb s

end Readable

end TagBox
