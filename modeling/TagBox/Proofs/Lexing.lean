import TagBox.Box.Edit
import TagBox.Proofs.Locality
import TagBox.Proofs.Nesting

/-!
# Texts and their tokens

Printing undoes reading, and reading undoes printing wherever every token still stands: the longest
lexeme at the front of its text and of what follows is the token itself.  Standing is a local matter,
so tokens can be put between others as long as brackets and blanks are in between.

* `Token.Stands`, `Reads` — tokens that are read back from their print in front of a text.
* `tokenize_eq_ok_iff` — the tokens of a text are those that print to it and are read back from it.
* `Reads.alike` — standing tokens stand in front of any text that is alike.
* `joins_eq_false` — tokens that stand next to each other do not join.
-/

namespace TagBox

open Lexeme (isSpace kindOf)

/-- In front of `after`, the text of the token is read as the token. -/
def Token.Stands (t : Token) (after : Text) : Prop :=
  ∃ first tail reading, t.text = first :: tail ∧
    Lexeme.measure first (tail ++ after) = (reading, tail.length) ∧ kindOf reading = some t.kind

/-- In front of `after`, the print of the tokens is read as the tokens. -/
def Reads : List Token → Text → Prop
  | [], _ => True
  | t :: ts, after => (∀ c ∈ t.lead, isSpace c = true) ∧ t.Stands (print ts ++ after) ∧ Reads ts after

/-- The token of the end of a source, with the blanks in front of it. -/
def eofToken (trail : Text) : Token :=
  { kind := .eof, text := [], lead := trail }

theorem print_eofToken (trail : Text) : print [eofToken trail] = trail := by
  simp [eofToken, Token.print]

theorem reads_append {ts us : List Token} {after : Text} :
    Reads (ts ++ us) after ↔ Reads ts (print us ++ after) ∧ Reads us after := by
  induction ts with
  | nil => simp [Reads]
  | cons t ts ih => simp [Reads, ih, and_assoc]

section Standing

variable {t : Token} {ts : List Token} {r s : Text}

theorem Token.Stands.withLead (h : t.Stands r) (lead : Text) : (t.withLead lead).Stands r := h

theorem Token.Stands.alike (h : t.Stands r) (hrs : Alike r s) : t.Stands s := by
  obtain ⟨first, tail, reading, htext, hm, hk⟩ := h
  exact ⟨first, tail, reading, htext, Lexeme.measure_alike hrs hk hm, hk⟩

theorem Reads.alike (h : Reads ts r) (hrs : Alike r s) : Reads ts s := by
  induction ts with
  | nil => trivial
  | cons t ts ih => exact ⟨h.1, h.2.1.alike (hrs.append _), ih h.2.2⟩

theorem Reads.stands (h : Reads ts r) (ht : t ∈ ts) : ∃ after, t.Stands after := by
  induction ts with
  | nil => simp at ht
  | cons u ts ih =>
    rcases List.mem_cons.1 ht with rfl | ht
    · exact ⟨_, h.2.1⟩
    · exact ih h.2.2 ht

theorem Reads.lead (h : Reads ts r) (ht : t ∈ ts) : ∀ c ∈ t.lead, isSpace c = true := by
  induction ts with
  | nil => simp at ht
  | cons u ts ih =>
    rcases List.mem_cons.1 ht with rfl | ht
    · exact h.1
    · exact ih h.2.2 ht

/-- No token starts with a blank. -/
theorem Token.Stands.takeWhile_isSpace (h : t.Stands r) (after : Text) :
    (t.text ++ after).takeWhile isSpace = [] := by
  obtain ⟨first, tail, reading, htext, hm, hk⟩ := h
  have hfirst : isSpace first = false := by
    by_contra hne
    have hcases : first = ' ' ∨ first = '\t' := by simpa [isSpace, or_iff_not_imp_left] using hne
    have hread : reading = .ok .blank := by
      rcases hcases with rfl | rfl <;> exact (Prod.mk.inj hm).1.symm
    simp [hread, kindOf, Shape.kind?] at hk
  simp [htext, hfirst]

end Standing

/-! ## Brackets stand anywhere -/

/-- A lexeme that is read as a bracket is one character, whatever follows. -/
theorem measure_bracket {first : Char} {rest : Text} {reading : Except Fault Shape} {n : Nat}
    {k : Kind} (h : Lexeme.measure first rest = (reading, n)) (hk : kindOf reading = some k)
    (hb : k.isBracket = true) :
    isStop first = true ∧ n = 0 ∧ ∀ u, Lexeme.measure first u = (reading, 0) := by
  have hread : (kindOf reading).any Kind.isBracket = true := by simp [hk, hb]
  unfold Lexeme.measure at h
  split at h
  case h_9 | h_10 | h_11 | h_12 | h_13 | h_14 =>
    obtain ⟨rfl, rfl⟩ := Prod.mk.inj h
    exact ⟨by decide, rfl, fun _ => rfl⟩
  -- nothing else is read as a bracket
  all_goals exfalso
  all_goals rw [← show _ = reading from congrArg Prod.fst h] at hread
  all_goals revert hread
  any_goals unfold Lexeme.oneOrTwo
  any_goals unfold Lexeme.measureSlash
  any_goals unfold Lexeme.measureLess
  all_goals repeat' split
  all_goals exact Bool.false_ne_true

theorem Token.Stands.bracket {t : Token} {r : Text} (h : t.Stands r)
    (hb : t.kind.isBracket = true) :
    (∃ c, t.text = [c] ∧ isStop c = true) ∧ ∀ s, t.Stands s := by
  obtain ⟨first, tail, reading, htext, hm, hk⟩ := h
  obtain ⟨hstop, hlen, hall⟩ := measure_bracket hm hk hb
  obtain rfl : tail = [] := List.length_eq_zero_iff.1 hlen
  exact ⟨⟨first, htext, hstop⟩, fun s => ⟨first, [], reading, htext, hall s, hk⟩⟩

/-! ## Reading and printing -/

theorem kind?_eq_ok_some_iff {offset : Nat} {lexeme : Lexeme} {k : Kind} :
    lexeme.kind? offset = .ok (some k) ↔ kindOf lexeme.reading = some k := by
  unfold Lexeme.kind?
  split <;> simp_all [kindOf]

theorem eq_blank_of_kind? {offset : Nat} {lexeme : Lexeme} (h : lexeme.kind? offset = .ok none) :
    lexeme.reading = .ok .blank := by
  unfold Lexeme.kind? at h
  split at h
  · rename_i shape hshape
    cases shape <;> simp_all [Shape.kind?]
  all_goals simp at h

theorem isSpace_of_blank {first : Char} {rest : Text}
    (h : (Lexeme.measure first rest).1 = .ok .blank) : isSpace first = true := by
  unfold Lexeme.measure at h
  split at h
  case h_1 | h_2 => decide
  all_goals exfalso
  any_goals unfold Lexeme.oneOrTwo at h
  any_goals unfold Lexeme.measureSlash at h
  any_goals unfold Lexeme.measureLess at h
  all_goals repeat' split at h
  all_goals cases h

theorem measure_space {c : Char} (h : isSpace c = true) (u : Text) :
    Lexeme.measure c u = (.ok .blank, (u.takeWhile isSpace).length) := by
  have hcases : c = ' ' ∨ c = '\t' := by simpa [isSpace] using h
  rcases hcases with rfl | rfl <;> rfl

/-- Blanks in front of a text become part of the lead. -/
theorem tokensOf_spaces {offset : Nat} {lead blanks rest : Text}
    (hb : ∀ c ∈ blanks, isSpace c = true) (hr : rest.takeWhile isSpace = []) :
    tokensOf offset lead (lexemes (blanks ++ rest)) =
      tokensOf (offset + blanks.byteLength) (lead ++ blanks) (lexemes rest) := by
  cases blanks with
  | nil => simp
  | cons c blanks =>
    have hm : Lexeme.measure c (blanks ++ rest) = (.ok .blank, blanks.length) := by
      rw [measure_space (hb c (by simp)), takeWhile_append_length_eq_iff.2]
      exact ⟨fun d hd => hb d (by simp [hd]), hr⟩
    rw [List.cons_append, lexemes_cons]
    simp [Lexeme.read, hm, tokensOf, Lexeme.kind?, Shape.kind?]

/-- A standing token is read. -/
theorem tokensOf_stands {offset : Nat} {lead after : Text} {t : Token} (h : t.Stands after) :
    tokensOf offset lead (lexemes (t.text ++ after)) =
      (tokensOf (offset + t.text.byteLength) [] (lexemes after)).map (t.withLead lead :: ·) := by
  obtain ⟨first, tail, reading, htext, hm, hk⟩ := h
  have hread : Lexeme.read first (tail ++ after) = ⟨reading, t.text⟩ := by
    simp [Lexeme.read, hm, htext]
  have hkind : Lexeme.kind? offset ⟨reading, t.text⟩ = .ok (some t.kind) :=
    kind?_eq_ok_some_iff.2 hk
  rw [htext, List.cons_append, lexemes_cons, hread, hm, List.drop_left, ← htext, tokensOf, hkind]
  rfl

/-- Tokens that are read back come in front of what is read behind them. -/
theorem tokensOf_append {offset : Nat} {ts : List Token} {after : Text} (h : Reads ts after) :
    ∃ behind, tokensOf offset [] (lexemes (print ts ++ after)) =
      (tokensOf behind [] (lexemes after)).map (ts ++ ·) := by
  induction ts generalizing offset with
  | nil =>
    refine ⟨offset, ?_⟩
    rw [print_nil, List.nil_append]
    cases tokensOf offset [] (lexemes after) <;> rfl
  | cons t ts ih =>
    obtain ⟨hlead, hstands, hrest⟩ := h
    obtain ⟨behind, hbehind⟩ := ih hrest
    refine ⟨behind, ?_⟩
    rw [print_cons, Token.print, List.append_assoc, List.append_assoc,
      tokensOf_spaces hlead (hstands.takeWhile_isSpace _), tokensOf_stands hstands, hbehind]
    cases tokensOf behind [] (lexemes after) <;> rfl

theorem tokensOf_reads {offset : Nat} {ts : List Token} {trail : Text}
    (ht : ∀ c ∈ trail, isSpace c = true) (h : Reads ts trail) :
    tokensOf offset [] (lexemes (print ts ++ trail)) = .ok (ts ++ [eofToken trail]) := by
  obtain ⟨behind, hbehind⟩ := @tokensOf_append offset ts trail h
  have hspaces := @tokensOf_spaces behind [] trail [] ht rfl
  rw [List.append_nil] at hspaces
  rw [hbehind, hspaces]
  rfl

theorem exists_reads_of_tokensOf {offset : Nat} {source : Text} {tokens : List Token}
    (h : tokensOf offset [] (lexemes source) = .ok tokens) :
    ∃ ts trail, tokens = ts ++ [eofToken trail] ∧ source = print ts ++ trail ∧
      (∀ c ∈ trail, isSpace c = true) ∧ Reads ts trail := by
  -- one step takes blanks and the token behind them, so the induction is on the length
  induction hn : source.length using Nat.strongRecOn generalizing offset source tokens with
  | _ n ih =>
    set blanks := source.takeWhile isSpace with hblanks
    have hspaces : ∀ c ∈ blanks, isSpace c = true := fun c hc => List.mem_takeWhile_imp hc
    have hcut : source = blanks ++ source.dropWhile isSpace := List.takeWhile_append_dropWhile.symm
    have hrest : (source.dropWhile isSpace).takeWhile isSpace = [] :=
      Heredoc.takeWhile_dropWhile_eq_nil source
    rw [hcut, tokensOf_spaces hspaces hrest] at h
    cases hd : source.dropWhile isSpace with
    | nil =>
      rw [hd] at h hcut
      refine ⟨[], blanks, ?_, by simpa using hcut, hspaces, trivial⟩
      simpa [tokensOf, eofToken] using h.symm
    | cons first u =>
      rw [hd, lexemes_cons, tokensOf] at h
      rw [hd] at hrest hcut
      cases hkind : Lexeme.kind? (offset + Text.byteLength blanks) (Lexeme.read first u) with
      | error e => simp [hkind] at h
      | ok found =>
        cases found with
        | none =>
          have hspace := isSpace_of_blank (eq_blank_of_kind? hkind)
          simp [hspace] at hrest
        | some k =>
          simp only [hkind] at h
          obtain ⟨rest, hrest', rfl⟩ := map_eq_ok_iff.1 h
          set m := (Lexeme.measure first u).2 with hm
          have hle : m ≤ u.length := Lexeme.measure_le first u
          have hshort : (u.drop m).length < n := by
            rw [← hn, hcut, List.length_drop, List.length_append, List.length_cons]
            omega
          obtain ⟨ts, trail, rfl, htail, htrail, hreads⟩ := ih _ hshort hrest' rfl
          have hu : u = u.take m ++ (print ts ++ trail) := by
            rw [← htail, List.take_append_drop]
          refine ⟨⟨k, first :: u.take m, blanks⟩ :: ts, trail, rfl, ?_, htrail, hspaces, ?_, hreads⟩
          · rw [hcut]
            nth_rewrite 1 [hu]
            simp [Token.print]
          · refine ⟨first, u.take m, (Lexeme.measure first u).1, rfl, ?_,
              kind?_eq_ok_some_iff.1 hkind⟩
            rw [← hu, List.length_take_of_le hle]

/-- The tokens of a text are those that print to it and are read back from it, and the token of its
end. -/
theorem tokenize_eq_ok_iff {source : Text} {tokens : List Token} :
    tokenize source = .ok tokens ↔
      ∃ ts trail, tokens = ts ++ [eofToken trail] ∧ source = print ts ++ trail ∧
        (∀ c ∈ trail, isSpace c = true) ∧ Reads ts trail := by
  constructor
  · exact exists_reads_of_tokensOf
  · rintro ⟨ts, trail, rfl, rfl, ht, hr⟩
    exact tokensOf_reads ht hr

/-! ## Neighbours -/

/-- Tokens that stand next to each other do not join. -/
theorem joins_eq_false {a b : Token} (ha : a.Stands b.text) (hb : b.Stands []) :
    joins a b = false := by
  have hreads : Reads [a.withLead [], b.withLead []] [] :=
    ⟨by simp, by simpa [Token.print] using ha.withLead [], by simp, hb, trivial⟩
  have htokens : tokenize (a.text ++ b.text) =
      .ok ([a.withLead [], b.withLead []] ++ [eofToken []]) :=
    tokenize_eq_ok_iff.2 ⟨_, [], rfl, by simp [Token.print], by simp, hreads⟩
  unfold joins
  split
  · rfl
  · simp [htokens, eofToken]

end TagBox
