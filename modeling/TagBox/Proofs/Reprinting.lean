import TagBox.Proofs.Expression
import TagBox.Proofs.Patterns

/-!
# Templates that are printed and read again

A template keeps of its text the tokens of its halves and the blanks between them.  So it can be printed
again, with an empty group for a placeholder, and the print can be compiled like any other text.  The
halves are read back from it, although other text stands behind them than before: behind the left half
a marker or blanks and a marker, as before, and behind the right half the end of the line, without the
blanks that the host may have had in front of it.  This makes a difference to two kinds of tokens, a
carriage return and `<<` with a name.  Both are tokens of their own only if no line feed follows.

* `Token.isReturn`, `Token.isBrokenOpening` — the two kinds of tokens.
* `Reads.append_feed` — all others are read back at the end of a line.
* `Template.reprint` — the print of a template.
* `compile_reprint_iff` — which templates are compiled from their print.
-/

namespace TagBox

open Lexeme (isSpace isLineEnd kindOf)
open Pattern

/-! ## Openings of heredocs at the end of a line -/

namespace Heredoc

theorem openingBehind_append_feed {x : Text} (hnil : x ≠ []) (hreturn : x ≠ ['\r']) (k : Nat)
    (marker s : Text) : openingBehind k marker (x ++ '\n' :: s) = openingBehind k marker x := by
  unfold openingBehind
  match x with
  | [] => exact absurd rfl hnil
  | [d] =>
    have hd : d ≠ '\r' := fun h => hreturn (by rw [h])
    by_cases hfeed : d = '\n' <;> simp [hd, hfeed]
  | d :: e :: x =>
    by_cases hd : d = '\n' <;> by_cases hd' : d = '\r' <;> by_cases he : e = '\n' <;>
      simp [hd, hd', he]

/-- A line feed at the end of a text changes the opening in it only if it ends the line. -/
theorem opening_append_feed (u s : Text) :
    opening (u ++ '\n' :: s) = opening u ∨
      ∃ minus marker x, u = '<' :: (minus ++ marker) ++ x ∧ minus ∈ dash ∧ marker ∈ name ∧
        (x = [] ∨ x = ['\r']) := by
  rcases opening_cases (u ++ '\n' :: s) with habsent | ⟨minus, marker, behind, hcut, hminus, hmarker, hname⟩
  · have hcut := opening_absent_alike (Alike.append u (.cut ('\n' :: s))) habsent
    rw [List.append_nil] at hcut
    exact Or.inl (habsent.trans hcut.symm)
  · have hfeed : '\n' ∉ '<' :: (minus ++ marker) := by
      have hnot : '\n' ∉ marker := fun h =>
        absurd (isNamePart_of_mem_name hmarker _ h) (by decide)
      rcases mem_dash.1 hminus with rfl | rfl <;> simp [hnot]
    have hcut' : u ++ '\n' :: s = '<' :: (minus ++ marker) ++ behind := by
      rw [hcut, List.cons_append, List.append_assoc]
    -- the line feed is no part of a name, so it stands behind the opening
    rcases List.append_eq_append_iff.1 hcut' with ⟨rest, hpre, hrest⟩ | ⟨x, rfl, rfl⟩
    · cases rest with
      | nil =>
        refine Or.inr ⟨minus, marker, [], ?_, hminus, hmarker, Or.inl rfl⟩
        rw [hpre, List.append_nil, List.append_nil]
      | cons d rest =>
        obtain ⟨rfl, -⟩ := List.cons.inj hrest
        exact absurd (hpre ▸ by simp) hfeed
    · by_cases hx : x = [] ∨ x = ['\r']
      · exact Or.inr ⟨minus, marker, x, rfl, hminus, hmarker, hx⟩
      · rw [not_or] at hx
        have hx' : x.takeWhile isNamePart = [] := by
          rwa [takeWhile_append_stop (by decide)] at hname
        rw [hcut, List.cons_append, List.append_assoc, opening_of_marker hminus hmarker hname,
          opening_of_marker hminus hmarker hx', openingBehind_append_feed hx.1 hx.2]
        exact Or.inl rfl

/-- An opening that lacks nothing but the end of its line. -/
theorem exists_of_opening_broken {u : Text} (h : opening u = .broken u.length) :
    ∃ minus marker, u = '<' :: (minus ++ marker) ∧ minus ∈ dash ∧ marker ∈ name := by
  rcases opening_cases u with habsent | ⟨minus, marker, behind, rfl, hminus, hmarker, hname⟩
  · simp [habsent] at h
  · rw [opening_of_marker hminus hmarker hname] at h
    rcases openingBehind_cases behind with ⟨stop, rest, rfl, hstop⟩ | ⟨-, hbroken⟩
    · rcases mem_lineEnd.1 hstop with rfl | rfl <;> simp [openingBehind] at h
    · rw [hbroken, Opening.broken.injEq, List.length_cons, List.length_append, List.length_append] at h
      obtain rfl : behind = [] := List.length_eq_zero_iff.1 (by omega)
      exact ⟨minus, marker, by rw [List.append_nil], hminus, hmarker⟩

theorem atLineEnd_append_feed {w : Text} (h : AtLineEnd w) (s : Text) : AtLineEnd (w ++ '\n' :: s) := by
  induction w with
  | nil => exact Or.inr rfl
  | cons c w ih =>
    by_cases hc : c = '\r'
    · subst hc
      simpa [AtLineEnd] using ih (by simpa [AtLineEnd] using h)
    · simpa [AtLineEnd, hc] using h

end Heredoc

/-- Without the end of its line an opening is not recognized. -/
theorem Lexeme.measureLess_marker {minus marker x : Text} (hminus : minus ∈ dash)
    (hmarker : marker ∈ name) (hx : x = [] ∨ x = ['\r']) :
    measureLess ('<' :: (minus ++ marker) ++ x) =
      (.error .unrecognized, ('<' :: (minus ++ marker)).length) := by
  have hname : x.takeWhile isNamePart = [] := by rcases hx with rfl | rfl <;> rfl
  have hbroken : Heredoc.openingBehind (1 + minus.length) marker x =
      .broken (1 + minus.length + marker.length) := by
    rcases hx with rfl | rfl <;> rfl
  have hlen : ('<' :: (minus ++ marker)).length = 1 + minus.length + marker.length := by
    rw [List.length_cons, List.length_append]
    omega
  rw [measureLess, List.cons_append, List.append_assoc, Heredoc.opening_of_marker hminus hmarker hname,
    hbroken, hlen]

/-- What is not recognized behind `<` is an opening without the end of its line. -/
theorem Lexeme.opening_of_unrecognized {u : Text} {n : Nat}
    (h : measureLess u = (.error .unrecognized, n)) : Heredoc.opening u = .broken n := by
  unfold measureLess at h
  cases ho : Heredoc.opening u with
  | absent =>
    simp only [ho] at h
    split_ifs at h
    all_goals simp at h
  | broken m =>
    simp only [ho] at h
    rw [(Prod.mk.inj h).2]
  | line marker m =>
    simp only [ho] at h
    cases hb : Heredoc.bodyLength marker (u.drop m) with
    | none => simp [hb] at h
    | some body => simp [hb] at h

/-- A heredoc is not closed where its opening line ends the text. -/
theorem Lexeme.measureLess_opened {u marker : Text} (h : Heredoc.opening u = .line marker u.length) :
    measureLess u = (.error .unterminatedHeredoc, u.length) := by
  have hnone : Heredoc.bodyLength marker [] = none := rfl
  simp only [measureLess, h, List.drop_length, hnone]

/-! ## Tokens at the end of a line -/

/-- Is the token a carriage return without a line feed? -/
def Token.isReturn (t : Token) : Bool :=
  t.kind == .other && t.text == ['\r']

/-- Is the token `<<` or `<<-` and a name, without the line end that would make it open a heredoc?  No
other token that is not recognized starts in this way. -/
def Token.isBrokenOpening (t : Token) : Bool :=
  t.kind == .other && t.text.take 2 == ['<', '<']

section Feed

variable {t : Token} {ts : List Token} {r w : Text}

theorem eq_of_kindOf_other {reading : Except Fault Shape} (h : kindOf reading = some .other) :
    reading = .error .unrecognized := by
  cases reading with
  | error fault => cases fault <;> simp [kindOf] at h ⊢
  | ok shape => cases shape <;> simp [kindOf, Shape.kind?] at h

/-- A token that ends at the end of a text also ends in front of a line feed there, unless this makes it
a line end or the opening of a heredoc. -/
theorem Token.Stands.append_feed (h : t.Stands w) (hreturn : w = [] → t.isReturn = false)
    (hopening : w = [] ∨ w = ['\r'] → t.isBrokenOpening = false) (s : Text) :
    t.Stands (w ++ '\n' :: s) := by
  obtain ⟨first, tail, reading, htext, hm, hk⟩ := h
  -- what a line feed could complete is one of the two tokens that are excluded
  have hhead : first = '\r' →
      ((tail ++ w ++ '\n' :: s).head? = some '\n' ↔ (tail ++ w).head? = some '\n') := by
    rintro rfl
    cases hu : tail ++ w with
    | cons c u => simp
    | nil =>
      obtain ⟨rfl, rfl⟩ := List.append_eq_nil_iff.1 hu
      obtain ⟨rfl, -⟩ := Prod.mk.inj hm
      have hkind : t.kind = .other := (Option.some.inj hk).symm
      simp [Token.isReturn, hkind, htext] at hreturn
  have hsame : first = '<' → Heredoc.opening (tail ++ w ++ '\n' :: s) = Heredoc.opening (tail ++ w) := by
    rintro rfl
    refine (Heredoc.opening_append_feed (tail ++ w) s).resolve_right ?_
    rintro ⟨minus, marker, x, hcut, hminus, hmarker, hx⟩
    have hless : Lexeme.measureLess (tail ++ w) = (reading, tail.length) := hm
    rw [hcut, Lexeme.measureLess_marker hminus hmarker hx] at hless
    obtain ⟨rfl, hlen⟩ := Prod.mk.inj hless
    obtain ⟨rfl, rfl⟩ := List.append_inj hcut hlen.symm
    have hkind : t.kind = .other := (Option.some.inj hk).symm
    have hnot := hopening hx
    simp [Token.isBrokenOpening, hkind, htext] at hnot
  have hm' := Lexeme.measure_append_break (s := s) (show isBreak '\n' = true by decide) hk (fun _ => rfl)
    (fun _ hend => Heredoc.atLineEnd_append_feed hend s) hhead hsame hm
  rw [List.append_assoc] at hm'
  exact ⟨first, tail, reading, htext, hm', hk⟩

theorem Reads.print_ne_nil (h : Reads ts r) (hne : ts ≠ []) : print ts ≠ [] := by
  obtain ⟨t, ts, rfl⟩ := List.exists_cons_of_ne_nil hne
  simp [Token.print, h.2.1.text_ne_nil]

/-- Nothing but a carriage return is printed to one. -/
theorem Reads.isReturn_of_print (h : Reads ts []) (hprint : print ts = ['\r']) :
    ∃ last ∈ ts.getLast?, last.isReturn = true := by
  cases ts with
  | nil => simp at hprint
  | cons t ts =>
    obtain ⟨-, ⟨first, tail, reading, htext, hm, hk⟩, hrest⟩ := h
    have hlen := congrArg List.length hprint
    simp only [print_cons, Token.print, htext, List.length_append, List.length_cons,
      List.length_nil] at hlen
    have hlead : t.lead = [] := List.length_eq_zero_iff.1 (by omega)
    obtain rfl : tail = [] := List.length_eq_zero_iff.1 (by omega)
    obtain rfl : ts = [] := by
      by_contra hne
      exact hrest.print_ne_nil hne (List.length_eq_zero_iff.1 (by omega))
    obtain rfl : first = '\r' := by simpa [Token.print, hlead, htext] using hprint
    obtain ⟨rfl, -⟩ := Prod.mk.inj hm
    have hkind : t.kind = .other := (Option.some.inj hk).symm
    exact ⟨t, rfl, by simp [Token.isReturn, hkind, htext]⟩

/-- The tokens in front of the last one are read back with a line feed behind that. -/
theorem Reads.init_append_feed {last : Token} (h : Reads (ts ++ [last]) []) (hlast : last.isReturn = false)
    (s : Text) : Reads ts (print [last] ++ '\n' :: s) := by
  induction ts with
  | nil => trivial
  | cons t ts ih =>
    rw [List.cons_append] at h
    obtain ⟨hlead, hstands, hrest⟩ := h
    refine ⟨hlead, ?_, ih hrest⟩
    rw [List.append_nil] at hstands
    -- behind this token there is more than a carriage return, so that the line feed is out of its sight
    have hne : print (ts ++ [last]) ≠ [] := hrest.print_ne_nil (by simp)
    have hreturn : print (ts ++ [last]) ≠ ['\r'] := by
      intro hprint
      obtain ⟨u, hu, hret⟩ := hrest.isReturn_of_print hprint
      rw [List.getLast?_concat, Option.mem_some_iff] at hu
      rw [← hu, hlast] at hret
      exact absurd hret (by decide)
    have hfeed := hstands.append_feed (fun hnil => absurd hnil hne)
      (fun hor => absurd hor (not_or.2 ⟨hne, hreturn⟩)) s
    rwa [print_append, List.append_assoc] at hfeed

/-- Tokens are read back at the end of a line, if the last one is neither a carriage return nor half an
opening of a heredoc. -/
theorem Reads.append_feed {last : Token} (h : Reads (ts ++ [last]) []) (hreturn : last.isReturn = false)
    (hopening : last.isBrokenOpening = false) (s : Text) : Reads (ts ++ [last]) ('\n' :: s) := by
  obtain ⟨-, hlead, hstands, -⟩ := reads_append.1 h
  exact reads_append.2 ⟨h.init_append_feed hreturn s, hlead,
    hstands.append_feed (fun _ => hreturn) (fun _ => hopening) s, trivial⟩

/-- Half an opening of a heredoc is no token at the end of a line: it opens a heredoc that is not
closed. -/
theorem tokensOf_brokenOpening (h : t.Stands []) (hopening : t.isBrokenOpening = true) (offset : Nat)
    (lead : Text) :
    tokensOf offset lead (lexemes (t.text ++ ['\n'])) = .error (.unterminatedHeredoc offset) := by
  obtain ⟨first, tail, reading, htext, hm, hk⟩ := h
  simp only [Token.isBrokenOpening, htext, Bool.and_eq_true, beq_iff_eq] at hopening
  obtain ⟨hkind, hstart⟩ := hopening
  obtain rfl : first = '<' := (List.cons.inj hstart).1
  obtain rfl := eq_of_kindOf_other (hkind ▸ hk)
  rw [List.append_nil] at hm
  obtain ⟨minus, marker, rfl, hminus, hmarker⟩ :=
    Heredoc.exists_of_opening_broken (Lexeme.opening_of_unrecognized hm)
  have hline := Heredoc.opening_of_line hminus hmarker (mem_lineEnd.2 (Or.inl rfl)) []
  have hend : '<' :: (minus ++ marker) ++ ['\n'] = '<' :: (minus ++ (marker ++ ['\n'])) := by
    rw [List.cons_append, List.append_assoc]
  rw [List.append_nil, ← hend] at hline
  have hread := Lexeme.measureLess_opened hline
  have hfault : Lexeme.kind? offset (Lexeme.read '<' ('<' :: (minus ++ marker) ++ ['\n'])) =
      .error (.unterminatedHeredoc offset) := by
    have hreading : (Lexeme.read '<' ('<' :: (minus ++ marker) ++ ['\n'])).reading =
        .error .unterminatedHeredoc := (Prod.mk.inj hread).1
    rw [Lexeme.kind?, hreading]
  rw [htext, List.cons_append, lexemes_cons, tokensOf, hfault]

end Feed

/-! ## The print of a template -/

namespace Template

/-- The template as a text, with markers around an empty group between the halves. -/
def reprint (T : Template) : Text :=
  print T.left ++ (T.payloadLead ++ ("/*<box>*/{}/*</box>*/".toList ++ print T.right))

/-- The begin marker, with blanks in front of it. -/
def beginToken (lead : Text) : Token := ⟨.comment, beginMarker, lead⟩

/-- The end marker. -/
def endToken : Token := ⟨.comment, endMarker, []⟩

/-- The placeholder of a print. -/
def emptyGroup : List Token := [⟨.openBrace, ['{'], []⟩, ⟨.closeBrace, ['}'], []⟩]

/-- The tokens between the halves of a print. -/
def slot (lead : Text) : List Token :=
  beginToken lead :: (emptyGroup ++ [endToken])

/-- The tokens that stand in front of the right half when the print of a template is compiled. -/
def frame (T : Template) : List Token :=
  hostName :: hostSign :: (relead [' '] T.left ++ slot T.payloadLead)

variable {T : Template}

theorem print_slot (lead : Text) : print (slot lead) = lead ++ "/*<box>*/{}/*</box>*/".toList := by
  have htext : beginMarker ++ (['{'] ++ (['}'] ++ endMarker)) = "/*<box>*/{}/*</box>*/".toList := by
    decide
  rw [← htext]
  simp [slot, beginToken, emptyGroup, endToken, Token.print]

/-- A block comment is a token in front of anything. -/
theorem stands_blockComment {body : Text} (h : Lexeme.commentLength body = some body.length)
    (lead after : Text) : Token.Stands ⟨.comment, '/' :: '*' :: body, lead⟩ after := by
  refine ⟨'/', '*' :: body, .ok .blockComment, rfl, ?_, rfl⟩
  obtain ⟨-, -, htake⟩ := Lexeme.commentLength_take h
  have hlen := htake after
  rw [List.take_length] at hlen
  simp [Lexeme.measure, Lexeme.measureSlash, hlen]

theorem reads_slot {lead : Text} (hlead : ∀ c ∈ lead, isSpace c = true) (after : Text) :
    Reads (slot lead) after := by
  have hbegin : Lexeme.commentLength "<box>*/".toList = some "<box>*/".toList.length := by decide
  have hend : Lexeme.commentLength "</box>*/".toList = some "</box>*/".toList.length := by decide
  exact ⟨hlead, stands_blockComment hbegin lead _,
    by simp, ⟨'{', [], .ok .openBrace, rfl, rfl, rfl⟩,
    by simp, ⟨'}', [], .ok .closeBrace, rfl, rfl, rfl⟩,
    by simp [endToken], stands_blockComment hend [] _, trivial⟩

theorem host_reprint {first : Token} {more : List Token} (hleft : T.left = first :: more)
    (hlead : first.lead = []) : host T.reprint = print T.frame ++ (print T.right ++ ['\n']) := by
  have hframe : print T.frame = hostName.text ++ ([' '] ++ (hostSign.text ++ (' ' :: (first.text ++
      (print more ++ print (slot T.payloadLead)))))) := by
    simp [frame, hleft, relead, Token.print, Token.withLead, hostName, hostSign]
  have hprint : print T.left = first.text ++ print more := by simp [hleft, Token.print, hlead]
  rw [host_eq, hframe, reprint, hprint, print_slot]
  simp only [List.append_assoc, List.cons_append]

/-- In front of the right half the print of a compiled template is read as it was printed. -/
theorem reads_frame {rendered : Text} (h : compile rendered = .ok T) (after : Text) :
    Reads T.frame after := by
  obtain ⟨hspaces, hleft, -⟩ := reads_halves_of_compile h
  obtain ⟨first, more, hcut⟩ := List.exists_cons_of_ne_nil (hasHalves_of_compile h).1
  have hblank : ∀ c ∈ [' '], isSpace c = true := by simp [isSpace]
  have hsign : hostSign.Stands (print (relead [' '] T.left ++ slot T.payloadLead) ++ after) := by
    rw [hcut]
    exact stands_hostSign _
  refine ⟨by simp [hostName], stands_hostName _, hblank, hsign,
    reads_append.2 ⟨?_, reads_slot hspaces after⟩⟩
  rw [print_slot, List.append_assoc]
  exact hleft [' '] hblank '/' _ (Or.inr rfl)

theorem unmarked_relead {ts : List Token} (h : Unmarked ts) (lead : Text) : Unmarked (relead lead ts) := by
  cases ts with
  | nil => exact h
  | cons t ts =>
    intro u hu
    rcases List.mem_cons.1 hu with rfl | hu
    · exact h t (by simp)
    · exact h u (by simp [hu])

end Template

section Reprint

variable {rendered : Text} {T : Template}

/-- No marker is left in the halves, and no blanks in front of them. -/
theorem halves_of_compile (h : Template.compile rendered = .ok T) :
    (∃ first more, T.left = first :: more ∧ first.lead = []) ∧ Template.Unmarked T.left ∧
      Template.Unmarked T.right := by
  obtain ⟨-, -, ⟨L, b, P, e, R, -, hmarks, -, hL, -, rfl⟩, -, -, -⟩ := exists_standsIn_of_compile h
  obtain ⟨hleft, -, hright⟩ := hmarks.unmarked
  obtain ⟨t, L, rfl⟩ := List.exists_cons_of_ne_nil hL
  exact ⟨⟨t.withLead [], L, rfl, rfl⟩, Template.unmarked_relead hleft [], hright⟩

/-- The line end that the host puts behind the print. -/
def hostEnd : Token := ⟨.newline, ['\n'], []⟩

theorem tokenize_reprint (h : Template.compile rendered = .ok T) (hright : Reads T.right ['\n']) :
    tokenize (Template.host T.reprint) = .ok (T.frame ++ (T.right ++ [hostEnd]) ++ [eofToken []]) := by
  obtain ⟨⟨first, more, hleft, hlead⟩, -, -⟩ := halves_of_compile h
  have hend : hostEnd.Stands [] := ⟨'\n', [], .ok .newline, rfl, rfl, rfl⟩
  refine tokenize_eq_ok_iff.2 ⟨_, [], rfl, ?_, by simp, reads_append.2 ⟨Template.reads_frame h _,
    reads_append.2 ⟨hright, by simp [hostEnd], hend, trivial⟩⟩⟩
  rw [Template.host_reprint hleft hlead, print_append, print_append, List.append_nil]
  rfl

/-- The print is marked as the text of a template is. -/
theorem marks_reprint (hleft : Template.Unmarked T.left) (hright : Template.Unmarked T.right) :
    Template.Marks (relead [' '] T.left ++ (Template.slot T.payloadLead ++ T.right)) (relead [' '] T.left)
      (Template.beginToken T.payloadLead) Template.emptyGroup Template.endToken T.right := by
  have hleft' := Template.unmarked_relead hleft [' ']
  have hgroup : Template.Unmarked Template.emptyGroup := by unfold Template.Unmarked; decide
  refine ⟨rfl, rfl, rfl, ?_, ?_⟩
  · intro t ht
    rcases List.mem_append.1 ht with ht | ht
    · exact (hleft' t ht).1
    · rcases List.mem_append.1 ht with ht | ht
      · exact (hgroup t ht).1
      · rcases List.mem_cons.1 ht with rfl | ht
        · decide
        · exact (hright t ht).1
  · intro t ht
    rcases List.mem_append.1 ht with ht | ht
    · exact (hleft' t ht).2
    · rcases List.mem_cons.1 ht with rfl | ht
      · exact Template.isEnd_of_isBegin rfl
      · rcases List.mem_append.1 ht with ht | ht
        · exact (hgroup t ht).2
        · exact (hright t ht).2

theorem eq_ofParts {first : Token} {more : List Token} (hleft : T.left = first :: more)
    (hlead : first.lead = []) : T = Template.ofParts (relead [' '] T.left)
      (Template.beginToken T.payloadLead) Template.emptyGroup Template.endToken T.right := by
  have hfirst : relead [] (relead [' '] T.left) = T.left := by
    rw [hleft, ← hlead]
    rfl
  have hpayload : (if T.payloadLead = [] then leadAt (Template.emptyGroup ++ [Template.endToken]) 0
      else T.payloadLead) = T.payloadLead := by
    split_ifs with hnil
    · rw [hnil]
      rfl
    · rfl
  obtain ⟨left, right, payloadLead⟩ := T
  exact (Template.mk.injEq ..).mpr ⟨hfirst.symm, rfl, hpayload.symm⟩

/-- If the right half is read back in front of a line end, then the print is compiled to the template. -/
theorem compile_reprint (h : Template.compile rendered = .ok T) (hn : Nested (T.left ++ T.right))
    (hright : Reads T.right ['\n']) : Template.compile T.reprint = .ok T := by
  obtain ⟨⟨first, more, hleft, hlead⟩, hunleft, hunright⟩ := halves_of_compile h
  have hslot : Inline (Template.slot T.payloadLead) := rfl
  have hinline : Inline (relead [' '] T.left ++ (Template.slot T.payloadLead ++ T.right)) := by
    refine (nested_between_iff hslot).2 ?_
    rw [Nests, kinds_append, kinds_relead, ← kinds_append]
    exact inline_of_compile h hn
  have hstands : T.StandsIn T.reprint [] [hostEnd] := by
    refine ⟨_, _, _, _, T.right, ?_, marks_reprint hunleft hunright, hinline, ?_,
      (hasHalves_of_compile h).2, eq_ofParts hleft hlead⟩
    · rw [tokenize_reprint h hright]
      simp [Template.frame, Template.slot]
    · rw [hleft]
      simp [relead]
  refine compile_of_standsIn hstands (Or.inl rfl) ⟨hostEnd, rfl, rfl⟩
    ⟨[.plain hostEnd], rfl, ⟨?_, trivial⟩, ?_⟩
  · exact ⟨by decide, by decide, by decide⟩
  · simp [Piece.isStatement]

/-- If the right half ends with half an opening of a heredoc, then the line end of the host completes it. -/
theorem compile_reprint_error {ts : List Token} {last : Token} (h : Template.compile rendered = .ok T)
    (hright : T.right = ts ++ [last]) (hend : Reads (ts ++ [last]) []) (hreturn : last.isReturn = false)
    (hopening : last.isBrokenOpening = true) :
    ∃ offset, Template.compile T.reprint = .error (.lexing (.unterminatedHeredoc offset)) := by
  obtain ⟨⟨first, more, hleft, hlead⟩, -, -⟩ := halves_of_compile h
  have htext : Template.host T.reprint = print (T.frame ++ ts) ++ (print [last] ++ ['\n']) := by
    rw [Template.host_reprint hleft hlead, hright]
    simp
  have hreads : Reads (T.frame ++ ts) (print [last] ++ ['\n']) :=
    reads_append.2 ⟨Template.reads_frame h _, hend.init_append_feed hreturn []⟩
  obtain ⟨-, hblanks, hstands, -⟩ := reads_append.1 hend
  obtain ⟨behind, hbehind⟩ := @tokensOf_append 0 _ _ hreads
  have hlast : print [last] ++ ['\n'] = last.lead ++ (last.text ++ ['\n']) := by simp [Token.print]
  rw [hlast, tokensOf_spaces hblanks (hstands.takeWhile_isSpace _),
    tokensOf_brokenOpening hstands hopening, ← hlast, ← htext] at hbehind
  refine ⟨behind + Text.byteLength last.lead, ?_⟩
  have htokens : tokenize (Template.host T.reprint) =
      .error (.unterminatedHeredoc (behind + Text.byteLength last.lead)) := hbehind
  rw [Template.compile, htokens]

/-- A template whose halves nest and whose right half does not end with a carriage return is compiled
from its print, with the same tokens and the same blanks, exactly if the right half does not end with
half an opening of a heredoc. -/
theorem compile_reprint_iff (h : Template.compile rendered = .ok T) (hn : Nested (T.left ++ T.right))
    (hreturn : ∀ last ∈ T.right.getLast?, last.isReturn = false) :
    Template.compile T.reprint = .ok T ↔ ∀ last ∈ T.right.getLast?, last.isBrokenOpening = false := by
  obtain ⟨-, -, after, hreads⟩ := reads_halves_of_compile h
  obtain ⟨ts, last, hright⟩ :=
    (List.eq_nil_or_concat' T.right).resolve_left (hasHalves_of_compile h).2
  have hend : Reads (ts ++ [last]) [] := hright ▸ hreads.alike (.cut after)
  have hlast : last ∈ T.right.getLast? := by rw [hright, List.getLast?_concat]; rfl
  constructor
  · intro hok u hu
    rw [Option.mem_unique hu hlast]
    by_contra hopening
    obtain ⟨offset, herror⟩ :=
      compile_reprint_error h hright hend (hreturn last hlast) (by simpa using hopening)
    exact absurd (hok.symm.trans herror) (by simp)
  · intro hopening
    refine compile_reprint h hn ?_
    rw [hright]
    exact hend.append_feed (hreturn last hlast) (hopening last hlast) []

/-- The text of a template on several lines, with a comment and a heredoc in its halves. -/
def layoutText : Text :=
  " (var.on # toggle\n  ?/*<box>*/  [k] /*</box>*/\n  : <<-E\n  x\n  E\n)\t".toList

/-- The template with this text. -/
def layoutTemplate : Template where
  left := [⟨.openParen, ['('], []⟩, ⟨.identifier, "var".toList, []⟩, ⟨.dot, ['.'], []⟩,
    ⟨.identifier, "on".toList, []⟩, ⟨.comment, "# toggle".toList, [' ']⟩, ⟨.newline, ['\n'], []⟩,
    ⟨.question, ['?'], [' ', ' ']⟩]
  right := [⟨.newline, ['\n'], []⟩, ⟨.colon, [':'], [' ', ' ']⟩,
    ⟨.heredoc, "<<-E\n  x\n  E".toList, [' ']⟩, ⟨.newline, ['\n'], []⟩, ⟨.closeParen, [')'], []⟩]
  payloadLead := [' ', ' ']

theorem compile_reprint_iff_layout :
    Template.compile layoutText = .ok layoutTemplate ∧
      Nested (layoutTemplate.left ++ layoutTemplate.right) ∧
      layoutTemplate.reprint =
        "(var.on # toggle\n  ?  /*<box>*/{}/*</box>*/\n  : <<-E\n  x\n  E\n)".toList ∧
      Template.compile layoutTemplate.reprint = .ok layoutTemplate := by
  have hcompile : Template.compile layoutText = .ok layoutTemplate := by decide +kernel
  have hnested : Nested (layoutTemplate.left ++ layoutTemplate.right) := by decide
  have hreprint := compile_reprint_iff hcompile hnested (by simp [layoutTemplate, Token.isReturn])
  exact ⟨hcompile, hnested, by decide +kernel, hreprint.2 (by simp [layoutTemplate, Token.isBrokenOpening])⟩

/-- A blank keeps half an opening from the end of its line, and it is not printed again. -/
theorem reprint_opens_heredoc :
    ∃ T, Template.compile "(/*<box>*/{}/*</box>*/)<<E ".toList = .ok T ∧ Nested (T.left ++ T.right) ∧
      (∀ last ∈ T.right.getLast?, last.isReturn = false) ∧
      T.reprint = "(/*<box>*/{}/*</box>*/)<<E".toList ∧
      Template.compile T.reprint = .error (.lexing (.unterminatedHeredoc 30)) := by
  refine ⟨⟨[⟨.openParen, ['('], []⟩], [⟨.closeParen, [')'], []⟩, ⟨.other, ['<', '<', 'E'], []⟩], []⟩,
    by decide +kernel, by decide, by simp [Token.isReturn], by decide +kernel, by decide +kernel⟩

end Reprint

end TagBox
