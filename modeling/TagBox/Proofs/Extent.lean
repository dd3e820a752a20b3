import TagBox.Token.Lexeme
import Mathlib.Data.List.DropRight
import Mathlib.Tactic.Common

/-!
# Lexemes that carry their own end

Quoted texts, block comments and the opening lines of heredocs are found by a search for their end,
and that search never looks beyond the end it finds: what follows can be exchanged.  The last line
of a heredoc is recognized together with its line end, so a heredoc keeps its length in front of
anything that starts with the same line end, or in front of nothing.

* `Quoted.ends_of_bodyLength` — the extent of a quoted text.
* `Lexeme.commentLength_take` — the extent of a block comment.
* `Heredoc.opening_take` — the extent of the opening line of a heredoc.
* `Heredoc.bodyLength_of_isBody` — the extent of the body of a heredoc.
-/

namespace TagBox

/-! ## Quoted texts -/

namespace Quoted

/-- Does the character begin a sequence of several characters? -/
def startsSequence (c : Char) (rest : Text) : Bool :=
  (c == '\\' && rest != []) ||
    ((c == '$' || c == '%') && (rest.head? == some '{' || rest.take 2 == [c, '{']))

theorem bodyLength_char {depth : Nat} {outer : List Nat} {c : Char} {rest : Text}
    (h : startsSequence c rest = false) :
    bodyLength depth outer (c :: rest) =
      if c = '"' then
        match depth, outer with
        | 0, [] => some 1
        | 0, around :: outer => (bodyLength around outer rest).map (· + 1)
        | inside + 1, outer => (bodyLength 0 ((inside + 1) :: outer) rest).map (· + 1)
      else if c = '\n' ∧ depth = 0 then none
      else if c = '{' ∧ 0 < depth then (bodyLength (depth + 1) outer rest).map (· + 1)
      else if c = '}' ∧ 0 < depth then (bodyLength (depth - 1) outer rest).map (· + 1)
      else (bodyLength depth outer rest).map (· + 1) := by
  rw [bodyLength.eq_def]
  split
  case h_7 heq =>
    obtain ⟨rfl, rfl⟩ := List.cons.inj heq
    rfl
  all_goals simp_all [startsSequence]

/-- The first `n` characters of the text are what is left of a quoted text, whatever follows. -/
def Ends (depth : Nat) (outer : List Nat) (u : Text) (n : Nat) : Prop :=
  n ≤ u.length ∧ 0 < n ∧ (n = 1 → u.head? = some '"') ∧
    ∀ v, bodyLength depth outer (u.take n ++ v) = some n

theorem startsSequence_eq_false {c : Char} {rest : Text}
    (h1 : ∀ a r, c = '\\' → rest = a :: r → False)
    (h2 : ∀ r, c = '$' → rest = '$' :: '{' :: r → False)
    (h3 : ∀ r, c = '%' → rest = '%' :: '{' :: r → False)
    (h4 : ∀ r, c = '$' → rest = '{' :: r → False)
    (h5 : ∀ r, c = '%' → rest = '{' :: r → False) : startsSequence c rest = false := by
  match rest with
  | [] => simp [startsSequence]
  | a :: rest =>
    have hc : c ≠ '\\' := fun hc => h1 a rest hc rfl
    have ha : (c = '$' ∨ c = '%') → a ≠ '{' := by
      rintro (hc | hc) rfl
      · exact h4 rest hc rfl
      · exact h5 rest hc rfl
    have hb : (c = '$' ∨ c = '%') → a = c → rest.take 1 ≠ ['{'] := by
      rintro hd rfl htake
      obtain ⟨r, rfl⟩ : ∃ r, rest = '{' :: r := by
        cases rest with
        | nil => simp at htake
        | cons b r => exact ⟨r, by simpa using htake⟩
      rcases hd with rfl | rfl
      · exact h2 r rfl rfl
      · exact h3 r rfl rfl
    simp [startsSequence, hc]
    exact fun hd => ⟨ha hd, hb hd⟩

theorem startsSequence_take {depth : Nat} {outer : List Nat} {c : Char} {rest : Text} {n : Nat}
    (h : startsSequence c rest = false) (he : Ends depth outer rest n) (v : Text) :
    startsSequence c (rest.take n ++ v) = false := by
  obtain ⟨hle, hpos, hone, -⟩ := he
  match rest, n with
  | [], _ =>
    simp at hle
    omega
  | a :: rest, 1 =>
    obtain rfl : a = '"' := by simpa using hone rfl
    have hc : c ≠ '\\' := by
      rintro rfl
      simp [startsSequence] at h
    have hq : (c = '$' ∨ c = '%') → '"' ≠ c := by
      rintro (rfl | rfl) <;> decide
    simp [startsSequence, hc]
    exact fun hd heq => absurd heq (hq hd)
  | [a], n + 2 => simp at hle
  | a :: b :: rest, n + 2 => simpa [startsSequence] using h

theorem ends_char {depth depth' : Nat} {outer outer' : List Nat} {c : Char} {rest : Text} {n : Nat}
    (hs : startsSequence c rest = false)
    (hstep : ∀ r, startsSequence c r = false →
      bodyLength depth outer (c :: r) = (bodyLength depth' outer' r).map (· + 1))
    (ih : ∀ m, bodyLength depth' outer' rest = some m → Ends depth' outer' rest m)
    (h : (bodyLength depth' outer' rest).map (· + 1) = some n) : Ends depth outer (c :: rest) n := by
  obtain ⟨m, hm, rfl⟩ := Option.map_eq_some_iff.1 h
  have he := ih m hm
  refine ⟨by simp [he.1], by omega, fun h1 => absurd he.2.1 (by omega), fun v => ?_⟩
  rw [List.take_succ_cons, List.cons_append, hstep _ (startsSequence_take hs he v), he.2.2.2 v]
  rfl

theorem ends_sequence {depth depth' : Nat} {outer : List Nat} (head : Text) {rest : Text} {n : Nat}
    (hlen : 2 ≤ head.length)
    (hstep : ∀ r, bodyLength depth outer (head ++ r) =
      (bodyLength depth' outer r).map (· + head.length))
    (ih : ∀ m, bodyLength depth' outer rest = some m → Ends depth' outer rest m)
    (h : (bodyLength depth' outer rest).map (· + head.length) = some n) :
    Ends depth outer (head ++ rest) n := by
  obtain ⟨m, hm, rfl⟩ := Option.map_eq_some_iff.1 h
  have he := ih m hm
  have hle := he.1
  refine ⟨by rw [List.length_append]; omega, by omega, fun h1 => absurd he.2.1 (by omega),
    fun v => ?_⟩
  rw [Nat.add_comm, List.take_length_add_append, List.append_assoc, hstep, he.2.2.2 v]
  simp [Nat.add_comm]

theorem ends_of_bodyLength {depth : Nat} {outer : List Nat} {u : Text} {n : Nat}
    (h : bodyLength depth outer u = some n) : Ends depth outer u n := by
  fun_induction bodyLength depth outer u generalizing n with
  | case1 => simp at h
  | case2 depth outer c rest ih =>
    exact ends_sequence ['\\', c] (by simp) (fun _ => rfl) (fun m hm => ih hm) h
  | case3 depth outer rest ih =>
    exact ends_sequence ['$', '$', '{'] (by simp) (fun _ => rfl) (fun m hm => ih hm) h
  | case4 depth outer rest ih =>
    exact ends_sequence ['%', '%', '{'] (by simp) (fun _ => rfl) (fun m hm => ih hm) h
  | case5 depth outer rest ih =>
    exact ends_sequence ['$', '{'] (by simp) (fun _ => rfl) (fun m hm => ih hm) h
  | case6 depth outer rest ih =>
    exact ends_sequence ['%', '{'] (by simp) (fun _ => rfl) (fun m hm => ih hm) h
  | case7 rest h1 h2 h3 h4 h5 =>
    obtain rfl : 1 = n := by simpa using h
    refine ⟨by simp, by omega, by simp, fun v => ?_⟩
    rw [List.take_succ_cons, List.take_zero, List.singleton_append,
      bodyLength_char (by simp [startsSequence])]
    rfl
  | case8 rest around outer h1 h2 h3 h4 h5 ih =>
    refine ends_char (by simp [startsSequence]) (fun r hr => ?_) (fun m hm => ih hm) h
    rw [bodyLength_char hr]
    rfl
  | case9 rest inside outer h1 h2 h3 h4 h5 ih =>
    refine ends_char (by simp [startsSequence]) (fun r hr => ?_) (fun m hm => ih hm) h
    rw [bodyLength_char hr]
    rfl
  | case10 => simp at h
  | case11 depth outer c rest h1 h2 h3 h4 h5 hq hn hb ih =>
    refine ends_char ?_ (fun r hr => ?_) (fun m hm => ih hm) h
    · obtain rfl := hb.1
      simp [startsSequence]
    · rw [bodyLength_char hr, if_neg hq, if_neg hn, if_pos hb]
  | case12 depth outer c rest h1 h2 h3 h4 h5 hq hn ho hb ih =>
    refine ends_char ?_ (fun r hr => ?_) (fun m hm => ih hm) h
    · obtain rfl := hb.1
      simp [startsSequence]
    · rw [bodyLength_char hr, if_neg hq, if_neg hn, if_neg ho, if_pos hb]
  | case13 depth outer c rest h1 h2 h3 h4 h5 hq hn ho hb ih =>
    refine ends_char ?_ (fun r hr => ?_) (fun m hm => ih hm) h
    · exact startsSequence_eq_false h1 h2 h3 h4 h5
    · rw [bodyLength_char hr, if_neg hq, if_neg hn, if_neg ho, if_neg hb]

end Quoted

/-! ## Block comments -/

namespace Lexeme

theorem commentLength_cons {c : Char} {u : Text} (h : c = '*' → u.head? ≠ some '/') :
    commentLength (c :: u) = (commentLength u).map (· + 1) := by
  rw [commentLength.eq_def]
  split
  · simp_all
  · rename_i heq
    obtain ⟨rfl, rfl⟩ := List.cons.inj heq
    simp at h
  · rename_i heq
    obtain ⟨rfl, rfl⟩ := List.cons.inj heq
    rfl

/-- A comment has at least the two characters of its end, and what follows it does not matter. -/
theorem commentLength_take {u : Text} {n : Nat} (h : commentLength u = some n) :
    2 ≤ n ∧ n ≤ u.length ∧ ∀ v, commentLength (u.take n ++ v) = some n := by
  fun_induction commentLength u generalizing n with
  | case1 => simp at h
  | case2 rest =>
    obtain rfl : 2 = n := by simpa using h
    exact ⟨le_refl 2, by simp, fun v => by simp [commentLength]⟩
  | case3 c rest hne ih =>
    obtain ⟨m, hm, rfl⟩ := Option.map_eq_some_iff.1 h
    obtain ⟨htwo, hle, htake⟩ := ih hm
    refine ⟨by omega, by rw [List.length_cons]; omega, fun v => ?_⟩
    have hhead : c = '*' → (rest.take m ++ v).head? ≠ some '/' := by
      intro hc hbad
      match rest, m with
      | [], _ =>
        simp at hle
        omega
      | a :: rest, m + 1 =>
        obtain rfl : a = '/' := by simpa using hbad
        exact hne rest hc rfl
    rw [List.take_succ_cons, List.cons_append, commentLength_cons hhead, htake v]
    rfl

end Lexeme

/-! ## Heredocs -/

namespace Heredoc

/-- Does the text go on with the end of a line, carriage returns aside, or not at all? -/
def AtLineEnd (r : Text) : Prop :=
  (r.dropWhile (· == '\r')).head? = none ∨ (r.dropWhile (· == '\r')).head? = some '\n'

/-- The lines of a text, first line first. -/
theorem lines_cases (u : Text) :
    ('\n' ∉ u ∧ lines u = if u = [] then [] else [u]) ∨
    ∃ l v, u = l ++ '\n' :: v ∧ '\n' ∉ l ∧ lines u = (l ++ ['\n']) :: lines v := by
  induction u with
  | nil => exact Or.inl ⟨by simp, rfl⟩
  | cons c u ih =>
    by_cases hc : c = '\n'
    · subst hc
      exact Or.inr ⟨[], u, rfl, by simp, rfl⟩
    · have hcons := lines.eq_3 c u hc
      rcases ih with ⟨hu, hlines⟩ | ⟨l, v, rfl, hl, hlines⟩
      · refine Or.inl ⟨by simp [hu, Ne.symm hc], ?_⟩
        rw [hcons, hlines]
        by_cases hnil : u = [] <;> simp [hnil]
      · refine Or.inr ⟨c :: l, v, rfl, by simp [hl, Ne.symm hc], ?_⟩
        rw [hcons, hlines]
        rfl

theorem lines_of_not_mem {u : Text} (hne : u ≠ []) (h : '\n' ∉ u) : lines u = [u] := by
  rcases lines_cases u with ⟨-, hlines⟩ | ⟨l, v, rfl, -, -⟩
  · rw [hlines, if_neg hne]
  · simp at h

theorem lines_append {l v : Text} (h : '\n' ∉ l) :
    lines (l ++ '\n' :: v) = (l ++ ['\n']) :: lines v := by
  rcases lines_cases (l ++ '\n' :: v) with ⟨hmem, -⟩ | ⟨l', v', heq, hl', hlines⟩
  · simp at hmem
  · obtain ⟨rfl, rfl⟩ : l = l' ∧ v = v' := by
      rcases List.append_eq_append_iff.1 heq with ⟨a, rfl, ha⟩ | ⟨a, rfl, ha⟩
      · cases a with
        | nil => simpa using ha
        | cons b a =>
          obtain ⟨rfl, -⟩ := List.cons.inj ha
          simp at hl'
      · cases a with
        | nil => simpa [eq_comm] using ha
        | cons b a =>
          obtain ⟨rfl, -⟩ := List.cons.inj ha
          simp at h
    exact hlines

/-- The characters that end a line. -/
theorem lineContent_append {l r : Text} (h : ∀ c ∈ r, c = '\n' ∨ c = '\r') :
    lineContent (l ++ r) = lineContent l := by
  induction r using List.reverseRecOn with
  | nil => simp
  | append_singleton r c ih =>
    rw [← List.append_assoc]
    have hc : (c == '\n' || c == '\r') = true := by simpa using h c (by simp)
    have hr := ih fun d hd => h d (by simp [hd])
    rw [← hr]
    exact List.rdropWhile_concat_pos _ _ _ hc

theorem exists_lineContent (l : Text) :
    ∃ r, l = lineContent l ++ r ∧ ∀ c ∈ r, c = '\n' ∨ c = '\r' := by
  refine ⟨l.rtakeWhile fun c => c == '\n' || c == '\r', ?_, fun c hc => ?_⟩
  · exact List.rdropWhile_append_rtakeWhile.symm
  · simpa using List.mem_rtakeWhile_imp hc

theorem lineContent_lineContent (l : Text) : lineContent (lineContent l) = lineContent l :=
  List.rdropWhile_idempotent _ _

/-- The body of a heredoc: lines that do not hold just the marker, and the content of one that
does. -/
inductive IsBody (marker : Text) : Text → Prop
  | last {l : Text} (hl : '\n' ∉ l) (hcontent : lineContent l = l) (hm : Text.trim l = marker) :
      IsBody marker l
  | line {l t : Text} (hl : '\n' ∉ l) (hm : Text.trim (lineContent (l ++ ['\n'])) ≠ marker)
      (ht : IsBody marker t) : IsBody marker (l ++ '\n' :: t)

theorem atLineEnd_iff {r : Text} :
    AtLineEnd r ↔
      ∃ e x, r = e ++ x ∧ (∀ c ∈ e, c = '\r') ∧ (x = [] ∨ ∃ v, x = '\n' :: v) := by
  constructor
  · intro h
    refine ⟨r.takeWhile (· == '\r'), r.dropWhile (· == '\r'),
      List.takeWhile_append_dropWhile.symm, fun c hc => by simpa using List.mem_takeWhile_imp hc, ?_⟩
    cases hx : r.dropWhile (· == '\r') with
    | nil => exact Or.inl rfl
    | cons c v =>
      rw [AtLineEnd, hx] at h
      exact Or.inr ⟨v, by simpa using h⟩
  · rintro ⟨e, x, rfl, he, hx⟩
    have hdrop : (e ++ x).dropWhile (· == '\r') = x.dropWhile (· == '\r') :=
      List.dropWhile_append_of_pos fun c hc => by simpa using he c hc
    rw [AtLineEnd, hdrop]
    rcases hx with rfl | ⟨v, rfl⟩ <;> simp

/-- A text that starts with the content of a line, and is cut where the content ends. -/
theorem eq_lineContent {l t r : Text} (heq : t ++ r = l) (hlen : (lineContent l).length = t.length) :
    lineContent l = t ∧ ∀ c ∈ r, c = '\n' ∨ c = '\r' := by
  obtain ⟨e, he, hall⟩ := exists_lineContent l
  obtain ⟨ht, hr⟩ := List.append_inj (heq.trans he) hlen.symm
  exact ⟨ht.symm, hr ▸ hall⟩

theorem isBody_of_bodyLength {marker t r : Text}
    (h : bodyLength marker (t ++ r) = some t.length) : IsBody marker t ∧ AtLineEnd r := by
  -- a line that is passed makes the body shorter
  induction hn : t.length using Nat.strongRecOn generalizing t with
  | _ n ih =>
    rw [bodyLength] at h
    rcases lines_cases (t ++ r) with ⟨hu, hlines⟩ | ⟨l, v, heq, hl, hlines⟩
    · rw [hlines] at h
      by_cases hnil : t ++ r = []
      · simp [hnil, linesLength] at h
      · rw [if_neg hnil, linesLength] at h
        by_cases hm : Text.trim (lineContent (t ++ r)) = marker
        · simp only [hm, if_true, Option.some.injEq] at h
          obtain ⟨ht, hr⟩ := eq_lineContent rfl h
          rw [List.mem_append, not_or] at hu
          refine ⟨.last hu.1 ?_ (by rwa [ht] at hm), atLineEnd_iff.2 ⟨r, [], by simp, ?_, Or.inl rfl⟩⟩
          · rw [← ht, lineContent_lineContent]
          · intro c hc
            exact (hr c hc).resolve_left fun hbad => hu.2 (hbad ▸ hc)
        · simp [hm, linesLength] at h
    · rw [hlines, linesLength] at h
      have hcontent : lineContent (l ++ ['\n']) = lineContent l := lineContent_append (by simp)
      by_cases hm : Text.trim (lineContent (l ++ ['\n'])) = marker
      · simp only [hm, if_true, Option.some.injEq] at h
        rw [hcontent] at h hm
        obtain ⟨e, he, hall⟩ := exists_lineContent l
        have hsplit : t ++ r = lineContent l ++ (e ++ '\n' :: v) := by
          rw [heq, ← List.append_assoc, ← he]
        obtain ⟨rfl, rfl⟩ := List.append_inj hsplit h.symm
        have hmem : ∀ c ∈ e, c ≠ '\n' := by
          intro c hc hbad
          exact hl (by rw [he]; exact List.mem_append_right _ (hbad ▸ hc))
        refine ⟨.last (fun hbad => hl (by rw [he]; exact List.mem_append_left _ hbad))
          (lineContent_lineContent l) hm, atLineEnd_iff.2 ⟨e, '\n' :: v, rfl, ?_, Or.inr ⟨v, rfl⟩⟩⟩
        intro c hc
        exact (hall c hc).resolve_left (hmem c hc)
      · simp only [hm, if_false] at h
        obtain ⟨m, hv, hlen⟩ := Option.map_eq_some_iff.1 h
        rw [List.length_append, List.length_singleton] at hlen
        obtain ⟨t', ht'⟩ : ∃ t', t = l ++ '\n' :: t' := by
          have hpre : l ++ ['\n'] <+: t := by
            refine @List.prefix_of_prefix_length_le _ _ _ (t ++ r) ?_ (List.prefix_append t r) ?_
            · exact ⟨v, by rw [heq]; simp⟩
            · simp
              omega
          obtain ⟨t', ht'⟩ := hpre
          exact ⟨t', by rw [← ht']; simp⟩
        subst ht'
        have hvr : v = t' ++ r := by
          rw [List.append_assoc, List.cons_append] at heq
          exact (List.cons.inj (List.append_cancel_left heq)).2.symm
        have hm' : m = t'.length := by
          rw [List.length_append, List.length_cons] at hlen
          omega
        obtain ⟨hbody, hr⟩ := ih t'.length
          (by rw [← hn, List.length_append, List.length_cons]; omega) (by rw [bodyLength, ← hvr, hv, hm'])
          rfl
        exact ⟨.line hl hm hbody, hr⟩

theorem bodyLength_of_isBody {marker t r : Text} (hne : marker ≠ []) (h : IsBody marker t)
    (hr : AtLineEnd r) : bodyLength marker (t ++ r) = some t.length := by
  induction h with
  | @last l hl hcontent hm =>
    have hlne : l ≠ [] := by
      rintro rfl
      exact hne hm.symm
    obtain ⟨e, x, rfl, he, hx⟩ := atLineEnd_iff.1 hr
    have hnl : '\n' ∉ l ++ e := by
      rw [List.mem_append, not_or]
      exact ⟨hl, fun hbad => absurd (he _ hbad) (by decide)⟩
    rcases hx with rfl | ⟨v, rfl⟩
    · have hc : lineContent (l ++ e) = l := by
        rw [lineContent_append fun c hc => Or.inr (he c hc), hcontent]
      rw [List.append_nil, bodyLength, lines_of_not_mem (by simp [hlne]) hnl]
      simp [linesLength, hc, hm]
    · have hc : lineContent (l ++ e ++ ['\n']) = l := by
        rw [lineContent_append (by simp), lineContent_append fun c hc => Or.inr (he c hc), hcontent]
      rw [← List.append_assoc, bodyLength, lines_append hnl]
      simp only [linesLength, hc, hm, if_true]
  | @line l t hl hm ht ih =>
    rw [bodyLength] at ih
    rw [List.append_assoc, List.cons_append, bodyLength, lines_append hl]
    simp only [linesLength, hm, if_false, ih, Option.map_some]
    simp
    omega

theorem flatten_lines (u : Text) : (lines u).flatten = u := by
  fun_induction lines u with
  | case1 => rfl
  | case2 rest ih => simp [ih]
  | case3 c rest _ hnil ih =>
    rw [hnil, List.flatten_nil] at ih
    simp [← ih]
  | case4 c rest _ line more hmore ih =>
    rw [hmore, List.flatten_cons] at ih
    simp [← ih]

theorem linesLength_le {marker : Text} {ls : List Text} {n : Nat}
    (h : linesLength marker ls = some n) : n ≤ ls.flatten.length := by
  induction ls generalizing n with
  | nil => simp [linesLength] at h
  | cons line more ih =>
    rw [List.flatten_cons, List.length_append]
    rw [linesLength] at h
    by_cases hm : Text.trim (lineContent line) = marker
    · simp only [hm, if_true, Option.some.injEq] at h
      have hle : (lineContent line).length ≤ line.length := (List.rdropWhile_prefix _ line).length_le
      omega
    · simp only [hm, if_false] at h
      obtain ⟨m, hm', rfl⟩ := Option.map_eq_some_iff.1 h
      have := ih hm'
      omega

theorem bodyLength_le {marker u : Text} {n : Nat} (h : bodyLength marker u = some n) :
    n ≤ u.length := by
  have hle := linesLength_le h
  rwa [flatten_lines] at hle

/-! ### The opening line -/

/-- What stands behind the marker of an opening line decides what it is. -/
def openingBehind (skipped : Nat) (marker : Text) : Text → Opening
  | '\n' :: _ => .line marker (skipped + marker.length + 1)
  | '\r' :: '\n' :: _ => .line marker (skipped + marker.length + 2)
  | _ => .broken (skipped + marker.length)

theorem isNamePart_of_isNameStart {c : Char} (h : isNameStart c = true) : isNamePart c = true := by
  simp only [isNameStart, isNamePart, Char.isAlphanum, Bool.or_eq_true] at h ⊢
  rcases h with h | h
  · exact Or.inl (Or.inl (Or.inl h))
  · exact Or.inl (Or.inr h)

/-- A marker: a name, and nothing that would make it longer behind it. -/
theorem openingAfter_marker {skipped : Nat} {c : Char} {m x : Text} (hc : isNameStart c = true)
    (hm : ∀ d ∈ m, isNamePart d = true) (hx : x.takeWhile isNamePart = []) :
    openingAfter skipped (c :: m ++ x) = openingBehind skipped (c :: m) x := by
  have hall : ∀ d ∈ c :: m, isNamePart d = true := by
    intro d hd
    rcases List.mem_cons.1 hd with rfl | hd
    · exact isNamePart_of_isNameStart hc
    · exact hm d hd
  have htake : (c :: m ++ x).takeWhile isNamePart = c :: m := by
    rw [List.takeWhile_append_of_pos hall, hx, List.append_nil]
  have hdrop : (c :: m ++ x).dropWhile isNamePart = x := by
    rw [List.dropWhile_append_of_pos hall]
    cases x with
    | nil => rfl
    | cons d x =>
      have hd : isNamePart d = false := by
        by_contra hne
        simp [hne] at hx
      simp [hd]
  rw [List.cons_append] at htake hdrop ⊢
  simp only [openingAfter, hc, if_true, htake, hdrop]
  rfl

theorem takeWhile_dropWhile_eq_nil {p : Char → Bool} (q : Text) :
    (q.dropWhile p).takeWhile p = [] := by
  induction q with
  | nil => rfl
  | cons c q ih => by_cases hc : p c = true <;> simp [hc, ih]

theorem openingAfter_cases (q : Text) :
    (∀ skipped, openingAfter skipped q = .absent) ∧ (∀ c ∈ q.head?, isNameStart c = false) ∨
    ∃ c m x, q = c :: m ++ x ∧ isNameStart c = true ∧ (∀ d ∈ m, isNamePart d = true) ∧
      x.takeWhile isNamePart = [] := by
  cases q with
  | nil => exact Or.inl ⟨fun _ => rfl, by simp⟩
  | cons c q =>
    by_cases hc : isNameStart c = true
    · refine Or.inr ⟨c, q.takeWhile isNamePart, q.dropWhile isNamePart, ?_, hc,
        fun d hd => List.mem_takeWhile_imp hd, ?_⟩
      · rw [List.cons_append, List.takeWhile_append_dropWhile]
      · exact takeWhile_dropWhile_eq_nil q
    · refine Or.inl ⟨fun skipped => ?_, by simpa using hc⟩
      simp [openingAfter, hc]

theorem openingAfter_take {skipped n : Nat} {q marker : Text}
    (h : openingAfter skipped q = .line marker n) :
    marker ≠ [] ∧ ∃ k, n = skipped + k ∧ k ≤ q.length ∧
      ∀ v, openingAfter skipped (q.take k ++ v) = .line marker n := by
  rcases openingAfter_cases q with ⟨habs, -⟩ | ⟨c, m, x, rfl, hc, hm, hx⟩
  · simp [habs] at h
  · rw [openingAfter_marker hc hm hx] at h
    -- the opening line with anything behind its line end
    have hline : ∀ (d : Char) (e x v : Text), isNamePart d = false →
        openingAfter skipped ((c :: m ++ (d :: e ++ x)).take ((c :: m).length + (d :: e).length) ++ v) =
          openingBehind skipped (c :: m) (d :: e ++ v) := by
      intro d e x v hd
      rw [List.take_length_add_append, List.take_left, List.append_assoc]
      exact openingAfter_marker hc hm (by simp [hd])
    unfold openingBehind at h
    split at h
    · obtain ⟨rfl, rfl⟩ : c :: m = marker ∧ skipped + (c :: m).length + 1 = n := by simpa using h
      refine ⟨by simp, (c :: m).length + 1, by omega, by simp, fun v => ?_⟩
      exact hline '\n' [] _ v (by decide)
    · obtain ⟨rfl, rfl⟩ : c :: m = marker ∧ skipped + (c :: m).length + 2 = n := by simpa using h
      refine ⟨by simp, (c :: m).length + 2, by omega, by simp, fun v => ?_⟩
      exact hline '\r' ['\n'] _ v (by decide)
    · simp at h

theorem opening_less {q : Text} (h : q.head? ≠ some '-') :
    opening ('<' :: q) = openingAfter 1 q := by
  unfold opening
  split
  · simp_all
  · simp_all
  · simp_all

theorem head?_ne_dash {skipped : Nat} {q : Text} (h : openingAfter skipped q ≠ .absent) :
    q.head? ≠ some '-' := by
  cases q with
  | nil => simp
  | cons c q =>
    rintro ⟨⟩
    exact h (by simp [openingAfter, show isNameStart '-' = false from by decide])

/-- The opening line of a heredoc names a marker, and what follows the line does not matter. -/
theorem opening_take {u marker : Text} {n : Nat} (h : opening u = .line marker n) :
    marker ≠ [] ∧ n ≤ u.length ∧ ∀ v, opening (u.take n ++ v) = .line marker n := by
  unfold opening at h
  split at h
  · rename_i rest
    obtain ⟨hm, k, rfl, hk, htake⟩ := openingAfter_take h
    refine ⟨hm, by simp; omega, fun v => ?_⟩
    have hcut : ('<' :: '-' :: rest).take (2 + k) = '<' :: '-' :: rest.take k := by
      rw [Nat.add_comm, List.take_succ_cons, List.take_succ_cons]
    rw [hcut]
    exact htake v
  · rename_i rest _
    obtain ⟨hm, k, rfl, hk, htake⟩ := openingAfter_take h
    refine ⟨hm, by simp; omega, fun v => ?_⟩
    have hcut : ('<' :: rest).take (1 + k) = '<' :: rest.take k := by
      rw [Nat.add_comm, List.take_succ_cons]
    rw [hcut, List.cons_append, opening_less (head?_ne_dash (by rw [htake v]; simp))]
    exact htake v
  · simp at h

end Heredoc

end TagBox
