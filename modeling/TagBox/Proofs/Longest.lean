import TagBox.Proofs.Bytes
import TagBox.Proofs.Patterns
import TagBox.Proofs.Quotes

/-!
# The longest lexeme wins

At each place of a source the longest text that is in the pattern of a shape is read as that shape, and an
opening is extended to its end.  Openings without an end, characters that start no text of a pattern, and
markers without a line end are faults.  Here this is the definition, and what reads a source is shown to do
just that.

* `Shape.Ends` — the end of an opening.
* `Longest`, `Broken` — the longest text of a pattern, and the one exception from it.
* `Prescribed` — the lexeme to be read at the front of a text; `Prescribed.unique` — there is only one.
* `prescribed_read` — it is the one that is read.
* `lexemes_eq_iff_lexed` — so it is all through a source.
-/

namespace TagBox

open Lexeme (isSpace isLineEnd commentLength numberLength)
open Pattern

/-! ## The lexeme to be read -/

/-- The opening `matched` goes on with `tail` up to its end, in front of `after`: a block comment to the
first `*/`, a quoted text to its closing quote, and a heredoc to the first line that holds nothing but its
marker.  Other lexemes do not go on. -/
def Shape.Ends (matched tail after : Text) : Shape → Prop
  | .blockComment => ∃ body, tail = body ++ ['*', '/'] ∧ ¬ ['*', '/'] <:+: body ++ ['*']
  | .quoted => Quoted.Closes 0 tail
  | .heredoc => ∃ minus marker stop, matched = '<' :: '<' :: (minus ++ (marker ++ stop)) ∧
      minus ∈ dash ∧ marker ∈ name ∧ stop ∈ lineEnd ∧ Heredoc.IsBody marker tail ∧
        Heredoc.AtLineEnd after
  | _ => tail = []

/-- The fault of an opening without an end. -/
def Shape.fault? : Shape → Option Fault
  | .blockComment => some .unterminatedComment
  | .quoted => some .unterminatedString
  | .heredoc => some .unterminatedHeredoc
  | _ => none

/-- Of the texts at the front of `text` that are in some pattern `matched` is the longest, and it is in
the pattern of `shape` alone. -/
structure Longest (text matched : Text) (shape : Shape) : Prop where
  front : matched <+: text
  mem : matched ∈ shape.pattern
  longest : ∀ other t, t <+: text → t ∈ Shape.pattern other → t.length ≤ matched.length
  only : ∀ other, matched ∈ Shape.pattern other → other = shape

/-- The text starts with `head`, which is `<<` or `<<-` and a name, and no line end follows. -/
def Broken (text head : Text) : Prop :=
  ∃ minus marker behind, text = '<' :: '<' :: (minus ++ (marker ++ behind)) ∧
    head = '<' :: '<' :: (minus ++ marker) ∧ minus ∈ dash ∧ marker ∈ name ∧
    (∀ t, t <+: marker ++ behind → t ∈ name → t.length ≤ marker.length) ∧
    ∀ stop, stop <+: behind → stop ∉ lineEnd

/-- The lexeme is the one to be read at the front of the text. -/
inductive Prescribed (text : Text) : Lexeme → Prop
  | ended {shape : Shape} {matched tail after : Text} (whole : ∀ head, ¬ Broken text head)
      (longest : Longest text matched shape) (cut : text = matched ++ (tail ++ after))
      (ends : shape.Ends matched tail after) : Prescribed text ⟨.ok shape, matched ++ tail⟩
  | unended {shape : Shape} {matched : Text} {fault : Fault} (whole : ∀ head, ¬ Broken text head)
      (longest : Longest text matched shape) (fault_eq : shape.fault? = some fault)
      (never : ∀ tail after, text = matched ++ (tail ++ after) → ¬ shape.Ends matched tail after) :
      Prescribed text ⟨.error fault, matched⟩
  | unmatched {c : Char} {rest : Text} (cut : text = c :: rest)
      (none : ∀ shape t, t <+: text → t ∉ Shape.pattern shape) :
      Prescribed text ⟨.error .unrecognized, [c]⟩
  | broken {head : Text} (h : Broken text head) : Prescribed text ⟨.error .unrecognized, head⟩

/-- The text is cut into lexemes, each of them the one to be read at its place. -/
inductive Lexed : Text → List Lexeme → Prop
  | nil : Lexed [] []
  | cons {lexeme : Lexeme} {rest : Text} {later : List Lexeme}
      (first : Prescribed (lexeme.text ++ rest) lexeme) (behind : Lexed rest later) :
      Lexed (lexeme.text ++ rest) (lexeme :: later)

/-! ## Openings and their ends -/

section Ends

open Heredoc (bodyLength opening_of_line bodyLength_of_isBody isBody_of_bodyLength)

variable {shape : Shape} {matched tail tail' after after' u : Text} {n : Nat}

/-- The end of an opening can be found by a function of the text behind it. -/
def Shape.EndsBy (shape : Shape) (matched : Text) (extent : Text → Option Nat) : Prop :=
  ∀ tail after, shape.Ends matched tail after ↔ extent (tail ++ after) = some tail.length

theorem endsBy_plain (h : shape.fault? = none) : shape.EndsBy matched fun _ => some 0 := by
  intro tail after
  have hends : shape.Ends matched tail after ↔ tail = [] := by
    cases shape <;> first | exact Iff.rfl | cases h
  rw [hends, Option.some.injEq, @eq_comm Nat 0, List.length_eq_zero_iff]

theorem commentLength_of_notInfix {body : Text} (h : ¬ ['*', '/'] <:+: body ++ ['*']) (after : Text) :
    commentLength (body ++ ['*', '/'] ++ after) = some (body.length + 2) := by
  induction body with
  | nil => rfl
  | cons c body ih =>
    have hhead : c = '*' → (body ++ ['*', '/'] ++ after).head? ≠ some '/' := by
      rintro rfl hslash
      cases body with
      | nil => simp at hslash
      | cons d body =>
        obtain rfl : d = '/' := by simpa using hslash
        exact h ⟨[], body ++ ['*'], by simp⟩
    have hbody : ¬ ['*', '/'] <:+: body ++ ['*'] := by
      intro hin
      exact h (hin.trans ⟨[c], [], by simp⟩)
    rw [List.cons_append, List.cons_append, Lexeme.commentLength_cons hhead, ih hbody]
    simp

theorem exists_body_of_commentLength (h : commentLength u = some n) :
    ∃ body after, u = body ++ ['*', '/'] ++ after ∧ n = body.length + 2 ∧
      ¬ ['*', '/'] <:+: body ++ ['*'] := by
  fun_induction commentLength u generalizing n with
  | case1 => simp at h
  | case2 rest =>
    obtain rfl : 2 = n := by simpa using h
    refine ⟨[], rest, rfl, rfl, fun hin => ?_⟩
    exact absurd hin.length_le (by decide)
  | case3 c rest hne ih =>
    obtain ⟨m, hm, rfl⟩ := Option.map_eq_some_iff.1 h
    obtain ⟨body, after, rfl, rfl, hnone⟩ := ih hm
    refine ⟨c :: body, after, rfl, rfl, fun hin => ?_⟩
    rcases List.infix_cons_iff.1 hin with ⟨r, hfront⟩ | hin
    · obtain ⟨rfl, hslash⟩ := List.cons.inj hfront
      cases body with
      | nil => simp at hslash
      | cons d body =>
        obtain rfl : '/' = d := (List.cons.inj hslash).1
        exact hne _ rfl rfl
    · exact hnone hin

theorem endsBy_comment : Shape.blockComment.EndsBy matched commentLength := by
  intro tail after
  constructor
  · rintro ⟨body, rfl, hnone⟩
    rw [commentLength_of_notInfix hnone, List.length_append]
    rfl
  · intro h
    obtain ⟨body, rest, heq, hlen, hnone⟩ := exists_body_of_commentLength h
    obtain ⟨rfl, -⟩ := List.append_inj heq (by rw [List.length_append]; exact hlen)
    exact ⟨body, rfl, hnone⟩

theorem endsBy_quoted : Shape.quoted.EndsBy matched Quoted.length? :=
  fun _ _ => Quoted.length?_append_iff.symm

theorem endsBy_heredoc {minus marker stop : Text} (hminus : minus ∈ dash) (hmarker : marker ∈ name)
    (hstop : stop ∈ lineEnd) :
    Shape.heredoc.EndsBy ('<' :: '<' :: (minus ++ (marker ++ stop))) (bodyLength marker) := by
  intro tail after
  constructor
  · rintro ⟨minus', marker', stop', heq, hminus', hmarker', hstop', hbody, hafter⟩
    -- the marker is the only one that can be read in the opening line
    have hsame := opening_of_line hminus' hmarker' hstop' []
    rw [← (List.cons.inj heq).2, opening_of_line hminus hmarker hstop] at hsame
    obtain rfl : marker = marker' := (Heredoc.Opening.line.inj hsame).1
    obtain ⟨c, m, rfl, -⟩ := mem_name.1 hmarker
    exact bodyLength_of_isBody (by simp) hbody hafter
  · intro h
    obtain ⟨hbody, hafter⟩ := isBody_of_bodyLength h
    exact ⟨minus, marker, stop, rfl, hminus, hmarker, hstop, hbody, hafter⟩

theorem exists_endsBy (h : matched ∈ shape.pattern) : ∃ extent, shape.EndsBy matched extent := by
  cases shape with
  | blockComment => exact ⟨_, endsBy_comment⟩
  | quoted => exact ⟨_, endsBy_quoted⟩
  | heredoc =>
    cases matched with
    | nil => exact absurd h (nil_notMem_pattern _)
    | cons c t =>
      obtain ⟨rfl, minus, marker, stop, rfl, hminus, hmarker, hstop⟩ := cons_mem_heredoc.1 h
      exact ⟨_, endsBy_heredoc hminus hmarker hstop⟩
  | _ => exact ⟨_, endsBy_plain rfl⟩

/-- An opening has at most one end. -/
theorem Shape.Ends.unique (hmem : matched ∈ shape.pattern) (h : shape.Ends matched tail after)
    (h' : shape.Ends matched tail' after') (heq : tail ++ after = tail' ++ after') : tail = tail' := by
  obtain ⟨extent, hextent⟩ := exists_endsBy hmem
  rw [hextent, heq] at h
  rw [hextent, h, Option.some.injEq] at h'
  exact (List.append_inj heq h').1

end Ends

/-! ## At most one lexeme is to be read -/

section Unique

open Heredoc (opening opening_of_marker openingBehind_cases)

variable {text matched matched' head head' rest : Text} {shape shape' : Shape} {l l' : Lexeme}

theorem Longest.unique (h : Longest text matched shape) (h' : Longest text matched' shape') :
    matched = matched' ∧ shape = shape' := by
  have hlen : matched.length = matched'.length :=
    Nat.le_antisymm (h'.longest _ _ h.front h.mem) (h.longest _ _ h'.front h'.mem)
  obtain rfl : matched = matched' := by
    rw [List.prefix_iff_eq_take.1 h.front, List.prefix_iff_eq_take.1 h'.front, hlen]
  exact ⟨rfl, h'.only _ h.mem⟩

/-- A broken opening is read as one. -/
theorem Broken.opening_eq (h : Broken text head) :
    ∃ rest n, text = '<' :: rest ∧ opening rest = .broken n ∧ head = '<' :: rest.take n := by
  obtain ⟨minus, marker, behind, rfl, rfl, hminus, hmarker, hlongest, hnone⟩ := h
  have hbehind : behind.takeWhile isNamePart = [] := by
    cases behind with
    | nil => rfl
    | cons d behind =>
      -- another character of the name would make it longer
      have hd : ¬ isNamePart d = true := by
        intro hd
        obtain ⟨c, m, rfl, hc, hm⟩ := mem_name.1 hmarker
        have hlonger : c :: (m ++ [d]) ∈ name :=
          mem_name.2 ⟨c, m ++ [d], rfl, hc, List.forall_mem_append.2 ⟨hm, by simpa using hd⟩⟩
        have hle := hlongest _ ⟨behind, by simp⟩ hlonger
        simp only [List.length_cons, List.length_append, List.length_nil] at hle
        omega
      simp [hd]
  have hopening := opening_of_marker hminus hmarker hbehind
  rcases openingBehind_cases behind with ⟨stop, rest, rfl, hstop⟩ | ⟨-, hbroken⟩
  · exact absurd hstop (hnone stop ⟨rest, rfl⟩)
  · rw [hbroken] at hopening
    refine ⟨_, _, rfl, hopening, ?_⟩
    have hlen : 1 + minus.length + marker.length = ('<' :: (minus ++ marker)).length := by
      rw [List.length_cons, List.length_append]
      omega
    have hcut : '<' :: (minus ++ (marker ++ behind)) = '<' :: (minus ++ marker) ++ behind := by simp
    rw [hlen, hcut, List.take_left]

theorem Broken.unique (h : Broken text head) (h' : Broken text head') : head = head' := by
  obtain ⟨rest, n, rfl, hopening, rfl⟩ := h.opening_eq
  obtain ⟨rest', n', heq, hopening', rfl⟩ := h'.opening_eq
  obtain rfl : rest = rest' := (List.cons.inj heq).2
  obtain rfl : n = n' := by simpa [hopening] using hopening'
  rfl

theorem Prescribed.unique (h : Prescribed text l) (h' : Prescribed text l') : l = l' := by
  -- a broken opening starts with an operator
  have hless : ∀ {head}, Broken text head → ['<'] <+: text := by
    intro head hbroken
    obtain ⟨rest, -, rfl, -⟩ := hbroken.opening_eq
    exact ⟨rest, rfl⟩
  have hoperator : ['<'] ∈ Shape.operator.pattern := cons_mem_operator.2 (Or.inl ⟨by simp, rfl⟩)
  cases h with
  | ended hwhole hlongest hcut hends =>
    cases h' with
    | ended _ hlongest' hcut' hends' =>
      obtain ⟨rfl, rfl⟩ := hlongest.unique hlongest'
      have heq := List.append_cancel_left (hcut.symm.trans hcut')
      rw [hends.unique hlongest.mem hends' heq]
    | unended _ hlongest' _ hnever =>
      obtain ⟨rfl, rfl⟩ := hlongest.unique hlongest'
      exact absurd hends (hnever _ _ hcut)
    | unmatched _ hnone => exact absurd hlongest.mem (hnone _ _ hlongest.front)
    | broken hbroken => exact absurd hbroken (hwhole _)
  | unended hwhole hlongest hfault hnever =>
    cases h' with
    | ended _ hlongest' hcut hends =>
      obtain ⟨rfl, rfl⟩ := hlongest.unique hlongest'
      exact absurd hends (hnever _ _ hcut)
    | unended _ hlongest' hfault' _ =>
      obtain ⟨rfl, rfl⟩ := hlongest.unique hlongest'
      rw [hfault, Option.some.injEq] at hfault'
      rw [hfault']
    | unmatched _ hnone => exact absurd hlongest.mem (hnone _ _ hlongest.front)
    | broken hbroken => exact absurd hbroken (hwhole _)
  | unmatched hcut hnone =>
    cases h' with
    | ended _ hlongest _ _ => exact absurd hlongest.mem (hnone _ _ hlongest.front)
    | unended _ hlongest _ _ => exact absurd hlongest.mem (hnone _ _ hlongest.front)
    | unmatched hcut' _ => rw [(List.cons.inj (hcut.symm.trans hcut')).1]
    | broken hbroken => exact absurd hoperator (hnone _ _ (hless hbroken))
  | broken hbroken =>
    cases h' with
    | ended hwhole _ _ _ => exact absurd hbroken (hwhole _)
    | unended hwhole _ _ _ => exact absurd hbroken (hwhole _)
    | unmatched _ hnone => exact absurd hoperator (hnone _ _ (hless hbroken))
    | broken hbroken' => rw [hbroken.unique hbroken']

end Unique

/-! ## The lexeme that is read -/

section Exists

open Heredoc (opening opening_of_line opening_of_marker opening_cases openingBehind_cases)

variable {first : Char} {rest text matched u : Text} {shape : Shape} {n : Nat} {fault : Fault}
  {extent : Text → Option Nat}

theorem not_broken (h : first ≠ '<') (head : Text) : ¬ Broken (first :: rest) head := by
  intro hbroken
  obtain ⟨_, _, heq, -⟩ := hbroken.opening_eq
  exact h (List.cons.inj heq).1

theorem not_broken_of_opening (h : ∀ n, opening rest ≠ .broken n) (head : Text) :
    ¬ Broken ('<' :: rest) head := by
  intro hbroken
  obtain ⟨_, n, heq, hopening, -⟩ := hbroken.opening_eq
  rw [← (List.cons.inj heq).2] at hopening
  exact h n hopening

/-- Longest texts by what follows their first character. -/
theorem longest_cons (hn : n ≤ rest.length) (hmem : shape.Continues first (rest.take n))
    (hall : ∀ (other : Shape) (t : Text), t <+: rest → other.Continues first t →
      t.length ≤ n ∧ (t.length = n → other = shape)) :
    Longest (first :: rest) (first :: rest.take n) shape where
  front := ⟨rest.drop n, by rw [List.cons_append, List.take_append_drop]⟩
  mem := cons_mem_pattern.2 hmem
  longest := by
    rintro other (_ | ⟨c, t⟩) ht hin
    · exact Nat.zero_le _
    · obtain ⟨rfl, htail⟩ := List.cons_prefix_cons.1 ht
      have hle := (hall other t htail (cons_mem_pattern.1 hin)).1
      rw [List.length_cons, List.length_cons, List.length_take_of_le hn]
      omega
  only := by
    intro other hin
    refine (hall other _ ?_ (cons_mem_pattern.1 hin)).2 (List.length_take_of_le hn)
    exact ⟨rest.drop n, List.take_append_drop n rest⟩

theorem prescribed_ended (hwhole : ∀ head, ¬ Broken (matched ++ u) head)
    (h : Longest (matched ++ u) matched shape) (hby : shape.EndsBy matched extent)
    (hn : extent u = some n) (hle : n ≤ u.length) :
    Prescribed (matched ++ u) ⟨.ok shape, matched ++ u.take n⟩ := by
  refine .ended hwhole h (congrArg (matched ++ ·) (List.take_append_drop n u).symm) ((hby _ _).2 ?_)
  rw [List.take_append_drop, hn, List.length_take_of_le hle]

theorem prescribed_unended (hwhole : ∀ head, ¬ Broken (matched ++ u) head)
    (h : Longest (matched ++ u) matched shape) (hby : shape.EndsBy matched extent)
    (hfault : shape.fault? = some fault) (hnone : extent u = none) :
    Prescribed (matched ++ u) ⟨.error fault, matched⟩ := by
  refine .unended hwhole h hfault fun tail after hcut hends => ?_
  rw [hby, ← List.append_cancel_left hcut, hnone] at hends
  cases hends

/-- A lexeme that is not extended. -/
theorem prescribed_plain (hwhole : ∀ head, ¬ Broken (first :: rest) head) (hplain : shape.fault? = none)
    (hn : n ≤ rest.length) (hmem : shape.Continues first (rest.take n))
    (hall : ∀ (other : Shape) (t : Text), t <+: rest → other.Continues first t →
      t.length ≤ n ∧ (t.length = n → other = shape)) :
    Prescribed (first :: rest) ⟨.ok shape, first :: rest.take n⟩ := by
  have hcut : first :: rest = first :: rest.take n ++ rest.drop n := by
    rw [List.cons_append, List.take_append_drop]
  have hlongest := longest_cons hn hmem hall
  rw [hcut] at hlongest hwhole
  have hended := prescribed_ended hwhole hlongest (endsBy_plain hplain) rfl (Nat.zero_le _)
  rwa [List.take_zero, List.append_nil, ← hcut] at hended

theorem prescribed_unmatched
    (h : ∀ (other : Shape) (t : Text), t <+: rest → ¬ other.Continues first t) :
    Prescribed (first :: rest) ⟨.error .unrecognized, [first]⟩ := by
  refine .unmatched rfl fun other t ht hin => ?_
  cases t with
  | nil => exact nil_notMem_pattern other hin
  | cons c t =>
    obtain ⟨rfl, htail⟩ := List.cons_prefix_cons.1 ht
    exact h other t htail (cons_mem_pattern.1 hin)

/-! ### Characters that start texts of several patterns -/

theorem continues_slash {other : Shape} {t : Text} (h : other.Continues '/' t) :
    (other = .lineComment ∧ t.head? = some '/' ∧ ∀ d ∈ t, isLineEnd d = false) ∨
      (other = .blockComment ∧ t = ['*']) ∨ (other = .operator ∧ t = []) := by
  cases other <;> simp_all [Shape.Continues, isSpace, isNameStart]

theorem continues_less {other : Shape} {t : Text} (h : other.Continues '<' t) :
    other = .heredoc ∨ other = .operator ∧ (t = [] ∨ t = ['=']) := by
  cases other <;> simp_all [Shape.Continues, isSpace, isNameStart]

theorem continues_equals {other : Shape} {t : Text} (h : other.Continues '=' t) :
    (other = .equals ∧ t = []) ∨ (other = .arrow ∧ t = ['>']) ∨ (other = .operator ∧ t = ['=']) := by
  cases other <;> simp_all [Shape.Continues, isSpace, isNameStart]

theorem continues_dot {other : Shape} {t : Text} (h : other.Continues '.' t) :
    (other = .dot ∧ t = []) ∨ (other = .ellipsis ∧ t = ['.', '.']) := by
  cases other <;> simp_all [Shape.Continues, isSpace, isNameStart]

theorem not_prefix_of_head? {c : Char} {t : Text} (h : rest.head? ≠ some c) : ¬ c :: t <+: rest := by
  rintro ⟨z, rfl⟩
  exact h rfl

theorem prescribed_lineComment (body : Text) :
    Prescribed ('/' :: '/' :: body) ⟨.ok .lineComment, '/' :: ('/' :: body).take
      (('/' :: body).takeWhile (!isLineEnd ·)).length⟩ := by
  have htake : ('/' :: body).takeWhile (!isLineEnd ·) = '/' :: body.takeWhile (!isLineEnd ·) :=
    List.takeWhile_cons_of_pos (by decide)
  refine prescribed_plain (not_broken (by decide)) rfl (Lexeme.takeWhile_length_le _ _)
    ⟨Or.inr ⟨rfl, by rw [htake]; rfl⟩, fun d hd => ?_⟩ ?_
  · simpa using mem_take_takeWhile hd
  · intro other t ht hother
    rcases continues_slash hother with ⟨rfl, -, hall⟩ | ⟨rfl, rfl⟩ | ⟨rfl, rfl⟩
    · exact ⟨length_le_takeWhile ht (by simpa using hall), fun _ => rfl⟩
    · exact absurd ht (not_prefix_of_head? (by simp))
    · refine ⟨Nat.zero_le _, fun hzero => ?_⟩
      rw [htake] at hzero
      cases hzero

theorem prescribed_blockComment (body : Text) :
    Prescribed ('/' :: '*' :: body) ⟨(Lexeme.measureSlash ('*' :: body)).1,
      '/' :: ('*' :: body).take (Lexeme.measureSlash ('*' :: body)).2⟩ := by
  have hlongest : Longest ('/' :: '*' :: body) ['/', '*'] .blockComment := by
    refine longest_cons (n := 1) (by simp) ⟨rfl, rfl⟩ fun other t ht hother => ?_
    rcases continues_slash hother with ⟨rfl, hhead, -⟩ | ⟨rfl, rfl⟩ | ⟨rfl, rfl⟩
    · obtain ⟨t, rfl⟩ := List.head?_eq_some_iff.1 hhead
      exact absurd ht (not_prefix_of_head? (by simp))
    · exact ⟨Nat.le_refl 1, fun _ => rfl⟩
    · exact ⟨Nat.zero_le 1, fun hzero => by cases hzero⟩
  have hwhole : ∀ head, ¬ Broken (['/', '*'] ++ body) head := not_broken (by decide)
  cases hlength : commentLength body with
  | some length =>
    have hmeasure : Lexeme.measureSlash ('*' :: body) = (.ok .blockComment, length + 1) := by
      simp only [Lexeme.measureSlash, hlength]
    rw [hmeasure]
    exact prescribed_ended hwhole hlongest endsBy_comment hlength (Lexeme.commentLength_take hlength).2.1
  | none =>
    have hmeasure : Lexeme.measureSlash ('*' :: body) = (.error .unterminatedComment, 1) := by
      simp only [Lexeme.measureSlash, hlength]
    rw [hmeasure]
    exact prescribed_unended hwhole hlongest endsBy_comment rfl hlength

theorem prescribed_slash (rest : Text) :
    Prescribed ('/' :: rest)
      ⟨(Lexeme.measureSlash rest).1, '/' :: rest.take (Lexeme.measureSlash rest).2⟩ := by
  by_cases hslash : rest.head? = some '/'
  · obtain ⟨body, rfl⟩ := List.head?_eq_some_iff.1 hslash
    exact prescribed_lineComment body
  by_cases hstar : rest.head? = some '*'
  · obtain ⟨body, rfl⟩ := List.head?_eq_some_iff.1 hstar
    exact prescribed_blockComment body
  · rw [Lexeme.measureSlash_operator hslash hstar]
    refine prescribed_plain (not_broken (by decide)) rfl (Nat.zero_le _) (Or.inl ⟨by simp, rfl⟩) ?_
    intro other t ht hother
    rcases continues_slash hother with ⟨rfl, hhead, -⟩ | ⟨rfl, rfl⟩ | ⟨rfl, rfl⟩
    · obtain ⟨t, rfl⟩ := List.head?_eq_some_iff.1 hhead
      exact absurd ht (not_prefix_of_head? hslash)
    · exact absurd ht (not_prefix_of_head? hstar)
    · exact ⟨Nat.le_refl 0, fun _ => rfl⟩

theorem longest_heredoc {line : Text} (h : Shape.heredoc.Continues '<' line) (z : Text) :
    Longest ('<' :: (line ++ z)) ('<' :: line) .heredoc := by
  have hlongest : Longest ('<' :: (line ++ z)) ('<' :: (line ++ z).take line.length) .heredoc := by
    refine longest_cons (by simp) (by rwa [List.take_left]) fun other t ht hother => ?_
    obtain ⟨-, minus, marker, stop, rfl, hminus, hmarker, hstop⟩ := h
    rcases continues_less hother with rfl | ⟨rfl, rfl | rfl⟩
    · -- both are read as the one opening line
      obtain ⟨z', heq⟩ := ht
      obtain ⟨-, minus', marker', stop', rfl, hminus', hmarker', hstop'⟩ := hother
      have hline := opening_of_line hminus' hmarker' hstop' z'
      rw [heq, opening_of_line hminus hmarker hstop] at hline
      exact ⟨(Heredoc.Opening.line.inj hline).2.ge, fun _ => rfl⟩
    · exact ⟨Nat.zero_le _, fun hzero => by cases hzero⟩
    · exact absurd ht (not_prefix_of_head? (by simp))
  rwa [List.take_left] at hlongest

theorem prescribed_heredoc {minus marker stop : Text} (hminus : minus ∈ dash) (hmarker : marker ∈ name)
    (hstop : stop ∈ lineEnd) (z : Text) :
    let line := '<' :: (minus ++ (marker ++ stop))
    Prescribed ('<' :: (line ++ z)) ⟨(Lexeme.measureLess (line ++ z)).1,
      '<' :: (line ++ z).take (Lexeme.measureLess (line ++ z)).2⟩ := by
  intro line
  have hlongest : Longest ('<' :: line ++ z) ('<' :: line) .heredoc :=
    longest_heredoc ⟨rfl, minus, marker, stop, rfl, hminus, hmarker, hstop⟩ z
  have hopening : opening (line ++ z) = .line marker line.length :=
    opening_of_line hminus hmarker hstop z
  have hwhole : ∀ head, ¬ Broken ('<' :: line ++ z) head :=
    not_broken_of_opening fun n hbroken => by simp [hopening] at hbroken
  have hby := endsBy_heredoc hminus hmarker hstop
  cases hlength : Heredoc.bodyLength marker z with
  | some length =>
    have hmeasure : Lexeme.measureLess (line ++ z) = (.ok .heredoc, line.length + length) := by
      simp only [Lexeme.measureLess, hopening, List.drop_left, hlength]
    rw [hmeasure, List.take_length_add_append]
    exact prescribed_ended hwhole hlongest hby hlength (Heredoc.bodyLength_le hlength)
  | none =>
    have hmeasure : Lexeme.measureLess (line ++ z) = (.error .unterminatedHeredoc, line.length) := by
      simp only [Lexeme.measureLess, hopening, List.drop_left, hlength]
    rw [hmeasure, List.take_left]
    exact prescribed_unended hwhole hlongest hby rfl hlength

theorem broken_of_marker {minus marker behind : Text} (hminus : minus ∈ dash) (hmarker : marker ∈ name)
    (hbehind : behind.takeWhile isNamePart = []) (hnone : ∀ stop, stop <+: behind → stop ∉ lineEnd) :
    Broken ('<' :: '<' :: (minus ++ (marker ++ behind))) ('<' :: '<' :: (minus ++ marker)) := by
  refine ⟨minus, marker, behind, rfl, rfl, hminus, hmarker, fun t ht hname => ?_, hnone⟩
  have hle := length_le_takeWhile ht (isNamePart_of_mem_name hname)
  rwa [takeWhile_append_length_eq_iff.2 ⟨isNamePart_of_mem_name hmarker, hbehind⟩] at hle

theorem prescribed_lessThan (h : opening rest = .absent) :
    Prescribed ('<' :: rest)
      ⟨.ok .operator, '<' :: rest.take (if rest.head? = some '=' then 1 else 0)⟩ := by
  have hwhole := @not_broken_of_opening rest fun n hbroken => by simp [h] at hbroken
  have hline : ∀ t, t <+: rest → ¬ Shape.heredoc.Continues '<' t := by
    rintro _ ⟨z, rfl⟩ ⟨-, minus, marker, stop, rfl, hminus, hmarker, hstop⟩
    rw [opening_of_line hminus hmarker hstop] at h
    cases h
  by_cases hsign : rest.head? = some '='
  · obtain ⟨rest, rfl⟩ := List.head?_eq_some_iff.1 hsign
    rw [if_pos hsign]
    refine prescribed_plain hwhole rfl (by simp) (Or.inr (Or.inl ⟨by simp, rfl⟩)) ?_
    intro other t ht hother
    rcases continues_less hother with rfl | ⟨rfl, rfl | rfl⟩
    · exact absurd hother (hline t ht)
    · exact ⟨Nat.zero_le 1, fun _ => rfl⟩
    · exact ⟨Nat.le_refl 1, fun _ => rfl⟩
  · rw [if_neg hsign]
    refine prescribed_plain hwhole rfl (Nat.zero_le _) (Or.inl ⟨by simp, rfl⟩) ?_
    intro other t ht hother
    rcases continues_less hother with rfl | ⟨rfl, rfl | rfl⟩
    · exact absurd hother (hline t ht)
    · exact ⟨Nat.le_refl 0, fun _ => rfl⟩
    · exact absurd ht (not_prefix_of_head? hsign)

theorem prescribed_less (rest : Text) :
    Prescribed ('<' :: rest)
      ⟨(Lexeme.measureLess rest).1, '<' :: rest.take (Lexeme.measureLess rest).2⟩ := by
  rcases opening_cases rest with habsent | ⟨minus, marker, behind, rfl, hminus, hmarker, hbehind⟩
  · have hmeasure : Lexeme.measureLess rest =
        (.ok .operator, if rest.head? = some '=' then 1 else 0) := by
      simp only [Lexeme.measureLess, habsent]
    rw [hmeasure]
    exact prescribed_lessThan habsent
  · rcases openingBehind_cases behind with ⟨stop, z, rfl, hstop⟩ | ⟨hnone, -⟩
    · have hcut : '<' :: (minus ++ (marker ++ (stop ++ z))) =
          '<' :: (minus ++ (marker ++ stop)) ++ z := by simp
      rw [hcut]
      exact prescribed_heredoc hminus hmarker hstop z
    · obtain ⟨_, n, heq, hopening, htake⟩ := (broken_of_marker hminus hmarker hbehind hnone).opening_eq
      obtain rfl := (List.cons.inj heq).2
      have hmeasure : Lexeme.measureLess ('<' :: (minus ++ (marker ++ behind))) =
          (.error .unrecognized, n) := by
        simp only [Lexeme.measureLess, hopening]
      rw [hmeasure, ← htake]
      exact .broken (broken_of_marker hminus hmarker hbehind hnone)

theorem prescribed_equals (rest : Text) : Prescribed ('=' :: rest) (Lexeme.read '=' rest) := by
  have hwhole := @not_broken '=' rest (by decide)
  by_cases harrow : rest.head? = some '>'
  · obtain ⟨rest, rfl⟩ := List.head?_eq_some_iff.1 harrow
    refine prescribed_plain (n := 1) hwhole rfl (by simp) ⟨rfl, rfl⟩ fun other t ht hother => ?_
    rcases continues_equals hother with ⟨rfl, rfl⟩ | ⟨rfl, rfl⟩ | ⟨rfl, rfl⟩
    · exact ⟨Nat.zero_le 1, fun hzero => by cases hzero⟩
    · exact ⟨Nat.le_refl 1, fun _ => rfl⟩
    · exact absurd ht (not_prefix_of_head? (by simp))
  by_cases hsign : rest.head? = some '='
  · obtain ⟨rest, rfl⟩ := List.head?_eq_some_iff.1 hsign
    refine prescribed_plain (n := 1) hwhole rfl (by simp) (Or.inr (Or.inl ⟨by simp, rfl⟩)) ?_
    intro other t ht hother
    rcases continues_equals hother with ⟨rfl, rfl⟩ | ⟨rfl, rfl⟩ | ⟨rfl, rfl⟩
    · exact ⟨Nat.zero_le 1, fun hzero => by cases hzero⟩
    · exact absurd ht (not_prefix_of_head? (by simp))
    · exact ⟨Nat.le_refl 1, fun _ => rfl⟩
  · have hread : Lexeme.read '=' rest = ⟨.ok .equals, '=' :: rest.take 0⟩ := by
      simp [Lexeme.read, Lexeme.measure, Lexeme.oneOrTwo, harrow, hsign]
    rw [hread]
    refine prescribed_plain hwhole rfl (Nat.zero_le _) ⟨rfl, rfl⟩ fun other t ht hother => ?_
    rcases continues_equals hother with ⟨rfl, rfl⟩ | ⟨rfl, rfl⟩ | ⟨rfl, rfl⟩
    · exact ⟨Nat.le_refl 0, fun _ => rfl⟩
    · exact absurd ht (not_prefix_of_head? harrow)
    · exact absurd ht (not_prefix_of_head? hsign)

theorem prescribed_dot (rest : Text) : Prescribed ('.' :: rest) (Lexeme.read '.' rest) := by
  have hwhole := @not_broken '.' rest (by decide)
  by_cases hdots : ['.', '.'] <+: rest
  · obtain ⟨rest, rfl⟩ := hdots
    refine prescribed_plain (n := 2) hwhole rfl (by simp) ⟨rfl, rfl⟩ fun other t ht hother => ?_
    rcases continues_dot hother with ⟨rfl, rfl⟩ | ⟨rfl, rfl⟩
    · exact ⟨Nat.zero_le 2, fun hzero => by cases hzero⟩
    · exact ⟨Nat.le_refl 2, fun _ => rfl⟩
  · have htake : rest.take 2 ≠ ['.', '.'] := fun htake => hdots ⟨rest.drop 2, by
      rw [← htake, List.take_append_drop]⟩
    have hread : Lexeme.read '.' rest = ⟨.ok .dot, '.' :: rest.take 0⟩ := by
      simp [Lexeme.read, Lexeme.measure, htake]
    rw [hread]
    refine prescribed_plain hwhole rfl (Nat.zero_le _) ⟨rfl, rfl⟩ fun other t ht hother => ?_
    rcases continues_dot hother with ⟨rfl, rfl⟩ | ⟨rfl, rfl⟩
    · exact ⟨Nat.le_refl 0, fun _ => rfl⟩
    · exact absurd ht hdots

/-! ### Characters that start texts of one pattern -/

/-- Texts of no other pattern start with the character. -/
def Sole (c : Char) (shape : Shape) : Prop :=
  ∀ (other : Shape) (t : Text), other.Continues c t → other = shape

theorem sole_of_initials (hdigit : first.isDigit = false) (hname : isNameStart first = false)
    (honly : ∀ other : Shape, first ∈ other.initials → other = shape) : Sole first shape :=
  fun _ _ h => h.eq_of_initials hdigit hname honly

theorem prescribed_quoted (rest : Text) : Prescribed ('"' :: rest) (Lexeme.read '"' rest) := by
  have hsole : Sole '"' .quoted := sole_of_initials rfl rfl fun other => by cases other <;> decide
  have hlongest : Longest (['"'] ++ rest) ['"'] .quoted := by
    refine longest_cons (n := 0) (Nat.zero_le _) ⟨rfl, rfl⟩ fun other t ht hother => ?_
    obtain rfl := hsole other t hother
    obtain ⟨-, rfl⟩ := hother
    exact ⟨Nat.le_refl 0, fun _ => rfl⟩
  have hwhole : ∀ head, ¬ Broken (['"'] ++ rest) head := not_broken (by decide)
  cases hlength : Quoted.length? rest with
  | some length =>
    have hread : Lexeme.read '"' rest = ⟨.ok .quoted, ['"'] ++ rest.take length⟩ := by
      simp [Lexeme.read, Lexeme.measure, hlength]
    rw [hread]
    exact prescribed_ended hwhole hlongest endsBy_quoted hlength (Quoted.ends_of_bodyLength hlength).1
  | none =>
    have hread : Lexeme.read '"' rest = ⟨.error .unterminatedString, ['"']⟩ := by
      simp [Lexeme.read, Lexeme.measure, hlength]
    rw [hread]
    exact prescribed_unended hwhole hlongest endsBy_quoted rfl hlength

theorem prescribed_sole (hfirst : first ≠ '<') (hplain : shape.fault? = none) (hsole : Sole first shape)
    (hn : n ≤ rest.length) (hmem : shape.Continues first (rest.take n))
    (hbound : ∀ t, t <+: rest → shape.Continues first t → t.length ≤ n) :
    Prescribed (first :: rest) ⟨.ok shape, first :: rest.take n⟩ := by
  refine prescribed_plain (not_broken hfirst) hplain hn hmem fun other t ht hother => ?_
  obtain rfl := hsole other t hother
  exact ⟨hbound t ht hother, fun _ => rfl⟩

/-- A lexeme of one character. -/
theorem prescribed_single (hfirst : first ≠ '<') (hplain : shape.fault? = none) (hsole : Sole first shape)
    (h : ∀ t, shape.Continues first t ↔ t = []) :
    Prescribed (first :: rest) ⟨.ok shape, [first]⟩ := by
  refine prescribed_sole (n := 0) hfirst hplain hsole (Nat.zero_le _) ((h _).2 rfl) fun t _ ht => ?_
  rw [(h t).1 ht]
  exact Nat.le_refl 0

/-- A lexeme of two characters, of which the first is none. -/
theorem prescribed_pair {second : Char} (hfirst : first ≠ '<') (hplain : shape.fault? = none)
    (hsole : Sole first shape) (h : ∀ t, shape.Continues first t ↔ t = [second]) :
    let read := Lexeme.oneOrTwo second (.ok shape) (.error .unrecognized) rest
    Prescribed (first :: rest) ⟨read.1, first :: rest.take read.2⟩ := by
  intro read
  by_cases hsecond : rest.head? = some second
  · obtain ⟨rest, rfl⟩ := List.head?_eq_some_iff.1 hsecond
    have hread : read = (.ok shape, 1) := if_pos hsecond
    rw [hread]
    refine prescribed_sole hfirst hplain hsole (by simp) ((h _).2 rfl) fun t _ ht => ?_
    rw [(h t).1 ht]
    exact Nat.le_refl 1
  · have hread : read = (.error .unrecognized, 0) := if_neg hsecond
    rw [hread]
    refine prescribed_unmatched fun other t ht hother => ?_
    obtain rfl := hsole other t hother
    rw [(h t).1 hother] at ht
    exact not_prefix_of_head? hsecond ht

/-- An operator that may have a sign of equality behind it. -/
theorem prescribed_sign (hfirst : first ≠ '<') (hsole : Sole first .operator)
    (h : ∀ t, Shape.operator.Continues first t ↔ t = [] ∨ t = ['=']) :
    let read := Lexeme.oneOrTwo '=' (.ok .operator) (.ok .operator) rest
    Prescribed (first :: rest) ⟨read.1, first :: rest.take read.2⟩ := by
  intro read
  by_cases hsign : rest.head? = some '='
  · obtain ⟨rest, rfl⟩ := List.head?_eq_some_iff.1 hsign
    have hread : read = (.ok .operator, 1) := if_pos hsign
    rw [hread]
    refine prescribed_sole hfirst rfl hsole (by simp) ((h _).2 (Or.inr rfl)) fun t _ ht => ?_
    rcases (h t).1 ht with rfl | rfl
    · exact Nat.zero_le 1
    · exact Nat.le_refl 1
  · have hread : read = (.ok .operator, 0) := if_neg hsign
    rw [hread]
    refine prescribed_sole hfirst rfl hsole (Nat.zero_le _) ((h _).2 (Or.inl rfl)) fun t hfront ht => ?_
    rcases (h t).1 ht with rfl | rfl
    · exact Nat.le_refl 0
    · exact absurd hfront (not_prefix_of_head? hsign)

/-- A lexeme that goes on with the characters of a class. -/
theorem prescribed_run {p : Char → Bool} (hfirst : first ≠ '<') (hplain : shape.fault? = none)
    (hsole : Sole first shape) (h : ∀ t, shape.Continues first t ↔ ∀ d ∈ t, p d = true) :
    Prescribed (first :: rest) ⟨.ok shape, first :: rest.take (rest.takeWhile p).length⟩ :=
  prescribed_sole hfirst hplain hsole (Lexeme.takeWhile_length_le _ _)
    ((h _).2 fun _ hd => mem_take_takeWhile hd) fun t ht hrun => length_le_takeWhile ht ((h t).1 hrun)

/-- Digits, the characters that names start with, and characters that start nothing. -/
theorem prescribed_other (hfirst : first ≠ '<') (hinitial : ∀ other : Shape, first ∉ other.initials) :
    let read : Except Fault Shape × Nat :=
      if first.isDigit then (.ok .number, numberLength rest)
      else if isNameStart first then (.ok .identifier, (rest.takeWhile isNamePart).length)
      else (.error .unrecognized, 0)
    Prescribed (first :: rest) ⟨read.1, first :: rest.take read.2⟩ := by
  intro read
  by_cases hdigit : first.isDigit = true
  · have hread : read = (.ok .number, numberLength rest) := if_pos hdigit
    have hsole : Sole first .number := by
      intro other t hother
      rcases hother.mem_initials with hin | ⟨rfl, -⟩ | ⟨-, hname⟩
      · exact absurd hin (hinitial other)
      · rfl
      · rw [isNameStart_of_isDigit hdigit] at hname
        cases hname
    rw [hread]
    refine prescribed_sole hfirst rfl hsole (Lexeme.numberLength_le rest)
      (continues_number hdigit rest) ?_
    rintro t ⟨z, rfl⟩ hnumber
    exact length_le_numberLength hnumber z
  by_cases hname : isNameStart first = true
  · have hread : read = (.ok .identifier, (rest.takeWhile isNamePart).length) :=
      (if_neg hdigit).trans (if_pos hname)
    have hsole : Sole first .identifier := by
      intro other t hother
      rcases hother.mem_initials with hin | ⟨-, hfirst⟩ | ⟨rfl, -⟩
      · exact absurd hin (hinitial other)
      · exact absurd hfirst hdigit
      · rfl
    rw [hread]
    exact prescribed_run hfirst rfl hsole fun t => and_iff_right hname
  · have hread : read = (.error .unrecognized, 0) := (if_neg hdigit).trans (if_neg hname)
    rw [hread]
    refine prescribed_unmatched fun other t _ hother => ?_
    rcases hother.mem_initials with hin | ⟨-, hfirst⟩ | ⟨-, hfirst⟩
    · exact hinitial other hin
    · exact hdigit hfirst
    · exact hname hfirst

/-- What is read at the front of a text is to be read there. -/
theorem prescribed_read (first : Char) (rest : Text) :
    Prescribed (first :: rest) (Lexeme.read first rest) := by
  unfold Lexeme.read Lexeme.measure
  split
  case h_6 => exact prescribed_slash rest
  case h_7 => exact prescribed_quoted rest
  case h_8 => exact prescribed_less rest
  case h_15 => exact prescribed_equals rest
  case h_16 => exact prescribed_dot rest
  case h_28 =>
    refine prescribed_other (by assumption) fun other hin => ?_
    have hmark := other.initials_subset hin
    simp_all only [List.mem_cons, List.not_mem_nil, or_false, imp_false]
  -- only one pattern is left for each of the other characters
  case h_1 | h_2 | h_5 =>
    refine prescribed_run (by decide) rfl (sole_of_initials rfl rfl fun other => ?_) fun t => ?_
    · cases other <;> decide
    · simp [Shape.Continues, isSpace]
  case h_4 | h_22 | h_23 =>
    refine prescribed_pair (by decide) rfl (sole_of_initials rfl rfl fun other => ?_) fun t => ?_
    · cases other <;> decide
    · simp [Shape.Continues]
  case h_20 | h_21 =>
    refine prescribed_sign (by decide) (sole_of_initials rfl rfl fun other => ?_) fun t => ?_
    · cases other <;> decide
    · simp [Shape.Continues]
  all_goals
    refine prescribed_single (by decide) rfl (sole_of_initials rfl rfl fun other => ?_) fun t => ?_
    · cases other <;> decide
    · simp [Shape.Continues]

end Exists

/-! ## Whole sources -/

theorem Prescribed.ne_nil {text : Text} {l : Lexeme} (h : Prescribed text l) : text ≠ [] := by
  rintro rfl
  cases h with
  | ended _ hlongest _ _ | unended _ hlongest _ _ =>
    obtain rfl := List.prefix_nil.1 hlongest.front
    exact nil_notMem_pattern _ hlongest.mem
  | unmatched hcut _ => cases hcut
  | broken hbroken =>
    obtain ⟨_, _, _, heq, -⟩ := hbroken
    cases heq

theorem lexed_lexemes (source : Text) : Lexed source (lexemes source) := by
  -- a step takes a whole lexeme, so the induction is on the length
  induction hn : source.length using Nat.strongRecOn generalizing source with
  | _ n ih =>
    cases source with
    | nil => exact .nil
    | cons first rest =>
      have hcut := Lexeme.text_append_drop first rest
      have hfirst := prescribed_read first rest
      have hshort : (rest.drop (Lexeme.measure first rest).2).length < n := by
        rw [← hn, List.length_drop, List.length_cons]
        omega
      rw [lexemes_cons]
      rw [← hcut] at hfirst ⊢
      exact .cons hfirst (ih _ hshort _ rfl)

/-- A source is cut into lexemes in one way only so that each of them is the one to be read at its place,
and it is read that way. -/
theorem lexemes_eq_iff_lexed (source : Text) (found : List Lexeme) :
    lexemes source = found ↔ Lexed source found := by
  constructor
  · rintro rfl
    exact lexed_lexemes source
  · intro h
    induction h with
    | nil => rfl
    | @cons lexeme rest later hfirst _ ih =>
      obtain ⟨c, behind, hcut⟩ := List.exists_cons_of_ne_nil hfirst.ne_nil
      rw [hcut] at hfirst ⊢
      obtain rfl := hfirst.unique (prescribed_read c behind)
      have hrest : rest = behind.drop (Lexeme.measure c behind).2 :=
        List.append_cancel_left (hcut.trans (Lexeme.text_append_drop c behind).symm)
      rw [lexemes_cons, ← hrest, ih]

end TagBox
