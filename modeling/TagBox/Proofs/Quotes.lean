import TagBox.Proofs.Extent

/-!
# How quoted texts are made up

The end of a quoted text is found by a search that keeps a stack of open braces.  What it searches for is
told by a grammar: a quoted text is a list of characters, escapes and template sequences, and in template
sequences there are further quoted texts.

* `Quoted.Closes` — the rest of a quoted text with its closing quote.
* `Quoted.bodyLength_of_closes` — the search does not go beyond it.
* `Quoted.endsWithin_of_bodyLength` — and it finds nothing else.
* `Quoted.length?_append_iff` — so the extent of a quoted text is the one of the grammar.
-/

namespace TagBox.Quoted

/-- The rest of a quoted text, with its closing quote, if `depth` braces of template sequences are
open in it. -/
inductive Closes : Nat → Text → Prop
  | quote : Closes 0 ['"']
  | escape {depth : Nat} {t : Text} (c : Char) (h : Closes depth t) : Closes depth ('\\' :: c :: t)
  | doubled {depth : Nat} {t : Text} {c : Char} (hc : c = '$' ∨ c = '%') (h : Closes depth t) :
      Closes depth (c :: c :: '{' :: t)
  | sequence {depth : Nat} {t : Text} {c : Char} (hc : c = '$' ∨ c = '%') (h : Closes (depth + 1) t) :
      Closes depth (c :: '{' :: t)
  | nested {depth : Nat} {s t : Text} (hs : Closes 0 s) (h : Closes (depth + 1) t) :
      Closes (depth + 1) ('"' :: (s ++ t))
  | openBrace {depth : Nat} {t : Text} (h : Closes (depth + 2) t) : Closes (depth + 1) ('{' :: t)
  | closeBrace {depth : Nat} {t : Text} (h : Closes depth t) : Closes (depth + 1) ('}' :: t)
  | char {depth : Nat} {t : Text} {c : Char} (hstart : startsSequence c t = false) (hquote : c ≠ '"')
      (hline : depth = 0 → c ≠ '\n') (hbrace : 0 < depth → c ≠ '{' ∧ c ≠ '}') (h : Closes depth t) :
      Closes depth (c :: t)

/-- The rests of quoted texts in one another, innermost first. -/
def ClosesAll : List Nat → Text → Prop
  | [], t => t = []
  | depth :: outer, t => ∃ s r, t = s ++ r ∧ Closes depth s ∧ ClosesAll outer r

variable {depth : Nat} {outer : List Nat} {t u v : Text} {c : Char} {n : Nat}

theorem Closes.ne_nil (h : Closes depth t) : t ≠ [] := by
  cases h <;> simp

theorem Closes.length (h : Closes depth t) : t = ['"'] ∨ 2 ≤ t.length := by
  cases h with
  | quote => exact Or.inl rfl
  | escape _ h | doubled _ h | sequence _ h => exact Or.inr (by simp)
  | nested hs h =>
    have hpos := List.length_pos_iff.2 hs.ne_nil
    exact Or.inr (by rw [List.length_cons, List.length_append]; omega)
  | openBrace h | closeBrace h | char _ _ _ _ h =>
    have hpos := List.length_pos_iff.2 h.ne_nil
    exact Or.inr (by rw [List.length_cons]; omega)

/-- What follows a quoted text does not make a sequence of a character in it. -/
theorem startsSequence_append (h : Closes depth t) (hstart : startsSequence c t = false) (v : Text) :
    startsSequence c (t ++ v) = false := by
  have hc : c ≠ '\\' := by
    rintro rfl
    simp [startsSequence, h.ne_nil] at hstart
  rcases h.length with rfl | hlen
  · have hq : (c = '$' ∨ c = '%') → '"' ≠ c := by
      rintro (rfl | rfl) <;> decide
    simpa [startsSequence, hc] using fun hd heq => absurd heq (hq hd)
  · rcases t with _ | ⟨a, _ | ⟨b, t⟩⟩
    · simp at hlen
    · simp at hlen
    · simpa [startsSequence] using hstart

theorem startsSequence_of_append (h : startsSequence c (t ++ v) = false) :
    startsSequence c t = false := by
  match t with
  | [] => simp [startsSequence]
  | [a] =>
    obtain ⟨hc, hd⟩ : c ≠ '\\' ∧ ((c = '$' ∨ c = '%') → a ≠ '{' ∧ _) := by
      simpa [startsSequence] using h
    simpa [startsSequence, hc] using fun hmark => (hd hmark).1
  | a :: b :: t => simpa [startsSequence] using h

/-- Length of what is left of the quoted texts around one that has been closed. -/
def outerLength : List Nat → Text → Option Nat
  | [], _ => some 0
  | around :: outer, u => bodyLength around outer u

theorem map_add_map_add (x : Option Nat) (m n : Nat) :
    (x.map (· + m)).map (· + n) = x.map (· + (m + n)) := by
  cases x <;> simp [Nat.add_assoc]

theorem bodyLength_of_closes (h : Closes depth t) (outer : List Nat) (u : Text) :
    bodyLength depth outer (t ++ u) = (outerLength outer u).map (· + t.length) := by
  induction h generalizing outer u with
  | quote =>
    rw [List.singleton_append, bodyLength_char (by simp [startsSequence])]
    cases outer <;> rfl
  | @escape depth t c h ih =>
    have hstep : bodyLength depth outer ('\\' :: c :: t ++ u) =
      (bodyLength depth outer (t ++ u)).map (· + 2) := rfl
    rw [hstep, ih, map_add_map_add]
    rfl
  | @doubled depth t c hc h ih =>
    have hstep : bodyLength depth outer (c :: c :: '{' :: t ++ u) =
      (bodyLength depth outer (t ++ u)).map (· + 3) := by rcases hc with rfl | rfl <;> rfl
    rw [hstep, ih, map_add_map_add]
    rfl
  | @sequence depth t c hc h ih =>
    have hstep : bodyLength depth outer (c :: '{' :: t ++ u) =
      (bodyLength (depth + 1) outer (t ++ u)).map (· + 2) := by rcases hc with rfl | rfl <;> rfl
    rw [hstep, ih, map_add_map_add]
    rfl
  | @nested depth s t hs h ihs ih =>
    have hstep : bodyLength (depth + 1) outer ('"' :: (s ++ t) ++ u) =
        (bodyLength 0 ((depth + 1) :: outer) (s ++ (t ++ u))).map (· + 1) := by
      rw [List.cons_append, bodyLength_char (by simp [startsSequence]), List.append_assoc]
      rfl
    rw [hstep, ihs, outerLength, ih, map_add_map_add, map_add_map_add, List.length_cons,
      List.length_append]
    congr 2
    funext x
    omega
  | @openBrace depth t h ih =>
    rw [List.cons_append, bodyLength_char (by simp [startsSequence]), if_neg (by decide),
      if_neg (by simp), if_pos (by simp), ih, map_add_map_add]
    rfl
  | @closeBrace depth t h ih =>
    rw [List.cons_append, bodyLength_char (by simp [startsSequence]), if_neg (by decide),
      if_neg (by simp), if_neg (by simp), if_pos (by simp), Nat.add_sub_cancel, ih, map_add_map_add]
    rfl
  | @char depth t c hstart hquote hline hbrace h ih =>
    rw [List.cons_append, bodyLength_char (startsSequence_append h hstart u), if_neg hquote,
      if_neg fun hn => hline hn.2 hn.1, if_neg fun hb => (hbrace hb.2).1 hb.1,
      if_neg fun hb => (hbrace hb.2).2 hb.1, ih, map_add_map_add]
    rfl

/-- The text is read as the end of the innermost quoted text, and of those around it. -/
def EndsWithin (depths : List Nat) (u : Text) (n : Nat) : Prop :=
  ∃ t v, u = t ++ v ∧ t.length = n ∧ ClosesAll depths t

theorem endsWithin_step {depth' : Nat} (head : Text) (h : EndsWithin (depth' :: outer) u n)
    (hstep : ∀ s r, u = s ++ r → Closes depth' s → Closes depth (head ++ s)) :
    EndsWithin (depth :: outer) (head ++ u) (n + head.length) := by
  obtain ⟨_, v, rfl, rfl, s, r, rfl, hs, hr⟩ := h
  refine ⟨head ++ (s ++ r), v, by simp, by simp; omega, head ++ s, r, by simp, ?_, hr⟩
  exact hstep s (r ++ v) (by simp) hs

theorem endsWithin_of_bodyLength (h : bodyLength depth outer u = some n) :
    EndsWithin (depth :: outer) u n := by
  fun_induction bodyLength depth outer u generalizing n with
  | case1 => simp at h
  | case2 depth outer c rest ih =>
    obtain ⟨m, hm, rfl⟩ := Option.map_eq_some_iff.1 h
    exact endsWithin_step ['\\', c] (ih hm) fun s r _ hs => .escape c hs
  | case3 depth outer rest ih =>
    obtain ⟨m, hm, rfl⟩ := Option.map_eq_some_iff.1 h
    exact endsWithin_step ['$', '$', '{'] (ih hm) fun s r _ hs => .doubled (Or.inl rfl) hs
  | case4 depth outer rest ih =>
    obtain ⟨m, hm, rfl⟩ := Option.map_eq_some_iff.1 h
    exact endsWithin_step ['%', '%', '{'] (ih hm) fun s r _ hs => .doubled (Or.inr rfl) hs
  | case5 depth outer rest ih =>
    obtain ⟨m, hm, rfl⟩ := Option.map_eq_some_iff.1 h
    exact endsWithin_step ['$', '{'] (ih hm) fun s r _ hs => .sequence (Or.inl rfl) hs
  | case6 depth outer rest ih =>
    obtain ⟨m, hm, rfl⟩ := Option.map_eq_some_iff.1 h
    exact endsWithin_step ['%', '{'] (ih hm) fun s r _ hs => .sequence (Or.inr rfl) hs
  | case7 rest h1 h2 h3 h4 h5 =>
    obtain rfl : 1 = n := by simpa using h
    exact ⟨['"'], rest, rfl, rfl, ['"'], [], rfl, .quote, rfl⟩
  | case8 rest around outer h1 h2 h3 h4 h5 ih =>
    obtain ⟨m, hm, rfl⟩ := Option.map_eq_some_iff.1 h
    obtain ⟨t, v, rfl, rfl, ht⟩ := ih hm
    exact ⟨'"' :: t, v, rfl, rfl, ['"'], t, rfl, .quote, ht⟩
  | case9 rest inside outer h1 h2 h3 h4 h5 ih =>
    -- the nested text is closed first, and then the one around it goes on
    obtain ⟨m, hm, rfl⟩ := Option.map_eq_some_iff.1 h
    obtain ⟨_, v, rfl, rfl, s, _, rfl, hs, t, r, rfl, ht, hr⟩ := ih hm
    exact ⟨'"' :: (s ++ (t ++ r)), v, rfl, rfl, '"' :: (s ++ t), r, by simp, .nested hs ht, hr⟩
  | case10 => simp at h
  | case11 depth outer c rest h1 h2 h3 h4 h5 hq hn hb ih =>
    obtain ⟨m, hm, rfl⟩ := Option.map_eq_some_iff.1 h
    obtain ⟨rfl, hpos⟩ := hb
    obtain ⟨inside, rfl⟩ := Nat.exists_eq_add_one.2 hpos
    exact endsWithin_step ['{'] (ih hm) fun s r _ hs => .openBrace hs
  | case12 depth outer c rest h1 h2 h3 h4 h5 hq hn ho hb ih =>
    obtain ⟨m, hm, rfl⟩ := Option.map_eq_some_iff.1 h
    obtain ⟨rfl, hpos⟩ := hb
    obtain ⟨inside, rfl⟩ := Nat.exists_eq_add_one.2 hpos
    exact endsWithin_step ['}'] (ih hm) fun s r _ hs => .closeBrace hs
  | case13 depth outer c rest h1 h2 h3 h4 h5 hq hn ho hb ih =>
    obtain ⟨m, hm, rfl⟩ := Option.map_eq_some_iff.1 h
    refine endsWithin_step [c] (ih hm) fun s r hrest hs => .char ?_ hq ?_ ?_ hs
    · have hstart := startsSequence_eq_false h1 h2 h3 h4 h5
      rw [hrest] at hstart
      exact startsSequence_of_append hstart
    · exact fun hzero hline => hn ⟨hline, hzero⟩
    · exact fun hpos => ⟨fun hc => ho ⟨hc, hpos⟩, fun hc => hb ⟨hc, hpos⟩⟩

/-- The search for the end of a quoted text finds it. -/
theorem length?_append_iff : length? (t ++ u) = some t.length ↔ Closes 0 t := by
  constructor
  · intro h
    obtain ⟨t', v, heq, hlen, s, r, rfl, hs, rfl⟩ := endsWithin_of_bodyLength h
    rw [List.append_nil] at heq hlen
    obtain ⟨rfl, -⟩ := List.append_inj heq hlen.symm
    exact hs
  · intro h
    rw [length?, bodyLength_of_closes h, outerLength, Option.map_some, Nat.zero_add]

end TagBox.Quoted
