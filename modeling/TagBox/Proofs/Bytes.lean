import TagBox.Proofs.Lexing
import Mathlib.Data.List.Forall2

/-!
# Texts by the byte

Positions in a source are counted in bytes of UTF-8, and the end of a quoted text can be searched for
in the bytes alone: a byte of a character outside of ASCII is never taken for one of the characters
that the search looks at, not even behind a backslash, which takes one byte along and not one
character.

* `Text.bytes` — the bytes of a text.
* `Quoted.byteScan`, `Quoted.byteScan_bytes` — the end of a quoted text, found in the bytes.
* `ByteSpan`, `byteSpans` — the lexemes of a text by the bytes that they take.
* `tokenize_lossless` — lexemes leave no gap and split no character, and tokens keep every character.
-/

namespace TagBox

/-! ## Texts in UTF-8 -/

namespace Text

/-- The bytes of a text in UTF-8. -/
def bytes (t : Text) : List UInt8 :=
  t.flatMap String.utf8EncodeChar

@[simp]
theorem bytes_nil : bytes [] = [] := rfl

@[simp]
theorem bytes_cons (c : Char) (t : Text) : bytes (c :: t) = String.utf8EncodeChar c ++ bytes t := rfl

@[simp]
theorem bytes_append (s t : Text) : bytes (s ++ t) = bytes s ++ bytes t := by
  simp [bytes]

@[simp]
theorem length_bytes (t : Text) : (bytes t).length = byteLength t := by
  induction t with
  | nil => rfl
  | cons c t ih => simp [ih]

theorem utf8ByteSize_ofList (t : Text) : (String.ofList t).utf8ByteSize = byteLength t := by
  rw [← String.size_toByteArray, String.toByteArray_ofList, List.utf8Encode, List.size_toByteArray]
  exact length_bytes t

/-- Between two parts of a text is a boundary between characters. -/
theorem isValid_byteLength (s t : Text) :
    String.Pos.Raw.IsValid (String.ofList (s ++ t)) ⟨byteLength s⟩ := by
  refine String.Pos.Raw.isValid_iff_exists_append.2 ⟨String.ofList s, String.ofList t, ?_, ?_⟩
  · rw [String.ofList_append]
  · rw [← utf8ByteSize_ofList]
    rfl

theorem utf8EncodeChar_ascii {c : Char} (h : c.toNat < 128) :
    String.utf8EncodeChar c = [c.toUInt8] :=
  if_pos (Nat.le_of_lt_succ h)

/-- The bytes of a character outside of ASCII are outside of ASCII. -/
theorem le_of_mem_utf8EncodeChar {c : Char} {b : UInt8} (h : 128 ≤ c.toNat)
    (hb : b ∈ String.utf8EncodeChar c) : 128 ≤ b.toNat := by
  have hbyte : ∀ n, 128 ≤ n → n < 256 → b = UInt8.ofNat n → 128 ≤ b.toNat := by
    rintro n hle hlt rfl
    rw [UInt8.toNat_ofNat_of_lt' hlt]
    exact hle
  revert hb
  fun_cases String.utf8EncodeChar c with
  | case1 v hv => exact absurd hv (Nat.not_le_of_lt h)
  | case2 =>
    intro hb
    simp only [List.mem_cons, List.not_mem_nil, or_false] at hb
    rcases hb with hb | hb <;> exact hbyte _ (by omega) (by omega) hb
  | case3 =>
    intro hb
    simp only [List.mem_cons, List.not_mem_nil, or_false] at hb
    rcases hb with hb | hb | hb <;> exact hbyte _ (by omega) (by omega) hb
  | case4 =>
    intro hb
    simp only [List.mem_cons, List.not_mem_nil, or_false] at hb
    rcases hb with hb | hb | hb | hb <;> exact hbyte _ (by omega) (by omega) hb

theorem toNat_toUInt8 {c : Char} (h : c.toNat < 128) : c.toUInt8.toNat = c.toNat :=
  UInt8.toNat_ofNat_of_lt' (Nat.lt_trans h (by decide))

theorem toUInt8_inj {c d : Char} (hc : c.toNat < 128) (hd : d.toNat < 128) :
    c.toUInt8 = d.toUInt8 ↔ c = d := by
  constructor
  · intro h
    have hnat := congrArg UInt8.toNat h
    rw [toNat_toUInt8 hc, toNat_toUInt8 hd] at hnat
    exact Char.toNat_inj.1 hnat
  · rintro rfl
    rfl

theorem ne_toUInt8 {b : UInt8} {d : Char} (hb : 128 ≤ b.toNat) (hd : d.toNat < 128) :
    b ≠ d.toUInt8 := by
  rintro rfl
  rw [toNat_toUInt8 hd] at hb
  omega

/-- A character in ASCII is found in the bytes where it stands in the text. -/
theorem head?_bytes {d : Char} (hd : d.toNat < 128) (t : Text) :
    (bytes t).head? = some d.toUInt8 ↔ t.head? = some d := by
  cases t with
  | nil => simp
  | cons c t =>
    by_cases hc : c.toNat < 128
    · simp [utf8EncodeChar_ascii hc, toUInt8_inj hc hd]
    · have hne : c ≠ d := by
        rintro rfl
        exact hc hd
      obtain ⟨b, bs, hbs⟩ := List.exists_cons_of_ne_nil (@String.utf8EncodeChar_ne_nil c)
      have hb : 128 ≤ b.toNat := @le_of_mem_utf8EncodeChar c b (Nat.le_of_not_lt hc) (by simp [hbs])
      simp [hbs, hne, ne_toUInt8 hb hd]

theorem take_two_bytes {c d : Char} (hc : c.toNat < 128) (hd : d.toNat < 128) (t : Text) :
    (bytes t).take 2 = [c.toUInt8, d.toUInt8] ↔ t.take 2 = [c, d] := by
  have hpair : ∀ {α : Type} (l : List α) (x y : α),
      l.take 2 = [x, y] ↔ l.head? = some x ∧ l.tail.head? = some y := by
    intro α l x y
    match l with
    | [] => simp
    | [a] => simp
    | a :: b :: l => simp
  rw [hpair, hpair, head?_bytes hc]
  refine and_congr_right fun hhead => ?_
  obtain ⟨t, rfl⟩ := List.head?_eq_some_iff.1 hhead
  rw [bytes_cons, utf8EncodeChar_ascii hc]
  exact head?_bytes hd t

end Text

/-! ## Quoted texts -/

namespace Quoted

open Text (bytes)

/-- The search for the end of a quoted text, on bytes: the number of bytes up to and with the closing
quote.  The next `skip` bytes have been taken along already. -/
def byteScan : (skip depth : Nat) → (outer : List Nat) → List UInt8 → Option Nat
  | _, _, _, [] => none
  | skip + 1, depth, outer, _ :: rest => (byteScan skip depth outer rest).map (· + 1)
  | 0, depth, outer, b :: rest => (
    if b = '\\'.toUInt8 then byteScan 1 depth outer rest
    else if b = '\n'.toUInt8 ∧ depth = 0 then none
    else if b = '"'.toUInt8 then
      match depth, outer with
      | 0, [] => some 0
      | 0, around :: outer => byteScan 0 around outer rest
      | inside + 1, outer => byteScan 0 0 ((inside + 1) :: outer) rest
    else if (b = '$'.toUInt8 ∨ b = '%'.toUInt8) ∧ rest.take 2 = [b, '{'.toUInt8] then
      byteScan 2 depth outer rest
    else if (b = '$'.toUInt8 ∨ b = '%'.toUInt8) ∧ rest.head? = some '{'.toUInt8 then
      byteScan 1 (depth + 1) outer rest
    else if b = '{'.toUInt8 ∧ 0 < depth then byteScan 0 (depth + 1) outer rest
    else if b = '}'.toUInt8 ∧ 0 < depth then byteScan 0 (depth - 1) outer rest
    else byteScan 0 depth outer rest).map (· + 1)

section Scan

variable {depth : Nat} {outer : List Nat} {c : Char} {rest : Text}

/-- Bytes outside of ASCII are passed by. -/
theorem byteScan_high {high : List UInt8} (h : ∀ b ∈ high, 128 ≤ b.toNat) (more : List UInt8) :
    byteScan 0 depth outer (high ++ more) = (byteScan 0 depth outer more).map (· + high.length) := by
  induction high with
  | nil => simp
  | cons b high ih =>
    have hb := h b (by simp)
    have hne : ∀ d : Char, d.toNat < 128 → b ≠ d.toUInt8 := fun d hd => Text.ne_toUInt8 hb hd
    rw [List.cons_append, byteScan.eq_def]
    simp only [hne '\\' (by decide), hne '\n' (by decide), hne '"' (by decide), hne '$' (by decide),
      hne '%' (by decide), hne '{' (by decide), hne '}' (by decide), false_and, or_self, if_false,
      ih fun b hb => h b (by simp [hb]), Option.map_map]
    congr 1

theorem byteScan_skip {skip : Nat} (b : UInt8) (more : List UInt8) :
    byteScan (skip + 1) depth outer (b :: more) = (byteScan skip depth outer more).map (· + 1) := rfl

/-- A backslash takes one byte along, and with it the character behind it. -/
theorem byteScan_backslash :
    byteScan 0 depth outer (bytes ('\\' :: c :: rest)) =
      (byteScan 0 depth outer (bytes rest)).map (· + (1 + c.utf8Size)) := by
  have hstep : ∀ more, byteScan 0 depth outer ('\\'.toUInt8 :: more) =
      (byteScan 1 depth outer more).map (· + 1) := fun more => by
    rw [byteScan.eq_def]
    rfl
  obtain ⟨b, bs, hbs⟩ := List.exists_cons_of_ne_nil (@String.utf8EncodeChar_ne_nil c)
  have hlen : bs.length + 1 = c.utf8Size := by rw [← String.length_utf8EncodeChar, hbs]; rfl
  have hhigh : ∀ x ∈ bs, 128 ≤ x.toNat := by
    intro x hx
    by_cases hc : c.toNat < 128
    · rw [Text.utf8EncodeChar_ascii hc, List.cons.injEq] at hbs
      simp [← hbs.2] at hx
    · exact @Text.le_of_mem_utf8EncodeChar c x (Nat.le_of_not_lt hc) (by simp [hbs, hx])
  have hbytes : bytes ('\\' :: c :: rest) = '\\'.toUInt8 :: b :: (bs ++ bytes rest) := by
    simp [hbs, Text.utf8EncodeChar_ascii (show '\\'.toNat < 128 by decide)]
  rw [hbytes, hstep, byteScan_skip, byteScan_high hhigh]
  simp only [Option.map_map]
  congr 1
  funext n
  simp only [Function.comp_apply]
  omega

theorem byteScan_escaped (hc : c = '$' ∨ c = '%') :
    byteScan 0 depth outer (bytes (c :: c :: '{' :: rest)) =
      (byteScan 0 depth outer (bytes rest)).map (· + 3) := by
  have hstep : byteScan 0 depth outer (bytes (c :: c :: '{' :: rest)) =
      (byteScan 2 depth outer (c.toUInt8 :: '{'.toUInt8 :: bytes rest)).map (· + 1) := by
    rw [byteScan.eq_def]
    rcases hc with rfl | rfl <;> rfl
  rw [hstep, byteScan_skip, byteScan_skip, Option.map_map, Option.map_map]
  rfl

theorem byteScan_template (hc : c = '$' ∨ c = '%') :
    byteScan 0 depth outer (bytes (c :: '{' :: rest)) =
      (byteScan 0 (depth + 1) outer (bytes rest)).map (· + 2) := by
  have hstep : byteScan 0 depth outer (bytes (c :: '{' :: rest)) =
      (byteScan 1 (depth + 1) outer ('{'.toUInt8 :: bytes rest)).map (· + 1) := by
    rw [byteScan.eq_def]
    rcases hc with rfl | rfl <;> rfl
  rw [hstep, byteScan_skip, Option.map_map]
  rfl

/-- One character that begins no sequence. -/
theorem byteScan_char (h : startsSequence c rest = false) :
    byteScan 0 depth outer (bytes (c :: rest)) =
      (if c = '"' then
        match depth, outer with
        | 0, [] => some 0
        | 0, around :: outer => byteScan 0 around outer (bytes rest)
        | inside + 1, outer => byteScan 0 0 ((inside + 1) :: outer) (bytes rest)
      else if c = '\n' ∧ depth = 0 then none
      else if c = '{' ∧ 0 < depth then byteScan 0 (depth + 1) outer (bytes rest)
      else if c = '}' ∧ 0 < depth then byteScan 0 (depth - 1) outer (bytes rest)
      else byteScan 0 depth outer (bytes rest)).map (· + c.utf8Size) := by
  by_cases hc : c.toNat < 128
  · have hsize : c.utf8Size = 1 := by
      rw [← String.length_utf8EncodeChar, Text.utf8EncodeChar_ascii hc]
      rfl
    have hiff : ∀ {d : Char}, d.toNat < 128 → (c.toUInt8 = d.toUInt8 ↔ c = d) :=
      fun hd => Text.toUInt8_inj hc hd
    have hthree : ¬ ((c = '$' ∨ c = '%') ∧ rest.take 2 = [c, '{']) := by
      rintro ⟨rfl | rfl, htake⟩ <;> simp [startsSequence, htake] at h
    have htwo : ¬ ((c = '$' ∨ c = '%') ∧ rest.head? = some '{') := by
      rintro ⟨rfl | rfl, hhead⟩ <;> simp [startsSequence, hhead] at h
    rw [Text.bytes_cons, Text.utf8EncodeChar_ascii hc, List.singleton_append, byteScan.eq_def]
    simp only [hiff (show '\\'.toNat < 128 by decide), hiff (show '\n'.toNat < 128 by decide),
      hiff (show '"'.toNat < 128 by decide), hiff (show '$'.toNat < 128 by decide),
      hiff (show '%'.toNat < 128 by decide), hiff (show '{'.toNat < 128 by decide),
      hiff (show '}'.toNat < 128 by decide), Text.take_two_bytes hc (show '{'.toNat < 128 by decide),
      Text.head?_bytes (show '{'.toNat < 128 by decide), hthree, htwo, if_false, hsize]
    by_cases hback : c = '\\'
    · -- a backslash that begins no sequence is the last character
      obtain rfl : rest = [] := by simpa [startsSequence, hback] using h
      subst hback
      rfl
    · rw [if_neg hback]
      by_cases hquote : c = '"'
      · subst hquote
        rfl
      · rw [if_neg hquote, if_neg hquote]
  · have hne : ∀ d : Char, d.toNat < 128 → c ≠ d := by
      rintro d hd rfl
      exact hc hd
    rw [Text.bytes_cons, byteScan_high fun b hb => Text.le_of_mem_utf8EncodeChar (Nat.le_of_not_lt hc) hb,
      String.length_utf8EncodeChar]
    simp only [hne '"' (by decide), hne '\n' (by decide), hne '{' (by decide), hne '}' (by decide),
      false_and, if_false]

/-- Counting characters and then their bytes, a few characters further on. -/
theorem map_byteLength_take (found : Option Nat) (head rest : Text) :
    (found.map fun n => Text.byteLength (rest.take n)).map (· + head.byteLength) =
      (found.map (· + head.length)).map fun n => Text.byteLength ((head ++ rest).take n) := by
  cases found with
  | none => rfl
  | some n =>
    simp only [Option.map_some, Nat.add_comm n, List.take_length_add_append, Text.byteLength_append,
      Option.some.injEq]
    omega

/-- The end of a quoted text, found in its bytes, is the end found in its characters. -/
theorem byteScan_bytes (depth : Nat) (outer : List Nat) (text : Text) :
    byteScan 0 depth outer (bytes text) =
      (bodyLength depth outer text).map fun n => Text.byteLength (text.take n) := by
  fun_induction bodyLength depth outer text with
  | case1 => rfl
  | case2 depth outer c rest ih =>
    rw [byteScan_backslash, ih]
    exact map_byteLength_take _ ['\\', c] rest
  | case3 depth outer rest ih =>
    rw [byteScan_escaped (Or.inl rfl), ih]
    exact map_byteLength_take _ ['$', '$', '{'] rest
  | case4 depth outer rest ih =>
    rw [byteScan_escaped (Or.inr rfl), ih]
    exact map_byteLength_take _ ['%', '%', '{'] rest
  | case5 depth outer rest ih =>
    rw [byteScan_template (Or.inl rfl), ih]
    exact map_byteLength_take _ ['$', '{'] rest
  | case6 depth outer rest ih =>
    rw [byteScan_template (Or.inr rfl), ih]
    exact map_byteLength_take _ ['%', '{'] rest
  | case7 rest h1 h2 h3 h4 h5 =>
    rw [byteScan_char (by simp [startsSequence])]
    rfl
  | case8 rest around outer h1 h2 h3 h4 h5 ih =>
    rw [byteScan_char (by simp [startsSequence])]
    simp only [if_true, ih]
    exact map_byteLength_take _ ['"'] rest
  | case9 rest inside outer h1 h2 h3 h4 h5 ih =>
    rw [byteScan_char (by simp [startsSequence])]
    simp only [if_true, ih]
    exact map_byteLength_take _ ['"'] rest
  | case10 depth outer c rest h1 h2 h3 h4 h5 hq hn =>
    rw [byteScan_char (startsSequence_eq_false h1 h2 h3 h4 h5), if_neg hq, if_pos hn]
    rfl
  | case11 depth outer c rest h1 h2 h3 h4 h5 hq hn hb ih =>
    rw [byteScan_char (startsSequence_eq_false h1 h2 h3 h4 h5), if_neg hq, if_neg hn, if_pos hb, ih]
    exact map_byteLength_take _ [c] rest
  | case12 depth outer c rest h1 h2 h3 h4 h5 hq hn ho hb ih =>
    rw [byteScan_char (startsSequence_eq_false h1 h2 h3 h4 h5), if_neg hq, if_neg hn, if_neg ho,
      if_pos hb, ih]
    exact map_byteLength_take _ [c] rest
  | case13 depth outer c rest h1 h2 h3 h4 h5 hq hn ho hb ih =>
    rw [byteScan_char (startsSequence_eq_false h1 h2 h3 h4 h5), if_neg hq, if_neg hn, if_neg ho,
      if_neg hb, ih]
    exact map_byteLength_take _ [c] rest

end Scan

end Quoted

/-! ## Lexemes by the bytes that they take -/

/-- What a piece of source text was read as, and its bytes: from `start` up to, and without, `stop`. -/
structure ByteSpan where
  reading : Except Fault Shape
  start : Nat
  stop : Nat

/-- The lexemes of a text that starts at byte `offset` and of which the first `skip` characters have
been read already, each from where the reading has got to. -/
def byteSpansAfter (offset : Nat) : (skip : Nat) → Text → List ByteSpan
  | _, [] => []
  | skip + 1, c :: rest => byteSpansAfter (offset + c.utf8Size) skip rest
  | 0, first :: rest =>
    ⟨(Lexeme.measure first rest).1, offset, offset + (Lexeme.read first rest).text.byteLength⟩ ::
      byteSpansAfter (offset + first.utf8Size) (Lexeme.measure first rest).2 rest

/-- The lexemes of a text by the bytes that they take. -/
def byteSpans (source : Text) : List ByteSpan :=
  byteSpansAfter 0 0 source

/-- The spans begin at `start`, each where the one before it stops, the last one stops at `stop`, and
none is empty. -/
def Covers : (start stop : Nat) → List ByteSpan → Prop
  | start, stop, [] => start = stop
  | start, stop, s :: more => s.start = start ∧ start < s.stop ∧ Covers s.stop stop more

/-- The span says where in the source the lexeme has been read. -/
def ByteSpan.Marks (source : Text) (lexeme : Lexeme) (s : ByteSpan) : Prop :=
  ∃ before first rest, source = before ++ first :: rest ∧ lexeme = Lexeme.read first rest ∧
    s = ⟨lexeme.reading, before.byteLength, (before ++ lexeme.text).byteLength⟩

section Spans

variable {source before text : Text} {lexeme : Lexeme} {s : ByteSpan}

theorem byteSpansAfter_eq_drop (offset skip : Nat) (text : Text) :
    byteSpansAfter offset skip text =
      byteSpansAfter (offset + Text.byteLength (text.take skip)) 0 (text.drop skip) := by
  induction text generalizing offset skip with
  | nil => cases skip <;> rfl
  | cons c rest ih =>
    cases skip with
    | zero => rfl
    | succ n =>
      rw [byteSpansAfter, ih, List.take_succ_cons, List.drop_succ_cons, Text.byteLength_cons,
        Nat.add_assoc]

theorem byteSpansAfter_cons (offset : Nat) (first : Char) (rest : Text) :
    byteSpansAfter offset 0 (first :: rest) =
      ⟨(Lexeme.read first rest).reading, offset, offset + (Lexeme.read first rest).text.byteLength⟩ ::
        byteSpansAfter (offset + (Lexeme.read first rest).text.byteLength) 0
          (rest.drop (Lexeme.measure first rest).2) := by
  rw [byteSpansAfter, byteSpansAfter_eq_drop, Nat.add_assoc, ← Text.byteLength_cons]
  rfl

/-- Reading goes on behind a lexeme. -/
theorem Lexeme.text_append_drop (first : Char) (rest : Text) :
    (Lexeme.read first rest).text ++ rest.drop (Lexeme.measure first rest).2 = first :: rest := by
  simp [Lexeme.read]

theorem covers_byteSpansAfter (offset : Nat) (text : Text) :
    Covers offset (offset + text.byteLength) (byteSpansAfter offset 0 text) := by
  -- a step takes a whole lexeme, so the induction is on the length
  induction hn : text.length using Nat.strongRecOn generalizing offset text with
  | _ n ih =>
    cases text with
    | nil => rfl
    | cons first rest =>
      set behind := rest.drop (Lexeme.measure first rest).2 with hbehind
      have hshort : behind.length < n := by
        rw [← hn, hbehind, List.length_drop, List.length_cons]
        omega
      have hsize : Text.byteLength (first :: rest) =
          (Lexeme.read first rest).text.byteLength + Text.byteLength behind := by
        rw [← Text.byteLength_append, hbehind, Lexeme.text_append_drop]
      have hpos : 0 < (Lexeme.read first rest).text.byteLength := by
        have := first.utf8Size_pos
        simp only [Lexeme.read, Text.byteLength_cons]
        omega
      rw [byteSpansAfter_cons, hsize, ← Nat.add_assoc]
      exact ⟨rfl, Nat.lt_add_of_pos_right hpos, ih behind.length hshort _ behind rfl⟩

theorem marks_byteSpansAfter (h : source = before ++ text) :
    List.Forall₂ (ByteSpan.Marks source) (lexemes text)
      (byteSpansAfter before.byteLength 0 text) := by
  induction hn : text.length using Nat.strongRecOn generalizing before text with
  | _ n ih =>
    cases text with
    | nil => exact List.Forall₂.nil
    | cons first rest =>
      rw [lexemes_cons, byteSpansAfter_cons, ← Text.byteLength_append]
      refine List.Forall₂.cons ⟨before, first, rest, h, rfl, rfl⟩ (ih _ ?_ ?_ rfl)
      · rw [← hn, List.length_drop, List.length_cons]
        omega
      · rw [h, List.append_assoc, Lexeme.text_append_drop]

/-- Only a quote begins a quoted text, with an end or without. -/
theorem eq_quote_of_measure {first : Char} {rest : Text}
    (h : (Lexeme.measure first rest).1 = .ok .quoted ∨
      (Lexeme.measure first rest).1 = .error .unterminatedString) : first = '"' := by
  unfold Lexeme.measure at h
  split at h
  case h_7 => rfl
  all_goals exfalso
  any_goals unfold Lexeme.oneOrTwo at h
  any_goals unfold Lexeme.measureSlash at h
  any_goals unfold Lexeme.measureLess at h
  all_goals repeat' split at h
  all_goals rcases h with h | h <;> cases h

theorem ByteSpan.Marks.covered (h : s.Marks source lexeme) :
    (source.bytes.drop s.start).take (s.stop - s.start) = lexeme.text.bytes := by
  obtain ⟨before, first, rest, rfl, rfl, rfl⟩ := h
  have hcut : (before ++ first :: rest).bytes = before.bytes ++ ((Lexeme.read first rest).text.bytes ++
      Text.bytes (rest.drop (Lexeme.measure first rest).2)) := by
    rw [← Text.bytes_append, ← Text.bytes_append, Lexeme.text_append_drop]
  simp only [hcut, Text.byteLength_append, Nat.add_sub_cancel_left]
  rw [← Text.length_bytes before, List.drop_left, ← Text.length_bytes, List.take_left]

theorem ByteSpan.Marks.isValid (h : s.Marks source lexeme) :
    String.Pos.Raw.IsValid (String.ofList source) ⟨s.start⟩ ∧
      String.Pos.Raw.IsValid (String.ofList source) ⟨s.stop⟩ := by
  obtain ⟨before, first, rest, rfl, rfl, rfl⟩ := h
  constructor
  · exact Text.isValid_byteLength before (first :: rest)
  · rw [← Lexeme.text_append_drop first rest, ← List.append_assoc]
    exact Text.isValid_byteLength _ _

theorem byteScan_behind_quote (before rest : Text) :
    Quoted.byteScan 0 0 [] ((before ++ '"' :: rest).bytes.drop (before.byteLength + 1)) =
      (Quoted.length? rest).map fun n => Text.byteLength (rest.take n) := by
  have hcut : (before ++ '"' :: rest).bytes = (before ++ ['"']).bytes ++ Text.bytes rest := by
    simp
  have hlen : before.byteLength + 1 = (before ++ ['"']).bytes.length := by
    rw [Text.length_bytes, Text.byteLength_append]
    rfl
  rw [hcut, hlen, List.drop_left, Quoted.byteScan_bytes]
  rfl

/-- The search in the bytes behind a quote ends where the span does. -/
theorem ByteSpan.Marks.byteScan_quoted (h : s.Marks source lexeme) (hq : s.reading = .ok .quoted) :
    Quoted.byteScan 0 0 [] (source.bytes.drop (s.start + 1)) = some (s.stop - (s.start + 1)) := by
  obtain ⟨before, first, rest, rfl, rfl, rfl⟩ := h
  obtain rfl : first = '"' := eq_quote_of_measure (Or.inl hq)
  rw [byteScan_behind_quote]
  cases hlength : Quoted.length? rest with
  | none => simp [Lexeme.read, Lexeme.measure, hlength] at hq
  | some n =>
    simp only [Lexeme.read, Lexeme.measure, hlength, Option.map_some, Text.byteLength_append,
      Text.byteLength_cons, Option.some.injEq]
    have hsize : '"'.utf8Size = 1 := rfl
    omega

/-- Where the search in the bytes behind a quote finds no end, there is a fault. -/
theorem ByteSpan.Marks.byteScan_unterminated (h : s.Marks source lexeme)
    (hq : s.reading = .error .unterminatedString) :
    Quoted.byteScan 0 0 [] (source.bytes.drop (s.start + 1)) = none := by
  obtain ⟨before, first, rest, rfl, rfl, rfl⟩ := h
  obtain rfl : first = '"' := eq_quote_of_measure (Or.inr hq)
  rw [byteScan_behind_quote]
  cases hlength : Quoted.length? rest with
  | none => rfl
  | some n => simp [Lexeme.read, Lexeme.measure, hlength] at hq

end Spans

/-! ## Nothing is lost -/

section Lossless

variable {source after : Text} {t : Token}

theorem Token.Stands.kind_ne_eof (h : t.Stands after) : t.kind ≠ .eof := by
  obtain ⟨first, tail, reading, -, -, hk⟩ := h
  intro heof
  rw [heof] at hk
  cases reading with
  | error fault => cases fault <;> simp [Lexeme.kindOf] at hk
  | ok shape => cases shape <;> simp [Lexeme.kindOf, Shape.kind?] at hk

theorem eq_space_of_isSpace {c : Char} (h : Lexeme.isSpace c = true) : c = ' ' ∨ c = '\t' := by
  simpa [Lexeme.isSpace] using h

/-- A standing token has a text, and no blank at the front of it. -/
theorem Token.Stands.exists_head (h : t.Stands after) : ∃ c ∈ t.text.head?, c ≠ ' ' ∧ c ≠ '\t' := by
  have hfree := h.takeWhile_isSpace []
  obtain ⟨first, tail, -, htext, -⟩ := h
  refine ⟨first, by simp [htext], ?_⟩
  have hfirst : Lexeme.isSpace first = false := by
    by_contra hne
    simp [htext, hne] at hfree
  simpa [Lexeme.isSpace] using hfirst

/-- The bytes of the span are those of the lexeme, and it splits no character of the source.  For a
quoted text they are also those that a search in the bytes finds; where that finds none, the quote is
a fault. -/
structure ByteSpan.Delimits (source : Text) (lexeme : Lexeme) (s : ByteSpan) : Prop where
  reading : s.reading = lexeme.reading
  bytes : (source.bytes.drop s.start).take (s.stop - s.start) = lexeme.text.bytes
  start : String.Pos.Raw.IsValid (String.ofList source) ⟨s.start⟩
  stop : String.Pos.Raw.IsValid (String.ofList source) ⟨s.stop⟩
  quoted : s.reading = .ok .quoted →
    Quoted.byteScan 0 0 [] (source.bytes.drop (s.start + 1)) = some (s.stop - (s.start + 1))
  unterminated : s.reading = .error .unterminatedString →
    Quoted.byteScan 0 0 [] (source.bytes.drop (s.start + 1)) = none

theorem ByteSpan.Marks.delimits {lexeme : Lexeme} {s : ByteSpan} (h : s.Marks source lexeme) :
    s.Delimits source lexeme where
  reading := by
    obtain ⟨before, first, rest, -, -, rfl⟩ := h
    rfl
  bytes := h.covered
  start := h.isValid.1
  stop := h.isValid.2
  quoted := h.byteScan_quoted
  unterminated := h.byteScan_unterminated

/-- Reading a text loses nothing.  Its lexemes, faults included, take its bytes without a gap and
without an overlap, each at least one, and no character is split between two of them.  Its tokens
print to it: the last one, and no other, is its end, the others have a text that does not begin with a
blank, and all that stands in front of a text is blank. -/
theorem tokenize_lossless (source : Text) :
    Covers 0 (String.ofList source).utf8ByteSize (byteSpans source) ∧
    List.Forall₂ (ByteSpan.Delimits source) (lexemes source) (byteSpans source) ∧
    ∀ tokens, tokenize source = .ok tokens → print tokens = source ∧
      (∃ ts last, tokens = ts ++ [last] ∧ last.kind = .eof ∧ last.text = [] ∧
        ∀ t ∈ ts, t.kind ≠ .eof ∧ ∃ c ∈ t.text.head?, c ≠ ' ' ∧ c ≠ '\t') ∧
      ∀ t ∈ tokens, ∀ c ∈ t.lead, c = ' ' ∨ c = '\t' := by
  refine ⟨?_, ?_, ?_⟩
  · have hcovers := covers_byteSpansAfter 0 source
    rw [Nat.zero_add, ← Text.utf8ByteSize_ofList] at hcovers
    exact hcovers
  · have hmarks : List.Forall₂ (ByteSpan.Marks source) (lexemes source) (byteSpans source) :=
      @marks_byteSpansAfter source [] source rfl
    exact hmarks.imp fun lexeme s h => h.delimits
  · intro tokens htokens
    obtain ⟨ts, trail, rfl, hsource, hblank, hreads⟩ := tokenize_eq_ok_iff.1 htokens
    refine ⟨?_, ⟨ts, eofToken trail, rfl, rfl, rfl, ?_⟩, ?_⟩
    · rw [hsource, print_append, print_eofToken]
    · intro t ht
      obtain ⟨after, hstands⟩ := hreads.stands ht
      exact ⟨hstands.kind_ne_eof, hstands.exists_head⟩
    · intro t ht c hc
      rcases List.mem_append.1 ht with ht | ht
      · exact eq_space_of_isSpace (hreads.lead ht c hc)
      · obtain rfl : t = eofToken trail := by simpa using ht
        exact eq_space_of_isSpace (hblank c hc)

/-- A quoted text with an escape in front of a character of two bytes and a quoted brace in a marker,
then a character of three bytes and a blank. -/
def escapedText : Text :=
  "k = \"\\é$\x7b\"\x7d\"\x7d\"日\t".toList

theorem tokenize_lossless_escaped :
    (byteSpans escapedText).map (fun s => (s.start, s.stop)) =
      [(0, 1), (1, 2), (2, 3), (3, 4), (4, 15), (15, 18), (18, 19)] ∧
    Covers 0 (String.ofList escapedText).utf8ByteSize (byteSpans escapedText) ∧
    ∃ tokens, tokenize escapedText = .ok tokens ∧ print tokens = escapedText ∧
      ∀ t ∈ tokens, ∀ c ∈ t.lead, c = ' ' ∨ c = '\t' := by
  obtain ⟨hcovers, -, htokens⟩ := tokenize_lossless escapedText
  have hsome : (tokenize escapedText).toOption.isSome = true := by decide +kernel
  obtain ⟨tokens, hok⟩ := Option.isSome_iff_exists.1 hsome
  rw [toOption_eq_some_iff] at hok
  obtain ⟨hprint, -, hlead⟩ := htokens tokens hok
  exact ⟨by decide +kernel, hcovers, tokens, hok, hprint, hlead⟩

end Lossless

end TagBox
