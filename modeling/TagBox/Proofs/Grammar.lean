import TagBox.Proofs.Bytes
import TagBox.Proofs.Quotes

/-!
# The grammar of quoted texts

What may stand in a quoted text is told by a grammar with two kinds of stretches: those between quotes,
and those between the braces of template sequences, in which there are further braces and further quoted
texts.  The search for the end of a quoted text knows nothing of the grammar.  It counts braces, looks two
characters ahead and, on bytes, takes one byte along behind a backslash; still it finds the stretches of
the grammar and nothing else.

* `Quoted.Written` — the stretches of the grammar.
* `Quoted.closes_zero_iff` — the count of open braces has no part in what a quoted text is.
* `Quoted.search_exact` — the search finds exactly the stretch between the quotes.
-/

namespace TagBox

/-- Bytes that a text begins with and that are a text are characters that it begins with. -/
theorem Text.isPrefix_of_bytes {s t : Text} (h : s.bytes <+: t.bytes) : s <+: t := by
  obtain ⟨more, hmore⟩ := h
  apply List.isPrefix_of_utf8Encode_append_eq_utf8Encode more.toByteArray
  rw [List.utf8Encode, List.utf8Encode, ← List.toByteArray_append]
  exact congrArg List.toByteArray hmore

namespace Quoted

/-! ## Stretches -/

/-- What a stretch of a quoted text stands between. -/
inductive Within where
  | quotes
  | braces
  deriving DecidableEq, Repr

/-- The characters that may stand for themselves. -/
def Within.Allows : Within → Char → Prop
  | .quotes, c => c ≠ '"' ∧ c ≠ '\n'
  | .braces, c => c ≠ '"' ∧ c ≠ '{' ∧ c ≠ '}'

/-- Does the character stand for itself in front of `rest`?  A backslash does not, and neither does a mark
that begins a template sequence or the escape of one. -/
def Plain (c : Char) (rest : Text) : Prop :=
  c ≠ '\\' ∧ (c = '$' ∨ c = '%' → ¬ ['{'] <+: rest ∧ ¬ [c, '{'] <+: rest)

/-- The stretches of quoted texts.  One between quotes includes the closing quote; one between braces ends
in front of the closing brace, which is no part of a sequence, so that nothing is lost by looking no
further than to the end of the stretch. -/
inductive Written : Within → Text → Prop
  | close : Written .quotes ['"']
  | nothing : Written .braces []
  | escape {place : Within} {t : Text} (c : Char) (h : Written place t) :
      Written place ('\\' :: c :: t)
  | doubled {place : Within} {t : Text} {c : Char} (hc : c = '$' ∨ c = '%') (h : Written place t) :
      Written place (c :: c :: '{' :: t)
  | sequence {place : Within} {s t : Text} {c : Char} (hc : c = '$' ∨ c = '%')
      (hs : Written .braces s) (h : Written place t) : Written place (c :: '{' :: (s ++ '}' :: t))
  | nested {s t : Text} (hs : Written .quotes s) (h : Written .braces t) :
      Written .braces ('"' :: (s ++ t))
  | group {s t : Text} (hs : Written .braces s) (h : Written .braces t) :
      Written .braces ('{' :: (s ++ '}' :: t))
  | char {place : Within} {t : Text} {c : Char} (hplain : Plain c t) (hc : place.Allows c)
      (h : Written place t) : Written place (c :: t)

section Plain

variable {c : Char} {s t v : Text}

theorem plain_of_startsSequence (hne : t ≠ []) (h : startsSequence c t = false) : Plain c t := by
  have hback : c ≠ '\\' := by
    rintro rfl
    simp [startsSequence, hne] at h
  refine ⟨hback, fun hmark => ⟨?_, ?_⟩⟩
  · rintro ⟨u, rfl⟩
    rcases hmark with rfl | rfl <;> simp [startsSequence] at h
  · rintro ⟨u, rfl⟩
    rcases hmark with rfl | rfl <;> simp [startsSequence] at h

theorem Plain.startsSequence_eq (h : Plain c t) : startsSequence c t = false := by
  apply startsSequence_eq_false
  · exact fun a r hc _ => h.1 hc
  · rintro r rfl rfl
    exact (h.2 (Or.inl rfl)).2 ⟨r, rfl⟩
  · rintro r rfl rfl
    exact (h.2 (Or.inr rfl)).2 ⟨r, rfl⟩
  · rintro r rfl rfl
    exact (h.2 (Or.inl rfl)).1 ⟨r, rfl⟩
  · rintro r rfl rfl
    exact (h.2 (Or.inr rfl)).1 ⟨r, rfl⟩

theorem Plain.of_append (h : Plain c (s ++ v)) : Plain c s := by
  refine ⟨h.1, fun hmark => ⟨fun hpre => ?_, fun hpre => ?_⟩⟩
  · exact (h.2 hmark).1 (hpre.trans (List.prefix_append s v))
  · exact (h.2 hmark).2 (hpre.trans (List.prefix_append s v))

/-- A closing brace makes no sequence of what stands in front of it. -/
theorem Plain.append_brace (h : Plain c s) (t : Text) : Plain c (s ++ '}' :: t) := by
  refine ⟨h.1, fun hmark => ?_⟩
  have hbrace : '}' ≠ c := by
    rintro rfl
    revert hmark
    decide
  obtain ⟨hopen, hdoubled⟩ := h.2 hmark
  match s with
  | [] => simp [hbrace.symm]
  | [a] =>
    have ha : '{' ≠ a := by simpa using hopen
    simp [ha]
  | a :: b :: s => simpa using And.intro hopen hdoubled

end Plain

/-! ## Counting braces -/

section Count

variable {place : Within} {depth : Nat} {s t : Text}

/-- Where the reading stands when `depth` braces are open. -/
def within : Nat → Within
  | 0 => .quotes
  | _ + 1 => .braces

/-- A text that closes `depth` braces, each behind a stretch of its own, and then the quoted text. -/
def Unwinds : Nat → Text → Prop
  | 0, t => Written .quotes t
  | depth + 1, t => ∃ s r, t = s ++ '}' :: r ∧ Written .braces s ∧ Unwinds depth r

/-- What may stand in front of the first stretch may stand in front of the whole. -/
theorem Unwinds.prepend (head : Text) (h : Unwinds depth t)
    (hhead : ∀ s v, t = s ++ v → Written (within depth) s → Written (within depth) (head ++ s)) :
    Unwinds depth (head ++ t) := by
  cases depth with
  | zero => exact hhead t [] (by simp) h
  | succ depth =>
    obtain ⟨s, r, rfl, hs, hr⟩ := h
    exact ⟨head ++ s, r, by simp, hhead s ('}' :: r) rfl hs, hr⟩

theorem Closes.unwinds (h : Closes depth t) : Unwinds depth t := by
  induction h with
  | quote => exact .close
  | escape c h ih => exact ih.prepend ['\\', c] fun s v _ hs => .escape c hs
  | @doubled depth t c hc h ih =>
    exact ih.prepend [c, c, '{'] fun s v _ hs => .doubled hc hs
  | @sequence depth t c hc h ih =>
    -- the innermost of the braces is the one that the sequence has opened
    obtain ⟨s, r, rfl, hs, hr⟩ := ih
    have hseq := hr.prepend (c :: '{' :: (s ++ ['}'])) fun s' v _ hs' => by
      simpa using Written.sequence hc hs hs'
    simpa using hseq
  | @nested depth s t hs h ihs ih =>
    exact ih.prepend ('"' :: s) fun s' v _ hs' => .nested ihs hs'
  | @openBrace depth t h ih =>
    obtain ⟨s, r, rfl, hs, s', r', rfl, hs', hr'⟩ := ih
    exact ⟨'{' :: (s ++ '}' :: s'), r', by simp, .group hs hs', hr'⟩
  | @closeBrace depth t h ih => exact ⟨[], t, rfl, .nothing, ih⟩
  | @char depth t c hstart hquote hline hbrace h ih =>
    have hplain := plain_of_startsSequence h.ne_nil hstart
    refine ih.prepend [c] fun s v hsv hs => .char (hsv ▸ hplain).of_append ?_ hs
    cases depth with
    | zero => exact ⟨hquote, hline rfl⟩
    | succ depth => exact ⟨hquote, hbrace (Nat.succ_pos depth)⟩

/-- What a stretch is to the search: one between quotes is the end of a quoted text, and one between
braces, with its closing brace, leaves one brace less. -/
def Within.Ended : Within → Text → Prop
  | .quotes, s => Closes 0 s
  | .braces, s => ∀ depth r, Closes depth r → Closes (depth + 1) (s ++ '}' :: r)

theorem Written.ended (h : Written place s) : place.Ended s := by
  induction h with
  | close => exact .quote
  | nothing => exact fun depth r hr => .closeBrace hr
  | @escape place t c h ih =>
    cases place with
    | quotes => exact .escape c ih
    | braces => exact fun depth r hr => .escape c (ih depth r hr)
  | @doubled place t c hc h ih =>
    cases place with
    | quotes => exact .doubled hc ih
    | braces => exact fun depth r hr => .doubled hc (ih depth r hr)
  | @sequence place s t c hc hs h ihs ih =>
    cases place with
    | quotes => exact .sequence hc (ihs 0 t ih)
    | braces =>
      intro depth r hr
      have hbehind := ihs (depth + 1) (t ++ '}' :: r) (ih depth r hr)
      simpa using Closes.sequence hc hbehind
  | @nested s t hs h ihs ih =>
    intro depth r hr
    simpa using Closes.nested ihs (ih depth r hr)
  | @group s t hs h ihs ih =>
    intro depth r hr
    have hbehind := ihs (depth + 1) (t ++ '}' :: r) (ih depth r hr)
    simpa using Closes.openBrace hbehind
  | @char place t c hplain hc h ih =>
    cases place with
    | quotes =>
      exact .char hplain.startsSequence_eq hc.1 (fun _ => hc.2) (fun hpos => absurd hpos (by simp)) ih
    | braces =>
      intro depth r hr
      exact .char (hplain.append_brace r).startsSequence_eq hc.1 (fun hzero => absurd hzero (by simp))
        (fun _ => hc.2) (ih depth r hr)

theorem closes_zero_iff : Closes 0 t ↔ Written .quotes t :=
  ⟨Closes.unwinds, Written.ended⟩

end Count

/-! ## The search and the grammar -/

section Search

open Text (bytes)

variable {text body : Text} {n : Nat}

theorem length?_append_iff_written {rest : Text} :
    length? (body ++ rest) = some body.length ↔ Written .quotes body :=
  length?_append_iff.trans closes_zero_iff

theorem exists_of_length? (h : length? text = some n) :
    ∃ body rest, text = body ++ rest ∧ body.length = n ∧ Written .quotes body := by
  obtain ⟨body, rest, rfl, hlen, -⟩ := endsWithin_of_bodyLength h
  refine ⟨body, rest, rfl, hlen, ?_⟩
  rw [← hlen] at h
  exact length?_append_iff_written.1 h

theorem Written.length?_eq {rest : Text} (h : Written .quotes body) :
    length? (body ++ rest) = some body.length :=
  length?_append_iff_written.2 h

theorem Written.byteScan_eq {rest : Text} (h : Written .quotes body) :
    byteScan 0 0 [] (bytes (body ++ rest)) = some (Text.byteLength body) := by
  have hlength : bodyLength 0 [] (body ++ rest) = some body.length := h.length?_eq
  rw [byteScan_bytes, hlength, Option.map_some, List.take_left]

theorem exists_of_byteScan (h : byteScan 0 0 [] (bytes text) = some n) :
    ∃ body rest, text = body ++ rest ∧ Text.byteLength body = n ∧ Written .quotes body := by
  rw [byteScan_bytes] at h
  obtain ⟨m, hm, rfl⟩ := Option.map_eq_some_iff.1 h
  obtain ⟨body, rest, rfl, rfl, hbody⟩ := exists_of_length? hm
  exact ⟨body, rest, rfl, by rw [List.take_left], hbody⟩

/-- The search for the end of a quoted text finds exactly the stretch between the quotes.  In bytes and in
characters it gives the length of the one stretch that the text begins with, whatever follows it, and
nothing if there is none; and it ends between two characters. -/
theorem search_exact (text : Text) :
    (∀ n, byteScan 0 0 [] text.bytes = some n ↔
      n ≤ text.byteLength ∧ ∃ body, text.bytes.take n = body.bytes ∧ Written .quotes body) ∧
    (byteScan 0 0 [] text.bytes = none ↔ ¬ ∃ body, body <+: text ∧ Written .quotes body) ∧
    (∀ body body', body <+: text → body' <+: text → Written .quotes body → Written .quotes body' →
      body = body') ∧
    (∀ n, byteScan 0 0 [] text.bytes = some n →
      String.Pos.Raw.IsValid (String.ofList text) ⟨n⟩ ∧
      ∀ more : Text, byteScan 0 0 [] (text.bytes.take n ++ more.bytes) = some n) ∧
    byteScan 0 0 [] text.bytes = (length? text).map (fun n => Text.byteLength (text.take n)) ∧
    ∀ n, length? text = some n ↔ n ≤ text.length ∧ Written .quotes (text.take n) := by
  refine ⟨?_, ?_, ?_, ?_, byteScan_bytes 0 [] text, ?_⟩
  · intro n
    constructor
    · intro h
      obtain ⟨body, rest, rfl, rfl, hbody⟩ := exists_of_byteScan h
      refine ⟨by simp, body, ?_, hbody⟩
      rw [Text.bytes_append, ← Text.length_bytes, List.take_left]
    · rintro ⟨hle, body, htake, hbody⟩
      have hpre : body.bytes <+: text.bytes := htake ▸ List.take_prefix n text.bytes
      obtain ⟨rest, rfl⟩ := Text.isPrefix_of_bytes hpre
      have hlen : n = Text.byteLength body := by
        rw [← Text.length_bytes body, ← htake, List.length_take, Text.length_bytes]
        exact (min_eq_left hle).symm
      rw [hlen]
      exact hbody.byteScan_eq
  · constructor
    · rintro h ⟨_, ⟨rest, rfl⟩, hbody⟩
      rw [hbody.byteScan_eq] at h
      cases h
    · intro h
      cases hscan : byteScan 0 0 [] text.bytes with
      | none => rfl
      | some n =>
        obtain ⟨body, rest, rfl, -, hbody⟩ := exists_of_byteScan hscan
        exact absurd ⟨body, List.prefix_append body rest, hbody⟩ h
  · rintro body body' ⟨rest, hrest⟩ ⟨rest', hrest'⟩ hbody hbody'
    have hlen : some body.length = some body'.length := by
      rw [← @Written.length?_eq body rest hbody, ← @Written.length?_eq body' rest' hbody', hrest, hrest']
    exact (List.append_inj (hrest.trans hrest'.symm) (Option.some.inj hlen)).1
  · intro n h
    obtain ⟨body, rest, rfl, rfl, hbody⟩ := exists_of_byteScan h
    refine ⟨Text.isValid_byteLength body rest, fun more => ?_⟩
    rw [Text.bytes_append, ← Text.length_bytes, List.take_left, ← Text.bytes_append, Text.length_bytes]
    exact hbody.byteScan_eq
  · intro n
    constructor
    · intro h
      obtain ⟨body, rest, rfl, rfl, hbody⟩ := exists_of_length? h
      exact ⟨by simp, by rwa [List.take_left]⟩
    · rintro ⟨hle, hbody⟩
      have hfound := @Written.length?_eq _ (text.drop n) hbody
      rwa [List.take_append_drop, List.length_take, min_eq_left hle] at hfound

/-- An escape in front of a character of two bytes, the escape of a sequence, and a sequence with braces
in which a brace is quoted; a character of three bytes stands behind the closing quote. -/
def sequencesText : Text :=
  "\\é$$\x7b$\x7bx\x7b\"\x7d\"\x7d$\x7d\"日".toList

theorem search_exact_sequences :
    byteScan 0 0 [] sequencesText.bytes = some 17 ∧ length? sequencesText = some 16 ∧
    String.Pos.Raw.IsValid (String.ofList sequencesText) ⟨17⟩ ∧
    Written .quotes (sequencesText.take 16) ∧
    ∀ more : Text, byteScan 0 0 [] (sequencesText.bytes.take 17 ++ more.bytes) = some 17 := by
  obtain ⟨-, -, -, hkept, -, hlength⟩ := search_exact sequencesText
  have hscan : byteScan 0 0 [] sequencesText.bytes = some 17 := by decide +kernel
  have hfound : length? sequencesText = some 16 := by decide +kernel
  obtain ⟨hvalid, hmore⟩ := hkept 17 hscan
  exact ⟨hscan, hfound, hvalid, ((hlength 16).1 hfound).2, hmore⟩

end Search

end Quoted

end TagBox
