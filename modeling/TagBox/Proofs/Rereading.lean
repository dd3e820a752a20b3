import TagBox.Proofs.Boxed
import TagBox.Proofs.Halves
import TagBox.Proofs.Sites

/-!
# Reading boxed texts

Wrapped values print to a text that is read back as the wrapped values: a half stands between a bracket
of its own and a bracket of the group, so it runs into nothing.  The same goes for a whole file with
wrapped values in the place of its values.

* `reads_weave` — woven tokens are read back.
* `wrapPending_eq_weave` — on tokens of a text boxing is weaving, layout included.
* `tokenize_print_box` — all tokens of a text, boxed, are the tokens of their print.
* `reads_refill` — a file with other values is read back, if the values are.
-/

namespace TagBox

open Lexeme (isSpace)

/-! ## Values -/

section Values

variable {m : KeyMatcher} {T : Template} {ws found : List Span} {i : Nat} {v : List Token} {after : Text}

theorem alike_bracket {t u : Token} {r s : Text} (ht : t.Stands r) (htb : t.kind.isBracket = true)
    (hu : u.Stands s) (hub : u.kind.isBracket = true) (x y : Text) :
    Alike (t.text ++ x) (u.text ++ y) := by
  obtain ⟨⟨c, hc, hstop⟩, -⟩ := ht.bracket htb
  obtain ⟨⟨d, hd, hstop'⟩, -⟩ := hu.bracket hub
  rw [hc, hd]
  exact .stop x y (Or.inl hstop) hstop'

/-- Woven tokens are read back, and look like the tokens to what stands in front of them. -/
theorem reads_weave (hT : T.Readable)
    (hs : ∀ j t, v[j]? = some t → startsAt ws (i + j) = true → t.kind = .openBrace)
    (he : ∀ j t, v[j]? = some t → endsAt ws (i + j) = true → t.kind = .closeBrace)
    (h : Reads v after) :
    Reads (weave T ws i v) after ∧ Alike (print v ++ after) (print (weave T ws i v) ++ after) := by
  induction v generalizing i with
  | nil => exact ⟨trivial, .refl _⟩
  | cons t v ih =>
    obtain ⟨hlead, hstands, hrest⟩ := h
    obtain ⟨hwoven, halike⟩ := @ih (i + 1)
      (fun j u hu => by simpa [Nat.add_assoc, Nat.add_comm 1] using hs (j + 1) u (by simpa using hu))
      (fun j u hu => by simpa [Nat.add_assoc, Nat.add_comm 1] using he (j + 1) u (by simpa using hu))
      hrest
    have hprint : ∀ (u : Token) (us : List Token), print (u :: us) ++ after =
        u.lead ++ (u.text ++ (print us ++ after)) := by simp [Token.print]
    by_cases hstart : startsAt ws i = true
    · have ht : t.kind = .openBrace := hs 0 t rfl hstart
      have hend : endsAt ws i = false := by
        by_contra hne
        have := he 0 t rfl (by simpa using hne)
        simp [ht] at this
      obtain ⟨⟨c, htext, hstop⟩, hany⟩ := hstands.bracket (by rw [ht]; rfl)
      obtain ⟨first, hfirst, hb⟩ := hT.first
      obtain ⟨more, hleft⟩ : ∃ more, T.left = first :: more := List.head?_eq_some_iff.1 hfirst
      have hreads := hT.left t.lead hlead c (print (weave T ws (i + 1) v) ++ after) hstop
      rw [weave_start hstart hend]
      constructor
      · refine reads_append.2 ⟨?_, hT.payloadLead, hany _, hwoven⟩
        rw [hprint, Token.text_withLead, htext]
        exact hreads
      · obtain ⟨r, hr⟩ : ∃ r, first.Stands r := by
          rw [hleft] at hreads
          exact ⟨_, hreads.2.1⟩
        rw [hleft, relead, List.cons_append, hprint, hprint]
        exact Alike.append _ (alike_bracket hstands (by rw [ht]; rfl) hr hb _ _)
    · rw [Bool.not_eq_true] at hstart
      by_cases hend : endsAt ws i = true
      · have ht : t.kind = .closeBrace := he 0 t rfl hend
        have hb : t.kind.isBracket = true := by rw [ht]; rfl
        rw [weave_end hstart hend]
        refine ⟨⟨hlead, (hstands.bracket hb).2 _, reads_append.2 ⟨hT.right _, hwoven⟩⟩, ?_⟩
        rw [hprint, hprint]
        exact Alike.append _ (alike_bracket hstands hb hstands hb _ _)
      · rw [weave_plain hstart (by simpa using hend)]
        refine ⟨⟨hlead, hstands.alike halike, hwoven⟩, ?_⟩
        rw [hprint, hprint]
        exact Alike.append _ (Alike.append _ halike)

theorem openBrace_of_startsAt (h : tagGroups m v = .ok found) (hsub : ws ⊆ found) (j : Nat) (t : Token)
    (ht : v[j]? = some t) (hj : startsAt ws j = true) : t.kind = .openBrace := by
  obtain ⟨u, hu, hk⟩ := kind_of_startsAt h hsub hj
  rw [ht, Option.some.injEq] at hu
  rw [hu, hk]

theorem closeBrace_of_endsAt (h : tagGroups m v = .ok found) (hsub : ws ⊆ found) (j : Nat) (t : Token)
    (ht : v[j]? = some t) (hj : endsAt ws j = true) : t.kind = .closeBrace := by
  obtain ⟨u, hu, hk⟩ := kind_of_endsAt h hsub hj
  rw [ht, Option.some.injEq] at hu
  rw [hu, hk]

/-- Next to a half that is read back nothing joins. -/
theorem settled_of_reads (hT : T.Readable)
    (hs : ∀ j t, v[j]? = some t → startsAt ws j = true → t.kind = .openBrace)
    (h : Reads v after) : Settled T ws v := by
  obtain ⟨first, hfirst, hb⟩ := hT.first
  obtain ⟨last, hlast, hb'⟩ := hT.last
  have hfirstStands : ∀ r, first.Stands r := by
    obtain ⟨more, hleft⟩ : ∃ more, T.left = first :: more := List.head?_eq_some_iff.1 hfirst
    have hreads := hT.left [] (by simp) '{' [] rfl
    rw [hleft] at hreads
    exact (hreads.2.1.bracket hb).2
  have hlastStands : ∀ r, last.Stands r := by
    obtain ⟨r, hr⟩ := (hT.right []).stands (List.mem_of_getLast? hlast)
    exact (hr.bracket hb').2
  refine ⟨fun A a b B hv hstart hlead u hu => ?_, fun t ht u hu => ?_, fun u hu w hw => ?_⟩
  · obtain rfl : first = u := Option.some.inj (hfirst.symm.trans hu)
    have hbrace : b.kind = .openBrace := hs (A.length + 1) b (by simp [hv]) hstart
    rw [hv] at h
    obtain ⟨-, hstands, -, hstands', -⟩ := (reads_append.1 h).2
    refine joins_eq_false (hstands.alike ?_) (hfirstStands [])
    have halike := alike_bracket hstands' (by rw [hbrace]; rfl) (hfirstStands []) hb (print B ++ after) []
    rw [List.append_nil] at halike
    simpa [Token.print, hlead] using halike
  · obtain rfl : last = u := Option.some.inj (hlast.symm.trans hu)
    obtain ⟨r, hr⟩ := h.stands ht
    exact joins_eq_false (hlastStands _) (hr.alike (.cut _))
  · obtain rfl : last = w := Option.some.inj (hlast.symm.trans hw)
    obtain rfl : first = u := Option.some.inj (hfirst.symm.trans hu)
    exact joins_eq_false (hlastStands _) (hfirstStands [])

/-- On tokens of a text boxing is weaving, layout included. -/
theorem wrapPending_eq_weave {boxer : Boxer} (hT : boxer.template.Readable)
    (hhalves : boxer.template.HasHalves) (hgroups : tagGroups boxer.matcher v = .ok found)
    (h : Reads v after) :
    boxer.wrapPending v =
      .ok (weave boxer.template (Boxer.pending (boxer.boxesIn v) found) 0 v) := by
  have hsub := pending_sublist (boxer.boxesIn v) found
  obtain ⟨us, -, hsettled, hwrap⟩ := wrap_tagGroups hhalves hgroups hsub
  rw [hsettled (settled_of_reads hT (openBrace_of_startsAt hgroups hsub.subset) h)] at hwrap
  exact Boxer.wrapPending_eq_ok_iff.2 ⟨found, hgroups, hwrap⟩

end Values

/-! ## Whole texts -/

section Texts

variable {rendered source trail : Text} {boxer : Boxer} {ts tokens out : List Token}
  {T : Template} {ws found : List Span}

/-- The end of a text joins nothing. -/
theorem Settled.end_of_file (h : Settled T ws ts)
    (hs : ∀ j, startsAt ws j = true → j < ts.length) : Settled T ws (ts ++ [eofToken trail]) where
  before A a b B hcut hstart hlead := by
    have hlt := hs (A.length + 1) hstart
    -- a group starts at `b`, so the end of the text is behind it
    have hcut' : ts ++ [eofToken trail] = (A ++ [a, b]) ++ B := by simpa using hcut
    obtain ⟨B', hts⟩ : ∃ B', ts = (A ++ [a, b]) ++ B' := by
      rcases List.append_eq_append_iff.1 hcut' with ⟨C, hfront, -⟩ | ⟨B', hts, -⟩
      · have hlen := congrArg List.length hfront
        simp only [List.length_append, List.length_cons, List.length_nil] at hlen
        obtain rfl : C = [] := List.length_eq_zero_iff.1 (by omega)
        exact ⟨[], by simpa using hfront.symm⟩
      · exact ⟨B', hts⟩
    rw [List.append_assoc] at hts
    exact h.before A a b B' hts hstart hlead
  behind t ht last hlast := by
    rcases List.mem_append.1 ht with ht | ht
    · exact h.behind t ht last hlast
    · obtain rfl : t = eofToken trail := by simpa using ht
      simp [joins, eofToken]
  between := h.between

/-- Boxing all tokens of a text gives tokens that are read back, and leaves its end as it is. -/
theorem exists_reads_of_wrapPending (hT : boxer.template.Readable) (hhalves : boxer.template.HasHalves)
    (hgroups : tagGroups boxer.matcher (ts ++ [eofToken trail]) = .ok found) (h : Reads ts trail) :
    ∃ woven, boxer.wrapPending (ts ++ [eofToken trail]) = .ok (woven ++ [eofToken trail]) ∧
      Reads woven trail := by
  set ws := Boxer.pending (boxer.boxesIn (ts ++ [eofToken trail])) found
  have hsub : ws.Sublist found := pending_sublist _ found
  have hinside : ∀ {j : Nat} {t : Token}, ts[j]? = some t → (ts ++ [eofToken trail])[j]? = some t := by
    intro j t ht
    rw [List.getElem?_append_left (List.getElem?_eq_some_iff.1 ht).1, ht]
  have hopen : ∀ j t, ts[j]? = some t → startsAt ws j = true → t.kind = .openBrace :=
    fun j t ht hj => openBrace_of_startsAt hgroups hsub.subset j t (hinside ht) hj
  have hclose : ∀ j t, ts[j]? = some t → endsAt ws j = true → t.kind = .closeBrace :=
    fun j t ht hj => closeBrace_of_endsAt hgroups hsub.subset j t (hinside ht) hj
  -- no group starts or ends at the end of the text
  have hstart : startsAt ws ts.length = false := by
    by_contra hne
    have hk := openBrace_of_startsAt hgroups hsub.subset ts.length (eofToken trail) (by simp)
      (by simpa using hne)
    simp [eofToken] at hk
  have hend : endsAt ws ts.length = false := by
    by_contra hne
    have hk := closeBrace_of_endsAt hgroups hsub.subset ts.length (eofToken trail) (by simp)
      (by simpa using hne)
    simp [eofToken] at hk
  have hsettled : Settled boxer.template ws (ts ++ [eofToken trail]) := by
    apply (settled_of_reads hT hopen h).end_of_file
    intro j hj
    obtain ⟨t, ht, -⟩ := kind_of_startsAt hgroups hsub.subset hj
    have hlt := (List.getElem?_eq_some_iff.1 ht).1
    have hne : j ≠ ts.length := by
      rintro rfl
      simp [hj] at hstart
    rw [List.length_append, List.length_singleton] at hlt
    omega
  obtain ⟨us, -, heq, hwrap⟩ := wrap_tagGroups hhalves hgroups hsub
  rw [heq hsettled, weave_append, Nat.zero_add, weave_plain hstart hend] at hwrap
  refine ⟨weave boxer.template ws 0 ts, ?_, ?_⟩
  · exact Boxer.wrapPending_eq_ok_iff.2 ⟨_, hgroups, hwrap⟩
  · exact (@reads_weave boxer.template ws 0 ts trail hT (by simpa using hopen) (by simpa using hclose) h).1

/-- The tokens of a text, boxed, are the tokens of their print. -/
theorem tokenize_print_box (hcompile : Template.compile rendered = .ok boxer.template)
    (hfirst : ∃ first ∈ boxer.template.left.head?, first.kind.isOpening = true)
    (hlast : ∃ last ∈ boxer.template.right.getLast?, last.kind.isClosing = true)
    (hold : boxer.old = none) (htokens : tokenize source = .ok tokens)
    (h : boxer.box tokens = .ok out) : tokenize (print out) = .ok out := by
  obtain ⟨ts, trail, rfl, -, hblank, hreads⟩ := tokenize_eq_ok_iff.1 htokens
  have hT : boxer.template.Readable := by
    obtain ⟨first, hin, ho⟩ := hfirst
    obtain ⟨last, hin', hc⟩ := hlast
    exact readable_of_compile hcompile ⟨first, hin, by simp [Kind.isBracket, ho]⟩
      ⟨last, hin', by simp [Kind.isBracket, hc]⟩
  simp only [Boxer.box, hold] at h
  obtain ⟨found, hgroups, -⟩ := Boxer.wrapPending_eq_ok_iff.1 h
  obtain ⟨woven, hwoven, hback⟩ :=
    exists_reads_of_wrapPending hT (hasHalves_of_compile hcompile) hgroups hreads
  obtain rfl : out = woven ++ [eofToken trail] := Except.ok.inj (h.symm.trans hwoven)
  have hprint : print (woven ++ [eofToken trail]) = print woven ++ trail := by
    rw [print_append, print_eofToken]
  exact tokenize_eq_ok_iff.2 ⟨woven, trail, rfl, hprint, hblank, hback⟩

/-- A boxer with a wrapper whose brackets do not nest. -/
def unmatchedBoxer : Boxer where
  template := {
    left := [⟨.openParen, ['('], []⟩, ⟨.identifier, ['a'], []⟩, ⟨.question, ['?'], []⟩]
    right := [⟨.newline, ['\n'], []⟩, ⟨.closeBracket, [']'], []⟩]
    payloadLead := [] }
  matcher := ⟨[], [['k']]⟩

/-- A text with a group right behind and right before a name, and one with a heredoc in it. -/
theorem tokenize_print_box_unmatched :
    ∃ tokens out, tokenize "[for x in{ k=1}x,\x7bk=<<-E\n  E\n\x7d] #\n\t".toList = .ok tokens ∧
      unmatchedBoxer.box tokens = .ok out ∧
      print out = "[for x in(a?{ k=1}\n]x,(a?\x7bk=<<-E\n  E\n\x7d\n]] #\n\t".toList ∧
      tokenize (print out) = .ok out := by
  have hcompile : Template.compile "(a?/*<box>*/)[/*</box>*/\n]".toList =
      .ok unmatchedBoxer.template := by decide +kernel
  have hrun : ((tokenize "[for x in{ k=1}x,\x7bk=<<-E\n  E\n\x7d] #\n\t".toList).toOption.bind
      fun tokens => (unmatchedBoxer.box tokens).toOption.map print) =
        some "[for x in(a?{ k=1}\n]x,(a?\x7bk=<<-E\n  E\n\x7d\n]] #\n\t".toList := by
    decide +kernel
  obtain ⟨tokens, htokens, hbox⟩ := Option.bind_eq_some_iff.1 hrun
  obtain ⟨out, hout, hprint⟩ := Option.map_eq_some_iff.1 hbox
  rw [toOption_eq_some_iff] at htokens hout
  exact ⟨tokens, out, htokens, hout, hprint,
    tokenize_print_box hcompile ⟨_, rfl, rfl⟩ ⟨_, rfl, rfl⟩ rfl htokens hout⟩

end Texts

/-! ## Files -/

section Files

variable {f : List Token → List Token} {file : List Stretch} {after : Text}

/-- A value of a file that is read back is read back. -/
theorem exists_reads_of_mem_valuesOf (h : Reads (joined file) after) {v : List Token}
    (hv : v ∈ valuesOf file) : ∃ r, Reads v r := by
  induction file with
  | nil => simp [valuesOf] at hv
  | cons x file ih =>
    obtain ⟨hx, hfile⟩ := reads_append.1 h
    rcases mem_valuesOf_cons.1 hv with hv | hv
    · cases x with
      | still ts => simp [Stretch.value?] at hv
      | site address front value behind =>
        obtain rfl : value = v := Option.some.inj hv
        exact ⟨_, (reads_append.1 (reads_append.1 hx).2).1⟩
    · exact ih hfile hv

/-- A file with other values is read back, if the values are and look alike. -/
theorem reads_refill (hf : ∀ v ∈ valuesOf file, ∀ r, Reads v r →
      Reads (f v) r ∧ Alike (print v ++ r) (print (f v) ++ r)) (h : Reads (joined file) after) :
    Reads (joined (file.map (Stretch.refill f))) after ∧
      Alike (print (joined file) ++ after) (print (joined (file.map (Stretch.refill f))) ++ after) := by
  induction file with
  | nil => exact ⟨trivial, .refl _⟩
  | cons x file ih =>
    obtain ⟨hx, hfile⟩ := reads_append.1 h
    obtain ⟨hreads, halike⟩ := ih (fun v hv => hf v (mem_valuesOf_cons.2 (Or.inr hv))) hfile
    have hx' := hx.alike halike
    rw [List.map_cons, joined_cons, joined_cons, print_append, print_append, List.append_assoc,
      List.append_assoc]
    cases x with
    | still ts => exact ⟨reads_append.2 ⟨hx', hreads⟩, Alike.append _ halike⟩
    | site address front value behind =>
      obtain ⟨hfront, hinner⟩ := reads_append.1 hx'
      obtain ⟨hvalue, hbehind⟩ := reads_append.1 hinner
      obtain ⟨hvalue', halike'⟩ := hf value (mem_valuesOf_cons.2 (Or.inl rfl)) _ hvalue
      have hfront' : Reads front (print (f value) ++ (print behind ++
          (print (joined (file.map (Stretch.refill f))) ++ after))) := by
        rw [print_append, List.append_assoc] at hfront
        exact hfront.alike halike'
      refine ⟨reads_append.2 ⟨reads_append.2 ⟨?_, reads_append.2 ⟨hvalue', hbehind⟩⟩, hreads⟩, ?_⟩
      · rw [print_append, List.append_assoc]
        exact hfront'
      · simp only [Stretch.refill, Stretch.tokens, print_append, List.append_assoc]
        exact Alike.append _ ((Alike.append _ (Alike.append _ halike)).trans halike')

end Files

end TagBox
