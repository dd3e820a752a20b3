import TagBox.Proofs.Endings
import TagBox.Proofs.Rereading
import TagBox.Proofs.Strands

/-!
# Inserted halves and their neighbours

Wrapping puts a single space where an inserted half would run into its neighbour.  The space is all that
is needed next to a half, with one exception: a right half that ends with an open-ended token, a comment
or a heredoc that goes on to the end of its line, takes the space along.

* `Template.Legible` — what is known of the halves of a compiled template.
* `threads` — a wrapped list, each token with the strand that it comes from.
* `Parted` — neighbours that are apart, or the exception.
* `isChain_threads` — all neighbours of a wrapped list are parted.
* `wrap_keeps_apart_iff` — which templates are kept apart from every list that is wrapped.
-/

namespace TagBox

open Lexeme (isSpace)

/-! ## Halves of a compiled template -/

/-- The left half is read back in front of a group, with any blanks in front of it, and the right half in
front of some text. -/
structure Template.Legible (T : Template) : Prop where
  halves : T.HasHalves
  payloadLead : ∀ c ∈ T.payloadLead, isSpace c = true
  left : ∀ lead, (∀ c ∈ lead, isSpace c = true) → ∀ c after, isStop c = true →
    Reads (relead lead T.left) (T.payloadLead ++ c :: after)
  right : ∃ after, Reads T.right after

theorem legible_of_compile {rendered : Text} {T : Template} (h : Template.compile rendered = .ok T) :
    T.Legible := by
  obtain ⟨hspaces, hleft, hright⟩ := reads_halves_of_compile h
  exact ⟨hasHalves_of_compile h, hspaces,
    fun lead hlead c after hc => hleft lead hlead c after (Or.inl hc), hright⟩

section Legible

variable {T : Template} {t : Token} {lead : Text}

/-- The left half and the brace of its group. -/
theorem Template.Legible.isChain_left (hT : T.Legible) (hlead : ∀ c ∈ lead, isSpace c = true)
    (ht : t.Stands []) (hb : t.kind.isBracket = true) :
    (relead lead T.left ++ [t.withLead T.payloadLead]).IsChain Token.Apart := by
  obtain ⟨⟨c, htext, hstop⟩, -⟩ := ht.bracket hb
  have hreads : Reads (relead lead T.left ++ [t.withLead T.payloadLead]) [] := by
    refine reads_append.2 ⟨?_, hT.payloadLead, ht, trivial⟩
    have hprint : print [t.withLead T.payloadLead] ++ [] = T.payloadLead ++ c :: [] := by
      simp [Token.print, Token.withLead, htext]
    rw [hprint]
    exact hT.left lead hlead c [] hstop
  exact hreads.isChain_apart

theorem Template.Legible.first_stands (hT : T.Legible) {first : Token} (h : first ∈ T.left.head?) :
    first.Stands [] := by
  obtain ⟨more, hmore⟩ := List.head?_eq_some_iff.1 h
  have hreads := hT.left [] (by simp) '{' [] rfl
  rw [hmore] at hreads
  exact Token.Stands.alike hreads.2.1 (.cut _)

end Legible

/-! ## Strands and tokens side by side -/

/-- Does the strand come from a half? -/
def Strand.isHalf : Strand → Bool
  | .half _ => true
  | .own .. => false

/-- The strands of a half, each with its token. -/
def pairsOf (half tokens : List Token) : List (Strand × Token) :=
  (half.map Strand.half).zip tokens

/-- The right half, if a group ends in front of position `i`. -/
def rightPairs (T : Template) (groups : List Span) (i : Nat) : List (Strand × Token) :=
  if endsBefore groups i then pairsOf T.right T.right else []

/-- The left half, if a group starts at position `i`. -/
def leftPairs (T : Template) (groups : List Span) (i : Nat) (lead : Text) : List (Strand × Token) :=
  if startsAt groups i then pairsOf T.left (relead lead T.left) else []

/-- The token `t` of the list itself, which has become `u`. -/
def ownPair (T : Template) (groups : List Span) (i : Nat) (t u : Token) : Strand × Token :=
  (.own i t, if startsAt groups i then u.withLead T.payloadLead else u)

/-- The strands of tokens that start at position `i`, each with its token. -/
def threads (T : Template) (groups : List Span) (i : Nat) (ts us : List Token) : List (Strand × Token) :=
  (strandsFrom T groups i ts).zip
    ((if endsBefore groups i then T.right else []) ++ weave T groups i us)

section Threads

variable {T : Template} {gs : List Span} {i : Nat} {t u : Token} {ts us : List Token}

theorem threads_cons :
    threads T gs i (t :: ts) (u :: us) = rightPairs T gs i ++
      (leftPairs T gs i u.lead ++ ownPair T gs i t u :: threads T gs (i + 1) ts us) := by
  have hright : ∀ ss vs, ((if endsBefore gs i then T.right.map Strand.half else []) ++ ss).zip
      ((if endsBefore gs i then T.right else []) ++ vs) = rightPairs T gs i ++ ss.zip vs := by
    intro ss vs
    by_cases he : endsBefore gs i = true
    · simp only [he, if_true, rightPairs, pairsOf]
      exact List.zip_append (by simp)
    · simp [he, rightPairs]
  rw [threads, strandsFrom, hright, weave]
  by_cases hs : startsAt gs i = true
  · simp only [hs, if_true, leftPairs, ownPair, pairsOf, List.append_assoc]
    rw [List.zip_append (by simp)]
    rfl
  · simp only [hs, leftPairs, ownPair]
    rfl

theorem rightPairs_concat {front : List Token} {last : Token} (he : endsBefore gs i = true)
    (hright : T.right = front ++ [last]) :
    rightPairs T gs i = pairsOf front front ++ [(.half last, last)] := by
  rw [rightPairs, if_pos he, pairsOf, hright, List.map_append, List.zip_append (by simp)]
  rfl

theorem ownPair_withLead {lead : Text} :
    ownPair T gs i t (t.withLead lead) =
      (.own i t, t.withLead (if startsAt gs i then T.payloadLead else lead)) := by
  by_cases hs : startsAt gs i = true <;> simp [ownPair, hs, Token.withLead]

/-- Nothing comes behind the end of the file. -/
theorem threads_nil {trail : Text} (h : endsAt gs i = true → (eofToken trail).kind = .closeBrace) :
    threads T gs (i + 1) [] [] = [] := by
  have hno : endsAt gs i = false := by
    by_contra hne
    have hkind := h (by simpa using hne)
    simp [eofToken] at hkind
  simp [threads, strandsFrom, endsBefore, hno]

theorem exists_threads_append {A uA : List Token} (hlen : uA.length = A.length) (B uB : List Token) :
    ∃ X, threads T gs i (A ++ B) (uA ++ uB) = X ++ threads T gs (i + A.length) B uB := by
  induction A generalizing uA i with
  | nil =>
    obtain rfl : uA = [] := List.length_eq_zero_iff.1 hlen
    exact ⟨[], rfl⟩
  | cons t A ih =>
    obtain ⟨u, uA, rfl⟩ := List.exists_cons_of_length_eq_add_one hlen
    obtain ⟨X, hX⟩ := @ih (i + 1) uA (by simpa using hlen)
    refine ⟨rightPairs T gs i ++ (leftPairs T gs i u.lead ++ ownPair T gs i t u :: X), ?_⟩
    have hi : i + (t :: A).length = i + 1 + A.length := by
      rw [List.length_cons]
      omega
    rw [List.cons_append, List.cons_append, threads_cons, hX, hi]
    simp

/-- Neighbours of a list are neighbours of the list with something beside it. -/
theorem isChain_zip {α β : Type} {R : β → β → Prop} {ks : List α} {l : List β} (h : l.IsChain R) :
    (ks.zip l).IsChain fun x y => R x.2 y.2 := by
  induction l generalizing ks with
  | nil => simp
  | cons b l ih =>
    cases ks with
    | nil => simp
    | cons k ks =>
      obtain ⟨hhead, htail⟩ := List.isChain_cons.1 h
      refine List.isChain_cons.2 ⟨?_, ih htail⟩
      intro y hy
      cases ks with
      | nil => simp at hy
      | cons k' ks =>
        cases l with
        | nil => simp at hy
        | cons b' l =>
          obtain rfl : (k', b') = y := by simpa using hy
          exact hhead b' rfl

end Threads

/-! ## Neighbours of halves -/

/-- Two neighbours of a wrapped list, of which one at least comes from a half and the second is not the
end of the file, are apart, unless the first one is the open-ended last token of a right half and the
second one does not start with the end of a line. -/
def Parted (T : Template) (x y : Strand × Token) : Prop :=
  x.1.isHalf = true ∨ y.1.isHalf = true → y.2.kind ≠ .eof →
    (¬ x.2.Apart y.2 ↔ ∃ last ∈ T.right.getLast?, x = (.half last, last) ∧ last.openEnded = true ∧
      y.2.breaksLine = false)

section Seams

variable {T : Template} {gs : List Span} {i p : Nat} {a t : Token} {lead lead' after : Text}
  {x y : Strand × Token} {us : List Token}

theorem parted_of_apart (h : x.2.Apart y.2) : Parted T x y := by
  intro _ _
  refine ⟨fun hno => absurd h hno, ?_⟩
  rintro ⟨last, -, rfl, hopen, hbreak⟩
  rw [h.breaksLine hopen] at hbreak
  exact absurd hbreak (by decide)

theorem parted_own {q : Nat} {u v : Token} : Parted T (.own p a, u) (.own q t, v) := by
  intro h
  simp [Strand.isHalf] at h

/-- The end of a right half, and what follows it. -/
theorem parted_last (hT : T.Legible) {last : Token} (hlast : last ∈ T.right.getLast?)
    (hy : y.2.kind ≠ .eof → y.2.Stands []) (hlead : ∀ c ∈ y.2.lead, isSpace c = true)
    (hjoin : y.2.lead = [] → joins last y.2 = false) : Parted T (.half last, last) y := by
  intro _ heof
  obtain ⟨after, hright⟩ := hT.right
  obtain ⟨r, hstands⟩ := hright.stands (List.mem_of_getLast? hlast)
  rw [apart_iff_breaksLine hstands (hy heof) hlead hjoin]
  constructor
  · intro hno
    obtain ⟨hopen, hbreak⟩ := Classical.not_imp.1 hno
    exact ⟨last, hlast, rfl, hopen, by simpa using hbreak⟩
  · rintro ⟨last', -, heq, hopen, hbreak⟩ himp
    obtain rfl : last = last' := congrArg Prod.snd heq
    rw [himp hopen] at hbreak
    exact absurd hbreak (by decide)

/-- A token in front of a group stands in front of the left half of the group too. -/
theorem apart_first (hT : T.Legible) {first : Token} (hfirst : first ∈ T.left.head?)
    (ha : a.Stands (t.lead ++ (t.text ++ after))) (ht : t.Stands []) (hb : t.kind.isBracket = true)
    (hlead : Widens t.lead lead) (hblank : ∀ c ∈ lead, isSpace c = true)
    (hjoin : lead = [] → joins a first = false) : a.Apart (first.withLead lead) := by
  have hfirstStands := hT.first_stands hfirst
  refine apart_iff.2 ⟨hblank, ?_, hfirstStands⟩
  show a.Stands (lead ++ first.text)
  cases lead with
  | nil =>
    exact (stands_of_joins ha.text_ne_nil hfirstStands.text_ne_nil (hjoin rfl)).1
  | cons c lead =>
    have hc : isStop c = true := isStop_of_isSpace (hblank c (by simp))
    rcases hlead with heq | ⟨hnil, -⟩
    · rw [← heq] at ha
      exact ha.alike (.stop _ _ (Or.inl hc) hc)
    · obtain ⟨⟨d, htext, hd⟩, -⟩ := ht.bracket hb
      rw [hnil, htext] at ha
      exact ha.alike (.stop _ _ (Or.inl hd) hc)

theorem isSpace_of_widens (hlead : Widens t.lead lead) (hblank : ∀ c ∈ t.lead, isSpace c = true) :
    ∀ c ∈ lead, isSpace c = true := by
  rcases hlead with rfl | ⟨-, rfl⟩
  · exact hblank
  · simp [isSpace]

theorem isChain_leftPairs (hT : T.Legible) (hlead : ∀ c ∈ lead, isSpace c = true)
    (ht : t.kind ≠ .eof → t.Stands []) (hopen : startsAt gs i = true → t.kind = .openBrace) :
    (leftPairs T gs i lead ++ [ownPair T gs i t (t.withLead lead)]).IsChain (Parted T) := by
  by_cases hs : startsAt gs i = true
  · have hkind := hopen hs
    have hchain := hT.isChain_left hlead (ht (by simp [hkind])) (by rw [hkind]; rfl)
    have hzip : leftPairs T gs i lead ++ [ownPair T gs i t (t.withLead lead)] =
        (T.left.map Strand.half ++ [Strand.own i t]).zip (relead lead T.left ++ [t.withLead T.payloadLead]) := by
      rw [List.zip_append (by simp), leftPairs, if_pos hs, ownPair, if_pos hs]
      rfl
    rw [hzip]
    exact (isChain_zip hchain).imp fun x y => parted_of_apart
  · rw [leftPairs, if_neg hs]
    exact List.isChain_singleton _

theorem isChain_rightPairs (hT : T.Legible) (ha : a.Stands after)
    (hclose : endsBefore gs i = true → a.kind = .closeBrace) :
    ((Strand.own p a, a.withLead lead) :: rightPairs T gs i).IsChain (Parted T) := by
  by_cases he : endsBefore gs i = true
  · obtain ⟨r, hright⟩ := hT.right
    rw [rightPairs, if_pos he]
    refine List.isChain_cons.2 ⟨?_, (isChain_zip hright.isChain_apart).imp fun x y => parted_of_apart⟩
    intro y hy
    obtain ⟨first, more, hfirst⟩ := List.exists_cons_of_ne_nil hT.halves.right
    obtain rfl : (.half first, first) = y := by simpa [pairsOf, hfirst] using hy
    rw [hfirst] at hright
    apply parted_of_apart
    -- a bracket stands in front of anything
    have hany := (ha.bracket (by rw [hclose he]; rfl)).2
    exact apart_iff.2 ⟨hright.1, hany _, Token.Stands.alike hright.2.1 (.cut _)⟩
  · rw [rightPairs, if_neg he]
    exact List.isChain_singleton _

/-- One position: the token in front of it, the right half of a group that has ended, the left half of a
group that starts, and the token at it. -/
theorem isChain_step (hT : T.Legible) (ha : a.Stands (t.lead ++ (t.text ++ after)))
    (hclose : endsBefore gs i = true → a.kind = .closeBrace)
    (hblank : ∀ c ∈ t.lead, isSpace c = true) (ht : t.kind ≠ .eof → t.Stands [])
    (hopen : startsAt gs i = true → t.kind = .openBrace) (hlead : Widens t.lead lead)
    (hstart : startsAt gs i = true → lead = [] → ∀ first ∈ T.left.head?, joins a first = false)
    (hjoin : endsBefore gs i = true → ∀ next ∈ (weave T gs i (t.withLead lead :: us)).head?,
      next.lead = [] → ∀ last ∈ T.right.getLast?, joins last next = false) :
    (((Strand.own p a, a.withLead lead') :: rightPairs T gs i) ++
      (leftPairs T gs i lead ++ [ownPair T gs i t (t.withLead lead)])).IsChain (Parted T) := by
  have hspaces : ∀ c ∈ lead, isSpace c = true := isSpace_of_widens hlead hblank
  obtain ⟨first, more, hfirst⟩ := List.exists_cons_of_ne_nil hT.halves.left
  have hmem : first ∈ T.left.head? := by rw [hfirst]; rfl
  -- what comes behind the right half
  obtain ⟨y, hhead, hstrand, hweave, hstands⟩ : ∃ y : Strand × Token,
      (leftPairs T gs i lead ++ [ownPair T gs i t (t.withLead lead)]).head? = some y ∧
      (startsAt gs i = true ∧ y = (.half first, first.withLead lead) ∨
        startsAt gs i = false ∧ y = (.own i t, t.withLead lead)) ∧
      (weave T gs i (t.withLead lead :: us)).head? = some y.2 ∧ (y.2.kind ≠ .eof → y.2.Stands []) := by
    by_cases hs : startsAt gs i = true
    · refine ⟨(.half first, first.withLead lead), ?_, Or.inl ⟨hs, rfl⟩, ?_,
        fun _ => (hT.first_stands hmem).withLead lead⟩
      · simp [leftPairs, hs, pairsOf, hfirst, relead]
      · simp [weave, hs, hfirst, relead]
    · rw [Bool.not_eq_true] at hs
      refine ⟨(.own i t, t.withLead lead), ?_, Or.inr ⟨hs, rfl⟩, ?_, ht⟩
      · simp [leftPairs, hs, ownPair]
      · simp [weave, hs]
  have hylead : y.2.lead = lead := by rcases hstrand with ⟨-, rfl⟩ | ⟨-, rfl⟩ <;> rfl
  refine (isChain_rightPairs hT ha hclose).append (isChain_leftPairs hT hspaces ht hopen) ?_
  intro x hx y' hy'
  obtain rfl : y = y' := Option.some.inj (hhead.symm.trans hy')
  by_cases he : endsBefore gs i = true
  · -- the end of the right half
    obtain ⟨front, last, hright⟩ := (List.eq_nil_or_concat' T.right).resolve_left hT.halves.right
    have hlast : last ∈ T.right.getLast? := by rw [hright, List.getLast?_concat]; rfl
    obtain rfl : (.half last, last) = x := by
      rw [rightPairs_concat he hright, ← List.cons_append, List.getLast?_concat] at hx
      exact Option.some.inj hx
    refine parted_last hT hlast hstands (by rwa [hylead]) fun hnil => ?_
    exact hjoin he y.2 hweave hnil last hlast
  · -- the token in front
    obtain rfl : (.own p a, a.withLead lead') = x := by
      simpa [rightPairs, he] using hx
    rcases hstrand with ⟨hs, rfl⟩ | ⟨-, rfl⟩
    · have hkind := hopen hs
      apply parted_of_apart
      exact apart_first hT hmem ha (ht (by simp [hkind])) (by rw [hkind]; rfl) hlead hspaces
        fun hnil => hstart hs hnil first hmem
    · exact parted_own

end Seams

/-! ## All neighbours of a wrapped list -/

section Run

variable {T : Template} {gs : List Span} {i : Nat} {body us : List Token} {trail : Text}

/-- The neighbours of a wrapped list, from a token of it on. -/
theorem isChain_threads_cons (hT : T.Legible) (htrail : ∀ c ∈ trail, isSpace c = true)
    (hs : ∀ j t, (body ++ [eofToken trail])[j]? = some t → startsAt gs (i + j) = true →
      t.kind = .openBrace)
    (he : ∀ j t, (body ++ [eofToken trail])[j]? = some t → endsAt gs (i + j) = true →
      t.kind = .closeBrace)
    (hreads : Reads body trail) {p : Nat} {a : Token}
    (hfree : Unjoined T gs i (some a) (body ++ [eofToken trail]) us) (ha : a.Stands (print body ++ trail))
    (hclose : endsBefore gs i = true → a.kind = .closeBrace)
    (hjoin : endsBefore gs i = true → ∀ next ∈ (weave T gs i us).head?, next.lead = [] →
      ∀ last ∈ T.right.getLast?, joins last next = false) (lead : Text) :
    ((Strand.own p a, a.withLead lead) :: threads T gs i (body ++ [eofToken trail]) us).IsChain
      (Parted T) := by
  induction body generalizing i us p a lead with
  | nil =>
    cases hfree with
    | @cons _ _ _ lead' _ us hlead hstart hend hrest =>
      cases hrest with
      | nil =>
        have hstep := @isChain_step T gs i p a (eofToken trail) lead' lead [] [] hT
          (by simpa [eofToken] using ha) hclose htrail (fun hne => absurd rfl hne)
          (fun h => hs 0 _ rfl h) hlead (fun h hnil => hstart h hnil a rfl) hjoin
        rw [List.nil_append, threads_cons, threads_nil (he 0 _ rfl)]
        exact hstep
  | cons t body ih =>
    cases hfree with
    | @cons _ _ _ lead' _ us hlead hstart hend hrest =>
      obtain ⟨hblank, hstands, hbody⟩ := hreads
      have hstep := @isChain_step T gs i p a t lead' lead (print body ++ trail) us hT
        (by simpa [Token.print] using ha) hclose hblank (fun _ => hstands.alike (.cut _))
        (fun h => hs 0 _ rfl h) hlead (fun h hnil => hstart h hnil a rfl) hjoin
      have hnext := @ih (i + 1) us
        (fun j u hu => by simpa [Nat.add_assoc, Nat.add_comm 1] using hs (j + 1) u (by simpa using hu))
        (fun j u hu => by simpa [Nat.add_assoc, Nat.add_comm 1] using he (j + 1) u (by simpa using hu))
        hbody i t hrest hstands (fun h => he 0 t rfl h) hend
        (if startsAt gs i then T.payloadLead else lead')
      rw [← ownPair_withLead] at hnext
      rw [List.cons_append, threads_cons, ← List.append_assoc, ← List.cons_append]
      rw [← List.append_assoc] at hstep
      exact List.isChain_split.2 ⟨hstep, hnext⟩

/-- The neighbours of a wrapped list. -/
theorem isChain_threads (hT : T.Legible) (htrail : ∀ c ∈ trail, isSpace c = true)
    (hs : ∀ j t, (body ++ [eofToken trail])[j]? = some t → startsAt gs j = true → t.kind = .openBrace)
    (he : ∀ j t, (body ++ [eofToken trail])[j]? = some t → endsAt gs j = true → t.kind = .closeBrace)
    (hreads : Reads body trail) (hfree : Unjoined T gs 0 none (body ++ [eofToken trail]) us) :
    (threads T gs 0 (body ++ [eofToken trail]) us).IsChain (Parted T) := by
  -- no half of a group comes in front of the first left half
  have hnone : rightPairs T gs 0 = [] := rfl
  cases body with
  | nil =>
    cases hfree with
    | @cons _ _ _ lead _ _ hlead _ _ hrest =>
      cases hrest with
      | nil =>
        rw [List.nil_append, threads_cons, threads_nil (he 0 _ rfl), hnone]
        exact isChain_leftPairs hT (isSpace_of_widens hlead htrail) (fun hne => absurd rfl hne)
          (hs 0 _ rfl)
  | cons t body =>
    cases hfree with
    | @cons _ _ _ lead _ us hlead _ hend hrest =>
      obtain ⟨hblank, hstands, hbody⟩ := hreads
      have hfirst := @isChain_leftPairs T gs 0 t lead hT (isSpace_of_widens hlead hblank)
        (fun _ => hstands.alike (.cut _)) (hs 0 _ rfl)
      have hnext := @isChain_threads_cons T gs 1 body us trail hT htrail
        (fun j u hu => by simpa [Nat.add_comm 1] using hs (j + 1) u (by simpa using hu))
        (fun j u hu => by simpa [Nat.add_comm 1] using he (j + 1) u (by simpa using hu))
        hbody 0 t hrest hstands (he 0 t rfl) hend (if startsAt gs 0 then T.payloadLead else lead)
      rw [← ownPair_withLead] at hnext
      rw [List.cons_append, threads_cons, hnone, List.nil_append]
      exact List.isChain_split.2 ⟨hfirst, hnext⟩

end Run

section Wrapped

variable {m : KeyMatcher} {T : Template} {source : Text} {ts : List Token} {gs : List Span}

/-- Next to a half, neighbours are read back from their print. -/
def KeepsApart (T : Template) (ts : List Token) (gs : List Span) : Prop :=
  ((strands T gs ts).zip (wrap T ts gs)).IsChain fun x y =>
    x.1.isHalf = true ∨ y.1.isHalf = true → y.2.kind ≠ .eof → x.2.Apart y.2

/-- Wrapping the tag groups is weaving, and gives the strands. -/
theorem exists_threads_of_wrap (hT : T.HasHalves) (h : tagGroups m ts = .ok gs) :
    ∃ us, Unjoined T gs 0 none ts us ∧ contents us = contents ts ∧
      contents (wrap T ts gs) = (strands T gs ts).map Strand.content ∧
      (strands T gs ts).zip (wrap T ts gs) = threads T gs 0 ts us := by
  have hn : gs.Nodup := List.Nodup.of_map _ (nodup_first_tagGroups h)
  obtain ⟨hfirst, hlast, hin⟩ := ends_of_subset h (List.Subset.refl gs) hn
  obtain ⟨us, hfree, hwrap⟩ := wrap_eq_weave_unjoined hT.left hfirst hlast hin
  have hstrands : strands T gs ts = strandsFrom T gs 0 ts :=
    strands_eq_strandsFrom fun g hg => (hin g hg).1
  refine ⟨us, hfree, hfree.contents_eq, ?_, ?_⟩
  · rw [hstrands, hwrap]
    exact @contents_weave_eq T gs 0 ts us hfree.contents_eq
  · rw [hstrands, hwrap]
    rfl

theorem isChain_wrap (hT : T.Legible) (htokens : tokenize source = .ok ts)
    (h : tagGroups m ts = .ok gs) :
    ((strands T gs ts).zip (wrap T ts gs)).IsChain (Parted T) := by
  obtain ⟨body, trail, rfl, -, htrail, hreads⟩ := tokenize_eq_ok_iff.1 htokens
  obtain ⟨us, hfree, -, -, hthreads⟩ := exists_threads_of_wrap hT.halves h
  rw [hthreads]
  exact isChain_threads hT htrail (openBrace_of_startsAt h (List.Subset.refl gs))
    (closeBrace_of_endsAt h (List.Subset.refl gs)) hreads hfree

/-- A group in braces. -/
def bracedGroup : List Token :=
  ⟨.openBrace, ['{'], []⟩ :: (sampleGroup ['k'] ++ [⟨.closeBrace, ['}'], []⟩, eofToken []])

/-- The brace behind a group does not start with the end of a line. -/
theorem openEnded_eq_false_of_keepsApart (hT : T.HasHalves)
    (h : KeepsApart T bracedGroup [⟨1, 4⟩]) : ∀ last ∈ T.right.getLast?, last.openEnded = false := by
  intro last hlast
  have hgroups : tagGroups ⟨[], [['k']]⟩ bracedGroup = .ok [⟨1, 4⟩] := by decide
  obtain ⟨us, -, hus, -, hthreads⟩ := exists_threads_of_wrap hT hgroups
  -- the tokens up to the end of the group, and the brace behind it
  have hlen : us.length = 7 := by simpa [contents, bracedGroup, sampleGroup] using congrArg List.length hus
  obtain ⟨u, rest, hdrop, hu, -⟩ := exists_of_contents_cons
    (show contents (us.drop 5) = (⟨.closeBrace, ['}'], []⟩ : Token).content :: contents [eofToken []] by
      rw [contents_drop, hus]; rfl)
  obtain ⟨X, hX⟩ := @exists_threads_append T [⟨1, 4⟩] 0 (bracedGroup.take 5) (us.take 5)
    (by simp [hlen, bracedGroup, sampleGroup]) (bracedGroup.drop 5) (us.drop 5)
  rw [List.take_append_drop, List.take_append_drop, hdrop] at hX
  obtain ⟨front, hright⟩ := List.getLast?_eq_some_iff.1 hlast
  have hpairs := @rightPairs_concat T [⟨1, 4⟩] 5 front last rfl hright
  have hleft : leftPairs T [⟨1, 4⟩] 5 u.lead = [] := rfl
  rw [KeepsApart, hthreads, hX] at h
  have hchain := h.right_of_append
  change (threads T [⟨1, 4⟩] 5 [⟨.closeBrace, ['}'], []⟩, eofToken []] (u :: rest)).IsChain _ at hchain
  rw [threads_cons, hpairs, hleft, List.append_assoc, List.nil_append, List.singleton_append] at hchain
  have hseam := (List.isChain_append_cons_cons.1 hchain).2.1
  obtain ⟨hkind, htext⟩ := Prod.mk.inj hu
  have hapart : last.Apart u := hseam (Or.inl rfl) (by
    show u.kind ≠ .eof
    rw [hkind]
    decide)
  by_contra hopen
  have hbreak := hapart.breaksLine (by simpa using hopen)
  simp [Token.breaksLine, htext, Lexeme.isLineEnd] at hbreak

end Wrapped

/-- In a wrapped list, neighbours of which one comes from a half are read back from their print, unless a
right half ends with an open-ended token and is not followed by the end of a line.  So a template is kept
apart from everything it is put next to exactly if its right half does not end with such a token. -/
theorem wrap_keeps_apart_iff {rendered : Text} {T : Template}
    (hT : Template.compile rendered = .ok T) :
    (∀ m source ts gs, tokenize source = .ok ts → tagGroups m ts = .ok gs →
      contents (wrap T ts gs) = (strands T gs ts).map Strand.content ∧
        ((strands T gs ts).zip (wrap T ts gs)).IsChain (Parted T)) ∧
    ((∀ m source ts gs, tokenize source = .ok ts → tagGroups m ts = .ok gs → KeepsApart T ts gs) ↔
      ∀ last ∈ T.right.getLast?, last.openEnded = false) := by
  have hlegible := legible_of_compile hT
  refine ⟨?_, ?_, ?_⟩
  · intro m source ts gs htokens hgroups
    obtain ⟨us, -, -, hcontents, -⟩ := exists_threads_of_wrap hlegible.halves hgroups
    exact ⟨hcontents, isChain_wrap hlegible htokens hgroups⟩
  · intro hall
    refine openEnded_eq_false_of_keepsApart hlegible.halves ?_
    have htokens : tokenize "\x7b\x7bk=\x7d\x7d".toList = .ok bracedGroup := by decide +kernel
    exact hall ⟨[], [['k']]⟩ _ bracedGroup [⟨1, 4⟩] htokens (by decide)
  · intro hclosed m source ts gs htokens hgroups
    refine (isChain_wrap hlegible htokens hgroups).imp fun x y hparted hhalf heof => ?_
    by_contra hno
    obtain ⟨last, hlast, -, hopen, -⟩ := (hparted hhalf heof).1 hno
    rw [hclosed last hlast] at hopen
    exact absurd hopen (by decide)

/-- A wrapper of two words, around two groups side by side between words. -/
theorem wrap_keeps_apart_iff_words :
    ∃ T ts gs, Template.compile "if/*<box>*/\x7b\x7d/*</box>*/then".toList = .ok T ∧
      tokenize "a\x7bk=\x7d\x7bk=\x7db".toList = .ok ts ∧ tagGroups ⟨[], [['k']]⟩ ts = .ok gs ∧
      print (wrap T ts gs) = "a if\x7bk=\x7dthen if\x7bk=\x7dthen b".toList ∧ KeepsApart T ts gs := by
  have hT : Template.compile "if/*<box>*/\x7b\x7d/*</box>*/then".toList =
      .ok ⟨[⟨.identifier, "if".toList, []⟩], [⟨.identifier, "then".toList, []⟩], []⟩ := by decide +kernel
  have htokens : tokenize "a\x7bk=\x7d\x7bk=\x7db".toList =
      .ok (⟨.identifier, ['a'], []⟩ :: (sampleGroup ['k'] ++ (sampleGroup ['k'] ++
        [⟨.identifier, ['b'], []⟩, eofToken []]))) := by decide +kernel
  have hgroups : tagGroups ⟨[], [['k']]⟩ (⟨.identifier, ['a'], []⟩ :: (sampleGroup ['k'] ++
      (sampleGroup ['k'] ++ [⟨.identifier, ['b'], []⟩, eofToken []]))) = .ok [⟨1, 4⟩, ⟨5, 8⟩] := by
    decide +kernel
  have hapart := (wrap_keeps_apart_iff hT).2.2 (by decide) _ _ _ _ htokens hgroups
  exact ⟨_, _, _, hT, htokens, hgroups, by decide +kernel, hapart⟩

/-- A comment at the end of the right half swallows the brace behind the group. -/
theorem wrap_swallows_brace :
    ∃ T gs last next A B, Template.compile "x/*<box>*/\x7b\x7d/*</box>*/ # c".toList = .ok T ∧
      tokenize "\x7b\x7bk=\x7d\x7d".toList = .ok bracedGroup ∧
      tagGroups ⟨[], [['k']]⟩ bracedGroup = .ok gs ∧ T.right.getLast? = some last ∧
      wrap T bracedGroup gs = A ++ last :: next :: B ∧ ¬ last.Apart next ∧
      tokenize (last.text ++ next.print) = .ok [⟨.comment, "# c \x7d".toList, []⟩, eofToken []] := by
  refine ⟨⟨[⟨.identifier, ['x'], []⟩], [⟨.comment, "# c".toList, [' ']⟩], []⟩, [⟨1, 4⟩],
    ⟨.comment, "# c".toList, [' ']⟩, ⟨.closeBrace, ['}'], [' ']⟩,
    ⟨.openBrace, ['{'], []⟩ :: ⟨.identifier, ['x'], []⟩ :: sampleGroup ['k'], [eofToken []],
    by decide +kernel, by decide +kernel, by decide, rfl, by decide +kernel, ?_, by decide +kernel⟩
  unfold Token.Apart
  decide +kernel

end TagBox
