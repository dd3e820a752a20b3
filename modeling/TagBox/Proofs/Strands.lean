import TagBox.Proofs.Migration

/-!
# What a wrapped list is made of

Wrapping is a script of insertions from the highest position down.  Read from the front it is one pass:
at every position comes the right half of a group that has just ended, then the left half of a group
that starts, then the token itself.  `strands` is that pass, and it says of each token whether it comes
from a half or from the list that is wrapped.

* `strands` — the pass.
* `wrap_perm` — the order in which groups are given makes no difference.
* `wrap_eq_strands` — wrapping gives the strands, and what it does to layout.
-/

namespace TagBox

/-- A token of a wrapped list: one of a half, or one of the list itself with its position there. -/
inductive Strand where
  | half (t : Token)
  | own (p : Nat) (t : Token)
  deriving DecidableEq, Repr

/-- The token of a strand without its layout. -/
def Strand.content : Strand → Kind × Text
  | .half t => t.content
  | .own _ t => t.content

/-- What comes at position `p`: the right half if a group ends right in front of it, the left half if a
group starts at it, and the token at it. -/
def strandsAt (T : Template) (groups : List Span) (tokens : List Token) (p : Nat) : List Strand :=
  (if endsBefore groups p then T.right.map .half else []) ++
    ((if startsAt groups p then T.left.map .half else []) ++ (tokens[p]?.map (.own p)).toList)

/-- The tokens with a wrapper around each group, position by position up to the end. -/
def strands (T : Template) (groups : List Span) (tokens : List Token) : List Strand :=
  (List.range (tokens.length + 1)).flatMap (strandsAt T groups tokens)

/-- The tokens that stand where the strands have a token of the list itself. -/
def ownTokens : List Strand → List Token → List Token
  | .own _ _ :: rest, u :: us => u :: ownTokens rest us
  | .half _ :: rest, _ :: us => ownTokens rest us
  | _, _ => []

/-! ## Groups in any order -/

section Order

variable {m : KeyMatcher} {T : Template} {ts : List Token} {found gs gs' : List Span}

theorem sweep_congr {α : Type} {left right : Nat → α} {i : Nat}
    (hs : ∀ j, startsAt gs' j = startsAt gs j) (he : ∀ j, endsAt gs' j = endsAt gs j) :
    sweep left right gs' i ts = sweep left right gs i ts := by
  induction ts generalizing i with
  | nil => rfl
  | cons t ts ih => rw [sweep, sweep, ih, hs, he]

/-- The order in which groups are given makes no difference, layout included. -/
theorem wrap_perm (h : tagGroups m ts = .ok found) (hsub : gs ⊆ found) (hn : gs.Nodup)
    (hperm : gs'.Perm gs) : wrap T ts gs' = wrap T ts gs := by
  obtain ⟨hfirst, hlast, hin⟩ := ends_of_subset h hsub hn
  obtain ⟨hfirst', hlast', hin'⟩ := ends_of_subset h (fun g hg => hsub (hperm.subset hg))
    (hperm.nodup_iff.2 hn)
  have hs : ∀ j, startsAt gs' j = startsAt gs j := by
    intro j
    rw [Bool.eq_iff_iff, startsAt_iff, startsAt_iff]
    simp only [hperm.mem_iff]
  have he : ∀ j, endsAt gs' j = endsAt gs j := by
    intro j
    rw [Bool.eq_iff_iff, endsAt_iff, endsAt_iff]
    simp only [hperm.mem_iff]
  rw [wrap, wrap, sortBy_insertionsOf hfirst hlast hin, sortBy_insertionsOf hfirst' hlast' hin',
    insertions, insertions, sweep_congr hs he]

end Order

/-! ## Strands and woven tokens -/

/-- The strands of tokens that start at position `i`. -/
def strandsFrom (T : Template) (groups : List Span) (i : Nat) : List Token → List Strand
  | [] => if endsBefore groups i then T.right.map .half else []
  | t :: rest =>
    (if endsBefore groups i then T.right.map .half else []) ++
      ((if startsAt groups i then T.left.map .half else []) ++
        .own i t :: strandsFrom T groups (i + 1) rest)

/-- The tokens, which start at position `i`, with the lead of a payload where a group starts. -/
def paid (T : Template) (groups : List Span) (i : Nat) : List Token → List Token
  | [] => []
  | t :: rest =>
    (if startsAt groups i then t.withLead T.payloadLead else t) :: paid T groups (i + 1) rest

section Strands

variable {T : Template} {gs : List Span} {i : Nat} {ts us A B half : List Token} {ss : List Strand}

/-- The pass over all positions follows the tokens. -/
theorem flatMap_strandsAt (hcut : ts = A ++ B) (hin : ∀ g ∈ gs, g.first < ts.length) :
    (List.range' A.length (B.length + 1)).flatMap (strandsAt T gs ts) = strandsFrom T gs A.length B := by
  induction B generalizing A with
  | nil =>
    -- no group starts behind the last token
    have hs : startsAt gs A.length = false := by
      by_contra hne
      obtain ⟨g, hg, heq⟩ := startsAt_iff.1 (by simpa using hne)
      have := hin g hg
      rw [hcut, List.append_nil] at this
      omega
    have hnone : ts[A.length]? = none := by simp [hcut]
    simp [strandsAt, strandsFrom, hs, hnone]
  | cons t B ih =>
    have hsome : ts[A.length]? = some t := by simp [hcut]
    have hrest := @ih (A ++ [t]) (by simp [hcut])
    rw [List.length_append, List.length_singleton] at hrest
    rw [List.length_cons, List.range'_succ, List.flatMap_cons, hrest, strandsFrom, strandsAt, hsome]
    simp

theorem strands_eq_strandsFrom (hin : ∀ g ∈ gs, g.first < ts.length) :
    strands T gs ts = strandsFrom T gs 0 ts := by
  rw [strands, List.range_eq_range']
  exact flatMap_strandsAt (A := []) rfl hin

/-- Layout aside, woven tokens are the strands. -/
theorem contents_weave_eq (h : contents us = contents ts) :
    contents ((if endsBefore gs i then T.right else []) ++ weave T gs i us) =
      (strandsFrom T gs i ts).map Strand.content := by
  have hhalf : ∀ half : List Token, (half.map Strand.half).map Strand.content = contents half := by
    intro half
    rw [List.map_map]
    rfl
  induction ts generalizing us i with
  | nil =>
    obtain rfl : us = [] := by simpa [contents] using h
    by_cases he : endsBefore gs i = true <;> simp [strandsFrom, weave, he, hhalf]
  | cons t ts ih =>
    obtain ⟨u, us, rfl, hu, hus⟩ := exists_of_contents_cons h
    have hrest := @ih (i + 1) us hus
    rw [endsBefore] at hrest
    rw [strandsFrom, weave, contents_append, contents_append, hrest]
    by_cases he : endsBefore gs i = true <;> by_cases hs : startsAt gs i = true <;>
      simp [he, hs, hhalf, Strand.content, hu]

theorem ownTokens_half (half : List Token) (h : us.length = half.length) :
    ownTokens (half.map .half ++ ss) (us ++ ts) = ownTokens ss ts := by
  induction half generalizing us with
  | nil =>
    obtain rfl : us = [] := List.length_eq_zero_iff.1 h
    rfl
  | cons t half ih =>
    cases us with
    | nil => simp at h
    | cons u us => exact ih (by simpa using h)

/-- Without the tokens of halves, woven tokens are the tokens themselves, with the lead of a payload
where a group starts. -/
theorem ownTokens_weave (h : contents us = contents ts) :
    ownTokens (strandsFrom T gs i ts)
      ((if endsBefore gs i then T.right else []) ++ weave T gs i us) = paid T gs i us := by
  induction ts generalizing us i with
  | nil =>
    obtain rfl : us = [] := by simpa [contents] using h
    by_cases he : endsBefore gs i = true
    · simpa [strandsFrom, weave, he, paid, ownTokens] using
        @ownTokens_half [] T.right [] T.right rfl
    · simp [strandsFrom, weave, he, paid, ownTokens]
  | cons t ts ih =>
    obtain ⟨u, us, rfl, -, hus⟩ := exists_of_contents_cons h
    have hrest := @ih (i + 1) us hus
    rw [endsBefore] at hrest
    have hright : ∀ ss vs, ownTokens ((if endsBefore gs i then T.right.map .half else []) ++ ss)
        ((if endsBefore gs i then T.right else []) ++ vs) = ownTokens ss vs := by
      intro ss vs
      by_cases he : endsBefore gs i = true
      · rw [if_pos he, if_pos he]
        exact ownTokens_half T.right rfl
      · rw [if_neg he, if_neg he]
        rfl
    rw [strandsFrom, hright, paid, weave]
    by_cases hs : startsAt gs i = true
    · rw [if_pos hs, if_pos hs, if_pos hs, List.append_assoc,
        ownTokens_half T.left (length_relead _ _)]
      exact congrArg _ hrest
    · rw [if_neg hs, if_neg hs, if_neg hs]
      exact congrArg _ hrest

theorem contents_paid : contents (paid T gs i us) = contents us := by
  induction us generalizing i with
  | nil => rfl
  | cons u us ih =>
    rw [paid, contents_cons, contents_cons, ih]
    by_cases hs : startsAt gs i = true <;> simp [hs]

/-- Which leads differ: those where a group starts, and empty ones right behind a group. -/
theorem lead_paid {p : Nat} {t u : Token} (h : Respaced gs i ts us) (ht : ts[p]? = some t)
    (hu : (paid T gs i us)[p]? = some u) :
    (startsAt gs (i + p) = true → u.lead = T.payloadLead) ∧
      (startsAt gs (i + p) = false → u.lead ≠ t.lead →
        endsBefore gs (i + p) = true ∧ t.lead = [] ∧ u.lead = [' ']) := by
  induction h generalizing p with
  | nil => simp at ht
  | @cons i t' lead ts us hlead hwhere h ih =>
    cases p with
    | zero =>
      obtain rfl : t' = t := by simpa using ht
      by_cases hs : startsAt gs i = true
      · obtain rfl : t'.withLead T.payloadLead = u := by
          simpa [paid, hs, Token.withLead] using hu
        exact ⟨fun _ => rfl, fun hno => by simp [hs] at hno⟩
      · obtain rfl : t'.withLead lead = u := by simpa [paid, hs] using hu
        refine ⟨fun hyes => absurd hyes hs, fun _ hne => ?_⟩
        rcases hlead with rfl | ⟨hnil, hspace⟩
        · exact absurd rfl hne
        · exact ⟨(hwhere hne).resolve_left hs, hnil, hspace⟩
    | succ p =>
      have hidx : i + (p + 1) = i + 1 + p := by omega
      rw [hidx]
      exact ih (by simpa using ht) (by simpa [paid] using hu)

end Strands

/-! ## Wrapping in one pass -/

section Wrapping

/-- Wrapping some of the tag groups, given in any order, is one pass: at each position the right half of
a group that has just ended, the left half of one that starts, and the token.  Without the halves these
are the tokens that have been wrapped.  Of their leads only those of opening braces of groups are
replaced, by the lead of the payload; besides, a token right behind a group may get one space if it had
no lead. -/
theorem wrap_eq_strands {m : KeyMatcher} {T : Template} {ts : List Token} {found gs : List Span}
    (hT : T.HasHalves) (h : tagGroups m ts = .ok found) (hsub : gs ⊆ found) (hn : gs.Nodup) :
    contents (wrap T ts gs) = (strands T gs ts).map Strand.content ∧
    (∀ gs', gs'.Perm gs → wrap T ts gs' = wrap T ts gs) ∧
    contents (ownTokens (strands T gs ts) (wrap T ts gs)) = contents ts ∧
    ∀ p t u, ts[p]? = some t → (ownTokens (strands T gs ts) (wrap T ts gs))[p]? = some u →
      (startsAt gs p = true → u.lead = T.payloadLead) ∧
      (startsAt gs p = false → u.lead ≠ t.lead →
        endsBefore gs p = true ∧ t.lead = [] ∧ u.lead = [' ']) := by
  obtain ⟨hfirst, hlast, hin⟩ := ends_of_subset h hsub hn
  obtain ⟨us, hus, -, hwrap⟩ := wrap_eq_weave hT.left hfirst hlast hin
  have hstrands : strands T gs ts = strandsFrom T gs 0 ts :=
    strands_eq_strandsFrom fun g hg => (hin g hg).1
  -- in front of the first token no group has ended
  have hown : ownTokens (strands T gs ts) (wrap T ts gs) = paid T gs 0 us := by
    rw [hstrands, hwrap]
    exact @ownTokens_weave T gs 0 ts us hus.contents_eq
  refine ⟨?_, fun gs' hperm => wrap_perm h hsub hn hperm, ?_, ?_⟩
  · rw [hstrands, hwrap]
    exact @contents_weave_eq T gs 0 ts us hus.contents_eq
  · rw [hown, contents_paid, hus.contents_eq]
  · intro p t u ht hu
    rw [hown] at hu
    simpa using lead_paid hus ht hu

/-- A wrapper that ends with a word. -/
def guarded : Template where
  left := [⟨.openParen, ['('], []⟩]
  right := [⟨.closeParen, [')'], []⟩, ⟨.identifier, "if".toList, [' ']⟩, ⟨.identifier, ['c'], [' ']⟩]
  payloadLead := [' ']

/-- Two groups side by side and a word behind them. -/
def twoGroups : List Token :=
  sampleGroup ['k'] ++ (sampleGroup ['k'] ++ [⟨.identifier, ['x'], []⟩])

/-- The groups are given in reverse order, and the word gets a space. -/
theorem wrap_eq_strands_sample :
    contents (wrap guarded twoGroups [⟨4, 7⟩, ⟨0, 3⟩]) =
      (strands guarded [⟨4, 7⟩, ⟨0, 3⟩] twoGroups).map Strand.content ∧
    wrap guarded twoGroups [⟨0, 3⟩, ⟨4, 7⟩] = wrap guarded twoGroups [⟨4, 7⟩, ⟨0, 3⟩] ∧
    contents (ownTokens (strands guarded [⟨4, 7⟩, ⟨0, 3⟩] twoGroups)
      (wrap guarded twoGroups [⟨4, 7⟩, ⟨0, 3⟩])) = contents twoGroups ∧
    print (wrap guarded twoGroups [⟨4, 7⟩, ⟨0, 3⟩]) = "( {k=}) if c( {k=}) if c x".toList := by
  obtain ⟨hcontents, hperm, hown, -⟩ := @wrap_eq_strands ⟨[], [['k']]⟩ guarded twoGroups
    [⟨0, 3⟩, ⟨4, 7⟩] [⟨4, 7⟩, ⟨0, 3⟩] ⟨by decide, by decide⟩ (by decide) (by decide) (by decide)
  exact ⟨hcontents, hperm [⟨0, 3⟩, ⟨4, 7⟩] (List.Perm.swap _ _ _), hown, by decide +kernel⟩

end Wrapping

end TagBox
