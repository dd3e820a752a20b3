import TagBox.Proofs.Hugging
import Mathlib.Data.List.Nodup

/-!
# Wrapping in one pass

`weave` goes over the tokens once and puts the left half of a template in front of every token at which
a group starts and the right half behind every token at which one ends.  What stood at position `p`
then stands at `place p`.  The groups of the woven tokens are the old groups at their new places,
provided that the template is neutral: its braces nest, it holds no marked key, and it does not turn a
key in front of it into a marked one.

* `weave`, `reach`, `place` — the pass, and where it takes tokens to.
* `Paired` — the groups are brace pairs; stated so that it can be followed token by token.
* `tagGroups_weave` — the groups of woven tokens.
* `nests_weave` — brackets that nest still nest, and no line ends outside of them.
-/

namespace TagBox

/-- Does a group start at the position? -/
def startsAt (groups : List Span) (i : Nat) : Bool :=
  groups.any fun g => g.first == i

/-- Does a group end at the position? -/
def endsAt (groups : List Span) (i : Nat) : Bool :=
  groups.any fun g => g.last == i

/-- The tokens, which start at position `i`, with a wrapper around each group.  The left half takes
over the lead of its group. -/
def weave (T : Template) (groups : List Span) (i : Nat) : List Token → List Token
  | [] => []
  | t :: rest =>
    (if startsAt groups i then relead t.lead T.left ++ [t.withLead T.payloadLead] else [t]) ++
      ((if endsAt groups i then T.right else []) ++ weave T groups (i + 1) rest)

/-- Number of tokens put in front of the one at position `i`. -/
def front (T : Template) (groups : List Span) (i : Nat) : Nat :=
  if startsAt groups i then T.left.length else 0

/-- Number of tokens put behind the one at position `i`. -/
def back (T : Template) (groups : List Span) (i : Nat) : Nat :=
  if endsAt groups i then T.right.length else 0

/-- Number of woven tokens that come from the positions before `i`. -/
def reach (T : Template) (groups : List Span) : Nat → Nat
  | 0 => 0
  | i + 1 => reach T groups i + front T groups i + 1 + back T groups i

/-- Where the token at position `i` stands in the woven tokens. -/
def place (T : Template) (groups : List Span) (i : Nat) : Nat :=
  reach T groups i + front T groups i

/-- Where a group stands in the woven tokens. -/
def placed (T : Template) (groups : List Span) (g : Span) : Span :=
  ⟨place T groups g.first, place T groups g.last⟩

section Weave

variable {T : Template} {gs : List Span} {i : Nat} {t : Token} {ts us : List Token}

theorem startsAt_iff : startsAt gs i = true ↔ ∃ g ∈ gs, g.first = i := by
  simp [startsAt]

theorem endsAt_iff : endsAt gs i = true ↔ ∃ g ∈ gs, g.last = i := by
  simp [endsAt]

@[simp]
theorem length_relead (lead : Text) (ts : List Token) : (relead lead ts).length = ts.length := by
  cases ts <;> rfl

@[simp]
theorem contents_relead (lead : Text) (ts : List Token) : contents (relead lead ts) = contents ts := by
  cases ts <;> simp [relead]

theorem weave_start (hs : startsAt gs i = true) (he : endsAt gs i = false) :
    weave T gs i (t :: ts) =
      relead t.lead T.left ++ t.withLead T.payloadLead :: weave T gs (i + 1) ts := by
  simp [weave, hs, he]

theorem weave_end (hs : startsAt gs i = false) (he : endsAt gs i = true) :
    weave T gs i (t :: ts) = t :: (T.right ++ weave T gs (i + 1) ts) := by
  simp [weave, hs, he]

theorem weave_plain (hs : startsAt gs i = false) (he : endsAt gs i = false) :
    weave T gs i (t :: ts) = t :: weave T gs (i + 1) ts := by
  simp [weave, hs, he]

theorem weave_append (ts us : List Token) :
    weave T gs i (ts ++ us) = weave T gs i ts ++ weave T gs (i + ts.length) us := by
  induction ts generalizing i with
  | nil => rfl
  | cons t ts ih =>
    have hstep : i + (t :: ts).length = i + 1 + ts.length := by
      rw [List.length_cons]
      omega
    rw [hstep, List.cons_append, weave, weave, ih]
    simp only [List.append_assoc]

theorem reach_add_length_weave (i : Nat) (ts : List Token) :
    reach T gs i + (weave T gs i ts).length = reach T gs (i + ts.length) := by
  induction ts generalizing i with
  | nil => rfl
  | cons t ts ih =>
    have hstep : i + (t :: ts).length = i + 1 + ts.length := by
      rw [List.length_cons]
      omega
    rw [hstep, ← ih, reach, weave, front, back]
    by_cases hs : startsAt gs i = true <;> by_cases he : endsAt gs i = true <;> simp [hs, he] <;> omega

theorem reach_succ (T : Template) (gs : List Span) (i : Nat) :
    reach T gs (i + 1) = place T gs i + 1 + back T gs i := rfl

theorem reach_le_place (T : Template) (gs : List Span) (i : Nat) : reach T gs i ≤ place T gs i :=
  Nat.le_add_right _ _

theorem reach_succ_le {j k : Nat} (h : j < k) : reach T gs (j + 1) ≤ reach T gs k := by
  induction h with
  | refl => exact Nat.le_refl _
  | @step k _ ih =>
    rw [reach_succ T gs k]
    have := reach_le_place T gs k
    omega

/-- Weaving does not look at layout. -/
theorem contents_weave_congr (h : contents ts = contents us) :
    contents (weave T gs i ts) = contents (weave T gs i us) := by
  induction ts generalizing us i with
  | nil =>
    obtain rfl : us = [] := by simpa [contents] using h.symm
    rfl
  | cons t ts ih =>
    obtain ⟨u, us, rfl, hu, hus⟩ := exists_of_contents_cons h.symm
    simp only [weave, contents_append, ih hus.symm]
    by_cases hs : startsAt gs i = true <;> simp [hs, hu]

/-- Where no group starts or ends, nothing is woven in. -/
theorem weave_eq_self (h : ∀ j, i ≤ j → j < i + ts.length → startsAt gs j = false ∧ endsAt gs j = false) :
    weave T gs i ts = ts := by
  induction ts generalizing i with
  | nil => rfl
  | cons t ts ih =>
    obtain ⟨hs, he⟩ := h i (Nat.le_refl i) (by simp)
    have hrest : weave T gs (i + 1) ts = ts :=
      ih fun j hj hj' => h j (by omega) (by rw [List.length_cons]; omega)
    rw [weave_plain hs he, hrest]

end Weave

/-! ## Groups that are brace pairs -/

/-- Of the brace pairs that close in tokens from position `i` on, either both ends belong to a group or
none, and groups have no ends elsewhere. -/
structure Paired (gs : List Span) (opened : List Nat) (i : Nat) (ts : List Token) : Prop where
  agree : ∀ g ∈ pairsFrom opened i ts, startsAt gs g.first = endsAt gs g.last
  starts : ∀ j, i ≤ j → startsAt gs j = true → ∃ g ∈ pairsFrom opened i ts, g.first = j
  ends : ∀ j, i ≤ j → endsAt gs j = true → ∃ g ∈ pairsFrom opened i ts, g.last = j
  below : ∀ o ∈ opened, o < i

namespace Paired

variable {gs : List Span} {opened : List Nat} {i : Nat} {t : Token} {ts : List Token}

/-- Some of the brace pairs of a list. -/
theorem of_subset (h : gs ⊆ pairsFrom [] 0 ts) : Paired gs [] 0 ts where
  agree g hg := by
    rw [Bool.eq_iff_iff, startsAt_iff, endsAt_iff]
    constructor
    · rintro ⟨g', hg', heq⟩
      have : g' = g := List.inj_on_of_nodup_map (nodup_first_pairsFrom (by simp) (by simp)) (h hg') hg heq
      exact ⟨g, this ▸ hg', rfl⟩
    · rintro ⟨g', hg', heq⟩
      have : g' = g := List.inj_on_of_nodup_map (nodup_last_pairsFrom (by simp)) (h hg') hg heq
      exact ⟨g, this ▸ hg', rfl⟩
  starts j _ hj := by
    obtain ⟨g, hg, heq⟩ := startsAt_iff.1 hj
    exact ⟨g, h hg, heq⟩
  ends j _ hj := by
    obtain ⟨g, hg, heq⟩ := endsAt_iff.1 hj
    exact ⟨g, h hg, heq⟩
  below := by simp

theorem open_step (h : Paired gs opened i (t :: ts)) (ht : t.kind = .openBrace) :
    endsAt gs i = false ∧ Paired gs (i :: opened) (i + 1) ts := by
  have hbelow : ∀ o ∈ i :: opened, o < i + 1 := by
    intro o ho
    rcases List.mem_cons.1 ho with rfl | ho
    · omega
    · exact Nat.lt_succ_of_lt (h.below o ho)
  have hpairs := @pairsFrom_open opened i t ts ht
  refine ⟨?_, ?_, ?_, ?_, hbelow⟩
  · by_contra he
    obtain ⟨g, hg, heq⟩ := h.ends i (Nat.le_refl i) (by simpa using he)
    rw [hpairs] at hg
    have := (mem_pairsFrom hbelow hg).2.2.1
    omega
  · exact hpairs ▸ h.agree
  · exact fun j hj hs => hpairs ▸ h.starts j (by omega) hs
  · exact fun j hj he => hpairs ▸ h.ends j (by omega) he

theorem close_step {o : Nat} (h : Paired gs (o :: opened) i (t :: ts)) (ht : t.kind = .closeBrace) :
    startsAt gs i = false ∧ startsAt gs o = endsAt gs i ∧ Paired gs opened (i + 1) ts := by
  have hbelow : ∀ o' ∈ opened, o' < i + 1 := fun o' ho' =>
    Nat.lt_succ_of_lt (h.below o' (List.mem_cons_of_mem o ho'))
  have ho : o < i := h.below o (by simp)
  have hpairs := @pairsFrom_close opened i t ts o ht
  have hagree := h.agree
  rw [hpairs] at hagree
  refine ⟨?_, hagree ⟨o, i⟩ (by simp), fun g hg => hagree g (by simp [hg]), ?_, ?_, hbelow⟩
  · by_contra hs
    obtain ⟨g, hg, heq⟩ := h.starts i (Nat.le_refl i) (by simpa using hs)
    rw [hpairs] at hg
    rcases List.mem_cons.1 hg with rfl | hg
    · change o = i at heq
      omega
    · rcases (mem_pairsFrom hbelow hg).1 with hin | hle
      · have := h.below _ (List.mem_cons_of_mem o hin)
        omega
      · omega
  · intro j hj hs
    obtain ⟨g, hg, heq⟩ := h.starts j (by omega) hs
    rw [hpairs] at hg
    rcases List.mem_cons.1 hg with rfl | hg
    · change o = j at heq
      omega
    · exact ⟨g, hg, heq⟩
  · intro j hj he
    obtain ⟨g, hg, heq⟩ := h.ends j (by omega) he
    rw [hpairs] at hg
    rcases List.mem_cons.1 hg with rfl | hg
    · change i = j at heq
      omega
    · exact ⟨g, hg, heq⟩

theorem plain_step (h : Paired gs opened i (t :: ts)) (ht : t.kind.isBrace = false) :
    startsAt gs i = false ∧ endsAt gs i = false ∧ Paired gs opened (i + 1) ts := by
  have hbelow : ∀ o ∈ opened, o < i + 1 := fun o ho => Nat.lt_succ_of_lt (h.below o ho)
  have hpairs := @pairsFrom_plain opened i t ts ht
  refine ⟨?_, ?_, hpairs ▸ h.agree, fun j hj hs => hpairs ▸ h.starts j (by omega) hs,
    fun j hj he => hpairs ▸ h.ends j (by omega) he, hbelow⟩
  · by_contra hs
    obtain ⟨g, hg, heq⟩ := h.starts i (Nat.le_refl i) (by simpa using hs)
    rw [hpairs] at hg
    rcases (mem_pairsFrom hbelow hg).1 with hin | hle
    · have := h.below _ hin
      omega
    · omega
  · by_contra he
    obtain ⟨g, hg, heq⟩ := h.ends i (Nat.le_refl i) (by simpa using he)
    rw [hpairs] at hg
    have := (mem_pairsFrom hbelow hg).2.2.1
    omega

end Paired

/-! ## Groups of woven tokens -/

/-- The template adds nothing to the groups of the tokens it is put into. -/
structure Template.Neutral (m : KeyMatcher) (T : Template) : Prop extends T.HasHalves where
  nests : BracesNest (T.left ++ T.right)
  keyless : Keyless m (T.left ++ T.right)
  /-- A key in front of the left half is not marked by it. -/
  unassigned : assigned T.left = false

namespace Template.Neutral

variable {m : KeyMatcher} {T : Template}

theorem keyless_left (h : T.Neutral m) : Keyless m T.left :=
  fun t ht => h.keyless t (List.mem_append_left _ ht)

theorem keyless_right (h : T.Neutral m) : Keyless m T.right :=
  fun t ht => h.keyless t (List.mem_append_right _ ht)

/-- What the left half opens the right half closes. -/
theorem halves (h : T.Neutral m) :
    ∃ opened, braceNest [] T.left = some opened ∧ braceNest opened T.right = some [] := by
  have hnest : braceNest [] (T.left ++ T.right) = some [] := h.nests
  rw [braceNest_append] at hnest
  exact Option.bind_eq_some_iff.1 hnest

end Template.Neutral

section Assigned

variable {T : Template} {gs : List Span} {t : Token} {ts us : List Token}

theorem assigned_append (h : assigned ts = false) (ht : t.kind.isBrace = true) :
    assigned (ts ++ t :: us) = false := by
  induction ts with
  | nil =>
    have hgap : t.isGap = false := by
      cases hk : t.kind <;> simp_all [Token.isGap, Kind.isBrace]
    have hsign : (t.kind == .equals || t.kind == .colon) = false := by
      cases hk : t.kind <;> simp_all [Kind.isBrace]
    simp [assigned, hgap, hsign]
  | cons u ts ih =>
    unfold assigned at h ih ⊢
    by_cases hgap : u.isGap = true
    · simpa [hgap] using ih (by simpa [hgap] using h)
    · simpa [hgap] using h

/-- Keys keep their sign. -/
theorem assigned_weave {opened : List Nat} {i : Nat} (hT : assigned T.left = false)
    (h : Paired gs opened i ts) : assigned (weave T gs i ts) = assigned ts := by
  -- a brace is no sign, and a left half only comes in front of one
  have hbrace : ∀ (i : Nat) {t : Token} {ts : List Token}, t.kind.isBrace = true →
      assigned (weave T gs i (t :: ts)) = assigned (t :: ts) := by
    intro i t ts ht
    rw [show assigned (t :: ts) = false from @assigned_append t [] ts rfl ht, weave]
    by_cases hs : startsAt gs i = true
    · rw [if_pos hs, List.append_assoc]
      exact assigned_append ((assigned_congr (contents_relead _ _)).trans hT) ht
    · rw [if_neg hs]
      exact @assigned_append t [] _ rfl ht
  induction ts generalizing i with
  | nil => rfl
  | cons t ts ih =>
    by_cases ht : t.kind.isBrace = true
    · exact hbrace i ht
    · obtain ⟨hs, he, h'⟩ := h.plain_step (by simpa using ht)
      have hrest := ih h'
      rw [weave_plain hs he]
      unfold assigned at hrest ⊢
      by_cases hgap : t.isGap = true
      · simpa [hgap] using hrest
      · simp [hgap]

end Assigned

/-- Frames of the woven tokens for frames of the tokens: the same braces at their new places, each
with the frames of its wrapper around it. -/
inductive Lifted (T : Template) (gs : List Span) (n : Nat) : List Frame → List Frame → Prop
  | nil : Lifted T gs n [] []
  | cons (f : Frame) {new fs fs' : List Frame}
      (hlen : new.length = if startsAt gs f.opening then n else 0)
      (hnew : ∀ f' ∈ new, f'.marked = false) (h : Lifted T gs n fs fs') :
      Lifted T gs n (f :: fs) (⟨place T gs f.opening, f.text, f.marked⟩ :: (new ++ fs'))

section Lifted

variable {m : KeyMatcher} {T : Template} {gs found : List Span} {n i : Nat} {t : Token}
  {ts : List Token} {fs fs' : List Frame}

theorem Lifted.markInnermost (h : Lifted T gs n fs fs') :
    Lifted T gs n (markInnermost fs) (markInnermost fs') := by
  cases h with
  | nil => exact .nil
  | cons f hlen hnew h => exact .cons { f with marked := true } hlen hnew h

theorem groupsFrom_weave (hT : T.Neutral m) {opened : List Kind}
    (hopen : braceNest [] T.left = some opened) (hclose : braceNest opened T.right = some [])
    (hp : Paired gs (fs.map Frame.opening) i ts) (hl : Lifted T gs opened.length fs fs')
    (h : groupsFrom m fs i ts = .ok found) :
    groupsFrom m fs' (reach T gs i) (weave T gs i ts) = .ok (found.map (placed T gs)) := by
  induction ts generalizing fs fs' i found with
  | nil =>
    obtain ⟨rfl, rfl⟩ := groupsFrom_nil h
    cases hl
    rfl
  | cons t ts ih =>
    rcases groupsFrom_cons_cases h with ⟨ho, h'⟩ | ⟨hc, f, around, later, rfl, h', rfl⟩ | ⟨hpl, h'⟩
    · obtain ⟨he, hp'⟩ := hp.open_step ho
      by_cases hs : startsAt gs i = true
      · obtain ⟨new, hlen, hnew, hrun⟩ := @groupsFrom_keyless m (relead t.lead T.left) [] opened []
          (reach T gs i) (hT.keyless_left.of_contents_eq (contents_relead _ _))
          ((braceNest_congr (contents_relead _ _)).trans hopen) rfl (by simp)
        have hrest := @ih found (i + 1) (⟨i, t.text, false⟩ :: fs) _ hp'
          (.cons ⟨i, t.text, false⟩ (by simpa [hs] using hlen) hnew hl) h'
        rw [weave_start hs he]
        refine (hrun fs' _).trans ?_
        rw [groupsFrom_open (by simpa using ho)]
        simpa [place, front, back, reach, hs, he] using hrest
      · have hrest := @ih found (i + 1) (⟨i, t.text, false⟩ :: fs) _ hp'
          (@Lifted.cons T gs _ ⟨i, t.text, false⟩ [] fs fs' (by simp [hs]) (by simp) hl) h'
        rw [weave_plain (by simpa using hs) he, groupsFrom_open ho]
        simpa [place, front, back, reach, hs, he] using hrest
    · obtain ⟨hs, hagree, hp'⟩ := hp.close_step hc
      cases hl with
      | @cons _ new _ around' hlen hnew hl =>
        have hrest := ih hp' hl h'
        have hbehind : groupsFrom m (new ++ around') (reach T gs i + 1)
            ((if endsAt gs i then T.right else []) ++ weave T gs (i + 1) ts) =
              .ok (later.map (placed T gs)) := by
          by_cases he : endsAt gs i = true
          · obtain ⟨new', hlen', -, hrun⟩ := @groupsFrom_keyless m T.right opened [] new
              (reach T gs i + 1) hT.keyless_right hclose (by simpa [hagree, he] using hlen) hnew
            obtain rfl : new' = [] := List.length_eq_zero_iff.1 hlen'
            rw [if_pos he, hrun around' _]
            simpa [front, back, reach, hs, he] using hrest
          · obtain rfl : new = [] := List.length_eq_zero_iff.1 (by simpa [hagree, he] using hlen)
            rw [if_neg he]
            simpa [front, back, reach, hs, he] using hrest
        rw [weave, if_neg (by simp [hs]), List.singleton_append, groupsFrom_close hc, hbehind]
        by_cases hm : f.marked = true <;> simp [Except.map, hm, placed, place, front, hs]
    · obtain ⟨hs, he, hp'⟩ := hp.plain_step hpl
      have hmarks : m.marks t (weave T gs (i + 1) ts) = m.marks t ts := by
        simp [KeyMatcher.marks, assigned_weave hT.unassigned hp']
      have hreach : reach T gs (i + 1) = reach T gs i + 1 := by
        simp [reach, front, back, hs, he]
      rw [weave_plain hs he, groupsFrom_plain hpl, hmarks, ← hreach]
      by_cases hm : m.marks t ts = true
      · rw [if_pos hm] at h' ⊢
        exact ih (by rw [map_opening_markInnermost]; exact hp') hl.markInnermost h'
      · rw [if_neg hm] at h' ⊢
        exact ih hp' hl h'

/-- The groups of woven tokens are the groups of the tokens at their new places. -/
theorem tagGroups_weave (hT : T.Neutral m) (h : tagGroups m ts = .ok found) (hg : gs ⊆ found) :
    tagGroups m (weave T gs 0 ts) = .ok (found.map (placed T gs)) := by
  obtain ⟨opened, hopen, hclose⟩ := hT.halves
  have hsub : gs ⊆ pairsFrom [] 0 ts := fun g hin => (groupsFrom_sublist_pairsFrom h).subset (hg hin)
  exact groupsFrom_weave hT hopen hclose (Paired.of_subset hsub) .nil h

end Lifted

/-! ## Brackets of woven tokens -/

/-- Open brackets of the woven tokens for open brackets of the tokens, each given with its position: a
brace at which a group starts has what the left half opens around it. -/
inductive Widened (gs : List Span) (opened : List Kind) : List (Nat × Kind) → List Kind → Prop
  | nil : Widened gs opened [] []
  | cons (p : Nat) (k : Kind) {s : List (Nat × Kind)} {s' : List Kind} (h : Widened gs opened s s') :
      Widened gs opened ((p, k) :: s)
        (k :: ((if k.isBrace && startsAt gs p then opened else []) ++ s'))

section Widened

variable {stops : Kind → Bool} {T : Template} {gs : List Span} {opened : List Kind} {i : Nat}
  {ts : List Token} {s : List (Nat × Kind)} {s' : List Kind}

/-- The positions of the braces among the open brackets. -/
def bracesOf (s : List (Nat × Kind)) : List Nat :=
  (s.filter fun b => b.2.isBrace).map Prod.fst

theorem kinds_relead (lead : Text) (ts : List Token) : kinds (relead lead ts) = kinds ts :=
  kinds_eq_of_contents_eq (contents_relead lead ts)

theorem nest_weave (hopen : nest stops [] (kinds T.left) = some opened)
    (hclose : nest stops opened (kinds T.right) = some [])
    (hp : Paired gs (bracesOf s) i ts) (hw : Widened gs opened s s')
    (h : nest stops (s.map Prod.snd) (kinds ts) = some []) :
    nest stops s' (kinds (weave T gs i ts)) = some [] := by
  induction ts generalizing s s' i with
  | nil =>
    obtain rfl : s = [] := by simpa using h
    cases hw
    rfl
  | cons t ts ih =>
    rcases t.kind.isBrace_cases with ho | hc | hpl
    · obtain ⟨he, hp'⟩ := hp.open_step ho
      rw [kinds_cons, ho, nest_opening (by rfl)] at h
      have hrest := @ih (i + 1) ((i, .openBrace) :: s) _ hp' (.cons i .openBrace hw) h
      by_cases hs : startsAt gs i = true
      · have hleft := nest_frame s' hopen
        rw [List.nil_append] at hleft
        rw [weave_start hs he, kinds_append, nest_append, kinds_relead, hleft, Option.bind_some,
          kinds_cons, Token.kind_withLead, ho, nest_opening (by rfl)]
        simpa [Kind.isBrace, hs] using hrest
      · rw [weave_plain (by simpa using hs) he, kinds_cons, ho, nest_opening (by rfl)]
        simpa [Kind.isBrace, hs] using hrest
    · rw [kinds_cons, hc] at h
      rcases nest_cons_cases h with ⟨hbad, -⟩ | ⟨b, around, heq, hb, h'⟩ | ⟨-, hbad, -⟩
      · exact absurd hbad (by decide)
      · obtain rfl : b = .openBrace := Kind.closer_injective hb rfl
        cases hw with
        | nil => simp at heq
        | @cons p k s s' hw =>
          obtain ⟨rfl, rfl⟩ : k = .openBrace ∧ s.map Prod.snd = around := by simpa using heq
          obtain ⟨hs, hagree, hp'⟩ := @Paired.close_step gs (bracesOf s) i t ts p hp hc
          have hrest := ih hp' hw h'
          by_cases he : endsAt gs i = true
          · have hright := nest_frame s' hclose
            rw [List.nil_append] at hright
            rw [weave_end hs he, kinds_cons, hc, nest_closing (by rfl), kinds_append, nest_append,
              hagree, he]
            simpa [Kind.isBrace, hright] using hrest
          · rw [weave_plain hs (by simpa using he), kinds_cons, hc, nest_closing (by rfl), hagree]
            simpa [Kind.isBrace, he] using hrest
      · exact absurd hbad (by decide)
    · obtain ⟨hs, he, hp'⟩ := hp.plain_step hpl
      rw [weave_plain hs he, kinds_cons]
      rcases nest_cons_cases h with ⟨ho, h'⟩ | ⟨b, around, heq, hb, h'⟩ | ⟨ho, hc, hst, h'⟩
      · have hbraces : bracesOf ((i, t.kind) :: s) = bracesOf s := by simp [bracesOf, hpl]
        have hrest := @ih (i + 1) ((i, t.kind) :: s) _ (hbraces ▸ hp') (.cons i t.kind hw) h'
        rw [nest_opening ho]
        simpa [hpl] using hrest
      · cases hw with
        | nil => simp at heq
        | @cons p k s s' hw =>
          obtain ⟨rfl, rfl⟩ : k = b ∧ s.map Prod.snd = around := by simpa using heq
          have hk : k.isBrace = false := (Kind.isBrace_closer hb).symm.trans hpl
          have hbraces : bracesOf ((p, k) :: s) = bracesOf s := by simp [bracesOf, hk]
          rw [nest_closing hb, hk]
          exact ih (hbraces ▸ hp') hw h'
      · rw [nest_plain ho hc (fun hbad => ?_)]
        · exact ih hp' hw h'
        · obtain ⟨hstop, rfl⟩ := hbad
          cases hw
          exact hst ⟨hstop, rfl⟩

/-- Weaving keeps brackets nested, if the halves of the template nest. -/
theorem nests_weave (hT : Nests stops (T.left ++ T.right)) (h : Nests stops ts)
    (hg : gs ⊆ pairsFrom [] 0 ts) : Nests stops (weave T gs 0 ts) := by
  obtain ⟨opened, hopen, hclose⟩ := hT.halves
  exact @nest_weave stops T gs opened 0 ts [] [] hopen hclose (Paired.of_subset hg) .nil h

end Widened

end TagBox
