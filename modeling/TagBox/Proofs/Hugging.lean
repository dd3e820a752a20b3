import TagBox.Box.Boxer
import TagBox.Proofs.Groups

/-!
# What counts as a box

The search for wrappers lists every place where a half occurs and then looks a group up in the lists.
Here that is said by cutting the tokens: a template hugs a group if its left half stands right in
front of the group and its right half right behind it.

* `Template.Hugs`, `Toggled` — a group with a wrapper, and a group with a test of the toggle.
* `boxes_wrappers_iff`, `boxes_toggleHeads_iff` — the search finds exactly those.
* `boxing_of_hugs` — which halves it finds.
* `mem_pending_iff` — the groups that are left to be boxed.
-/

namespace TagBox

/-! ## Places where something starts -/

/-- The positions, counted from `i`, at which the rest of the tokens satisfies `p`. -/
def positionsFrom (p : List Token → Bool) (i : Nat) : List Token → List Nat
  | [] => []
  | t :: rest =>
    if p (t :: rest) then i :: positionsFrom p (i + 1) rest else positionsFrom p (i + 1) rest

section Positions

variable {p : List Token → Bool} {ts us : List Token} {i x : Nat}

theorem mem_positionsFrom :
    x ∈ positionsFrom p i ts ↔ ∃ k, k < ts.length ∧ x = i + k ∧ p (ts.drop k) = true := by
  induction ts generalizing i with
  | nil => simp [positionsFrom]
  | cons t ts ih =>
    have hsplit : (∃ k, k < (t :: ts).length ∧ x = i + k ∧ p ((t :: ts).drop k) = true) ↔
        (x = i ∧ p (t :: ts) = true) ∨
          ∃ k, k < ts.length ∧ x = i + 1 + k ∧ p (ts.drop k) = true := by
      constructor
      · rintro ⟨k, hk, rfl, hp⟩
        cases k with
        | zero => exact Or.inl ⟨rfl, hp⟩
        | succ k => exact Or.inr ⟨k, by simpa using hk, by omega, hp⟩
      · rintro (⟨rfl, hp⟩ | ⟨k, hk, rfl, hp⟩)
        · exact ⟨0, by simp, rfl, hp⟩
        · exact ⟨k + 1, by simpa using hk, by omega, hp⟩
    rw [hsplit, ← ih, positionsFrom]
    by_cases hs : p (t :: ts) = true
    · rw [if_pos hs, List.mem_cons, and_iff_left hs]
    · rw [if_neg hs, or_iff_right fun h => hs h.2]

theorem positionsFrom_congr (hp : ∀ ts us, contents ts = contents us → p ts = p us)
    (h : contents ts = contents us) : positionsFrom p i ts = positionsFrom p i us := by
  induction ts generalizing us i with
  | nil =>
    obtain rfl : us = [] := by simpa [contents] using h.symm
    rfl
  | cons t ts ih =>
    obtain ⟨u, us, rfl, hu, hus⟩ := exists_of_contents_cons h.symm
    simp only [positionsFrom, hp _ _ h, ih hus.symm]

theorem occurrencesFrom_eq_positionsFrom (pattern : List (Kind × Text)) (i : Nat) (ts : List Token) :
    occurrencesFrom pattern i ts = positionsFrom (startsWith pattern) i ts := by
  induction ts generalizing i with
  | nil => rfl
  | cons t ts ih => simp only [occurrencesFrom, positionsFrom, ih]

theorem toggleHeadsFrom_eq_positionsFrom (name : Text) (i : Nat) (ts : List Token) :
    toggleHeadsFrom name i ts = positionsFrom (isToggleHead name) i ts := by
  induction ts generalizing i with
  | nil => rfl
  | cons t ts ih => simp only [toggleHeadsFrom, positionsFrom, ih]

theorem startsWith_iff {pattern : List (Kind × Text)} :
    startsWith pattern ts = true ↔ pattern <+: contents ts := by
  induction pattern generalizing ts with
  | nil => simp [startsWith]
  | cons c pattern ih =>
    cases ts with
    | nil => simp [startsWith]
    | cons t ts =>
      simp only [startsWith, Bool.and_eq_true, beq_iff_eq, ih, contents_cons, List.cons_prefix_cons]

theorem wrappers_congr {T : Template} (h : contents ts = contents us) :
    T.wrappers ts = T.wrappers us := by
  have hp : ∀ pattern (ts us : List Token), contents ts = contents us →
      startsWith pattern ts = startsWith pattern us := by
    intro pattern ts us heq
    rw [Bool.eq_iff_iff, startsWith_iff, startsWith_iff, heq]
  simp [Template.wrappers, occurrences, occurrencesFrom_eq_positionsFrom,
    positionsFrom_congr (hp _) h]

/-- Only four tokens decide whether the toggle is tested. -/
theorem isToggleHead_iff {name : Text} :
    isToggleHead name ts = true ↔
      ∃ hd B, ts = hd ++ B ∧ hd.length = 4 ∧ isToggleHead name hd = true := by
  constructor
  · intro h
    match ts with
    | a :: b :: c :: d :: B => exact ⟨[a, b, c, d], B, rfl, rfl, h⟩
    | [] | [_] | [_, _] | [_, _, _] => simp [isToggleHead] at h
  · rintro ⟨hd, B, rfl, hlen, h⟩
    match hd with
    | [a, b, c, d] => exact h

theorem isToggleHead_of_contents_eq {name : Text} (h : contents ts = contents us)
    (ht : isToggleHead name ts = true) : isToggleHead name us = true := by
  match ts, ht with
  | a :: b :: c :: d :: B, ht =>
    obtain ⟨a', us, rfl, ha, hus⟩ := exists_of_contents_cons h.symm
    obtain ⟨b', us, rfl, hb, hus⟩ := exists_of_contents_cons hus
    obtain ⟨c', us, rfl, hc, hus⟩ := exists_of_contents_cons hus
    obtain ⟨d', us, rfl, hd, -⟩ := exists_of_contents_cons hus
    rw [content_eq_iff] at ha hb hc hd
    simpa [isToggleHead, Token.isName, ha, hb, hc, hd] using ht

theorem isToggleHead_congr {name : Text} (h : contents ts = contents us) :
    isToggleHead name ts = isToggleHead name us :=
  Bool.eq_iff_iff.2 ⟨isToggleHead_of_contents_eq h, isToggleHead_of_contents_eq h.symm⟩

theorem toggleHeads_congr {name : Text} (h : contents ts = contents us) :
    toggleHeads name ts = toggleHeads name us := by
  simp [toggleHeads, toggleHeadsFrom_eq_positionsFrom,
    positionsFrom_congr (fun _ _ => isToggleHead_congr) h]

end Positions

/-! ## Wrappers -/

namespace Template

/-- The left half of the template stands right in front of the group, and the right half right behind
it. -/
def Hugs (T : Template) (tokens : List Token) (g : Span) : Prop :=
  ∃ A l G r B, tokens = A ++ (l ++ (G ++ (r ++ B))) ∧ contents l = contents T.left ∧
    contents r = contents T.right ∧ g.first = A.length + l.length ∧ g.last + 1 = g.first + G.length

/-- Where the left half of a wrapper around the group stands. -/
def frontHalf (T : Template) (g : Span) : Half :=
  ⟨.left, ⟨g.first - T.left.length, g.first - 1⟩⟩

/-- Where the right half of a wrapper around the group stands. -/
def backHalf (T : Template) (g : Span) : Half :=
  ⟨.right, ⟨g.last + 1, g.last + T.right.length⟩⟩

/-- Both halves have tokens. -/
structure HasHalves (T : Template) : Prop where
  left : T.left ≠ []
  right : T.right ≠ []

end Template

section Wrappers

variable {T : Template} {ts half : List Token} {g : Span} {side : Side} {h : Half}

theorem mem_occurrences (hne : half ≠ []) :
    h ∈ occurrences side half ts ↔
      ∃ A l B, ts = A ++ (l ++ B) ∧ contents l = contents half ∧
        h = ⟨side, ⟨A.length, A.length + half.length - 1⟩⟩ := by
  rw [occurrences, if_neg hne, List.mem_map]
  constructor
  · rintro ⟨x, hx, rfl⟩
    rw [occurrencesFrom_eq_positionsFrom, mem_positionsFrom] at hx
    obtain ⟨k, hk, rfl, hstarts⟩ := hx
    have hp := startsWith_iff.1 hstarts
    have hA : (ts.take k).length = k := List.length_take_of_le (by omega)
    refine ⟨ts.take k, (ts.drop k).take half.length, (ts.drop k).drop half.length, ?_, ?_, ?_⟩
    · rw [List.take_append_drop, List.take_append_drop]
    · rw [contents_take]
      have := List.prefix_iff_eq_take.1 hp
      rw [length_contents] at this
      exact this.symm
    · simp [hA]
  · rintro ⟨A, l, B, rfl, hl, rfl⟩
    have hlen : 0 < l.length := by
      rw [length_eq_of_contents_eq hl]
      exact List.length_pos_iff.2 hne
    refine ⟨A.length, ?_, rfl⟩
    rw [occurrencesFrom_eq_positionsFrom, mem_positionsFrom]
    refine ⟨A.length, ?_, by omega, ?_⟩
    · simp only [List.length_append]
      omega
    · rw [List.drop_left, startsWith_iff, contents_append, hl]
      exact List.prefix_append _ _

/-- A search for the only element of its kind finds it. -/
theorem find?_eq_some_of_unique {α : Type} {p : α → Bool} {l : List α} {a : α} (ha : a ∈ l)
    (hp : p a = true) (hu : ∀ b ∈ l, p b = true → b = a) : l.find? p = some a := by
  cases hf : l.find? p with
  | none => exact absurd hp (List.find?_eq_none.1 hf a ha)
  | some b => rw [hu b (List.mem_of_find?_eq_some hf) (List.find?_some hf)]

/-- The halves found around a group that a template hugs. -/
theorem boxing_of_hugs (hT : T.HasHalves) (h : T.Hugs ts g) :
    (T.wrappers ts).boxing g = some (T.frontHalf g, some (T.backHalf g)) := by
  obtain ⟨A, l, G, r, B, rfl, hl, hr, hfirst, hlast⟩ := h
  have hlen := length_eq_of_contents_eq hl
  have hlpos := List.length_pos_iff.2 hT.left
  have hrpos := List.length_pos_iff.2 hT.right
  have hleft : ((T.wrappers (A ++ (l ++ (G ++ (r ++ B))))).lefts.find?
      fun left => left.span.last + 1 == g.first) = some (T.frontHalf g) := by
    refine find?_eq_some_of_unique ?_ ?_ ?_
    · refine (mem_occurrences hT.left).2 ⟨A, l, G ++ (r ++ B), rfl, hl, ?_⟩
      simp only [Template.frontHalf, Half.mk.injEq, Span.mk.injEq, true_and]
      omega
    · simp only [Template.frontHalf, beq_iff_eq]
      omega
    · intro b hb heq
      obtain ⟨A', l', B', -, -, rfl⟩ := (mem_occurrences hT.left).1 hb
      simp only [beq_iff_eq] at heq
      simp only [Template.frontHalf, Half.mk.injEq, Span.mk.injEq, true_and]
      omega
  have hright : ((T.wrappers (A ++ (l ++ (G ++ (r ++ B))))).rights.find?
      fun right => right.span.first == g.last + 1) = some (T.backHalf g) := by
    refine find?_eq_some_of_unique ?_ ?_ ?_
    · refine (mem_occurrences hT.right).2 ⟨A ++ (l ++ G), r, B, by simp, hr, ?_⟩
      simp only [Template.backHalf, Half.mk.injEq, Span.mk.injEq, true_and, List.length_append]
      omega
    · simp [Template.backHalf]
    · intro b hb heq
      obtain ⟨A', l', B', -, -, rfl⟩ := (mem_occurrences hT.right).1 hb
      simp only [beq_iff_eq] at heq
      simp only [Template.backHalf, Half.mk.injEq, Span.mk.injEq, true_and]
      omega
  simp [Wrappers.boxing, hleft, hright]

theorem hugs_of_boxes (hT : T.HasHalves) (hg : g.first ≤ g.last)
    (h : (T.wrappers ts).boxes g = true) : T.Hugs ts g := by
  unfold Wrappers.boxes Wrappers.boxing at h
  cases hl : (T.wrappers ts).lefts.find? fun left => left.span.last + 1 == g.first with
  | none => simp [hl] at h
  | some left =>
    cases hr : (T.wrappers ts).rights.find? fun right => right.span.first == g.last + 1 with
    | none =>
      simp only [hl, hr] at h
      simp [Template.wrappers] at h
    | some right =>
      obtain ⟨A, l, B, hleft, hlc, rfl⟩ := (mem_occurrences hT.left).1 (List.mem_of_find?_eq_some hl)
      obtain ⟨A', r, B', hright, hrc, rfl⟩ :=
        (mem_occurrences hT.right).1 (List.mem_of_find?_eq_some hr)
      have hfirst := List.find?_some hl
      have hlast := List.find?_some hr
      simp only [beq_iff_eq] at hfirst hlast
      have hlen := length_eq_of_contents_eq hlc
      have hpos := List.length_pos_iff.2 hT.left
      -- the left half and what is in front of it end before the right half begins
      obtain ⟨G, hG⟩ : A ++ l <+: A' := by
        refine @List.prefix_of_prefix_length_le _ _ _ ts ⟨B, by rw [hleft]; simp⟩
          ⟨r ++ B', hright.symm⟩ ?_
        rw [List.length_append]
        omega
      refine ⟨A, l, G, r, B', ?_, hlc, hrc, by omega, ?_⟩
      · rw [hright, ← hG]
        simp
      · rw [← hlast, ← hG]
        simp only [List.length_append]
        omega

theorem boxes_wrappers_iff (hT : T.HasHalves) (hg : g.first ≤ g.last) :
    (T.wrappers ts).boxes g = true ↔ T.Hugs ts g := by
  refine ⟨hugs_of_boxes hT hg, fun h => ?_⟩
  rw [Wrappers.boxes, boxing_of_hugs hT h]
  rfl

end Wrappers

/-! ## Tests of the toggle -/

/-- The toggle is tested right in front of the group. -/
def Toggled (name : Text) (tokens : List Token) (g : Span) : Prop :=
  ∃ A hd B, tokens = A ++ (hd ++ B) ∧ hd.length = 4 ∧ isToggleHead name hd = true ∧
    g.first = A.length + 4

theorem boxes_toggleHeads_iff {name : Text} {ts : List Token} {g : Span} :
    (toggleHeads name ts).boxes g = true ↔ Toggled name ts g := by
  have hmem : (toggleHeads name ts).boxes g = true ↔
      ∃ h ∈ (toggleHeads name ts).lefts, h.span.last + 1 = g.first := by
    cases hf : (toggleHeads name ts).lefts.find? fun left => left.span.last + 1 == g.first with
    | none =>
      simpa [Wrappers.boxes, Wrappers.boxing, hf] using List.find?_eq_none.1 hf
    | some left =>
      have hleft : left.span.last + 1 = g.first := by simpa using List.find?_some hf
      simp only [Wrappers.boxes, Wrappers.boxing, hf]
      exact iff_of_true rfl ⟨left, List.mem_of_find?_eq_some hf, hleft⟩
  rw [hmem]
  constructor
  · rintro ⟨h, hin, hlast⟩
    obtain ⟨x, hx, rfl⟩ := List.mem_map.1 hin
    rw [toggleHeadsFrom_eq_positionsFrom, mem_positionsFrom] at hx
    obtain ⟨k, hk, rfl, htest⟩ := hx
    obtain ⟨hd, B, hcut, hlen, hhd⟩ := isToggleHead_iff.1 htest
    refine ⟨ts.take k, hd, B, by rw [← hcut, List.take_append_drop], hlen, hhd, ?_⟩
    rw [List.length_take_of_le (by omega), ← hlast]
    simp
  · rintro ⟨A, hd, B, rfl, hlen, hhd, hfirst⟩
    refine ⟨⟨.left, ⟨A.length, A.length + 3⟩⟩, List.mem_map.2 ⟨A.length, ?_, rfl⟩, hfirst.symm⟩
    rw [toggleHeadsFrom_eq_positionsFrom, mem_positionsFrom]
    refine ⟨A.length, by simp only [List.length_append, hlen]; omega, by simp, ?_⟩
    rw [List.drop_left]
    exact isToggleHead_iff.2 ⟨hd, B, rfl, hlen, hhd⟩

/-! ## Groups left to be boxed -/

/-- Some box is around the group. -/
def Boxer.Boxed (boxer : Boxer) (tokens : List Token) (g : Span) : Prop :=
  boxer.template.Hugs tokens g ∨ ∃ name ∈ boxer.toggle, Toggled name tokens g

theorem boxesIn_congr {boxer : Boxer} {ts us : List Token} (h : contents ts = contents us) :
    boxer.boxesIn ts = boxer.boxesIn us := by
  simp [Boxer.boxesIn, wrappers_congr h, toggleHeads_congr h]

/-- The search finds some box around exactly those groups. -/
theorem any_boxes_iff {boxer : Boxer} {ts : List Token} {g : Span} (hT : boxer.template.HasHalves)
    (hg : g.first ≤ g.last) :
    ((boxer.boxesIn ts).any fun wrappers => wrappers.boxes g) = true ↔ boxer.Boxed ts g := by
  rw [Boxer.boxesIn, List.any_cons, Bool.or_eq_true, boxes_wrappers_iff hT hg, Boxer.Boxed]
  cases boxer.toggle with
  | none => simp
  | some name => simp [boxes_toggleHeads_iff]

theorem mem_pending_iff {boxer : Boxer} {ts : List Token} {gs : List Span} {g : Span}
    (hT : boxer.template.HasHalves) (hg : g.first ≤ g.last) :
    g ∈ Boxer.pending (boxer.boxesIn ts) gs ↔ g ∈ gs ∧ ¬ boxer.Boxed ts g := by
  rw [Boxer.pending, List.mem_filter, ← any_boxes_iff hT hg]
  simp

end TagBox
