import TagBox.Proofs.Script

/-!
# Taking out halves that stand apart

Halves are taken out of a token list one after the other, the last one first, and each left half hands
its lead to the token that comes to stand in its place.  `sieve` says in one pass, from the front, what
is left in the end: it drops the positions that a half stands on and carries the lead of the first left
half of a run to the token behind the run.

* `remaining` — the tokens that no half stands on.
* `strip_eq_ok_iff` — halves can be taken out exactly if each removal finds its half.
* `foldlM_removeHalf_eq_sieve` — removals from the last half to the first are one pass.
* `strip_keeps` — what is left of a token list, layout included, in whatever order the halves are given.
-/

namespace TagBox

/-! ## Positions that halves stand on -/

/-- Does the half stand on the position? -/
def Half.covers (half : Half) (p : Nat) : Bool :=
  half.span.first ≤ p && p ≤ half.span.last

/-- Does one of the halves stand on the position? -/
def covered (halves : List Half) (p : Nat) : Bool :=
  halves.any fun half => half.covers p

/-- Does a left half start at the position? -/
def leftAt (halves : List Half) (p : Nat) : Bool :=
  halves.any fun half => half.side == .left && half.span.first == p

/-- The tokens, which start at position `i`, that no half stands on, each with its position. -/
def remaining (halves : List Half) (i : Nat) (tokens : List Token) : List (Token × Nat) :=
  (tokens.zipIdx i).filter fun t => !covered halves t.2

/-- The halves share no position. -/
def Half.Apart (a b : Half) : Prop :=
  a.span.last < b.span.first ∨ b.span.last < a.span.first

/-- Any two of the halves are the same half or share no position. -/
def Separate (halves : List Half) : Prop :=
  ∀ a ∈ halves, ∀ b ∈ halves, a = b ∨ a.Apart b

instance (a b : Half) : Decidable (a.Apart b) :=
  inferInstanceAs (Decidable (_ ∨ _))

instance (halves : List Half) : Decidable (Separate halves) :=
  inferInstanceAs (Decidable (∀ a ∈ halves, ∀ b ∈ halves, _))

section Positions

variable {halves : List Half} {half : Half} {p i : Nat} {t : Token} {ts us : List Token}

theorem covers_iff : half.covers p = true ↔ half.span.first ≤ p ∧ p ≤ half.span.last := by
  simp [Half.covers]

theorem covers_eq_false (h : p < half.span.first ∨ half.span.last < p) : half.covers p = false := by
  rw [← Bool.not_eq_true, covers_iff]
  omega

theorem covered_iff :
    covered halves p = true ↔ ∃ half ∈ halves, half.span.first ≤ p ∧ p ≤ half.span.last := by
  simp [covered, covers_iff]

theorem leftAt_iff :
    leftAt halves p = true ↔ ∃ half ∈ halves, half.side = .left ∧ half.span.first = p := by
  simp [leftAt]

theorem covered_cons : covered (half :: halves) p = (half.covers p || covered halves p) := rfl

theorem leftAt_cons (h : p ≠ half.span.first) : leftAt (half :: halves) p = leftAt halves p := by
  have hne : (half.span.first == p) = false := beq_eq_false_iff_ne.2 (Ne.symm h)
  rw [leftAt, List.any_cons, hne, Bool.and_false, Bool.false_or, leftAt]

/-- Behind all halves nothing is covered and nothing starts. -/
theorem clear_behind (h : ∀ half ∈ halves, half.span.first ≤ half.span.last ∧ half.span.last < p) :
    covered halves p = false ∧ leftAt halves p = false := by
  constructor
  · by_contra hc
    obtain ⟨half, hhalf, -, hle⟩ := covered_iff.1 (by simpa using hc)
    have := h half hhalf
    omega
  · by_contra hl
    obtain ⟨half, hhalf, -, heq⟩ := leftAt_iff.1 (by simpa using hl)
    have := h half hhalf
    omega

theorem remaining_of_covered (h : covered halves i = true) :
    remaining halves i (t :: ts) = remaining halves (i + 1) ts := by
  simp [remaining, h]

theorem remaining_of_not_covered (h : covered halves i = false) :
    remaining halves i (t :: ts) = (t, i) :: remaining halves (i + 1) ts := by
  simp [remaining, h]

theorem remaining_of_full (h : ∀ j, i ≤ j → j < i + ts.length → covered halves j = true) :
    remaining halves i ts = [] := by
  induction ts generalizing i with
  | nil => rfl
  | cons t ts ih =>
    rw [remaining_of_covered (h i (Nat.le_refl i) (by simp))]
    exact ih fun j hj hj' => h j (by omega) (by rw [List.length_cons]; omega)

theorem remaining_append (ts us : List Token) :
    remaining halves i (ts ++ us) = remaining halves i ts ++ remaining halves (i + ts.length) us := by
  simp [remaining, List.zipIdx_append]

end Positions

/-! ## One pass -/

/-- The lead that is carried on from position `i`, where a half stands on the token `t`. -/
def carryOn (halves : List Half) (carry : Option Text) (i : Nat) (t : Token) : Option Text :=
  carry.or (if leftAt halves i then some t.lead else none)

/-- The tokens, which start at position `i`, without those that halves stand on.  The first token
behind a run of halves gets the lead that is carried along. -/
def sieve (halves : List Half) : Option Text → Nat → List Token → List Token
  | _, _, [] => []
  | carry, i, t :: rest =>
    if covered halves i then sieve halves (carryOn halves carry i t) (i + 1) rest
    else t.withLead (carry.getD t.lead) :: sieve halves none (i + 1) rest

/-- The lead that is carried along behind the tokens. -/
def carryAfter (halves : List Half) : Option Text → Nat → List Token → Option Text
  | carry, _, [] => carry
  | carry, i, t :: rest =>
    if covered halves i then carryAfter halves (carryOn halves carry i t) (i + 1) rest
    else carryAfter halves none (i + 1) rest

section Sieve

variable {halves halves' : List Half} {half : Half} {carry : Option Text} {i : Nat} {t : Token}
  {ts us A B : List Token}

theorem sieve_of_covered (h : covered halves i = true) :
    sieve halves carry i (t :: ts) = sieve halves (carryOn halves carry i t) (i + 1) ts := by
  rw [sieve, if_pos h]

theorem sieve_of_not_covered (h : covered halves i = false) :
    sieve halves carry i (t :: ts) =
      t.withLead (carry.getD t.lead) :: sieve halves none (i + 1) ts := by
  rw [sieve, if_neg (by simp [h])]

theorem carryAfter_of_covered (h : covered halves i = true) :
    carryAfter halves carry i (t :: ts) = carryAfter halves (carryOn halves carry i t) (i + 1) ts := by
  rw [carryAfter, if_pos h]

theorem carryAfter_of_not_covered (h : covered halves i = false) :
    carryAfter halves carry i (t :: ts) = carryAfter halves none (i + 1) ts := by
  rw [carryAfter, if_neg (by simp [h])]

theorem handOver_handOver (carry carry' : Option Text) (ts : List Token) :
    handOver carry (handOver carry' ts) = handOver (carry.or carry') ts := by
  cases carry <;> cases carry' <;> cases ts <;> rfl

theorem length_handOver (carry : Option Text) (ts : List Token) :
    (handOver carry ts).length = ts.length := by
  cases carry with
  | none => rfl
  | some lead => exact length_relead lead ts

theorem sieve_append :
    sieve halves carry i (A ++ B) =
      sieve halves carry i A ++ sieve halves (carryAfter halves carry i A) (i + A.length) B := by
  induction A generalizing carry i with
  | nil => rfl
  | cons t A ih =>
    have hstep : i + (t :: A).length = i + 1 + A.length := by
      rw [List.length_cons]
      omega
    rw [hstep, List.cons_append]
    cases hc : covered halves i with
    | true => rw [sieve_of_covered hc, sieve_of_covered hc, carryAfter_of_covered hc, ih]
    | false =>
      rw [sieve_of_not_covered hc, sieve_of_not_covered hc, carryAfter_of_not_covered hc, ih]
      rfl

/-- The pass depends on the halves only through the positions that they stand on and those where a
left half starts. -/
theorem sieve_congr
    (h : ∀ j, i ≤ j → j < i + ts.length →
      covered halves j = covered halves' j ∧ leftAt halves j = leftAt halves' j) :
    sieve halves carry i ts = sieve halves' carry i ts ∧
      carryAfter halves carry i ts = carryAfter halves' carry i ts := by
  induction ts generalizing carry i with
  | nil => exact ⟨rfl, rfl⟩
  | cons t ts ih =>
    obtain ⟨hcovered, hleft⟩ := h i (Nat.le_refl i) (by simp)
    have hrest : ∀ j, i + 1 ≤ j → j < i + 1 + ts.length →
        covered halves j = covered halves' j ∧ leftAt halves j = leftAt halves' j := by
      intro j hj hj'
      exact h j (by omega) (by rw [List.length_cons]; omega)
    have hcarry : carryOn halves carry i t = carryOn halves' carry i t := by
      rw [carryOn, carryOn, hleft]
    simp only [sieve, carryAfter, hcovered, hcarry, ih hrest, and_self]

/-- Where nothing is taken out, the first token gets what is carried along. -/
theorem sieve_of_clear (h : ∀ j, i ≤ j → j < i + ts.length → covered halves j = false) :
    sieve halves carry i ts = handOver carry ts := by
  have hnone : ∀ (i : Nat) (ts : List Token),
      (∀ j, i ≤ j → j < i + ts.length → covered halves j = false) → sieve halves none i ts = ts := by
    intro i ts
    induction ts generalizing i with
    | nil => exact fun _ => rfl
    | cons t ts ih =>
      intro h
      rw [sieve_of_not_covered (h i (Nat.le_refl i) (by simp)), ih (i + 1) fun j hj hj' =>
        h j (by omega) (by rw [List.length_cons]; omega)]
      rfl
  cases ts with
  | nil => cases carry <;> rfl
  | cons t ts =>
    rw [sieve_of_not_covered (h i (Nat.le_refl i) (by simp)), hnone (i + 1) ts fun j hj hj' =>
      h j (by omega) (by rw [List.length_cons]; omega)]
    cases carry <;> rfl

/-- Nothing is left where halves stand on every position. -/
theorem sieve_of_full (h : ∀ j, i ≤ j → j < i + ts.length → covered halves j = true) :
    sieve halves carry i ts = [] := by
  induction ts generalizing carry i with
  | nil => rfl
  | cons t ts ih =>
    rw [sieve_of_covered (h i (Nat.le_refl i) (by simp))]
    exact ih fun j hj hj' => h j (by omega) (by rw [List.length_cons]; omega)

/-- Behind the start of a run, what is carried along changes only where another left half starts. -/
theorem carryAfter_of_full (h : ∀ j, i ≤ j → j < i + ts.length →
      covered halves j = true ∧ leftAt halves j = false) :
    carryAfter halves carry i ts = carry := by
  induction ts generalizing i with
  | nil => rfl
  | cons t ts ih =>
    obtain ⟨hcovered, hleft⟩ := h i (Nat.le_refl i) (by simp)
    have hcarry : carryOn halves carry i t = carry := by simp [carryOn, hleft]
    rw [carryAfter_of_covered hcovered, hcarry]
    exact ih fun j hj hj' => h j (by omega) (by rw [List.length_cons]; omega)

end Sieve

/-! ## Removals from the last half to the first -/

/-- Every removal finds its half among the tokens that are left. -/
def Removable : List Token → List Half → Prop
  | _, [] => True
  | tokens, half :: rest => half.Within tokens.length ∧ Removable (cutHalf tokens half) rest

instance decidableRemovable : (tokens : List Token) → (halves : List Half) →
    Decidable (Removable tokens halves)
  | _, [] => isTrue trivial
  | tokens, half :: rest =>
    have := decidableRemovable (cutHalf tokens half) rest
    inferInstanceAs (Decidable (_ ∧ _))

section Removals

variable {halves rest stale : List Half} {half : Half} {t : Token} {ts out A H B : List Token}

/-- Removals go well exactly if each of them finds its half. -/
theorem foldlM_removeHalf_eq_ok_iff :
    halves.foldlM removeHalf ts = .ok out ↔ Removable ts halves ∧ out = halves.foldl cutHalf ts := by
  induction halves generalizing ts with
  | nil =>
    change Except.ok ts = Except.ok out ↔ True ∧ out = ts
    rw [Except.ok.injEq, true_and, eq_comm]
  | cons half rest ih =>
    rw [List.foldlM_cons, List.foldl_cons, Removable, and_assoc]
    by_cases hhalf : half.Within ts.length
    · rw [removeHalf, if_pos hhalf, ← ih]
      exact (and_iff_right hhalf).symm
    · rw [removeHalf, if_neg hhalf]
      refine ⟨fun h => ?_, fun h => absurd h.1 hhalf⟩
      cases h

theorem strip_eq_ok_iff : strip ts stale = .ok out ↔
    Removable ts (removals stale) ∧ out = (removals stale).foldl cutHalf ts :=
  foldlM_removeHalf_eq_ok_iff

/-- A half within the tokens cuts them into what is in front of it, its own tokens, and what is
behind. -/
theorem Half.Within.exists_cut (h : half.Within ts.length) :
    ∃ A t H B, ts = A ++ (t :: H ++ B) ∧ half.span.first = A.length ∧
      half.span.last = A.length + H.length := by
  obtain ⟨hle, hlt⟩ := h
  have hH : ((ts.drop (half.span.first + 1)).take (half.span.last - half.span.first)).length =
      half.span.last - half.span.first := by
    rw [List.length_take, List.length_drop]
    omega
  have hA : (ts.take half.span.first).length = half.span.first := by
    rw [List.length_take]
    omega
  refine ⟨ts.take half.span.first, ts[half.span.first],
    (ts.drop (half.span.first + 1)).take (half.span.last - half.span.first),
    (ts.drop (half.span.first + 1)).drop (half.span.last - half.span.first), ?_, hA.symm, ?_⟩
  · rw [List.cons_append, List.take_append_drop, ← List.drop_eq_getElem_cons, List.take_append_drop]
  · rw [hA, hH]
    omega

/-- A half behind all others is passed over; if it is a left half, its lead is carried along. -/
theorem carryAfter_half {carry : Option Text} (hfirst : half.span.first = A.length)
    (hlast : half.span.last = A.length + H.length)
    (hrest : ∀ j, A.length ≤ j → covered rest j = false ∧ leftAt rest j = false) :
    carryAfter (half :: rest) carry A.length (t :: H) = carry.or (half.hands t.lead) := by
  have hfull : ∀ j, A.length ≤ j → j ≤ A.length + H.length → covered (half :: rest) j = true := by
    intro j hj hj'
    exact covered_iff.2 ⟨half, by simp, by omega, by omega⟩
  have hstart : leftAt (half :: rest) A.length = (half.side == .left) := by
    have hnone := (hrest A.length (Nat.le_refl _)).2
    rw [leftAt] at hnone ⊢
    rw [List.any_cons, hnone, hfirst, beq_self_eq_true, Bool.and_true, Bool.or_false]
  rw [carryAfter_of_covered (hfull _ (Nat.le_refl _) (by omega)), carryAfter_of_full]
  · rw [carryOn, hstart, Half.hands]
    cases half.side <;> rfl
  · intro j hj hj'
    refine ⟨hfull j (by omega) (by omega), ?_⟩
    rw [leftAt_cons (by omega)]
    exact (hrest j (by omega)).2

/-- The pass with one more half behind all others is the pass on what its removal leaves. -/
theorem sieve_cons (hfirst : half.span.first = A.length) (hlast : half.span.last = A.length + H.length)
    (hrest : ∀ h ∈ rest, h.span.first ≤ h.span.last ∧ h.span.last < half.span.first) :
    sieve (half :: rest) none 0 (A ++ (t :: H ++ B)) =
      sieve rest none 0 (A ++ handOver (half.hands t.lead) B) := by
  have hbehind : ∀ j, A.length ≤ j → covered rest j = false ∧ leftAt rest j = false := by
    intro j hj
    refine clear_behind fun h hh => ?_
    have := hrest h hh
    omega
  -- in front of the half nothing differs
  obtain ⟨hfront, hcarry⟩ := @sieve_congr (half :: rest) rest none 0 A fun j _ hj =>
    ⟨by rw [covered_cons, covers_eq_false (by omega), Bool.false_or], leftAt_cons (by omega)⟩
  -- the half itself is dropped
  have hfull : ∀ j, A.length ≤ j → j < A.length + (t :: H).length →
      covered (half :: rest) j = true := by
    intro j hj hj'
    rw [List.length_cons] at hj'
    exact covered_iff.2 ⟨half, by simp, by omega, by omega⟩
  -- behind it nothing is taken out
  have hclear : ∀ j, A.length + (t :: H).length ≤ j → covered (half :: rest) j = false := by
    intro j hj
    rw [List.length_cons] at hj
    rw [covered_cons, covers_eq_false (by omega), Bool.false_or]
    exact (hbehind j (by omega)).1
  calc sieve (half :: rest) none 0 (A ++ (t :: H ++ B))
      = sieve rest none 0 A ++
          handOver ((carryAfter rest none 0 A).or (half.hands t.lead)) B := by
        rw [sieve_append, sieve_append, Nat.zero_add, hfront, hcarry, sieve_of_full hfull,
          carryAfter_half hfirst hlast hbehind, sieve_of_clear fun j hj _ => hclear j hj,
          List.nil_append]
    _ = sieve rest none 0 (A ++ handOver (half.hands t.lead) B) := by
        rw [sieve_append, Nat.zero_add, sieve_of_clear fun j hj _ => (hbehind j hj).1,
          handOver_handOver]

/-- Removals from the last half to the first are one pass. -/
theorem foldlM_removeHalf_eq_sieve (hin : ∀ half ∈ halves, half.Within ts.length)
    (hsorted : halves.Pairwise fun a b => b.span.last < a.span.first) :
    halves.foldlM removeHalf ts = .ok (sieve halves none 0 ts) := by
  induction halves generalizing ts with
  | nil =>
    have hclear := @sieve_of_clear [] none 0 ts fun _ _ _ => rfl
    rw [hclear]
    rfl
  | cons half rest ih =>
    obtain ⟨hbefore, hsorted'⟩ := List.pairwise_cons.1 hsorted
    obtain ⟨A, t, H, B, rfl, hfirst, hlast⟩ := (hin half (by simp)).exists_cut
    have hstep : removeHalf (A ++ (t :: H ++ B)) half = .ok (A ++ handOver (half.hands t.lead) B) :=
      removeHalf_append A B (List.cons_ne_nil t H) hfirst
        (by rw [hlast, List.length_cons, Nat.add_assoc])
    have hrun := @ih (A ++ handOver (half.hands t.lead) B) (fun h hh => by
      refine ⟨(hin h (by simp [hh])).1, ?_⟩
      have := hbefore h hh
      rw [List.length_append]
      omega) hsorted'
    rw [List.foldlM_cons, hstep,
      sieve_cons hfirst hlast fun h hh => ⟨(hin h (by simp [hh])).1, hbefore h hh⟩]
    exact hrun

end Removals

/-! ## Stripping -/

section Strip

variable {stale stale' : List Half} {half : Half} {ts : List Token}

theorem mem_removals : half ∈ removals stale ↔ half ∈ stale :=
  mem_dropRepeats.trans mem_sortBy

/-- Halves that stand apart are taken out from the last one to the first. -/
theorem pairwise_removals (hin : ∀ half ∈ stale, half.span.first ≤ half.span.last)
    (hsep : Separate stale) : (removals stale).Pairwise fun a b => b.span.last < a.span.first := by
  have hinj : ∀ a ∈ sortBy (fun a b => b.span.last ≤ a.span.last) stale,
      ∀ b ∈ sortBy (fun a b => b.span.last ≤ a.span.last) stale, a.span.last = b.span.last → a = b := by
    intro a ha b hb heq
    have ha' := mem_sortBy.1 ha
    have hb' := mem_sortBy.1 hb
    rcases hsep a ha' b hb' with rfl | hlt | hlt
    · rfl
    · have := hin b hb'
      omega
    · have := hin a ha'
      omega
  have hstrict : (removals stale).Pairwise fun a b => b.span.last < a.span.last :=
    pairwise_dropRepeats (pairwise_sortBy_rank (fun half : Half => half.span.last) stale) hinj
  refine hstrict.imp_of_mem fun {a b} ha hb hlt => ?_
  have ha' := mem_removals.1 ha
  have hb' := mem_removals.1 hb
  rcases hsep a ha' b hb' with rfl | hapart | hapart
  · omega
  · have := hin b hb'
    omega
  · exact hapart

/-- Neither the order of the halves nor repeats make a difference to the pass. -/
theorem sieve_of_mem_iff {carry : Option Text} {i : Nat}
    (h : ∀ half, half ∈ stale' ↔ half ∈ stale) : sieve stale' carry i ts = sieve stale carry i ts := by
  refine (sieve_congr fun j _ _ => ⟨?_, ?_⟩).1
  · rw [Bool.eq_iff_iff, covered_iff, covered_iff]
    simp only [h]
  · rw [Bool.eq_iff_iff, leftAt_iff, leftAt_iff]
    simp only [h]

/-- Stripping is one pass. -/
theorem strip_eq_sieve (hin : ∀ half ∈ stale, half.Within ts.length) (hsep : Separate stale) :
    strip ts stale = .ok (sieve stale none 0 ts) := by
  have hrun := foldlM_removeHalf_eq_sieve (fun half hhalf => hin half (mem_removals.1 hhalf))
    (pairwise_removals (fun half hhalf => (hin half hhalf).1) hsep)
  rw [strip, hrun, sieve_of_mem_iff fun _ => mem_removals]

end Strip

/-! ## Leads behind a run of halves -/

/-- The half belongs to the run of halves that ends right in front of position `p`. -/
def Trails (halves : List Half) (p : Nat) (half : Half) : Prop :=
  half ∈ halves ∧ half.span.first < p ∧
    ∀ j, half.span.first ≤ j → j < p → covered halves j = true

/-- What the token at position `p` takes over from the run of halves in front of it: the lead of the
first token of the first left half of the run, or nothing if there is no left half in it. -/
def Inherits (halves : List Half) (tokens : List Token) (p : Nat) : Option Text → Prop
  | none => ∀ half, Trails halves p half → half.side ≠ .left
  | some lead => ∃ half, Trails halves p half ∧ half.side = .left ∧
      lead = leadAt tokens half.span.first ∧
      ∀ other, Trails halves p other → other.side = .left → half.span.first ≤ other.span.first

section Runs

variable {halves : List Half} {half : Half} {p : Nat} {t : Token} {ts : List Token}
  {carry : Option Text}

theorem trails_succ_iff (hc : covered halves p = true) :
    Trails halves (p + 1) half ↔ Trails halves p half ∨ half ∈ halves ∧ half.span.first = p := by
  constructor
  · rintro ⟨hmem, hlt, hrun⟩
    by_cases heq : half.span.first = p
    · exact Or.inr ⟨hmem, heq⟩
    · exact Or.inl ⟨hmem, by omega, fun j hj hj' => hrun j hj (by omega)⟩
  · rintro (⟨hmem, hlt, hrun⟩ | ⟨hmem, heq⟩)
    · refine ⟨hmem, by omega, fun j hj hj' => ?_⟩
      by_cases hjp : j = p
      · exact hjp ▸ hc
      · exact hrun j hj (by omega)
    · refine ⟨hmem, by omega, fun j hj hj' => ?_⟩
      obtain rfl : j = p := by omega
      exact hc

/-- Behind a token that is kept no run of halves ends. -/
theorem not_trails_succ (hc : covered halves p = false) : ¬ Trails halves (p + 1) half := by
  rintro ⟨-, hlt, hrun⟩
  have := hrun p (by omega) (by omega)
  simp [hc] at this

/-- What is carried along is what the next token takes over. -/
theorem Inherits.step (h : Inherits halves ts p carry) (hc : covered halves p = true)
    (ht : ts[p]? = some t) : Inherits halves ts (p + 1) (carryOn halves carry p t) := by
  cases carry with
  | some lead =>
    obtain ⟨half, htrails, hside, hlead, hfirst⟩ := h
    refine ⟨half, (trails_succ_iff hc).2 (Or.inl htrails), hside, hlead, ?_⟩
    intro other hother hleft
    rcases (trails_succ_iff hc).1 hother with hother | ⟨-, heq⟩
    · exact hfirst other hother hleft
    · have := htrails.2.1
      omega
  | none =>
    by_cases hstart : leftAt halves p = true
    · -- the run has had no left half so far, so the one that starts here is the first
      obtain ⟨half, hmem, hside, hfirst⟩ := leftAt_iff.1 hstart
      rw [carryOn, if_pos hstart]
      refine ⟨half, (trails_succ_iff hc).2 (Or.inr ⟨hmem, hfirst⟩), hside, ?_, ?_⟩
      · rw [hfirst, leadAt, ht]
        rfl
      · intro other hother hleft
        rcases (trails_succ_iff hc).1 hother with hother | ⟨-, heq⟩
        · exact absurd hleft (h other hother)
        · omega
    · rw [carryOn, if_neg hstart]
      intro half hhalf hside
      rcases (trails_succ_iff hc).1 hhalf with hhalf | ⟨hmem, hfirst⟩
      · exact h half hhalf hside
      · exact hstart (leftAt_iff.2 ⟨half, hmem, hside, hfirst⟩)

/-- The pass keeps the tokens that no half stands on; each of them takes over what the run of halves in
front of it leaves to it. -/
theorem forall₂_sieve {A B : List Token} (hcut : ts = A ++ B) (h : Inherits halves ts A.length carry) :
    List.Forall₂ (fun kept u => ∃ carry, Inherits halves ts kept.2 carry ∧
        u = kept.1.withLead (carry.getD kept.1.lead))
      (remaining halves A.length B) (sieve halves carry A.length B) := by
  induction B generalizing A carry with
  | nil => exact List.Forall₂.nil
  | cons t B ih =>
    have ht : ts[A.length]? = some t := by simp [hcut]
    have hlen : (A ++ [t]).length = A.length + 1 := by simp
    have hcut' : ts = (A ++ [t]) ++ B := by simp [hcut]
    cases hc : covered halves A.length with
    | true =>
      rw [remaining_of_covered hc, sieve_of_covered hc, ← hlen]
      exact ih hcut' (by rw [hlen]; exact h.step hc ht)
    | false =>
      rw [remaining_of_not_covered hc, sieve_of_not_covered hc, ← hlen]
      refine List.Forall₂.cons ⟨carry, h, rfl⟩ (ih hcut' ?_)
      rw [hlen]
      exact fun half hhalf _ => not_trails_succ hc hhalf

/-- Halves that stand apart, in any order and however often each is given: stripping keeps the tokens
that no half stands on, in their order.  Behind a run of halves with a left half in it, a token takes
over the lead of the first left half of the run; otherwise it keeps its own.  Each removal finds its
half. -/
theorem strip_keeps {stale : List Half} (hin : ∀ half ∈ stale, half.Within ts.length)
    (hsep : Separate stale) :
    ∃ out, strip ts stale = .ok out ∧
      List.Forall₂ (fun kept u => ∃ carry, Inherits stale ts kept.2 carry ∧
          u = kept.1.withLead (carry.getD kept.1.lead))
        (remaining stale 0 ts) out ∧
      Removable ts (removals stale) ∧
      ∀ stale', (∀ half, half ∈ stale' ↔ half ∈ stale) → strip ts stale' = .ok out := by
  have hstrip := strip_eq_sieve hin hsep
  refine ⟨_, hstrip, ?_, (strip_eq_ok_iff.1 hstrip).1, ?_⟩
  · -- in front of the first token there is no run
    exact forall₂_sieve (A := []) rfl fun half htrails => absurd htrails.2.1 (Nat.not_lt_zero _)
  · intro stale' hmem
    have hin' : ∀ half ∈ stale', half.Within ts.length := fun half hhalf => hin half ((hmem half).1 hhalf)
    have hsep' : Separate stale' := fun a ha b hb => hsep a ((hmem a).1 ha) b ((hmem b).1 hb)
    rw [strip_eq_sieve hin' hsep', sieve_of_mem_iff hmem]

/-- Tokens that each have a lead of their own. -/
def sampleRow : List Token :=
  [⟨.identifier, ['a'], []⟩, ⟨.identifier, ['b'], [' ']⟩, ⟨.identifier, ['c'], ['\t']⟩,
    ⟨.identifier, ['d'], [' ', ' ']⟩, ⟨.identifier, ['e'], [' ', '\t']⟩, ⟨.identifier, ['f'], ['\t', ' ']⟩,
    ⟨.identifier, ['g'], ['\t', '\t']⟩]

/-- A run of a right half and two left halves, one of them given twice, and a right half at the end. -/
def sampleHalves : List Half :=
  [⟨.left, ⟨2, 3⟩⟩, ⟨.right, ⟨6, 6⟩⟩, ⟨.right, ⟨1, 1⟩⟩, ⟨.left, ⟨4, 4⟩⟩, ⟨.left, ⟨2, 3⟩⟩]

/-- The token behind the run takes over the lead of the first of the two left halves. -/
theorem strip_keeps_sample :
    (∀ half ∈ sampleHalves, half.Within sampleRow.length) ∧ Separate sampleHalves ∧
    List.Forall₂ (fun kept u => ∃ carry, Inherits sampleHalves sampleRow kept.2 carry ∧
        u = kept.1.withLead (carry.getD kept.1.lead))
      (remaining sampleHalves 0 sampleRow)
      [⟨.identifier, ['a'], []⟩, ⟨.identifier, ['f'], ['\t']⟩] ∧
    Removable sampleRow (removals sampleHalves) ∧
    strip sampleRow sampleHalves.reverse =
      .ok [⟨.identifier, ['a'], []⟩, ⟨.identifier, ['f'], ['\t']⟩] := by
  have hin : ∀ half ∈ sampleHalves, half.Within sampleRow.length := by decide
  have hsep : Separate sampleHalves := by decide
  have hsample : strip sampleRow sampleHalves =
      .ok [⟨.identifier, ['a'], []⟩, ⟨.identifier, ['f'], ['\t']⟩] := by decide
  obtain ⟨out, hstrip, hkept, hremovable, hany⟩ := strip_keeps hin hsep
  obtain rfl := Except.ok.inj (hsample.symm.trans hstrip)
  exact ⟨hin, hsep, hkept, hremovable, hany sampleHalves.reverse fun half => List.mem_reverse⟩

end Runs

end TagBox
