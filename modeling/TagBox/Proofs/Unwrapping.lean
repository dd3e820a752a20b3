import Mathlib.Algebra.BigOperators.Group.Finset.Piecewise
import Mathlib.Algebra.GroupWithZero.Nat
import Mathlib.Algebra.Order.BigOperators.Group.Finset
import Mathlib.Order.Interval.Finset.Nat
import TagBox.Proofs.Halves
import TagBox.Proofs.Removal
import TagBox.Proofs.Stability

/-!
# Taking wrappers away

Unboxing looks for the halves around each tag group by itself and then takes all of them out.  That is
exact as long as no two halves share a token.  Halves of different groups can share tokens only if the
right half of the template ends as its left half begins: then the end of one wrapper can be the start of
the next, and a token in both is counted twice, so that a token behind it goes too.

* `stripsExactly_iff` — stripping is exact where no two halves share a token.
* `Template.Interlocks` — the right half ends as the left half begins.
* `separate_of_not_interlocks`, `exists_shared_of_interlocks` — when halves share tokens.
* `unbox_exact_iff` — when unboxing takes the wrappers out and nothing else.
-/

namespace TagBox

/-! ## Halves that share tokens -/

/-- Number of positions that the half stands on. -/
def Half.size (half : Half) : Nat :=
  half.span.last + 1 - half.span.first

/-- Stripping takes out the tokens that halves stand on, each of them once, and no other: every removal
finds its half, and what is left is what no half stands on. -/
def StripsExactly (tokens : List Token) (stale : List Half) : Prop :=
  ∃ out, strip tokens stale = .ok out ∧
    contents out = contents ((remaining stale 0 tokens).map Prod.fst)

section Exact

variable {halves stale : List Half} {half : Half} {n : Nat} {ts : List Token}

/-- Layout aside, the pass keeps the tokens that no half stands on. -/
theorem contents_sieve {carry : Option Text} {i : Nat} :
    contents (sieve halves carry i ts) = contents ((remaining halves i ts).map Prod.fst) := by
  induction ts generalizing carry i with
  | nil => rfl
  | cons t ts ih =>
    cases hc : covered halves i with
    | true => rw [sieve_of_covered hc, remaining_of_covered hc, ih]
    | false =>
      rw [sieve_of_not_covered hc, remaining_of_not_covered hc, List.map_cons, contents_cons,
        contents_cons, ih]
      rfl

theorem length_cutHalf (h : half.Within ts.length) :
    (cutHalf ts half).length + half.size = ts.length := by
  obtain ⟨A, t, H, B, rfl, hfirst, hlast⟩ := h.exists_cut
  have hcut := removeHalf_append A B (List.cons_ne_nil t H) hfirst
    (by rw [hlast, List.length_cons, Nat.add_assoc])
  rw [removeHalf, if_pos h] at hcut
  rw [Except.ok.inj hcut, Half.size, List.length_append, length_handOver]
  simp only [List.length_append, List.length_cons]
  omega

/-- Removals that find their halves take as many tokens as the halves have. -/
theorem length_foldl_cutHalf (h : Removable ts halves) :
    (halves.foldl cutHalf ts).length + (halves.map Half.size).sum = ts.length := by
  induction halves generalizing ts with
  | nil => rfl
  | cons half rest ih =>
    obtain ⟨hhalf, hrest⟩ := h
    have hlen := length_cutHalf hhalf
    have hrun := ih hrest
    rw [List.foldl_cons, List.map_cons, List.sum_cons]
    omega

theorem length_remaining (halves : List Half) (ts : List Token) :
    (remaining halves 0 ts).length +
      ∑ p ∈ Finset.range ts.length, (if covered halves p then 1 else 0) = ts.length := by
  induction ts using List.reverseRecOn with
  | nil => rfl
  | append_singleton ts t ih =>
    rw [remaining_append, List.length_append, List.length_append, List.length_singleton,
      Finset.sum_range_succ, Nat.zero_add]
    cases hc : covered halves ts.length with
    | true =>
      rw [remaining_of_covered hc, if_pos rfl]
      change _ + 0 + _ = _
      omega
    | false =>
      rw [remaining_of_not_covered hc, if_neg (by simp)]
      change _ + 1 + _ = _
      omega

/-- A half counts once for each position that it stands on. -/
theorem sum_countP_covers (hin : ∀ half ∈ halves, half.Within n) :
    ∑ p ∈ Finset.range n, halves.countP (fun half => half.covers p) = (halves.map Half.size).sum := by
  induction halves with
  | nil => simp
  | cons half rest ih =>
    have hhalf : half.Within n := hin half (by simp)
    have hIcc : (Finset.range n).filter (fun p => half.covers p = true) =
        Finset.Icc half.span.first half.span.last := by
      ext p
      simp only [Finset.mem_filter, Finset.mem_range, covers_iff, Finset.mem_Icc]
      have := hhalf.2
      omega
    have hone : ∑ p ∈ Finset.range n, (if half.covers p then 1 else 0) = half.size := by
      rw [← Finset.card_filter, hIcc, Nat.card_Icc, Half.size]
    simp only [List.countP_cons, Finset.sum_add_distrib]
    rw [ih fun h hh => hin h (by simp [hh]), hone, List.map_cons, List.sum_cons]
    omega

/-- If stripping takes no more tokens than halves stand on, no two halves share a token. -/
theorem separate_of_length_strip {out : List Token} (hin : ∀ half ∈ stale, half.Within ts.length)
    (hout : strip ts stale = .ok out) (hlen : out.length = (remaining stale 0 ts).length) :
    Separate stale := by
  obtain ⟨hremovable, rfl⟩ := strip_eq_ok_iff.1 hout
  have hstrip := length_foldl_cutHalf hremovable
  have hcount := @sum_countP_covers (removals stale) ts.length fun half hhalf =>
    hin half (mem_removals.1 hhalf)
  have hremaining := length_remaining stale ts
  -- so each position that a half stands on is counted once
  have hle : ∀ p ∈ Finset.range ts.length,
      (if covered stale p then 1 else 0) ≤ (removals stale).countP (fun half => half.covers p) := by
    intro p _
    split
    · rename_i hc
      obtain ⟨half, hhalf, hcovers⟩ := covered_iff.1 hc
      exact List.countP_pos_iff.2 ⟨half, mem_removals.2 hhalf, covers_iff.2 hcovers⟩
    · exact Nat.zero_le _
  have honce := (Finset.sum_eq_sum_iff_of_le hle).1 (by omega)
  intro a ha b hb
  by_contra hne
  rw [not_or] at hne
  obtain ⟨hab, hshare⟩ := hne
  rw [Half.Apart, not_or] at hshare
  have hina := hin a ha
  have hinb := hin b hb
  simp only [Half.Within] at hina hinb
  set p := max a.span.first b.span.first with hp
  have hpa : a.covers p = true := covers_iff.2 (by omega)
  have hpb : b.covers p = true := covers_iff.2 (by omega)
  have hone := honce p (Finset.mem_range.2 (by omega))
  rw [if_pos (covered_iff.2 ⟨a, ha, covers_iff.1 hpa⟩), List.countP_eq_length_filter, eq_comm,
    List.length_eq_one_iff] at hone
  obtain ⟨c, hc⟩ := hone
  have hac : a ∈ [c] := hc ▸ List.mem_filter.2 ⟨mem_removals.2 ha, hpa⟩
  have hbc : b ∈ [c] := hc ▸ List.mem_filter.2 ⟨mem_removals.2 hb, hpb⟩
  exact hab ((List.mem_singleton.1 hac).trans (List.mem_singleton.1 hbc).symm)

/-- Stripping is exact if and only if no two halves share a token. -/
theorem stripsExactly_iff (hin : ∀ half ∈ stale, half.Within ts.length) :
    StripsExactly ts stale ↔ Separate stale := by
  constructor
  · rintro ⟨out, hout, hcontents⟩
    refine separate_of_length_strip hin hout ?_
    rw [length_eq_of_contents_eq hcontents, List.length_map]
  · intro hsep
    exact ⟨_, strip_eq_sieve hin hsep, contents_sieve⟩

end Exact

/-! ## Halves that hug tag groups -/

/-- Some end of the right half is a start of the left half. -/
def Template.Interlocks (T : Template) : Prop :=
  ∃ shared ∈ (contents T.right).tails, shared ≠ [] ∧ shared <+: contents T.left

instance (T : Template) : Decidable T.Interlocks :=
  inferInstanceAs (Decidable (∃ shared ∈ _, _ ∧ _))

/-- The half is outside of the group, or inside of its braces. -/
def Half.Spares (half : Half) (g : Span) : Prop :=
  half.span.last < g.first ∨ g.last < half.span.first ∨
    g.first < half.span.first ∧ half.span.last < g.last

section Hugging

variable {m : KeyMatcher} {T : Template} {ts : List Token} {gs : List Span} {g g' : Span} {half : Half}

theorem mem_hugs_wrappers (hT : T.HasHalves) (h : tagGroups m ts = .ok gs) :
    half ∈ Boxer.hugs (T.wrappers ts) gs ↔
      ∃ g ∈ gs, T.Hugs ts g ∧ (half = T.frontHalf g ∨ half = T.backHalf g) := by
  rw [mem_hugs]
  constructor
  · rintro ⟨g, hg, left, right, hboxing, hhalf⟩
    have hle : g.first ≤ g.last := Nat.le_of_lt (lt_of_mem_tagGroups h hg).1
    have hhug : T.Hugs ts g := (boxes_wrappers_iff hT hle).1 (by simp [Wrappers.boxes, hboxing])
    rw [boxing_of_hugs hT hhug, Option.some.injEq, Prod.mk.injEq] at hboxing
    obtain ⟨rfl, rfl⟩ := hboxing
    exact ⟨g, hg, hhug, hhalf.imp_right fun hin => (Option.some.inj hin).symm⟩
  · rintro ⟨g, hg, hhug, hhalf⟩
    exact ⟨g, hg, _, _, boxing_of_hugs hT hhug, hhalf.imp_right fun heq => congrArg some heq.symm⟩

/-- The tokens in front of a hugged group. -/
theorem Template.Hugs.left_eq (hhug : T.Hugs ts g) :
    contents T.left = ((contents ts).drop (g.first - T.left.length)).take T.left.length ∧
      T.left.length ≤ g.first := by
  obtain ⟨A, l, G, r, B, rfl, hl, -, hfirst, -⟩ := hhug
  have hlen := length_eq_of_contents_eq hl
  have hA : g.first - T.left.length = (contents A).length := by
    rw [length_contents]
    omega
  refine ⟨?_, by omega⟩
  rw [hA, contents_append, List.drop_left, contents_append, ← hlen, ← @length_contents l, List.take_left,
    hl]

/-- The tokens behind a hugged group. -/
theorem Template.Hugs.right_eq (hhug : T.Hugs ts g) :
    contents T.right = ((contents ts).drop (g.last + 1)).take T.right.length := by
  have hpre := List.prefix_iff_eq_take.1 hhug.back
  rwa [length_contents] at hpre

theorem within_of_hugs (hT : T.HasHalves) (hhug : T.Hugs ts g) :
    (T.frontHalf g).Within ts.length ∧ (T.backHalf g).Within ts.length := by
  obtain ⟨A, l, G, r, B, rfl, hl, hr, hfirst, hlast⟩ := hhug
  have hleft := length_eq_of_contents_eq hl
  have hright := length_eq_of_contents_eq hr
  have hlpos := List.length_pos_iff.2 hT.left
  have hrpos := List.length_pos_iff.2 hT.right
  simp only [Half.Within, Template.frontHalf, Template.backHalf, List.length_append]
  omega

/-- The halves that hug a tag group are among the tokens. -/
theorem within_of_mem_hugs (hT : T.HasHalves) (h : tagGroups m ts = .ok gs) :
    ∀ half ∈ Boxer.hugs (T.wrappers ts) gs, half.Within ts.length := by
  intro half hhalf
  obtain ⟨g, -, hhug, rfl | rfl⟩ := (mem_hugs_wrappers hT h).1 hhalf
  · exact (within_of_hugs hT hhug).1
  · exact (within_of_hugs hT hhug).2

/-- The halves of a wrapper around a tag group spare every tag group. -/
theorem spares_of_hugs (hT : T.HasHalves) (hnest : BracesNest (T.left ++ T.right))
    (hkey : Keyless m (T.left ++ T.right)) (h : tagGroups m ts = .ok gs) (hg : g ∈ gs)
    (hhug : T.Hugs ts g) (hg' : g' ∈ gs) :
    (T.frontHalf g).Spares g' ∧ (T.backHalf g).Spares g' := by
  have hends := fun j => @outside_halves m T ts gs g hnest hkey h hg hhug g' hg' j
  -- neither end of the group is in a half
  have hfirst : ¬ (g.first ≤ g'.first + T.left.length ∧ g'.first < g.first ∨
      g.last < g'.first ∧ g'.first ≤ g.last + T.right.length) := fun hj => (hends g'.first hj).1 rfl
  have hlast : ¬ (g.first ≤ g'.last + T.left.length ∧ g'.last < g.first ∨
      g.last < g'.last ∧ g'.last ≤ g.last + T.right.length) := fun hj => (hends g'.last hj).2 rfl
  have hlpos := List.length_pos_iff.2 hT.left
  have hle := hhug.left_eq.2
  simp only [Half.Spares, Template.frontHalf, Template.backHalf]
  constructor <;> omega

/-- A right half that reaches into a left half ends as the left half begins. -/
theorem interlocks_of_shared (hfront : T.Hugs ts g) (hback : T.Hugs ts g')
    (hstart : g'.last < g.first - T.left.length)
    (hshare : g.first - T.left.length ≤ g'.last + T.right.length)
    (hstop : g'.last + T.right.length < g.first) : T.Interlocks := by
  obtain ⟨hleft, hle⟩ := hfront.left_eq
  have hright := hback.right_eq
  set first := g.first - T.left.length with hfirst
  obtain ⟨skip, hskip⟩ : ∃ skip, first = g'.last + 1 + skip := ⟨first - (g'.last + 1), by omega⟩
  have hlen : skip < T.right.length := by omega
  refine ⟨(contents T.right).drop skip, (List.mem_tails _ _).2 (List.drop_suffix _ _), ?_, ?_⟩
  · rw [← List.length_pos_iff, List.length_drop, length_contents]
    omega
  · rw [hright, List.drop_take, List.drop_drop, ← hskip, hleft]
    exact List.take_prefix_take_left (by omega)

/-- If the template does not interlock, halves that hug tag groups share no token. -/
theorem separate_of_not_interlocks (hT : T.HasHalves) (hnest : BracesNest (T.left ++ T.right))
    (hkey : Keyless m (T.left ++ T.right)) (hlock : ¬ T.Interlocks) (h : tagGroups m ts = .ok gs) :
    Separate (Boxer.hugs (T.wrappers ts) gs) := by
  -- a left half is in front of a right half or behind it
  have hmixed : ∀ g ∈ gs, T.Hugs ts g → ∀ g' ∈ gs, T.Hugs ts g' →
      (T.frontHalf g).Apart (T.backHalf g') := by
    intro g hg hhug g' hg' hhug'
    by_contra hne
    have hlt := lt_of_mem_tagGroups h hg
    have hlt' := lt_of_mem_tagGroups h hg'
    have hspares := (spares_of_hugs hT hnest hkey h hg hhug hg').1
    have hspares' := (spares_of_hugs hT hnest hkey h hg' hhug' hg).2
    simp only [Half.Apart, Half.Spares, Template.frontHalf, Template.backHalf] at hne hspares hspares'
    exact hlock (interlocks_of_shared hhug hhug' (by omega) (by omega) (by omega))
  intro a ha b hb
  obtain ⟨g, hg, hhug, ha⟩ := (mem_hugs_wrappers hT h).1 ha
  obtain ⟨g', hg', hhug', hb⟩ := (mem_hugs_wrappers hT h).1 hb
  have hlt := lt_of_mem_tagGroups h hg
  have hlt' := lt_of_mem_tagGroups h hg'
  have hspares := spares_of_hugs hT hnest hkey h hg hhug hg'
  have hspares' := spares_of_hugs hT hnest hkey h hg' hhug' hg
  rcases ha with rfl | rfl <;> rcases hb with rfl | rfl
  · by_cases heq : g.first = g'.first
    · exact Or.inl (by simp only [Template.frontHalf, heq])
    · refine Or.inr ?_
      have hone := hspares.1
      have htwo := hspares'.1
      simp only [Half.Apart, Half.Spares, Template.frontHalf] at hone htwo ⊢
      omega
  · exact Or.inr (hmixed g hg hhug g' hg' hhug')
  · exact Or.inr (hmixed g' hg' hhug' g hg hhug).symm
  · by_cases heq : g.last = g'.last
    · exact Or.inl (by simp only [Template.backHalf, heq])
    · refine Or.inr ?_
      have hone := hspares.2
      have htwo := hspares'.2
      simp only [Half.Apart, Half.Spares, Template.backHalf] at hone htwo ⊢
      omega

end Hugging

/-! ## Two wrappers that share tokens -/

section Shared

variable {m : KeyMatcher} {T : Template} {key : Text}

/-- Tokens that open what they close and can be closed at the same time open nothing. -/
theorem braceNest_of_shared {v : List Token} {before after : List Kind}
    (hopen : braceNest [] v = some after) (hclose : braceNest before v = some []) :
    before = [] ∧ after = [] := by
  have hframe := braceNest_frame before hopen
  rw [List.nil_append, hclose, Option.some.injEq, eq_comm, List.append_eq_nil_iff] at hframe
  exact ⟨hframe.2, hframe.1⟩

/-- Two sample groups, each with what is in front of it. -/
theorem tagGroups_sampleGroups {A B C : List Token} {opened opened' : List Kind}
    (hkey : m.accepts key = true) (hA : Keyless m A) (hB : Keyless m B) (hC : Keyless m C)
    (hnA : braceNest [] A = some opened) (hnB : braceNest opened B = some opened')
    (hnC : braceNest opened' C = some []) :
    tagGroups m (A ++ (sampleGroup key ++ (B ++ (sampleGroup key ++ C)))) =
      .ok [⟨A.length, A.length + 3⟩, ⟨A.length + 4 + B.length, A.length + 4 + B.length + 3⟩] := by
  obtain ⟨new, hlen, hnew, hrun⟩ := Passes.of_keyless hA hnA
  obtain ⟨new', hlen', hnew', hrun'⟩ :=
    @groupsFrom_keyless m B opened opened' new (A.length + 4) hB hnB hlen hnew
  obtain ⟨new'', hlen'', -, hrun''⟩ :=
    @groupsFrom_keyless m C opened' [] new' (A.length + 4 + B.length + 4) hC hnC hlen' hnew'
  obtain rfl : new'' = [] := List.length_eq_zero_iff.1 hlen''
  have hmiddle := hrun' [] (sampleGroup key ++ C)
  have hbehind := hrun'' [] []
  rw [List.append_nil, List.append_nil] at hmiddle
  rw [List.append_nil, List.append_nil, List.append_nil] at hbehind
  rw [tagGroups, hrun, groupsFrom_sampleGroup hkey, hmiddle, groupsFrom_sampleGroup hkey, hbehind]
  rfl

/-- If the template interlocks, there are two wrappers of which one ends as the other begins. -/
theorem exists_shared_of_interlocks (hT : T.HasHalves) (hnest : BracesNest (T.left ++ T.right))
    (hkeyless : Keyless m (T.left ++ T.right)) (hkey : m.accepts key = true) (hlock : T.Interlocks) :
    ∃ ts gs, tagGroups m ts = .ok gs ∧ ¬ Separate (Boxer.hugs (T.wrappers ts) gs) := by
  obtain ⟨shared, hshared, hne, hleft⟩ := hlock
  obtain ⟨u, v, hright, rfl⟩ : ∃ u v, T.right = u ++ v ∧ contents v = shared := by
    obtain ⟨front, hfront⟩ := (List.mem_tails _ _).1 hshared
    obtain ⟨u, v, hcut, -, hv⟩ := List.map_eq_append_iff.1 hfront.symm
    exact ⟨u, v, hcut, hv⟩
  obtain ⟨v', w, hcut, hv'⟩ := exists_of_contents_prefix hleft
  have hvpos : 0 < v.length := by
    rw [← length_contents]
    exact List.length_pos_iff.2 hne
  have hlkey : Keyless m T.left := fun t ht => hkeyless t (List.mem_append_left _ ht)
  have hrkey : Keyless m T.right := fun t ht => hkeyless t (List.mem_append_right _ ht)
  have hukey : Keyless m u := fun t ht => hrkey t (by rw [hright]; exact List.mem_append_left _ ht)
  -- what the halves share opens and closes nothing
  obtain ⟨opened, hopen, hclose⟩ := hnest.halves
  have hu : braceNest opened u = some [] := by
    have hopen' := hopen
    have hclose' := hclose
    rw [hcut, braceNest_append] at hopen'
    rw [hright, braceNest_append] at hclose'
    obtain ⟨after, hafter, -⟩ := Option.bind_eq_some_iff.1 hopen'
    obtain ⟨before, hbefore, hv⟩ := Option.bind_eq_some_iff.1 hclose'
    obtain ⟨rfl, -⟩ := braceNest_of_shared ((braceNest_congr hv').symm.trans hafter) hv
    exact hbefore
  have hmiddle : braceNest opened (u ++ T.left) = some opened := by
    rw [braceNest_append, hu]
    exact hopen
  have hgroups := tagGroups_sampleGroups hkey hlkey
    (fun t ht => (List.mem_append.1 ht).elim (hukey t) (hlkey t)) hrkey hopen hmiddle hclose
  have hG : sampleGroup key ≠ [] := by simp [sampleGroup]
  refine ⟨_, _, hgroups, fun hsep => ?_⟩
  set ts := T.left ++ (sampleGroup key ++ ((u ++ T.left) ++ (sampleGroup key ++ T.right))) with hts
  -- the wrapper around the first group ends in the middle, and so does the start of the second
  have hfirst : T.Hugs ts ⟨T.left.length, T.left.length + 3⟩ := by
    refine hugs_of_affixes hG (List.suffix_refl _) ?_
    have hl : contents T.left = contents v ++ contents w := by rw [hcut, contents_append, hv']
    have hr : contents T.right = contents u ++ contents v := by rw [hright, contents_append]
    refine ⟨contents (w ++ (sampleGroup key ++ T.right)), ?_⟩
    simp only [contents_append, hl, hr, List.append_assoc]
  have hsecond : T.Hugs ts ⟨T.left.length + 4 + (u ++ T.left).length,
      T.left.length + 4 + (u ++ T.left).length + 3⟩ := by
    set A := T.left ++ (sampleGroup key ++ (u ++ T.left)) with hA
    have hfront : contents T.left <:+ contents A :=
      ⟨contents (T.left ++ (sampleGroup key ++ u)), by simp [hA]⟩
    have hhug : T.Hugs (A ++ (sampleGroup key ++ T.right)) ⟨A.length, A.length + 3⟩ :=
      hugs_of_affixes hG hfront (List.prefix_refl _)
    have hlen : A.length = T.left.length + 4 + (u ++ T.left).length := by
      rw [hA, List.length_append, List.length_append, Nat.add_assoc]
      rfl
    have hcut' : A ++ (sampleGroup key ++ T.right) = ts := by simp [hA, hts]
    rwa [hlen, hcut'] at hhug
  have hback := (mem_hugs_wrappers hT hgroups).2 ⟨_, by simp, hfirst, Or.inr rfl⟩
  have hfront := (mem_hugs_wrappers hT hgroups).2 ⟨_, by simp, hsecond, Or.inl rfl⟩
  have hlpos := List.length_pos_iff.2 hT.left
  rcases hsep _ hback _ hfront with heq | hapart
  · simp [Template.backHalf, Template.frontHalf] at heq
  · simp only [Half.Apart, Template.backHalf, Template.frontHalf, List.length_append, hright] at hapart
    omega

end Shared

/-! ## Unboxing -/

section Unboxing

variable {boxer : Boxer} {rendered : Text}

/-- Unboxing takes out the halves around tag groups, if these can be found at all.  On given tokens that
is exact if and only if no two of the halves share a token.  With a template whose braces nest and which
holds no marked key, no half cuts into a tag group; and unboxing is exact on all tokens if and only if
the template does not interlock. -/
theorem unbox_exact_iff (hcompile : Template.compile rendered = .ok boxer.template) :
    (∀ ts e, tagGroups boxer.matcher ts = .error e → boxer.unbox ts = .error (.nesting e)) ∧
    (∀ ts gs, tagGroups boxer.matcher ts = .ok gs → ∃ halves,
      (∀ half, half ∈ halves ↔ ∃ g ∈ gs, boxer.template.Hugs ts g ∧
        (half = boxer.template.frontHalf g ∨ half = boxer.template.backHalf g)) ∧
      Boxer.hugging boxer.matcher boxer.template ts = .ok halves ∧
      boxer.unbox ts = (strip ts halves).mapError .overrun ∧
      (StripsExactly ts halves ↔ Separate halves)) ∧
    (BracesNest (boxer.template.left ++ boxer.template.right) →
      Keyless boxer.matcher (boxer.template.left ++ boxer.template.right) →
      (∀ ts gs halves, tagGroups boxer.matcher ts = .ok gs →
        Boxer.hugging boxer.matcher boxer.template ts = .ok halves →
        ∀ g ∈ gs, ∀ half ∈ halves, half.Spares g) ∧
      (boxer.matcher.keys ≠ [] →
        ((∀ ts halves, Boxer.hugging boxer.matcher boxer.template ts = .ok halves →
          StripsExactly ts halves) ↔ ¬ boxer.template.Interlocks))) := by
  have hT := hasHalves_of_compile hcompile
  refine ⟨?_, ?_, fun hnest hkeyless => ⟨?_, fun hkeys => ⟨?_, ?_⟩⟩⟩
  · intro ts e hgs
    rw [Boxer.unbox, Boxer.unwrap, Boxer.hugging, hgs]
    rfl
  · intro ts gs hgs
    have hhalves : Boxer.hugging boxer.matcher boxer.template ts =
        .ok (Boxer.hugs (boxer.template.wrappers ts) gs) := by
      rw [Boxer.hugging, hgs]
      rfl
    refine ⟨_, fun half => mem_hugs_wrappers hT hgs, hhalves, ?_,
      stripsExactly_iff (within_of_mem_hugs hT hgs)⟩
    rw [Boxer.unbox, Boxer.unwrap, hhalves]
  · intro ts gs halves hgs hhalves g hg half hhalf
    rw [Boxer.hugging, hgs] at hhalves
    obtain rfl := Except.ok.inj hhalves
    obtain ⟨g', hg', hhug, rfl | rfl⟩ := (mem_hugs_wrappers hT hgs).1 hhalf
    · exact (spares_of_hugs hT hnest hkeyless hgs hg' hhug hg).1
    · exact (spares_of_hugs hT hnest hkeyless hgs hg' hhug hg).2
  · intro hexact hlock
    obtain ⟨key, hkey⟩ := exists_accepts hkeys
    obtain ⟨ts, gs, hgs, hshared⟩ := exists_shared_of_interlocks hT hnest hkeyless hkey hlock
    have hstrips := hexact ts _ (by rw [Boxer.hugging, hgs]; rfl)
    exact hshared ((stripsExactly_iff (within_of_mem_hugs hT hgs)).1 hstrips)
  · intro hlock ts halves hhalves
    obtain ⟨gs, hgs, rfl⟩ := map_eq_ok_iff.1 hhalves
    have hseparate := separate_of_not_interlocks hT hnest hkeyless hlock hgs
    exact (stripsExactly_iff (within_of_mem_hugs hT hgs)).2 hseparate

/-- A wrapper with a test of a variable does not interlock. -/
theorem unbox_exact_iff_conditional :
    Template.compile "var.t ? /*<box>*/{}/*</box>*/ : {}".toList = .ok (conditional ['t']) ∧
    ¬ (conditional ['t']).Interlocks ∧
    ∀ ts halves, Boxer.hugging ⟨[], KeyMatcher.defaultKeys⟩ (conditional ['t']) ts = .ok halves →
      StripsExactly ts halves := by
  have hcompile : Template.compile "var.t ? /*<box>*/{}/*</box>*/ : {}".toList =
      .ok (conditional ['t']) := by decide +kernel
  have hlock : ¬ (conditional ['t']).Interlocks := by decide
  obtain ⟨-, -, hneutral⟩ := @unbox_exact_iff
    ⟨conditional ['t'], none, ⟨[], KeyMatcher.defaultKeys⟩, none, {}⟩ _ hcompile
  obtain ⟨-, hexact⟩ := hneutral (by decide) (by decide)
  exact ⟨hcompile, hlock, (hexact (by decide)).2 hlock⟩

/-- The wrapper `x … x`. -/
def mirrored : Template where
  left := [⟨.identifier, ['x'], []⟩]
  right := [⟨.identifier, ['x'], []⟩]
  payloadLead := []

/-- The name between two groups belongs to the wrappers of both.  It is taken out twice, and with it
goes the opening brace of the second group. -/
theorem unbox_drops_brace :
    ∃ x out halves,
      Template.compile "x/*<box>*/{}/*</box>*/x".toList = .ok mirrored ∧ mirrored.Interlocks ∧
      tokenize "x{yor_trace=1}x{yor_trace=2}x".toList = .ok x ∧
      Boxer.unbox ⟨mirrored, none, ⟨[], KeyMatcher.defaultKeys⟩, none, {}⟩ x = .ok out ∧
      Boxer.hugging ⟨[], KeyMatcher.defaultKeys⟩ mirrored x = .ok halves ∧
      print out = "{yor_trace=1}yor_trace=2\x7d".toList ∧
      print ((remaining halves 0 x).map Prod.fst) = "{yor_trace=1}{yor_trace=2}".toList ∧
      contents out ≠ contents ((remaining halves 0 x).map Prod.fst) := by
  have hx : tokenize "x{yor_trace=1}x{yor_trace=2}x".toList = .ok [⟨.identifier, ['x'], []⟩,
      ⟨.openBrace, ['{'], []⟩, ⟨.identifier, "yor_trace".toList, []⟩, ⟨.equals, ['='], []⟩,
      ⟨.number, ['1'], []⟩, ⟨.closeBrace, ['}'], []⟩, ⟨.identifier, ['x'], []⟩,
      ⟨.openBrace, ['{'], []⟩, ⟨.identifier, "yor_trace".toList, []⟩, ⟨.equals, ['='], []⟩,
      ⟨.number, ['2'], []⟩, ⟨.closeBrace, ['}'], []⟩, ⟨.identifier, ['x'], []⟩,
      ⟨.eof, [], []⟩] := by decide +kernel
  refine ⟨_, [⟨.openBrace, ['{'], []⟩, ⟨.identifier, "yor_trace".toList, []⟩, ⟨.equals, ['='], []⟩,
      ⟨.number, ['1'], []⟩, ⟨.closeBrace, ['}'], []⟩, ⟨.identifier, "yor_trace".toList, []⟩,
      ⟨.equals, ['='], []⟩, ⟨.number, ['2'], []⟩, ⟨.closeBrace, ['}'], []⟩, ⟨.eof, [], []⟩],
    [⟨.left, ⟨0, 0⟩⟩, ⟨.right, ⟨6, 6⟩⟩, ⟨.left, ⟨6, 6⟩⟩, ⟨.right, ⟨12, 12⟩⟩],
    by decide +kernel, by decide, hx, by decide +kernel, by decide +kernel, ?_, ?_, ?_⟩
  · decide +kernel
  · decide +kernel
  · decide +kernel

end Unboxing

end TagBox
