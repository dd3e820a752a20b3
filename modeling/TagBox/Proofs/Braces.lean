import TagBox.Proofs.Groups
import Mathlib.Data.List.TakeWhile
import Mathlib.Data.Nat.Find
import Mathlib.Order.Basic

/-!
# Tag groups by counting braces

Which braces match can be said without a stack, by counting.  The depth of a position is the number of
braces opened minus the number of braces closed in front of it; two braces match if the braces between
them are balanced, that is if the depth does not come back in between to what it was in front of the
first one.  The search for tag groups is held against this count.

* `Balanced`, `BracePair` — balanced braces and matching braces.
* `bracePair_iff` — matching braces by depth.
* `BracePair.disjoint_or_nested` — two pairs are disjoint or nested.
* `BracePair.innermost_iff` — the innermost pair around a position.
* `Scanning`, `groupsFrom_outcome` — what the search knows at each position, and how it ends.
* `tagGroups_exact` — the marked groups are exactly the innermost pairs around marked keys.
-/

namespace TagBox

/-- Number of braces that the tokens open. -/
def opens (tokens : List Token) : Nat :=
  (kinds tokens).count .openBrace

/-- Number of braces that the tokens close. -/
def closes (tokens : List Token) : Nat :=
  (kinds tokens).count .closeBrace

/-- The braces of the tokens are balanced: as many are closed as are opened, and never more of them up
to any position. -/
structure Balanced (tokens : List Token) : Prop where
  front : ∀ n ≤ tokens.length, closes (tokens.take n) ≤ opens (tokens.take n)
  whole : closes tokens = opens tokens

/-- The braces at the positions `o` and `c` match. -/
structure BracePair (tokens : List Token) (o c : Nat) : Prop where
  lt : o < c
  opening : (kinds tokens)[o]? = some .openBrace
  closing : (kinds tokens)[c]? = some .closeBrace
  between : Balanced ((tokens.take c).drop (o + 1))

/-- At position `k` stands a marked key: an identifier or a quoted literal that spells a key of the
matcher, with `=` or `:` behind it, comments and line ends aside. -/
def MarkedAt (m : KeyMatcher) (tokens : List Token) (k : Nat) : Prop :=
  ∃ front t gap sign behind key, tokens = front ++ t :: (gap ++ sign :: behind) ∧ front.length = k ∧
    (t.kind = .identifier ∨ t.kind = .quoted) ∧ t.keyText = some key ∧ m.accepts key = true ∧
    (∀ u ∈ gap, u.kind = .comment ∨ u.kind = .newline) ∧
    (sign.kind = .equals ∨ sign.kind = .colon)

/-- The braces at the ends of the span are the innermost pair around some marked key. -/
def Tagged (m : KeyMatcher) (tokens : List Token) (g : Span) : Prop :=
  BracePair tokens g.first g.last ∧ ∃ k, g.first < k ∧ k < g.last ∧ MarkedAt m tokens k ∧
    ∀ o c, BracePair tokens o c → ¬ (g.first < o ∧ o < k ∧ k < c ∧ c < g.last)

/-- The error names the brace to blame: the first one that closes more than has been opened, or else
the outermost one that is not closed. -/
def Blames (tokens : List Token) : NestingError → Prop
  | .unmatchedClose i text => ∃ t, tokens[i]? = some t ∧ t.kind = .closeBrace ∧ t.text = text ∧
      (∀ n ≤ i, closes (tokens.take n) ≤ opens (tokens.take n)) ∧
      opens (tokens.take i) < closes (tokens.take (i + 1))
  | .unclosed o text => (∀ n ≤ tokens.length, closes (tokens.take n) ≤ opens (tokens.take n)) ∧
      ∃ t, tokens[o]? = some t ∧ t.kind = .openBrace ∧ t.text = text ∧
        (∀ c, ¬ BracePair tokens o c) ∧
        ∀ p < o, (kinds tokens)[p]? = some .openBrace → ∃ c, BracePair tokens p c

/-! ## Depth -/

/-- Number of braces that are open in front of position `n`; it is negative if more have been closed
than opened. -/
def depth (tokens : List Token) (n : Nat) : Int :=
  opens (tokens.take n) - closes (tokens.take n)

section Depth

variable {tokens : List Token} {n : Nat}

theorem getElem?_kinds (tokens : List Token) (n : Nat) :
    (kinds tokens)[n]? = tokens[n]?.map Token.kind :=
  List.getElem?_map

theorem kinds_of_getElem? {t : Token} {k : Kind} (ht : tokens[n]? = some t) (hk : t.kind = k) :
    (kinds tokens)[n]? = some k := by
  rw [getElem?_kinds, ht, Option.map_some, hk]

theorem exists_of_kinds {k : Kind} (h : (kinds tokens)[n]? = some k) :
    ∃ t, tokens[n]? = some t ∧ t.kind = k := by
  rw [getElem?_kinds] at h
  exact Option.map_eq_some_iff.1 h

theorem count_kinds_take_succ (k : Kind) (tokens : List Token) (n : Nat) :
    (kinds (tokens.take (n + 1))).count k =
      (kinds (tokens.take n)).count k + if (kinds tokens)[n]? = some k then 1 else 0 := by
  rw [List.take_add_one, kinds_append, List.count_append, getElem?_kinds]
  cases tokens[n]? with
  | none => rfl
  | some t => simp [List.count_singleton]

theorem depth_zero (tokens : List Token) : depth tokens 0 = 0 := rfl

theorem depth_length (tokens : List Token) :
    depth tokens tokens.length = opens tokens - closes tokens := by
  rw [depth, List.take_length]

theorem depth_succ_of_open (h : (kinds tokens)[n]? = some .openBrace) :
    depth tokens (n + 1) = depth tokens n + 1 := by
  have hopens := count_kinds_take_succ .openBrace tokens n
  have hcloses := count_kinds_take_succ .closeBrace tokens n
  rw [h, if_pos rfl] at hopens
  rw [h, if_neg (by simp)] at hcloses
  simp only [depth, opens, closes]
  omega

theorem depth_succ_of_close (h : (kinds tokens)[n]? = some .closeBrace) :
    depth tokens (n + 1) = depth tokens n - 1 := by
  have hopens := count_kinds_take_succ .openBrace tokens n
  have hcloses := count_kinds_take_succ .closeBrace tokens n
  rw [h, if_neg (by simp)] at hopens
  rw [h, if_pos rfl] at hcloses
  simp only [depth, opens, closes]
  omega

theorem depth_succ_of_plain (ho : (kinds tokens)[n]? ≠ some .openBrace)
    (hc : (kinds tokens)[n]? ≠ some .closeBrace) : depth tokens (n + 1) = depth tokens n := by
  simp only [depth, opens, closes, count_kinds_take_succ, if_neg ho, if_neg hc, Nat.add_zero]

/-- The depth rises at an opening brace only. -/
theorem open_of_depth_lt (h : depth tokens n < depth tokens (n + 1)) :
    (kinds tokens)[n]? = some .openBrace := by
  by_contra ho
  by_cases hc : (kinds tokens)[n]? = some .closeBrace
  · have := depth_succ_of_close hc
    omega
  · have := depth_succ_of_plain ho hc
    omega

/-- The depth falls at a closing brace only. -/
theorem close_of_depth_lt (h : depth tokens (n + 1) < depth tokens n) :
    (kinds tokens)[n]? = some .closeBrace := by
  by_contra hc
  by_cases ho : (kinds tokens)[n]? = some .openBrace
  · have := depth_succ_of_open ho
    omega
  · have := depth_succ_of_plain ho hc
    omega

theorem depth_nonneg_iff : 0 ≤ depth tokens n ↔ closes (tokens.take n) ≤ opens (tokens.take n) := by
  rw [depth]
  omega

theorem balanced_iff :
    Balanced tokens ↔ (∀ n ≤ tokens.length, 0 ≤ depth tokens n) ∧ depth tokens tokens.length = 0 := by
  constructor
  · intro h
    refine ⟨fun n hn => depth_nonneg_iff.2 (h.front n hn), ?_⟩
    rw [depth_length, h.whole]
    omega
  · rintro ⟨hfront, hwhole⟩
    rw [depth_length] at hwhole
    exact ⟨fun n hn => depth_nonneg_iff.1 (hfront n hn), by omega⟩

/-- Depth inside of a stretch, counted from its start. -/
theorem depth_slice {o c : Nat} (hn : o + n ≤ c) :
    depth ((tokens.take c).drop o) n = depth tokens (o + n) - depth tokens o := by
  have hcount : ∀ k : Kind, (kinds (tokens.take (o + n))).count k =
      (kinds (tokens.take o)).count k + (kinds (((tokens.take c).drop o).take n)).count k := by
    intro k
    rw [← List.count_append, ← kinds_append]
    congr 2
    rw [List.take_add, List.take_drop, List.take_drop, List.take_take, Nat.min_eq_left hn]
  simp only [depth, opens, closes, hcount]
  omega

end Depth

/-! ## Matching braces -/

section Pairs

variable {tokens : List Token} {o c o' c' k n : Nat}

theorem lt_length_of_kinds {x : Kind} (h : (kinds tokens)[n]? = some x) : n < tokens.length := by
  obtain ⟨t, ht, -⟩ := exists_of_kinds h
  exact (List.getElem?_eq_some_iff.1 ht).1

/-- Matching braces by depth: behind the first one the depth does not come back to what it was until the
second one. -/
theorem bracePair_iff :
    BracePair tokens o c ↔ o < c ∧ (kinds tokens)[o]? = some .openBrace ∧
      (kinds tokens)[c]? = some .closeBrace ∧ depth tokens c = depth tokens o + 1 ∧
      ∀ n, o < n → n ≤ c → depth tokens o < depth tokens n := by
  constructor
  · intro h
    have hopen := depth_succ_of_open h.opening
    have hlt := h.lt
    have hc := lt_length_of_kinds h.closing
    have hlen : ((tokens.take c).drop (o + 1)).length = c - (o + 1) := by
      rw [List.length_drop, List.length_take, Nat.min_eq_left hc.le]
    obtain ⟨hfront, hwhole⟩ := balanced_iff.1 h.between
    rw [hlen] at hfront hwhole
    refine ⟨hlt, h.opening, h.closing, ?_, fun n hn hnc => ?_⟩
    · rw [depth_slice (by omega), Nat.add_sub_of_le hlt] at hwhole
      omega
    · have hdepth := hfront (n - (o + 1)) (by omega)
      rw [depth_slice (by omega), Nat.add_sub_of_le hn] at hdepth
      omega
  · rintro ⟨hlt, ho, hc, hend, habove⟩
    have hopen := depth_succ_of_open ho
    have hlen : ((tokens.take c).drop (o + 1)).length = c - (o + 1) := by
      rw [List.length_drop, List.length_take, Nat.min_eq_left (lt_length_of_kinds hc).le]
    refine ⟨hlt, ho, hc, balanced_iff.2 ?_⟩
    rw [hlen]
    refine ⟨fun n hn => ?_, ?_⟩
    · rw [depth_slice (by omega)]
      have := habove (o + 1 + n) (by omega) (by omega)
      omega
    · rw [depth_slice (by omega), Nat.add_sub_of_le hlt]
      omega

theorem BracePair.above (h : BracePair tokens o c) (hn : o < n) (hnc : n ≤ c) :
    depth tokens o < depth tokens n :=
  (bracePair_iff.1 h).2.2.2.2 n hn hnc

theorem BracePair.depth_closing (h : BracePair tokens o c) : depth tokens c = depth tokens o + 1 :=
  (bracePair_iff.1 h).2.2.2.1

theorem BracePair.depth_behind (h : BracePair tokens o c) : depth tokens (c + 1) = depth tokens o := by
  rw [depth_succ_of_close h.closing, h.depth_closing]
  omega

theorem BracePair.lt_length (h : BracePair tokens o c) : c < tokens.length :=
  lt_length_of_kinds h.closing

/-- A brace matches one brace. -/
theorem BracePair.closing_unique (h : BracePair tokens o c) (h' : BracePair tokens o c') : c = c' := by
  rcases Nat.lt_trichotomy c c' with hlt | heq | hlt
  · have := h'.above (Nat.lt_succ_of_lt h.lt) hlt
    rw [h.depth_behind] at this
    omega
  · exact heq
  · have := h.above (Nat.lt_succ_of_lt h'.lt) hlt
    rw [h'.depth_behind] at this
    omega

/-- Of two pairs, the one that begins first ends in front of the other one or goes around it. -/
theorem BracePair.disjoint_or_around (h : BracePair tokens o c) (h' : BracePair tokens o' c')
    (hlt : o < o') : c < o' ∨ c' < c := by
  by_contra hcross
  rw [not_or, Nat.not_lt, Nat.not_lt] at hcross
  have hne : c ≠ o' := by
    rintro rfl
    have := h.closing.symm.trans h'.opening
    simp at this
  have hinside := h.above hlt hcross.1
  -- behind the first pair the depth is too low for the inside of the second one
  rcases Nat.eq_or_lt_of_le hcross.2 with rfl | hend
  · have := h.depth_behind.symm.trans h'.depth_behind
    omega
  · have hlow := h'.above (show o' < c + 1 by omega) hend
    rw [h.depth_behind] at hlow
    omega

/-- Two pairs are the same, disjoint or nested. -/
theorem BracePair.disjoint_or_nested (h : BracePair tokens o c) (h' : BracePair tokens o' c') :
    (o = o' ∧ c = c') ∨ (c < o' ∨ c' < o) ∨ (o < o' ∧ c' < c ∨ o' < o ∧ c < c') := by
  rcases Nat.lt_trichotomy o o' with hlt | rfl | hlt
  · rcases h.disjoint_or_around h' hlt with hout | hin
    · exact Or.inr (Or.inl (Or.inl hout))
    · exact Or.inr (Or.inr (Or.inl ⟨hlt, hin⟩))
  · exact Or.inl ⟨rfl, h.closing_unique h'⟩
  · rcases h'.disjoint_or_around h hlt with hout | hin
    · exact Or.inr (Or.inl (Or.inr hout))
    · exact Or.inr (Or.inr (Or.inr ⟨hlt, hin⟩))

/-- A brace behind which the depth comes back has a match. -/
theorem exists_bracePair_of_open (ho : (kinds tokens)[o]? = some .openBrace) (hn : o < n)
    (hdepth : depth tokens n ≤ depth tokens o) : ∃ c < n, BracePair tokens o c := by
  have hopen := depth_succ_of_open ho
  -- the first position behind the brace at which the depth has come back
  have hex : ∃ n, o < n ∧ depth tokens n ≤ depth tokens o := ⟨n, hn, hdepth⟩
  obtain ⟨hlow, hle⟩ := Nat.find_spec hex
  have hfirst : ∀ p < Nat.find hex, o < p → depth tokens o < depth tokens p := by
    intro p hp hop
    by_contra hcon
    exact Nat.find_min hex hp ⟨hop, by omega⟩
  have hfind : Nat.find hex ≤ n := Nat.find_min' hex ⟨hn, hdepth⟩
  obtain ⟨c, hc⟩ : ∃ c, Nat.find hex = c + 1 := Nat.exists_eq_add_one_of_ne_zero (by omega)
  rw [hc] at hlow hle hfirst hfind
  have hoc : o < c := by
    rcases Nat.eq_or_lt_of_le (Nat.le_of_lt_succ hlow) with rfl | hlt
    · omega
    · exact hlt
  have habove := hfirst c (Nat.lt_succ_self c) hoc
  have hclose : (kinds tokens)[c]? = some .closeBrace := close_of_depth_lt (by omega)
  have hfall := depth_succ_of_close hclose
  exact ⟨c, by omega, bracePair_iff.2 ⟨hoc, ho, hclose, by omega, fun p hp hpc => hfirst p (by omega) hp⟩⟩

/-- The last brace that was opened in front of a position and is still open there. -/
theorem exists_open_of_depth_lt {a : Nat} (ha : a < k) (hdepth : depth tokens a < depth tokens k) :
    ∃ o, a ≤ o ∧ o < k ∧ (kinds tokens)[o]? = some .openBrace ∧ depth tokens k = depth tokens o + 1 ∧
      ∀ n, o < n → n ≤ k → depth tokens o < depth tokens n := by
  set o := Nat.findGreatest (fun n => depth tokens n < depth tokens k) k with ho
  have hle : a ≤ o := Nat.le_findGreatest ha.le hdepth
  have hlow : depth tokens o < depth tokens k :=
    Nat.findGreatest_spec (P := fun n => depth tokens n < depth tokens k) ha.le hdepth
  have hlast : ∀ n, o < n → n ≤ k → depth tokens k ≤ depth tokens n := fun n hn hnk =>
    Int.not_lt.1 (Nat.findGreatest_is_greatest hn hnk)
  have hok : o < k := by
    refine Nat.lt_of_le_of_ne (Nat.findGreatest_le k) fun heq => ?_
    rw [heq] at hlow
    omega
  have hnext := hlast (o + 1) (Nat.lt_succ_self o) hok
  have hopen : (kinds tokens)[o]? = some .openBrace := open_of_depth_lt (by omega)
  have hrise := depth_succ_of_open hopen
  refine ⟨o, hle, hok, hopen, by omega, fun n hn hnk => ?_⟩
  have := hlast n hn hnk
  omega

/-- Around a position that is deeper than positions on both of its sides there is a pair between
these. -/
theorem exists_bracePair_around {a b : Nat} (ha : a < k) (hb : k < b)
    (hclose : (kinds tokens)[k]? ≠ some .closeBrace) (hleft : depth tokens a < depth tokens k)
    (hright : depth tokens b < depth tokens k) :
    ∃ o c, BracePair tokens o c ∧ a ≤ o ∧ o < k ∧ k < c ∧ c < b := by
  obtain ⟨o, hao, hok, hopen, hdepth, habove⟩ := exists_open_of_depth_lt ha hleft
  obtain ⟨c, hcb, hpair⟩ := exists_bracePair_of_open hopen (show o < b by omega) (by omega)
  refine ⟨o, c, hpair, hao, hok, ?_, hcb⟩
  by_contra hkc
  rcases Nat.eq_or_lt_of_le (Nat.le_of_not_lt hkc) with rfl | hlt
  · exact hclose hpair.closing
  · have := habove (c + 1) (Nat.lt_succ_of_lt hpair.lt) hlt
    rw [hpair.depth_behind] at this
    omega

/-- No pair lies between a pair and a position in it if and only if the position is one deeper than the
pair. -/
theorem BracePair.innermost_iff (h : BracePair tokens o c) (hok : o < k) (hkc : k < c)
    (hclose : (kinds tokens)[k]? ≠ some .closeBrace) :
    (∀ o' c', BracePair tokens o' c' → ¬ (o < o' ∧ o' < k ∧ k < c' ∧ c' < c)) ↔
      depth tokens k = depth tokens o + 1 := by
  have hinside := h.above hok hkc.le
  constructor
  · intro hnone
    by_contra hne
    have hopen := depth_succ_of_open h.opening
    have hend := h.depth_closing
    have hok' : o + 1 < k := by
      rcases Nat.eq_or_lt_of_le (Nat.succ_le_of_lt hok) with heq | hlt
      · rw [← heq] at hne
        exact absurd hopen hne
      · exact hlt
    obtain ⟨o', c', hpair, hoo, ho'k, hkc', hcc⟩ :=
      exists_bracePair_around hok' hkc hclose (by omega) (by omega)
    exact hnone o' c' hpair ⟨hoo, ho'k, hkc', hcc⟩
  · rintro hdepth o' c' hpair ⟨hoo, ho'k, hkc', hcc⟩
    have h1 := h.above hoo (by omega)
    have h2 := hpair.above ho'k hkc'.le
    omega

end Pairs

/-! ## Marked keys -/

section Keys

variable {m : KeyMatcher} {tokens front ts : List Token} {t : Token} {k : Nat} {g : Span}

theorem assigned_iff :
    assigned ts = true ↔ ∃ gap sign behind, ts = gap ++ sign :: behind ∧
      (∀ u ∈ gap, u.kind = .comment ∨ u.kind = .newline) ∧
      (sign.kind = .equals ∨ sign.kind = .colon) := by
  unfold assigned
  constructor
  · intro h
    cases hd : ts.dropWhile Token.isGap with
    | nil => simp [hd] at h
    | cons sign behind =>
      refine ⟨ts.takeWhile Token.isGap, sign, behind, ?_, fun u hu => ?_, by simpa [hd] using h⟩
      · rw [← hd, List.takeWhile_append_dropWhile]
      · simpa [Token.isGap] using List.mem_takeWhile_imp hu
  · rintro ⟨gap, sign, behind, rfl, hgap, hsign⟩
    have hall : ∀ u ∈ gap, u.isGap = true := by simpa [Token.isGap] using hgap
    have hstop : sign.isGap = false := by
      rcases hsign with hsign | hsign <;> simp [Token.isGap, hsign]
    rw [List.dropWhile_append_of_pos hall, List.dropWhile_cons_of_neg (by simp [hstop])]
    simpa using hsign

theorem kind_of_keyText {key : Text} (h : t.keyText = some key) :
    t.kind = .identifier ∨ t.kind = .quoted := by
  unfold Token.keyText at h
  split at h
  · exact Or.inl ‹_›
  · exact Or.inr ‹_›
  · simp at h

/-- A token marks its group exactly if it is a marked key. -/
theorem marks_iff : m.marks t ts = true ↔ MarkedAt m (front ++ t :: ts) front.length := by
  rw [KeyMatcher.marks, Bool.and_eq_true, assigned_iff, Option.any_eq_true]
  constructor
  · rintro ⟨⟨gap, sign, behind, rfl, hgap, hsign⟩, key, hkey, haccepts⟩
    exact ⟨front, t, gap, sign, behind, key, rfl, rfl, kind_of_keyText hkey, hkey, haccepts, hgap, hsign⟩
  · rintro ⟨front', t', gap, sign, behind, key, heq, hlen, -, hkey, haccepts, hgap, hsign⟩
    obtain ⟨rfl, htail⟩ := List.append_inj heq hlen.symm
    obtain ⟨rfl, rfl⟩ := List.cons.inj htail
    exact ⟨⟨gap, sign, behind, rfl, hgap, hsign⟩, key, hkey, haccepts⟩

theorem MarkedAt.kinds (h : MarkedAt m tokens k) :
    (kinds tokens)[k]? ≠ some .openBrace ∧ (kinds tokens)[k]? ≠ some .closeBrace := by
  obtain ⟨front, t, gap, sign, behind, key, rfl, rfl, hkind, -⟩ := h
  rw [getElem?_kinds, List.getElem?_append_right (Nat.le_refl _), Nat.sub_self,
    List.getElem?_cons_zero, Option.map_some]
  rcases hkind with hkind | hkind <;> simp [hkind]

theorem tagged_iff :
    Tagged m tokens g ↔ BracePair tokens g.first g.last ∧
      ∃ k, g.first < k ∧ k < g.last ∧ MarkedAt m tokens k ∧
        depth tokens k = depth tokens g.first + 1 := by
  refine and_congr_right fun hpair => exists_congr fun k => ?_
  refine and_congr_right fun hfirst => and_congr_right fun hlast => and_congr_right fun hk => ?_
  exact hpair.innermost_iff hfirst hlast hk.kinds.2

end Keys

/-! ## The search -/

/-- What is known of a brace that is open at position `i` with `level` braces open around it. -/
structure Frame.Open (m : KeyMatcher) (tokens : List Token) (i level : Nat) (f : Frame) : Prop where
  lt : f.opening < i
  token : ∃ t, tokens[f.opening]? = some t ∧ t.kind = .openBrace ∧ t.text = f.text
  depth_eq : depth tokens f.opening = level
  above : ∀ n, f.opening < n → n ≤ i → level < depth tokens n
  marked_iff : f.marked = true ↔
    ∃ k, f.opening < k ∧ k < i ∧ MarkedAt m tokens k ∧ depth tokens k = level + 1

/-- The frames are braces that are open at position `i`, innermost first. -/
def OpenFrames (m : KeyMatcher) (tokens : List Token) (i : Nat) : List Frame → Prop
  | [] => True
  | f :: around => f.Open m tokens i around.length ∧ OpenFrames m tokens i around

/-- What the search knows when it has got to position `i`: its frames are all braces that are open
there. -/
structure Scanning (m : KeyMatcher) (tokens : List Token) (i : Nat) (frames : List Frame) : Prop where
  depth_eq : depth tokens i = frames.length
  front : ∀ n ≤ i, 0 ≤ depth tokens n
  frames : OpenFrames m tokens i frames

section Search

variable {m : KeyMatcher} {tokens ts front : List Token} {t : Token} {i level : Nat} {f : Frame}
  {fs : List Frame} {g : Span}

theorem Frame.Open.opening_kind (h : f.Open m tokens i level) :
    (kinds tokens)[f.opening]? = some .openBrace := by
  obtain ⟨t, ht, hkind, -⟩ := h.token
  exact kinds_of_getElem? ht hkind

/-- A frame stays open over a token that leaves its level alone and is no key directly in it. -/
theorem Frame.Open.step (h : f.Open m tokens i level) (hdepth : (level : Int) < depth tokens (i + 1))
    (hkey : MarkedAt m tokens i → depth tokens i ≠ level + 1) : f.Open m tokens (i + 1) level where
  lt := Nat.lt_succ_of_lt h.lt
  token := h.token
  depth_eq := h.depth_eq
  above := by
    intro n hn hni
    rcases Nat.eq_or_lt_of_le hni with rfl | hlt
    · exact hdepth
    · exact h.above n hn (Nat.le_of_lt_succ hlt)
  marked_iff := by
    rw [h.marked_iff]
    constructor
    · rintro ⟨k, hfk, hki, hk⟩
      exact ⟨k, hfk, Nat.lt_succ_of_lt hki, hk⟩
    · rintro ⟨k, hfk, hki, hk, hlevel⟩
      rcases Nat.eq_or_lt_of_le (Nat.le_of_lt_succ hki) with rfl | hlt
      · exact absurd hlevel (hkey hk)
      · exact ⟨k, hfk, hlt, hk, hlevel⟩

/-- Frames stay open over a token behind which no fewer braces are open, if it is no key directly in
one of them. -/
theorem OpenFrames.step (h : OpenFrames m tokens i fs)
    (hdepth : (fs.length : Int) ≤ depth tokens (i + 1))
    (hkey : MarkedAt m tokens i → (fs.length : Int) < depth tokens i) :
    OpenFrames m tokens (i + 1) fs := by
  induction fs with
  | nil => trivial
  | cons f fs ih =>
    rw [List.length_cons] at hdepth hkey
    refine ⟨h.1.step (by omega) fun hk => ?_, ih h.2 (by omega) fun hk => ?_⟩
    · have := hkey hk
      omega
    · have := hkey hk
      omega

theorem Scanning.front_succ (h : Scanning m tokens i fs) (hdepth : 0 ≤ depth tokens (i + 1)) :
    ∀ n ≤ i + 1, 0 ≤ depth tokens n := by
  intro n hn
  rcases Nat.eq_or_lt_of_le hn with rfl | hlt
  · exact hdepth
  · exact h.front n (Nat.le_of_lt_succ hlt)

theorem Scanning.open (h : Scanning m tokens i fs) (ht : tokens[i]? = some t)
    (hkind : t.kind = .openBrace) : Scanning m tokens (i + 1) (⟨i, t.text, false⟩ :: fs) := by
  have hk := kinds_of_getElem? ht hkind
  have hdepth := depth_succ_of_open hk
  have hi := h.depth_eq
  refine ⟨by rw [List.length_cons]; omega, h.front_succ (by omega), ?_, ?_⟩
  · refine ⟨Nat.lt_succ_self i, ⟨t, ht, hkind, rfl⟩, hi, fun n hn hni => ?_, ?_⟩
    · obtain rfl : n = i + 1 := Nat.le_antisymm hni hn
      omega
    · simp only [Bool.false_eq_true, false_iff]
      rintro ⟨k, hik, hki, -⟩
      omega
  · exact h.frames.step (by omega) fun hbad => absurd hk hbad.kinds.1

theorem Scanning.close (h : Scanning m tokens i (f :: fs)) (hk : (kinds tokens)[i]? = some .closeBrace) :
    Scanning m tokens (i + 1) fs := by
  have hdepth := depth_succ_of_close hk
  have hi := h.depth_eq
  rw [List.length_cons] at hi
  exact ⟨by omega, h.front_succ (by omega), h.frames.2.step (by omega) fun hbad => absurd hk hbad.kinds.2⟩

theorem Scanning.plain (h : Scanning m tokens i fs) (hdepth : depth tokens (i + 1) = depth tokens i)
    (hkey : ¬ MarkedAt m tokens i) : Scanning m tokens (i + 1) fs := by
  have hi := h.depth_eq
  exact ⟨by omega, h.front_succ (by omega), h.frames.step (by omega) fun hk => absurd hk hkey⟩

theorem Scanning.key (h : Scanning m tokens i fs) (hdepth : depth tokens (i + 1) = depth tokens i)
    (hkey : MarkedAt m tokens i) : Scanning m tokens (i + 1) (markInnermost fs) := by
  have hi := h.depth_eq
  cases fs with
  | nil =>
    rw [← hdepth] at hi
    exact ⟨hi, h.front_succ (by omega), trivial⟩
  | cons f fs =>
    rw [List.length_cons] at hi
    refine ⟨by rw [markInnermost, List.length_cons]; omega, h.front_succ (by omega), ?_,
      h.frames.2.step (by omega) fun _ => by omega⟩
    obtain ⟨hlt, htoken, hopening, habove, -⟩ := h.frames.1
    refine ⟨Nat.lt_succ_of_lt hlt, htoken, hopening, fun n hn hni => ?_, ?_⟩
    · rcases Nat.eq_or_lt_of_le hni with rfl | hlt
      · omega
      · exact habove n hn (Nat.le_of_lt_succ hlt)
    · simp only [true_iff]
      exact ⟨i, hlt, Nat.lt_succ_self i, hkey, by omega⟩

/-- A closing brace matches the innermost open one. -/
theorem Scanning.bracePair (h : Scanning m tokens i (f :: fs))
    (hk : (kinds tokens)[i]? = some .closeBrace) : BracePair tokens f.opening i := by
  obtain ⟨hf, -⟩ := h.frames
  have hi := h.depth_eq
  have hopening := hf.depth_eq
  rw [List.length_cons] at hi
  refine bracePair_iff.2 ⟨hf.lt, hf.opening_kind, hk, by omega, fun n hn hni => ?_⟩
  have := hf.above n hn hni
  omega

/-- The group that a closing brace ends is marked exactly if its frame is. -/
theorem Scanning.tagged_iff (h : Scanning m tokens i (f :: fs))
    (hk : (kinds tokens)[i]? = some .closeBrace) (hlast : g.last = i) :
    Tagged m tokens g ↔ g.first = f.opening ∧ f.marked = true := by
  have hpair := h.bracePair hk
  obtain ⟨hf, -⟩ := h.frames
  rw [TagBox.tagged_iff, hf.marked_iff, ← hf.depth_eq, hlast]
  constructor
  · rintro ⟨hpair', hmark⟩
    have hfirst : g.first = f.opening := by
      rcases hpair.disjoint_or_nested hpair' with ⟨heq, -⟩ | hout | hin
      · exact heq.symm
      · have := hpair.lt
        have := hpair'.lt
        omega
      · omega
    exact ⟨hfirst, hfirst ▸ hmark⟩
  · rintro ⟨hfirst, hmark⟩
    rw [hfirst]
    exact ⟨hpair, hmark⟩

/-- What the search finds from position `i` on. -/
def Outcome (m : KeyMatcher) (tokens : List Token) (i : Nat) : Except NestingError (List Span) → Prop
  | .ok gs => Balanced tokens ∧ ∀ g, g ∈ gs ↔ i ≤ g.last ∧ Tagged m tokens g
  | .error e => Blames tokens e

theorem Outcome.of_succ {x : Except NestingError (List Span)}
    (hk : (kinds tokens)[i]? ≠ some .closeBrace) (h : Outcome m tokens (i + 1) x) :
    Outcome m tokens i x := by
  cases x with
  | error e => exact h
  | ok gs =>
    refine ⟨h.1, fun g => (h.2 g).trans (and_congr_left fun hg => ?_)⟩
    have hne : g.last ≠ i := by
      rintro rfl
      exact hk hg.1.closing
    omega

theorem OpenFrames.getLast (h : OpenFrames m tokens i fs) (hf : fs.getLast? = some f) :
    f.Open m tokens i 0 := by
  induction fs with
  | nil => simp at hf
  | cons f' fs ih =>
    cases fs with
    | nil =>
      obtain rfl : f' = f := by simpa using hf
      exact h.1
    | cons f'' fs => exact ih h.2 (by simpa using hf)

/-- Braces that are open at the end: the outermost one is to blame. -/
theorem Scanning.blames_unclosed (h : Scanning m tokens tokens.length fs) (hf : fs.getLast? = some f) :
    Blames tokens (.unclosed f.opening f.text) := by
  have hopen := h.frames.getLast hf
  obtain ⟨t, ht, hkind, htext⟩ := hopen.token
  refine ⟨fun n hn => depth_nonneg_iff.1 (h.front n hn), t, ht, hkind, htext, fun c hpair => ?_, ?_⟩
  · have hlow := hopen.above (c + 1) (Nat.lt_succ_of_lt hpair.lt) hpair.lt_length
    rw [hpair.depth_behind, hopen.depth_eq] at hlow
    omega
  · intro p hp hpk
    have hzero := hopen.depth_eq
    have hnonneg := h.front p (by have := hopen.lt; omega)
    obtain ⟨c, -, hpair⟩ := exists_bracePair_of_open hpk hp (by omega)
    exact ⟨c, hpair⟩

/-- A closing brace where none is open is to blame. -/
theorem Scanning.blames_unmatched (h : Scanning m tokens i []) (ht : tokens[i]? = some t)
    (hkind : t.kind = .closeBrace) : Blames tokens (.unmatchedClose i t.text) := by
  refine ⟨t, ht, hkind, rfl, fun n hn => depth_nonneg_iff.1 (h.front n hn), ?_⟩
  have hdepth := h.depth_eq
  have hcount := count_kinds_take_succ .closeBrace tokens i
  rw [if_pos (kinds_of_getElem? ht hkind)] at hcount
  simp only [depth, List.length_nil, closes, opens] at hdepth ⊢
  omega

/-- The groups that are found from a closing brace on: the one that it ends, if it is marked, and those
found behind it. -/
theorem Scanning.outcome_close {later : List Span} (h : Scanning m tokens i (f :: fs))
    (hk : (kinds tokens)[i]? = some .closeBrace) (hlater : Outcome m tokens (i + 1) (.ok later)) :
    Outcome m tokens i (.ok (if f.marked then ⟨f.opening, i⟩ :: later else later)) := by
  refine ⟨hlater.1, fun g => ?_⟩
  have hmem : g ∈ (if f.marked then ⟨f.opening, i⟩ :: later else later) ↔
      (g = ⟨f.opening, i⟩ ∧ f.marked = true) ∨ g ∈ later := by
    by_cases hm : f.marked = true <;> simp [hm]
  rw [hmem, hlater.2]
  by_cases hlast : g.last = i
  · have hspan : g = ⟨f.opening, i⟩ ↔ g.first = f.opening := by
      rw [← hlast]
      cases g
      simp
    rw [hspan, h.tagged_iff hk hlast]
    constructor
    · rintro (hg | hg)
      · exact ⟨hlast.ge, hg⟩
      · omega
    · exact fun hg => Or.inl hg.2
  · -- only the group of this brace ends here
    have hne : g ≠ ⟨f.opening, i⟩ := by
      rintro rfl
      exact hlast rfl
    simp only [hne, false_and, false_or]
    exact and_congr_left fun _ => by omega

/-- A search that knows what is open finds the rest. -/
theorem groupsFrom_outcome (h : Scanning m tokens front.length fs) (hcut : tokens = front ++ ts) :
    Outcome m tokens front.length (groupsFrom m fs front.length ts) := by
  induction ts generalizing front fs with
  | nil =>
    obtain rfl : tokens = front := by rw [hcut, List.append_nil]
    rw [groupsFrom]
    split
    · rename_i hnone
      obtain rfl : fs = [] := List.getLast?_eq_none_iff.1 hnone
      refine ⟨balanced_iff.2 ⟨h.front, h.depth_eq⟩, fun g => ?_⟩
      simp only [List.not_mem_nil, false_iff]
      rintro ⟨hle, hg⟩
      have := hg.1.lt_length
      omega
    · exact h.blames_unclosed ‹_›
  | cons t ts ih =>
    have ht : tokens[front.length]? = some t := by simp [hcut]
    have hkt := kinds_of_getElem? ht rfl
    -- the search that goes on behind the token
    have hnext : ∀ {fs' : List Frame}, Scanning m tokens (front.length + 1) fs' →
        Outcome m tokens (front.length + 1) (groupsFrom m fs' (front.length + 1) ts) := by
      intro fs' hfs'
      have hrest := @ih (front ++ [t]) fs' (by simpa using hfs') (by simp [hcut])
      simpa using hrest
    rcases t.kind.isBrace_cases with ho | hc | hp
    · rw [groupsFrom_open ho]
      exact (hnext (h.open ht ho)).of_succ (by simp [hkt, ho])
    · have hclose : (kinds tokens)[front.length]? = some .closeBrace := hkt.trans (congrArg some hc)
      cases fs with
      | nil =>
        simp only [groupsFrom, hc]
        exact h.blames_unmatched ht hc
      | cons f fs =>
        rw [groupsFrom_close hc]
        have hrest := hnext (h.close hclose)
        cases hfound : groupsFrom m fs (front.length + 1) ts with
        | error e =>
          rw [hfound] at hrest
          exact hrest
        | ok later =>
          rw [hfound] at hrest
          exact h.outcome_close hclose hrest
    · have hplain : (kinds tokens)[front.length]? ≠ some .openBrace ∧
          (kinds tokens)[front.length]? ≠ some .closeBrace := by
        rw [hkt]
        cases hk : t.kind <;> simp_all [Kind.isBrace]
      have hdepth := depth_succ_of_plain hplain.1 hplain.2
      rw [groupsFrom_plain hp]
      refine (hnext ?_).of_succ hplain.2
      have hmarks : m.marks t ts = true ↔ MarkedAt m tokens front.length := by
        rw [hcut]
        exact marks_iff
      split
      · exact h.key hdepth (hmarks.1 ‹_›)
      · exact h.plain hdepth fun hk => ‹¬ _› (hmarks.2 hk)

theorem tagGroups_outcome (m : KeyMatcher) (tokens : List Token) :
    Outcome m tokens 0 (tagGroups m tokens) :=
  @groupsFrom_outcome m tokens tokens [] [] ⟨rfl, by simp [depth_zero], trivial⟩ rfl

/-- Behind a brace that closes too much there is an excess of closed braces. -/
theorem Blames.excess {text : Text} (h : Blames tokens (.unmatchedClose i text)) :
    i + 1 ≤ tokens.length ∧ opens (tokens.take (i + 1)) < closes (tokens.take (i + 1)) := by
  obtain ⟨t, ht, hkind, -, -, hlt⟩ := h
  refine ⟨(List.getElem?_eq_some_iff.1 ht).1, ?_⟩
  have hcount := count_kinds_take_succ .openBrace tokens i
  rw [kinds_of_getElem? ht hkind, if_neg (by simp)] at hcount
  simp only [opens, closes] at hlt ⊢
  omega

theorem Blames.not_balanced {e : NestingError} (h : Blames tokens e) : ¬ Balanced tokens := by
  intro hb
  cases e with
  | unmatchedClose i text =>
    obtain ⟨hle, hlt⟩ := h.excess
    have := hb.front (i + 1) hle
    omega
  | unclosed o text =>
    obtain ⟨-, t, ht, hkind, -, hnone, -⟩ := h
    have ho := (List.getElem?_eq_some_iff.1 ht).1
    obtain ⟨hfront, hwhole⟩ := balanced_iff.1 hb
    have hnonneg := hfront o ho.le
    obtain ⟨c, -, hpair⟩ := exists_bracePair_of_open (kinds_of_getElem? ht hkind) ho (by omega)
    exact hnone c hpair

/-- There is one brace to blame. -/
theorem Blames.unique {e e' : NestingError} (h : Blames tokens e) (h' : Blames tokens e') : e = e' := by
  cases e with
  | unmatchedClose i text =>
    cases e' with
    | unmatchedClose j text' =>
      have hi := h.excess
      have hj := h'.excess
      obtain ⟨t, ht, -, rfl, hfront, -⟩ := h
      obtain ⟨t', ht', -, rfl, hfront', -⟩ := h'
      rcases Nat.lt_trichotomy i j with hlt | rfl | hlt
      · have := hfront' (i + 1) hlt
        omega
      · rw [Option.some.inj (ht.symm.trans ht')]
      · have := hfront (j + 1) hlt
        omega
    | unclosed o text' =>
      obtain ⟨hle, hlt⟩ := h.excess
      have := h'.1 (i + 1) hle
      omega
  | unclosed o text =>
    cases e' with
    | unmatchedClose j text' =>
      obtain ⟨hle, hlt⟩ := h'.excess
      have := h.1 (j + 1) hle
      omega
    | unclosed o' text' =>
      obtain ⟨-, t, ht, hkind, rfl, hnone, hclosed⟩ := h
      obtain ⟨-, t', ht', hkind', rfl, hnone', hclosed'⟩ := h'
      rcases Nat.lt_trichotomy o o' with hlt | rfl | hlt
      · obtain ⟨c, hpair⟩ := hclosed' o hlt (kinds_of_getElem? ht hkind)
        exact absurd hpair (hnone c)
      · rw [Option.some.inj (ht.symm.trans ht')]
      · obtain ⟨c, hpair⟩ := hclosed o' hlt (kinds_of_getElem? ht' hkind')
        exact absurd hpair (hnone' c)

theorem exists_ok_iff_balanced : (∃ gs, tagGroups m tokens = .ok gs) ↔ Balanced tokens := by
  have houtcome := tagGroups_outcome m tokens
  cases h : tagGroups m tokens with
  | ok gs =>
    rw [h] at houtcome
    simp [houtcome.1]
  | error e =>
    rw [h] at houtcome
    simpa using houtcome.not_balanced

theorem mem_tagGroups_iff {gs : List Span} (h : tagGroups m tokens = .ok gs) :
    g ∈ gs ↔ Tagged m tokens g := by
  have houtcome := tagGroups_outcome m tokens
  rw [h] at houtcome
  simpa using houtcome.2 g

theorem tagGroups_eq_error_iff {e : NestingError} :
    tagGroups m tokens = .error e ↔ Blames tokens e := by
  have houtcome := tagGroups_outcome m tokens
  cases h : tagGroups m tokens with
  | ok gs =>
    rw [h] at houtcome
    simpa using fun hblame : Blames tokens e => hblame.not_balanced houtcome.1
  | error e' =>
    rw [h] at houtcome
    rw [Except.error.injEq]
    exact ⟨fun heq => heq ▸ houtcome, fun hblame => houtcome.unique hblame⟩

end Search

/-! ## All groups -/

/-- The spans have no position in common. -/
def Span.Disjoint (g h : Span) : Prop :=
  g.last < h.first ∨ h.last < g.first

/-- The span lies inside of the other one and has neither end in common with it. -/
def Span.Inside (g h : Span) : Prop :=
  h.first < g.first ∧ g.last < h.last

/-- The groups of a token list are exactly the innermost brace pairs around marked keys, in the order in
which they close, and any two of them are disjoint or nested.  There are groups exactly if the braces
are balanced, and otherwise the error names the brace to blame. -/
theorem tagGroups_exact (m : KeyMatcher) (tokens : List Token) :
    ((∃ gs, tagGroups m tokens = .ok gs) ↔ Balanced tokens) ∧
    (∀ gs, tagGroups m tokens = .ok gs →
      gs.Pairwise (fun g h => g.last < h.last) ∧ (∀ g, g ∈ gs ↔ Tagged m tokens g) ∧
      gs.Pairwise (fun g h => g.first ≠ h.first ∧ g.last ≠ h.last ∧
        (g.Disjoint h ∨ g.Inside h ∨ h.Inside g))) ∧
    ∀ e, tagGroups m tokens = .error e ↔ Blames tokens e := by
  refine ⟨exists_ok_iff_balanced, fun gs h => ?_, fun e => tagGroups_eq_error_iff⟩
  have hsorted : gs.Pairwise fun g h => g.last < h.last :=
    (pairwise_last_pairsFrom (by simp)).sublist (groupsFrom_sublist_pairsFrom h)
  refine ⟨hsorted, fun g => mem_tagGroups_iff h, hsorted.imp_of_mem fun {g g'} hg hg' hlt => ?_⟩
  have hpair := ((mem_tagGroups_iff h).1 hg).1
  have hpair' := ((mem_tagGroups_iff h).1 hg').1
  have hends := hpair.lt
  have hends' := hpair'.lt
  rcases hpair.disjoint_or_nested hpair' with ⟨-, heq⟩ | hout | hin
  · omega
  · exact ⟨by omega, by omega, Or.inl hout⟩
  · exact ⟨by omega, by omega, Or.inr hin.symm⟩

/-- Groups in groups, and brackets of other kinds that do not nest. -/
def crossedRow : List Token :=
  [⟨.openBrace, ['{'], []⟩, ⟨.identifier, ['k'], []⟩, ⟨.comment, ['#'], []⟩, ⟨.newline, ['\n'], []⟩,
    ⟨.colon, [':'], []⟩, ⟨.openParen, ['('], []⟩, ⟨.openBrace, ['{'], []⟩, ⟨.closeBracket, [']'], []⟩,
    ⟨.openBrace, ['{'], []⟩, ⟨.quoted, ['"', 'k', '"'], []⟩, ⟨.equals, ['='], []⟩,
    ⟨.closeBrace, ['}'], []⟩, ⟨.closeBrace, ['}'], []⟩, ⟨.closeBrace, ['}'], []⟩]

theorem tagGroups_exact_crossed :
    tagGroups ⟨[], [['k']]⟩ crossedRow = .ok [⟨8, 11⟩, ⟨0, 13⟩] ∧ Balanced crossedRow ∧
      (∀ g, g ∈ [⟨8, 11⟩, ⟨0, 13⟩] ↔ Tagged ⟨[], [['k']]⟩ crossedRow g) ∧
      ¬ Tagged ⟨[], [['k']]⟩ crossedRow ⟨6, 12⟩ := by
  have hrun : tagGroups ⟨[], [['k']]⟩ crossedRow = .ok [⟨8, 11⟩, ⟨0, 13⟩] := by decide
  obtain ⟨hok, hgroups, -⟩ := tagGroups_exact ⟨[], [['k']]⟩ crossedRow
  have hmem := (hgroups _ hrun).2.1
  exact ⟨hrun, hok.1 ⟨_, hrun⟩, hmem, fun h => by simpa using (hmem _).2 h⟩

end TagBox
