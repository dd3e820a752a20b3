import TagBox.Box.Group
import TagBox.Proofs.Nesting

/-!
# Tag groups and brace pairs

The search for tag groups runs over the braces with a stack of frames.  It looks at contents only, and
what it returns are brace pairs, so that no two groups share an end.

* `tagGroups_congr` — layout does not matter.
* `pairsFrom`, `groupsFrom_sublist_pairsFrom` — groups are brace pairs, in the order in which they
  close.
* `exists_of_mem_tagGroups` — what stands in front of a group, inside of it and behind it.
* `groupsFrom_keyless` — a stretch without marked keys only opens and closes unmarked frames.
* `exists_tagGroups` — the search gets through tokens whose braces nest.
* `endpoints_outside` — no group begins or ends in a stretch without marked keys around a group.
-/

namespace TagBox

/-! ## One step of the search -/

section Step

variable {m : KeyMatcher} {fs : List Frame} {f : Frame} {i : Nat} {t : Token} {ts us : List Token}
  {gs : List Span}

theorem groupsFrom_nil (h : groupsFrom m fs i [] = .ok gs) : fs = [] ∧ gs = [] := by
  cases fs with
  | nil => simpa [groupsFrom] using h.symm
  | cons f fs =>
    unfold groupsFrom at h
    split at h <;> simp_all

theorem groupsFrom_open (h : t.kind = .openBrace) :
    groupsFrom m fs i (t :: ts) = groupsFrom m (⟨i, t.text, false⟩ :: fs) (i + 1) ts := by
  simp [groupsFrom, h]

theorem groupsFrom_close (h : t.kind = .closeBrace) :
    groupsFrom m (f :: fs) i (t :: ts) =
      (groupsFrom m fs (i + 1) ts).map fun later =>
        if f.marked then ⟨f.opening, i⟩ :: later else later := by
  simp [groupsFrom, h]

theorem groupsFrom_plain (h : t.kind.isBrace = false) :
    groupsFrom m fs i (t :: ts) =
      groupsFrom m (if m.marks t ts then markInnermost fs else fs) (i + 1) ts := by
  have ho : t.kind ≠ .openBrace := by
    rintro heq
    simp [heq, Kind.isBrace] at h
  have hc : t.kind ≠ .closeBrace := by
    rintro heq
    simp [heq, Kind.isBrace] at h
  by_cases hm : m.marks t ts = true <;> simp [groupsFrom, ho, hc, hm]

theorem Kind.isBrace_cases (k : Kind) :
    k = .openBrace ∨ k = .closeBrace ∨ k.isBrace = false := by
  cases k <;> simp [Kind.isBrace]

/-- What a step of a search that succeeds can be. -/
theorem groupsFrom_cons_cases (h : groupsFrom m fs i (t :: ts) = .ok gs) :
    (t.kind = .openBrace ∧ groupsFrom m (⟨i, t.text, false⟩ :: fs) (i + 1) ts = .ok gs) ∨
    (t.kind = .closeBrace ∧ ∃ f around later, fs = f :: around ∧
      groupsFrom m around (i + 1) ts = .ok later ∧
      gs = if f.marked then ⟨f.opening, i⟩ :: later else later) ∨
    (t.kind.isBrace = false ∧
      groupsFrom m (if m.marks t ts then markInnermost fs else fs) (i + 1) ts = .ok gs) := by
  rcases t.kind.isBrace_cases with ho | hc | hp
  · exact Or.inl ⟨ho, groupsFrom_open ho ▸ h⟩
  · cases fs with
    | nil => simp [groupsFrom, hc] at h
    | cons f around =>
      rw [groupsFrom_close hc] at h
      obtain ⟨later, hlater, rfl⟩ := map_eq_ok_iff.1 h
      exact Or.inr (Or.inl ⟨hc, f, around, later, rfl, hlater, rfl⟩)
  · exact Or.inr (Or.inr ⟨hp, groupsFrom_plain hp ▸ h⟩)

@[simp]
theorem map_opening_markInnermost : (markInnermost fs).map Frame.opening = fs.map Frame.opening := by
  cases fs <;> rfl

end Step

/-! ## Layout does not matter -/

section Layout

variable {m : KeyMatcher} {t u : Token} {ts us : List Token}

theorem content_eq_iff : t.content = u.content ↔ t.kind = u.kind ∧ t.text = u.text := by
  simp [Token.content]

theorem exists_of_contents_cons (h : contents ts = t.content :: contents us) :
    ∃ t' us', ts = t' :: us' ∧ t'.content = t.content ∧ contents us' = contents us := by
  cases ts with
  | nil => simp at h
  | cons t' us' =>
    rw [contents_cons, List.cons.injEq] at h
    exact ⟨t', us', rfl, h.1, h.2⟩

@[simp]
theorem length_contents : (contents ts).length = ts.length := by
  simp [contents]

theorem contents_take (n : Nat) (ts : List Token) :
    contents (ts.take n) = (contents ts).take n :=
  List.map_take

theorem contents_drop (n : Nat) (ts : List Token) :
    contents (ts.drop n) = (contents ts).drop n :=
  List.map_drop

theorem length_eq_of_contents_eq (h : contents ts = contents us) : ts.length = us.length := by
  rw [← length_contents, h, length_contents]

theorem assigned_congr (h : contents ts = contents us) : assigned ts = assigned us := by
  induction ts generalizing us with
  | nil =>
    obtain rfl : us = [] := by simpa [contents] using h.symm
    rfl
  | cons t ts ih =>
    obtain ⟨u, us, rfl, hu, hus⟩ := exists_of_contents_cons h.symm
    obtain ⟨hkind, -⟩ := content_eq_iff.1 hu
    have hrest := ih hus.symm
    unfold assigned at hrest ⊢
    by_cases hgap : t.isGap = true
    · have hgap' : u.isGap = true := by simpa [Token.isGap, hkind] using hgap
      simpa [hgap, hgap'] using hrest
    · have hgap' : ¬ u.isGap = true := by simpa [Token.isGap, hkind] using hgap
      simp [hgap, hgap', hkind]

theorem keyText_congr (h : t.content = u.content) : t.keyText = u.keyText := by
  obtain ⟨hkind, htext⟩ := content_eq_iff.1 h
  simp [Token.keyText, hkind, htext]

theorem marks_congr (h : t.content = u.content) (hts : contents ts = contents us) :
    m.marks t ts = m.marks u us := by
  simp [KeyMatcher.marks, assigned_congr hts, keyText_congr h]

theorem groupsFrom_congr {fs : List Frame} {i : Nat} (h : contents ts = contents us) :
    groupsFrom m fs i ts = groupsFrom m fs i us := by
  induction ts generalizing us fs i with
  | nil =>
    obtain rfl : us = [] := by simpa [contents] using h.symm
    rfl
  | cons t ts ih =>
    obtain ⟨u, us, rfl, hu, hus⟩ := exists_of_contents_cons h.symm
    obtain ⟨hkind, htext⟩ := content_eq_iff.1 hu
    simp only [groupsFrom, hkind, htext, marks_congr hu hus, ih hus.symm]

/-- The search for tag groups looks at contents only. -/
theorem tagGroups_congr (h : contents ts = contents us) : tagGroups m ts = tagGroups m us :=
  groupsFrom_congr h

end Layout

/-! ## Brace pairs -/

/-- The brace pairs that close in tokens that start at position `i`, with the braces at `opened` open,
innermost first. -/
def pairsFrom (opened : List Nat) (i : Nat) : List Token → List Span
  | [] => []
  | t :: rest =>
    if t.kind = .openBrace then pairsFrom (i :: opened) (i + 1) rest
    else if t.kind = .closeBrace then
      match opened with
      | [] => pairsFrom [] (i + 1) rest
      | innermost :: around => ⟨innermost, i⟩ :: pairsFrom around (i + 1) rest
    else pairsFrom opened (i + 1) rest

section Pairs

variable {opened : List Nat} {i : Nat} {t : Token} {ts : List Token} {g : Span}

theorem pairsFrom_open (h : t.kind = .openBrace) :
    pairsFrom opened i (t :: ts) = pairsFrom (i :: opened) (i + 1) ts := by
  simp [pairsFrom, h]

theorem pairsFrom_close {innermost : Nat} (h : t.kind = .closeBrace) :
    pairsFrom (innermost :: opened) i (t :: ts) =
      ⟨innermost, i⟩ :: pairsFrom opened (i + 1) ts := by
  simp [pairsFrom, h]

theorem pairsFrom_plain (h : t.kind.isBrace = false) :
    pairsFrom opened i (t :: ts) = pairsFrom opened (i + 1) ts := by
  have ho : t.kind ≠ .openBrace := by
    rintro heq
    simp [heq, Kind.isBrace] at h
  have hc : t.kind ≠ .closeBrace := by
    rintro heq
    simp [heq, Kind.isBrace] at h
  simp [pairsFrom, ho, hc]

/-- Where the ends of a pair are. -/
theorem mem_pairsFrom (hlt : ∀ o ∈ opened, o < i) (h : g ∈ pairsFrom opened i ts) :
    (g.first ∈ opened ∨ i ≤ g.first) ∧ g.first < g.last ∧ i ≤ g.last ∧ g.last < i + ts.length := by
  induction ts generalizing opened i with
  | nil => simp [pairsFrom] at h
  | cons t ts ih =>
    rw [List.length_cons]
    have hnext : ∀ o ∈ opened, o < i + 1 := fun o ho => Nat.lt_succ_of_lt (hlt o ho)
    rcases t.kind.isBrace_cases with ho | hc | hp
    · rw [pairsFrom_open ho] at h
      obtain ⟨hfirst, hlast⟩ := ih (by simpa using hnext) h
      refine ⟨?_, by omega⟩
      rcases hfirst with hin | hle
      · rcases List.mem_cons.1 hin with heq | hin
        · exact Or.inr (Nat.le_of_eq heq.symm)
        · exact Or.inl hin
      · exact Or.inr (Nat.le_of_succ_le hle)
    · cases opened with
      | nil =>
        have h' : g ∈ pairsFrom [] (i + 1) ts := by simpa [pairsFrom, hc] using h
        obtain ⟨hfirst, hlast⟩ := ih (by simp) h'
        simp only [List.not_mem_nil, false_or] at hfirst ⊢
        exact ⟨by omega, by omega⟩
      | cons o opened =>
        rw [pairsFrom_close hc, List.mem_cons] at h
        rcases h with rfl | h
        · have := hlt o (by simp)
          exact ⟨by simp, this, Nat.le_refl i, by simp⟩
        · obtain ⟨hfirst, hlast⟩ := ih (fun o' ho' => hnext o' (by simp [ho'])) h
          exact ⟨hfirst.imp (List.mem_cons_of_mem o) Nat.le_of_succ_le, by omega⟩
    · rw [pairsFrom_plain hp] at h
      obtain ⟨hfirst, hlast⟩ := ih hnext h
      exact ⟨hfirst.imp id Nat.le_of_succ_le, by omega⟩

/-- Pairs are listed in the order in which they close. -/
theorem pairwise_last_pairsFrom (hlt : ∀ o ∈ opened, o < i) :
    (pairsFrom opened i ts).Pairwise fun a b => a.last < b.last := by
  induction ts generalizing opened i with
  | nil => simp [pairsFrom]
  | cons t ts ih =>
    have hnext : ∀ o ∈ opened, o < i + 1 := fun o ho => Nat.lt_succ_of_lt (hlt o ho)
    rcases t.kind.isBrace_cases with ho | hc | hp
    · rw [pairsFrom_open ho]
      exact ih (by simpa using hnext)
    · cases opened with
      | nil => simpa [pairsFrom, hc] using @ih [] (i + 1) (by simp)
      | cons o opened =>
        have hrest : ∀ o' ∈ opened, o' < i + 1 := fun o' ho' => hnext o' (by simp [ho'])
        rw [pairsFrom_close hc, List.pairwise_cons]
        exact ⟨fun g hg => (mem_pairsFrom hrest hg).2.2.1, ih hrest⟩
    · rw [pairsFrom_plain hp]
      exact ih hnext

theorem nodup_last_pairsFrom (hlt : ∀ o ∈ opened, o < i) :
    ((pairsFrom opened i ts).map Span.last).Nodup := by
  rw [List.Nodup, List.pairwise_map]
  exact (pairwise_last_pairsFrom hlt).imp fun h => Nat.ne_of_lt h

theorem nodup_first_pairsFrom (hn : opened.Nodup) (hlt : ∀ o ∈ opened, o < i) :
    ((pairsFrom opened i ts).map Span.first).Nodup := by
  induction ts generalizing opened i with
  | nil => simp [pairsFrom]
  | cons t ts ih =>
    have hnext : ∀ o ∈ opened, o < i + 1 := fun o ho => Nat.lt_succ_of_lt (hlt o ho)
    rcases t.kind.isBrace_cases with ho | hc | hp
    · rw [pairsFrom_open ho]
      refine ih (List.nodup_cons.2 ⟨fun hi => ?_, hn⟩) (by simpa using hnext)
      exact Nat.lt_irrefl i (hlt i hi)
    · cases opened with
      | nil => simpa [pairsFrom, hc] using @ih [] (i + 1) (by simp) (by simp)
      | cons o opened =>
        have hrest : ∀ o' ∈ opened, o' < i + 1 := fun o' ho' => hnext o' (by simp [ho'])
        obtain ⟨hnotin, hn'⟩ := List.nodup_cons.1 hn
        rw [pairsFrom_close hc, List.map_cons, List.nodup_cons]
        refine ⟨fun hmem => ?_, ih hn' hrest⟩
        obtain ⟨g, hg, hfirst⟩ := List.mem_map.1 hmem
        have ho : o < i := hlt o (by simp)
        change g.first = o at hfirst
        rcases (mem_pairsFrom hrest hg).1 with hin | hle
        · exact hnotin (hfirst ▸ hin)
        · omega
    · rw [pairsFrom_plain hp]
      exact ih hn hnext

/-- Groups are brace pairs. -/
theorem groupsFrom_sublist_pairsFrom {m : KeyMatcher} {fs : List Frame} {gs : List Span}
    (h : groupsFrom m fs i ts = .ok gs) : gs.Sublist (pairsFrom (fs.map Frame.opening) i ts) := by
  induction ts generalizing fs i gs with
  | nil =>
    obtain ⟨-, rfl⟩ := groupsFrom_nil h
    exact List.nil_sublist _
  | cons t ts ih =>
    rcases groupsFrom_cons_cases h with ⟨ho, h'⟩ | ⟨hc, f, around, later, rfl, h', rfl⟩ | ⟨hp, h'⟩
    · rw [pairsFrom_open ho]
      exact ih h'
    · rw [List.map_cons, pairsFrom_close hc]
      split
      · exact (ih h').cons_cons _
      · exact (ih h').cons _
    · rw [pairsFrom_plain hp]
      have := ih h'
      split at this <;> simpa using this

end Pairs

/-! ## Stretches without marked keys -/

/-- No token spells a marked key. -/
def Keyless (m : KeyMatcher) (tokens : List Token) : Prop :=
  ∀ t ∈ tokens, t.keyText.any m.accepts = false

instance (m : KeyMatcher) (tokens : List Token) : Decidable (Keyless m tokens) :=
  inferInstanceAs (Decidable (∀ t ∈ tokens, _))

section Keyless

variable {m : KeyMatcher} {ts us : List Token}

theorem Keyless.of_contents_eq (h : Keyless m ts) (heq : contents us = contents ts) :
    Keyless m us := by
  intro u hu
  have hmem : u.content ∈ contents ts := heq ▸ List.mem_map_of_mem hu
  obtain ⟨t, ht, hcontent⟩ := List.mem_map.1 hmem
  rw [keyText_congr hcontent.symm]
  exact h t ht

/-- The braces that the tokens leave open, innermost first, if those of `opened` are open in front of
them; other brackets are left aside. -/
abbrev braceNest (opened : List Kind) (tokens : List Token) : Option (List Kind) :=
  nest Kind.never opened ((kinds tokens).filter Kind.isBrace)

theorem braceNest_congr {opened : List Kind} (h : contents ts = contents us) :
    braceNest opened ts = braceNest opened us := by
  rw [braceNest, kinds_eq_of_contents_eq h]

theorem braceNest_append {opened : List Kind} :
    braceNest opened (ts ++ us) = (braceNest opened ts).bind fun o => braceNest o us := by
  rw [braceNest, kinds_append, List.filter_append, nest_append]

theorem braceNest_plain {opened : List Kind} {t : Token} (h : t.kind.isBrace = false) :
    braceNest opened (t :: ts) = braceNest opened ts := by
  simp [braceNest, h]

theorem braceNest_open {opened : List Kind} {t : Token} (h : t.kind = .openBrace) :
    braceNest opened (t :: ts) = braceNest (.openBrace :: opened) ts := by
  rw [braceNest, kinds_cons, h, List.filter_cons_of_pos (by rfl), nest_opening (by rfl)]

/-- A closing brace closes the innermost open one. -/
theorem braceNest_close {opened left : List Kind} {t : Token} (h : t.kind = .closeBrace)
    (hn : braceNest opened (t :: ts) = some left) :
    ∃ around, opened = .openBrace :: around ∧ braceNest around ts = some left := by
  rw [braceNest, kinds_cons, h, List.filter_cons_of_pos (by rfl)] at hn
  rcases nest_cons_cases hn with ⟨hbad, -⟩ | ⟨b, around, rfl, hb, hn'⟩ | ⟨-, hbad, -⟩
  · exact absurd hbad (by decide)
  · obtain rfl : b = .openBrace := Kind.closer_injective hb rfl
    exact ⟨around, rfl, hn'⟩
  · exact absurd hbad (by decide)

/-- A stretch without marked keys opens and closes unmarked frames and finds no group, whatever is
around it. -/
theorem groupsFrom_keyless {opened left : List Kind} {new : List Frame} {i : Nat}
    (hk : Keyless m ts) (hn : braceNest opened ts = some left)
    (hlen : new.length = opened.length) (hnew : ∀ f ∈ new, f.marked = false) :
    ∃ new', new'.length = left.length ∧ (∀ f ∈ new', f.marked = false) ∧
      ∀ fs after, groupsFrom m (new ++ fs) i (ts ++ after) =
        groupsFrom m (new' ++ fs) (i + ts.length) after := by
  induction ts generalizing opened new i with
  | nil =>
    obtain rfl : opened = left := by simpa [braceNest] using hn
    exact ⟨new, hlen, hnew, fun fs after => rfl⟩
  | cons t ts ih =>
    have hk' : Keyless m ts := fun u hu => hk u (by simp [hu])
    have hstep : i + (t :: ts).length = i + 1 + ts.length := by
      rw [List.length_cons]
      omega
    rw [hstep]
    rcases t.kind.isBrace_cases with ho | hc | hp
    · rw [braceNest_open ho] at hn
      obtain ⟨new', hlen', hnew', hrun⟩ := @ih _ (⟨i, t.text, false⟩ :: new) (i + 1) hk' hn
        (by simp [hlen]) (by simpa using hnew)
      refine ⟨new', hlen', hnew', fun fs after => ?_⟩
      rw [List.cons_append, groupsFrom_open ho]
      exact hrun fs after
    · obtain ⟨around, rfl, hn'⟩ := braceNest_close hc hn
      cases new with
      | nil => simp at hlen
      | cons f new =>
        have hf : f.marked = false := hnew f (by simp)
        obtain ⟨new', hlen', hnew', hrun⟩ := @ih _ new (i + 1) hk' hn'
          (by simpa using hlen) (fun f' hf' => hnew f' (by simp [hf']))
        refine ⟨new', hlen', hnew', fun fs after => ?_⟩
        rw [List.cons_append, List.cons_append, groupsFrom_close hc, hrun fs after, hf]
        cases groupsFrom m (new' ++ fs) (i + 1 + ts.length) after <;> rfl
    · rw [braceNest_plain hp] at hn
      obtain ⟨new', hlen', hnew', hrun⟩ := @ih _ new (i + 1) hk' hn hlen hnew
      refine ⟨new', hlen', hnew', fun fs after => ?_⟩
      have hmark : m.marks t (ts ++ after) = false := by
        simp [KeyMatcher.marks, hk t (by simp)]
      rw [List.cons_append, groupsFrom_plain hp, hmark]
      exact hrun fs after

end Keyless

/-! ## Braces that nest -/

section Nest

variable {m : KeyMatcher} {ts : List Token}

/-- The search for groups gets through tokens whose braces nest. -/
theorem exists_groupsFrom {fs : List Frame} {i : Nat}
    (h : braceNest (fs.map fun _ => .openBrace) ts = some []) :
    ∃ gs, groupsFrom m fs i ts = .ok gs := by
  induction ts generalizing fs i with
  | nil =>
    obtain rfl : fs = [] := by simpa [braceNest] using h
    exact ⟨[], rfl⟩
  | cons t ts ih =>
    rcases t.kind.isBrace_cases with ho | hc | hp
    · rw [braceNest_open ho] at h
      rw [groupsFrom_open ho]
      exact ih h
    · obtain ⟨around, hfs, hrest⟩ := braceNest_close hc h
      cases fs with
      | nil => simp at hfs
      | cons f fs =>
        obtain ⟨-, rfl⟩ := List.cons.inj hfs
        obtain ⟨later, hlater⟩ := @ih fs (i + 1) hrest
        rw [groupsFrom_close hc, hlater]
        exact ⟨_, rfl⟩
    · rw [braceNest_plain hp] at h
      rw [groupsFrom_plain hp]
      refine ih ?_
      split
      · cases fs <;> exact h
      · exact h

theorem exists_tagGroups (h : BracesNest ts) : ∃ gs, tagGroups m ts = .ok gs :=
  exists_groupsFrom h

end Nest

/-! ## What stands between the braces of a pair -/

section Between

variable {i : Nat} {ts : List Token} {g : Span}

/-- A pair that closes a brace at `p`: the braces in front of its end nest. -/
theorem exists_close_of_mem_pairsFrom {new opened : List Nat} {p : Nat}
    (hn : (new ++ p :: opened).Nodup) (hlt : ∀ o ∈ new ++ p :: opened, o < i)
    (h : g ∈ pairsFrom (new ++ p :: opened) i ts) (hp : g.first = p) :
    ∃ inner c B, ts = inner ++ c :: B ∧ g.last = i + inner.length ∧ c.kind = .closeBrace ∧
      braceNest (new.map fun _ => .openBrace) inner = some [] := by
  induction ts generalizing new i with
  | nil => simp [pairsFrom] at h
  | cons t ts ih =>
    have hnext : ∀ o ∈ new ++ p :: opened, o < i + 1 := fun o ho => Nat.lt_succ_of_lt (hlt o ho)
    rcases t.kind.isBrace_cases with ho | hc | hpl
    · rw [pairsFrom_open ho] at h
      have hi : i ∉ new ++ p :: opened := fun hmem => Nat.lt_irrefl i (hlt i hmem)
      obtain ⟨inner, c, B, rfl, hlast, hc, hnest⟩ := @ih (i + 1) (i :: new)
        (List.nodup_cons.2 ⟨hi, hn⟩) (by simpa using hnext) h
      refine ⟨t :: inner, c, B, rfl, by rw [List.length_cons]; omega, hc, ?_⟩
      rw [braceNest_open ho]
      exact hnest
    · cases new with
      | nil =>
        rw [List.nil_append, pairsFrom_close hc, List.mem_cons] at h
        rcases h with rfl | h
        · exact ⟨[], t, ts, rfl, rfl, hc, rfl⟩
        · exfalso
          have hrest : ∀ o ∈ opened, o < i + 1 := fun o ho => hnext o (by simp [ho])
          rcases (mem_pairsFrom hrest h).1 with hin | hle
          · exact (List.nodup_cons.1 hn).1 (hp ▸ hin)
          · have := hlt p (by simp)
            omega
      | cons n new =>
        rw [List.cons_append, pairsFrom_close hc, List.mem_cons] at h
        obtain ⟨hnotin, hn'⟩ := List.nodup_cons.1 hn
        rcases h with rfl | h
        · exact absurd (by simp [← hp]) hnotin
        · obtain ⟨inner, c, B, rfl, hlast, hc', hnest⟩ :=
            ih hn' (fun o ho => hnext o (List.mem_cons_of_mem n ho)) h
          refine ⟨t :: inner, c, B, rfl, by rw [List.length_cons]; omega, hc', ?_⟩
          rw [braceNest, kinds_cons, hc, List.filter_cons_of_pos (by rfl), List.map_cons,
            nest_closing (by rfl)]
          exact hnest
    · rw [pairsFrom_plain hpl] at h
      obtain ⟨inner, c, B, rfl, hlast, hc, hnest⟩ := ih hn hnext h
      refine ⟨t :: inner, c, B, rfl, by rw [List.length_cons]; omega, hc, ?_⟩
      rw [braceNest_plain hpl]
      exact hnest

/-- A brace pair holds tokens whose braces nest. -/
theorem exists_of_mem_pairsFrom {opened : List Nat} (hn : opened.Nodup)
    (hlt : ∀ o ∈ opened, o < i) (h : g ∈ pairsFrom opened i ts) (hg : g.first ∉ opened) :
    ∃ A o inner c B, ts = A ++ o :: (inner ++ c :: B) ∧ g.first = i + A.length ∧
      g.last = i + A.length + inner.length + 1 ∧ o.kind = .openBrace ∧ c.kind = .closeBrace ∧
      BracesNest inner := by
  induction ts generalizing opened i with
  | nil => simp [pairsFrom] at h
  | cons t ts ih =>
    have hnext : ∀ o ∈ opened, o < i + 1 := fun o ho => Nat.lt_succ_of_lt (hlt o ho)
    -- a pair that lies behind the first token
    have hbehind : ∀ opened' : List Nat, opened'.Nodup → (∀ o ∈ opened', o < i + 1) →
        g ∈ pairsFrom opened' (i + 1) ts → g.first ∉ opened' →
        ∃ A o inner c B, t :: ts = A ++ o :: (inner ++ c :: B) ∧ g.first = i + A.length ∧
          g.last = i + A.length + inner.length + 1 ∧ o.kind = .openBrace ∧ c.kind = .closeBrace ∧
          BracesNest inner := by
      intro opened' hn' hlt' h' hg'
      obtain ⟨A, o, inner, c, B, rfl, hfirst, hlast, hrest⟩ := ih hn' hlt' h' hg'
      exact ⟨t :: A, o, inner, c, B, rfl, by rw [List.length_cons]; omega,
        by rw [List.length_cons]; omega, hrest⟩
    rcases t.kind.isBrace_cases with ho | hc | hp
    · rw [pairsFrom_open ho] at h
      have hi : i ∉ opened := fun hmem => Nat.lt_irrefl i (hlt i hmem)
      have hn' : (i :: opened).Nodup := List.nodup_cons.2 ⟨hi, hn⟩
      by_cases hfirst : g.first = i
      · obtain ⟨inner, c, B, rfl, hlast, hc, hnest⟩ :=
          @exists_close_of_mem_pairsFrom (i + 1) ts g [] opened i hn' (by simpa using hnext) h hfirst
        exact ⟨[], t, inner, c, B, rfl, hfirst, by rw [List.length_nil]; omega, ho, hc, hnest⟩
      · exact hbehind _ hn' (by simpa using hnext) h (by simp [hfirst, hg])
    · cases opened with
      | nil => exact hbehind [] (by simp) (by simp) (by simpa [pairsFrom, hc] using h) (by simp)
      | cons o opened =>
        rw [pairsFrom_close hc, List.mem_cons] at h
        rcases h with rfl | h
        · simp at hg
        · exact hbehind opened (List.nodup_cons.1 hn).2 (fun o' ho' => hnext o' (by simp [ho'])) h
            (fun hin => hg (List.mem_cons_of_mem o hin))
    · rw [pairsFrom_plain hp] at h
      exact hbehind opened hn hnext h hg

/-- What a tag group looks like. -/
theorem exists_of_mem_tagGroups {m : KeyMatcher} {gs : List Span} (h : tagGroups m ts = .ok gs)
    (hg : g ∈ gs) :
    ∃ A o inner c B, ts = A ++ o :: (inner ++ c :: B) ∧ g.first = A.length ∧
      g.last = A.length + inner.length + 1 ∧ o.kind = .openBrace ∧ c.kind = .closeBrace ∧
      BracesNest inner := by
  have hpair := (groupsFrom_sublist_pairsFrom h).subset hg
  simpa using exists_of_mem_pairsFrom (by simp) (by simp) hpair (by simp)

end Between

/-! ## Groups around which nothing is marked -/

section Endpoints

variable {m : KeyMatcher} {fs : List Frame} {i : Nat} {ts after : List Token} {gs : List Span}

/-- A search can be cut in two; the groups found in the first part, and the frames that it leaves
open, are in the first part. -/
theorem groupsFrom_append (hlt : ∀ f ∈ fs, f.opening < i)
    (h : groupsFrom m fs i (ts ++ after) = .ok gs) :
    ∃ fs' found later, groupsFrom m fs' (i + ts.length) after = .ok later ∧ gs = found ++ later ∧
      (∀ g ∈ found, g.first < i + ts.length ∧ g.last < i + ts.length) ∧
      ∀ f ∈ fs', f.opening < i + ts.length := by
  induction ts generalizing fs i gs with
  | nil => exact ⟨fs, [], gs, h, rfl, by simp, hlt⟩
  | cons t ts ih =>
    have hnext : ∀ f ∈ fs, f.opening < i + 1 := fun f hf => Nat.lt_succ_of_lt (hlt f hf)
    have hstep : i + (t :: ts).length = i + 1 + ts.length := by
      rw [List.length_cons]
      omega
    rw [hstep]
    rcases groupsFrom_cons_cases h with ⟨ho, h'⟩ | ⟨hc, f, around, rest, rfl, h', rfl⟩ | ⟨hp, h'⟩
    · exact ih (by simpa using hnext) h'
    · obtain ⟨fs', found, later, hlater, rfl, hfound, hopen⟩ :=
        ih (fun f' hf' => hnext f' (by simp [hf'])) h'
      have hf : f.opening < i := hlt f (by simp)
      by_cases hm : f.marked = true
      · refine ⟨fs', ⟨f.opening, i⟩ :: found, later, hlater, by simp [hm], ?_, hopen⟩
        intro g hg
        rcases List.mem_cons.1 hg with rfl | hg
        · exact ⟨by change f.opening < _; omega, by change i < _; omega⟩
        · exact hfound g hg
      · exact ⟨fs', found, later, hlater, by simp [hm], hfound, hopen⟩
    · refine ih (fun f hf => ?_) h'
      have hmem : f.opening ∈ fs.map Frame.opening := by
        split at hf
        · exact map_opening_markInnermost ▸ List.mem_map_of_mem hf
        · exact List.mem_map_of_mem hf
      obtain ⟨f', hf', heq⟩ := List.mem_map.1 hmem
      exact heq ▸ hnext f' hf'

/-- Marking concerns the innermost of several open frames. -/
theorem markInnermost_append {new : List Frame} (f : Frame) :
    ∃ new' f', markInnermost (new ++ f :: fs) = new' ++ f' :: fs ∧ new'.length = new.length ∧
      (new' ++ [f']).map Frame.opening = (new ++ [f]).map Frame.opening := by
  cases new with
  | nil => exact ⟨[], { f with marked := true }, rfl, rfl, rfl⟩
  | cons f' new => exact ⟨{ f' with marked := true } :: new, f, rfl, rfl, rfl⟩

/-- A search passes the rest of a brace group; what it finds there lies behind the braces that are
open. -/
theorem groupsFrom_group {opened : List Kind} {new : List Frame} {f : Frame} {lo : Nat}
    {inner : List Token} {c : Token}
    (hn : braceNest opened inner = some []) (hlen : new.length = opened.length)
    (hc : c.kind = .closeBrace) (hlo : ∀ o ∈ (new ++ [f]).map Frame.opening, lo ≤ o) (hi : lo ≤ i)
    (h : groupsFrom m (new ++ f :: fs) i (inner ++ c :: after) = .ok gs) :
    ∃ found later, groupsFrom m fs (i + inner.length + 1) after = .ok later ∧ gs = found ++ later ∧
      ∀ g ∈ found, lo ≤ g.first ∧ lo ≤ g.last ∧ g.last ≤ i + inner.length := by
  induction inner generalizing opened new f i gs with
  | nil =>
    obtain rfl : opened = [] := by simpa [braceNest] using hn
    obtain rfl : new = [] := List.length_eq_zero_iff.1 hlen
    rw [List.nil_append, List.nil_append, groupsFrom_close hc] at h
    obtain ⟨later, hlater, rfl⟩ := map_eq_ok_iff.1 h
    by_cases hm : f.marked = true
    · refine ⟨[⟨f.opening, i⟩], later, hlater, by simp [hm], ?_⟩
      intro g hg
      obtain rfl := List.mem_singleton.1 hg
      exact ⟨hlo _ (by simp), hi, Nat.le_refl i⟩
    · exact ⟨[], later, hlater, by simp [hm], by simp⟩
  | cons t inner ih =>
    have hstep : i + (t :: inner).length = i + 1 + inner.length := by
      rw [List.length_cons]
      omega
    rw [hstep]
    rcases groupsFrom_cons_cases h with ⟨ho, h'⟩ | ⟨hcl, f', around, rest, heq, h', rfl⟩ | ⟨hp, h'⟩
    · rw [braceNest_open ho] at hn
      refine @ih (i + 1) _ _ (⟨i, t.text, false⟩ :: new) f hn (by simp [hlen]) ?_ (by omega) h'
      intro o ho'
      rcases List.mem_cons.1 ho' with rfl | ho'
      · exact hi
      · exact hlo o ho'
    · obtain ⟨o, rfl, hn'⟩ := braceNest_close hcl hn
      cases new with
      | nil => simp at hlen
      | cons f'' new =>
        obtain ⟨rfl, rfl⟩ : f'' = f' ∧ new ++ f :: fs = around := by simpa using heq
        obtain ⟨found, later, hlater, rfl, hfound⟩ := ih hn' (by simpa using hlen)
          (fun o' ho' => hlo o' (List.mem_cons_of_mem _ ho')) (by omega) h'
        by_cases hm : f''.marked = true
        · refine ⟨⟨f''.opening, i⟩ :: found, later, hlater, by simp [hm], ?_⟩
          intro g hg
          rcases List.mem_cons.1 hg with rfl | hg
          · exact ⟨hlo _ (by simp), hi, by change i ≤ _; omega⟩
          · exact hfound g hg
        · exact ⟨found, later, hlater, by simp [hm], hfound⟩
    · rw [braceNest_plain hp] at hn
      split at h'
      · obtain ⟨new', f', hmark, hlen', hopen⟩ := @markInnermost_append fs new f
        rw [hmark] at h'
        exact ih hn (hlen'.trans hlen) (by rw [hopen]; exact hlo) (by omega) h'
      · exact ih hn hlen hlo (by omega) h'

/-- Around a brace group no group begins or ends in two stretches without marked keys whose braces
nest. -/
theorem endpoints_outside {A l inner r B : List Token} {o c : Token}
    (h : tagGroups m (A ++ (l ++ (o :: (inner ++ c :: (r ++ B))))) = .ok gs)
    (ho : o.kind = .openBrace) (hc : c.kind = .closeBrace) (hi : BracesNest inner)
    (hl : Keyless m l) (hr : Keyless m r) (hlr : BracesNest (l ++ r)) {g : Span} (hg : g ∈ gs)
    {j : Nat} (hj : A.length ≤ j ∧ j < A.length + l.length ∨
      A.length + l.length + inner.length + 2 ≤ j ∧
        j < A.length + l.length + inner.length + 2 + r.length) :
    g.first ≠ j ∧ g.last ≠ j := by
  obtain ⟨opened, hopen, hclose⟩ : ∃ opened, braceNest [] l = some opened ∧
      braceNest opened r = some [] := by
    have hnest : braceNest [] (l ++ r) = some [] := hlr
    rw [braceNest_append] at hnest
    exact Option.bind_eq_some_iff.1 hnest
  have hlt : g.first < g.last :=
    (mem_pairsFrom (by simp) ((groupsFrom_sublist_pairsFrom h).subset hg)).2.1
  -- the search in front of the stretches, in the first stretch, in the group, in the second one
  obtain ⟨fs, front, rest, hrest, rfl, hfront, hfs⟩ := groupsFrom_append (by simp) h
  obtain ⟨new, hlen, hnew, hrunl⟩ := @groupsFrom_keyless m l [] opened [] (0 + A.length) hl hopen rfl
    (by simp)
  have hgroup := (hrunl fs _).symm.trans hrest
  rw [groupsFrom_open ho] at hgroup
  obtain ⟨found, back, hback, rfl, hfound⟩ := @groupsFrom_group m (new ++ fs) _ _ _ [] [] _
    (A.length + l.length) inner c hi rfl hc (by simp) (by omega) hgroup
  obtain ⟨new', hlen', -, hrunr⟩ := @groupsFrom_keyless m r opened [] new
    (0 + A.length + l.length + 1 + inner.length + 1) hr hclose hlen hnew
  obtain rfl : new' = [] := List.length_eq_zero_iff.1 hlen'
  have hbehind := (hrunr fs _).symm.trans hback
  rcases List.mem_append.1 hg with hg | hg
  · have := hfront g hg
    omega
  rcases List.mem_append.1 hg with hg | hg
  · have := hfound g hg
    omega
  · have hbounds := mem_pairsFrom (fun o' ho' => ?_)
      ((groupsFrom_sublist_pairsFrom hbehind).subset hg)
    · obtain ⟨hfirst, -, hlast, -⟩ := hbounds
      refine ⟨fun heq => ?_, by omega⟩
      rcases hfirst with hin | hle
      · obtain ⟨f, hf, hopening⟩ := List.mem_map.1 hin
        have := hfs f hf
        omega
      · omega
    · obtain ⟨f, hf, rfl⟩ := List.mem_map.1 ho'
      have := hfs f hf
      omega

end Endpoints

end TagBox
