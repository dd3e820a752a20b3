import TagBox.Proofs.Weave
import Mathlib.Data.List.Sort

/-!
# Edit scripts and the single pass

Halves are put in and taken out by a list of edits, sorted so that the last position comes first.
Sorting leaves no choice: the sorted list is the sweep over the positions from the end to the start.
Following the sweep, putting halves in is `weave`, and taking out what `weave` put in gives the
tokens back.

* `sweep` — edits at the ends of groups, in the order in which they are done.
* `wrap_eq_weave` — wrapping is weaving, up to single spaces that keep neighbours apart.
* `strip_weave` — stripping undoes weaving, layout included.
-/

namespace TagBox

/-! ## Sorting -/

section Sorting

variable {α : Type} {ahead : α → α → Bool} {l c : List α}

theorem sortBy_eq_insertionSort (ahead : α → α → Bool) (l : List α) :
    sortBy ahead l = l.insertionSort fun a b => ahead a b = true := by
  have hinsert : ∀ (a : α) (l : List α),
      insertBy ahead a l = l.orderedInsert (fun a b => ahead a b = true) a := by
    intro a l
    induction l with
    | nil => rfl
    | cons b l ih => simp only [insertBy, List.orderedInsert_cons, ih]
  unfold sortBy
  induction l with
  | nil => rfl
  | cons a l ih => rw [List.foldr_cons, ih, hinsert, List.insertionSort_cons]

theorem mem_sortBy {a : α} : a ∈ sortBy ahead l ↔ a ∈ l := by
  rw [sortBy_eq_insertionSort, List.mem_insertionSort]

theorem pairwise_sortBy (htotal : ∀ a b, ahead a b = true ∨ ahead b a = true)
    (htrans : ∀ a b c, ahead a b = true → ahead b c = true → ahead a c = true) (l : List α) :
    (sortBy ahead l).Pairwise fun a b => ahead a b = true := by
  rw [sortBy_eq_insertionSort]
  have : Std.Total fun a b => ahead a b = true := ⟨htotal⟩
  have : IsTrans α fun a b => ahead a b = true := ⟨htrans⟩
  exact List.pairwise_insertionSort _ l

/-- A list without repeats can be sorted in one way only. -/
theorem sortBy_eq (htotal : ∀ a b, ahead a b = true ∨ ahead b a = true)
    (htrans : ∀ a b c, ahead a b = true → ahead b c = true → ahead a c = true)
    (hanti : ∀ a b, ahead a b = true → ahead b a = true → a = b)
    (hl : l.Nodup) (hc : c.Nodup) (hsorted : c.Pairwise fun a b => ahead a b = true)
    (hmem : ∀ a, a ∈ l ↔ a ∈ c) : sortBy ahead l = c := by
  have hperm : (sortBy ahead l).Perm l := by
    rw [sortBy_eq_insertionSort]
    exact List.perm_insertionSort _ l
  exact List.Perm.eq_of_pairwise (fun a b _ _ => hanti a b) (pairwise_sortBy htotal htrans l) hsorted
    (hperm.trans ((List.perm_ext_iff_of_nodup hl hc).2 hmem))

theorem mem_dropRepeats [DecidableEq α] {a : α} : a ∈ dropRepeats l ↔ a ∈ l := by
  induction l with
  | nil => rfl
  | cons b l ih =>
    rw [List.mem_cons, ← ih, dropRepeats]
    split
    · rename_i hnil
      simp [hnil]
    · rename_i b' more hcons
      by_cases hb : b = b'
      · rw [if_pos hb, hcons, hb]
        simp
      · rw [if_neg hb, hcons, List.mem_cons]

theorem pairwise_dropRepeats [DecidableEq α] {rank : α → Nat}
    (hl : l.Pairwise fun a b => rank b ≤ rank a)
    (hinj : ∀ a ∈ l, ∀ b ∈ l, rank a = rank b → a = b) :
    (dropRepeats l).Pairwise fun a b => rank b < rank a := by
  induction l with
  | nil => exact List.Pairwise.nil
  | cons a l ih =>
    obtain ⟨ha, hl'⟩ := List.pairwise_cons.1 hl
    have hrest := ih hl' fun x hx y hy => hinj x (by simp [hx]) y (by simp [hy])
    rw [dropRepeats]
    split
    · exact List.pairwise_singleton _ _
    · rename_i b more hcons
      rw [hcons] at hrest
      by_cases hb : a = b
      · rwa [if_pos hb]
      · rw [if_neg hb]
        refine List.pairwise_cons.2 ⟨fun x hx => ?_, hrest⟩
        have hbl : b ∈ l := mem_dropRepeats.1 (by simp [hcons])
        have hlt : rank b < rank a := Nat.lt_of_le_of_ne (ha b hbl) fun heq =>
          hb (hinj a (by simp) b (by simp [hbl]) heq.symm)
        rcases List.mem_cons.1 hx with rfl | hx
        · exact hlt
        · exact Nat.lt_trans ((List.pairwise_cons.1 hrest).1 x hx) hlt

/-- Sorting by a rank puts the highest rank first. -/
theorem pairwise_sortBy_rank (rank : α → Nat) (l : List α) :
    (sortBy (fun a b => rank b ≤ rank a) l).Pairwise fun a b => rank b ≤ rank a := by
  have := @pairwise_sortBy α (fun a b => rank b ≤ rank a) (fun a b => by simp; omega)
    (fun a b c => by simp; omega) l
  simpa using this

/-- Sorting by a rank and dropping repeats leaves no choice if equal ranks mean equal elements. -/
theorem dropRepeats_sortBy [DecidableEq α] {rank : α → Nat}
    (hc : c.Pairwise fun a b => rank b < rank a) (hmem : ∀ a, a ∈ l ↔ a ∈ c) :
    dropRepeats (sortBy (fun a b => rank b ≤ rank a) l) = c := by
  have hmem' : ∀ a, a ∈ sortBy (fun a b => rank b ≤ rank a) l ↔ a ∈ c := fun a =>
    mem_sortBy.trans (hmem a)
  have hnodup : (c.map rank).Nodup := by
    rw [List.Nodup, List.pairwise_map]
    exact hc.imp fun h => (Nat.ne_of_lt h).symm
  have hstrict := pairwise_dropRepeats (pairwise_sortBy_rank rank l) fun a ha b hb =>
    List.inj_on_of_nodup_map hnodup ((hmem' a).1 ha) ((hmem' b).1 hb)
  have : Std.Irrefl fun a b : α => rank b < rank a := ⟨fun a => Nat.lt_irrefl _⟩
  have : Std.Antisymm fun a b : α => rank b < rank a := ⟨fun a b h h' => by omega⟩
  exact List.Pairwise.eq_of_mem_iff hstrict hc fun a => mem_dropRepeats.trans (hmem' a)

end Sorting

/-! ## The sweep -/

/-- The edits `left` and `right` at the positions, from `i` on, where groups start and end; the last
position comes first, and at one position the right edit comes first. -/
def sweep {α : Type} (left right : Nat → α) (groups : List Span) (i : Nat) : List Token → List α
  | [] => []
  | _ :: rest =>
    sweep left right groups (i + 1) rest ++
      ((if endsAt groups i then [right i] else []) ++ (if startsAt groups i then [left i] else []))

section Sweep

variable {α : Type} {left right : Nat → α} {gs : List Span} {i : Nat} {ts : List Token}

theorem mem_sweep {a : α} :
    a ∈ sweep left right gs i ts ↔ ∃ j, i ≤ j ∧ j < i + ts.length ∧
      (endsAt gs j = true ∧ a = right j ∨ startsAt gs j = true ∧ a = left j) := by
  induction ts generalizing i with
  | nil =>
    refine iff_of_false (by simp [sweep]) ?_
    rintro ⟨j, hle, hlt, -⟩
    rw [List.length_nil] at hlt
    omega
  | cons t ts ih =>
    have hhere : a ∈ (if endsAt gs i then [right i] else []) ++ (if startsAt gs i then [left i] else [])
        ↔ (endsAt gs i = true ∧ a = right i ∨ startsAt gs i = true ∧ a = left i) := by
      by_cases he : endsAt gs i = true <;> by_cases hs : startsAt gs i = true <;> simp [he, hs]
    rw [sweep, List.mem_append, hhere, ih, List.length_cons]
    constructor
    · rintro (⟨j, hle, hlt, hj⟩ | hi)
      · exact ⟨j, by omega, by omega, hj⟩
      · exact ⟨i, by omega, by omega, hi⟩
    · rintro ⟨j, hle, hlt, hj⟩
      by_cases heq : j = i
      · exact Or.inr (heq ▸ hj)
      · exact Or.inl ⟨j, by omega, by omega, hj⟩

theorem pairwise_sweep {r : α → α → Prop}
    (hll : ∀ j k, j < k → startsAt gs j = true → startsAt gs k = true → r (left k) (left j))
    (hlr : ∀ j k, j < k → endsAt gs j = true → startsAt gs k = true → r (left k) (right j))
    (hrl : ∀ j k, j ≤ k → startsAt gs j = true → endsAt gs k = true → r (right k) (left j))
    (hrr : ∀ j k, j < k → endsAt gs j = true → endsAt gs k = true → r (right k) (right j)) :
    (sweep left right gs i ts).Pairwise r := by
  induction ts generalizing i with
  | nil => exact List.Pairwise.nil
  | cons t ts ih =>
    rw [sweep, List.pairwise_append]
    refine ⟨ih, ?_, fun a ha b hb => ?_⟩
    · by_cases he : endsAt gs i = true <;> by_cases hs : startsAt gs i = true <;>
        simp [he, hs]
      exact hrl i i (Nat.le_refl i) hs he
    · obtain ⟨k, hle, -, hk⟩ := mem_sweep.1 ha
      have hb' : endsAt gs i = true ∧ b = right i ∨ startsAt gs i = true ∧ b = left i := by
        by_cases he : endsAt gs i = true <;> by_cases hs : startsAt gs i = true <;>
          simp_all
      rcases hk with ⟨hke, rfl⟩ | ⟨hks, rfl⟩ <;> rcases hb' with ⟨hie, rfl⟩ | ⟨his, rfl⟩
      · exact hrr i k (by omega) hie hke
      · exact hrl i k (by omega) his hke
      · exact hlr i k (by omega) hie hks
      · exact hll i k (by omega) his hks

end Sweep

/-! ## Putting halves in -/

/-- Wherever a half comes next to a token without a blank between them, the two do not join. -/
structure Settled (T : Template) (gs : List Span) (ts : List Token) : Prop where
  before : ∀ A a b B, ts = A ++ a :: b :: B → startsAt gs (A.length + 1) = true → b.lead = [] →
    ∀ first ∈ T.left.head?, joins a first = false
  behind : ∀ t ∈ ts, ∀ last ∈ T.right.getLast?, joins last t = false
  between : ∀ first ∈ T.left.head?, ∀ last ∈ T.right.getLast?, joins last first = false

/-- A lead stays as it is, or one space comes in where there was none. -/
def Widens (lead lead' : Text) : Prop :=
  lead' = lead ∨ lead = [] ∧ lead' = [' ']

/-- Does a group end right in front of the position? -/
def endsBefore (groups : List Span) : Nat → Bool
  | 0 => false
  | i + 1 => endsAt groups i

/-- Tokens, which start at position `i`, and the same tokens with a space in front of some that had
none: tokens at which a group starts, and tokens right behind a group. -/
inductive Respaced (gs : List Span) : Nat → List Token → List Token → Prop
  | nil (i : Nat) : Respaced gs i [] []
  | cons {i : Nat} {t : Token} {lead : Text} {ts us : List Token} (hlead : Widens t.lead lead)
      (hwhere : lead ≠ t.lead → startsAt gs i = true ∨ endsBefore gs i = true)
      (h : Respaced gs (i + 1) ts us) : Respaced gs i (t :: ts) (t.withLead lead :: us)

/-- Tokens, which start at position `i` behind the token `before`, and the same tokens with their leads
after wrapping: where a half stands next to a token without a blank between them, the two do not
join. -/
inductive Unjoined (T : Template) (gs : List Span) :
    Nat → Option Token → List Token → List Token → Prop
  | nil (i : Nat) (before : Option Token) : Unjoined T gs i before [] []
  | cons {i : Nat} {before : Option Token} {t : Token} {lead : Text} {ts us : List Token}
      (hlead : Widens t.lead lead)
      (hstart : startsAt gs i = true → lead = [] → ∀ a ∈ before, ∀ first ∈ T.left.head?,
        joins a first = false)
      (hend : endsAt gs i = true → ∀ next ∈ (weave T gs (i + 1) us).head?, next.lead = [] →
        ∀ last ∈ T.right.getLast?, joins last next = false)
      (h : Unjoined T gs (i + 1) (some t) ts us) : Unjoined T gs i before (t :: ts) (t.withLead lead :: us)

section Wrap

variable {T : Template} {gs : List Span} {i : Nat} {t : Token} {ts us A : List Token}

theorem Widens.trans {l₁ l₂ l₃ : Text} (h : Widens l₁ l₂) (h' : Widens l₂ l₃) : Widens l₁ l₃ := by
  rcases h with rfl | ⟨rfl, rfl⟩
  · exact h'
  · rcases h' with rfl | ⟨hnil, -⟩
    · exact Or.inr ⟨rfl, rfl⟩
    · simp at hnil

theorem widens_spaced (a b : Token) (lead : Text) : Widens lead (spaced a b lead) := by
  unfold spaced
  split
  · rename_i h
    exact Or.inr ⟨h.1, rfl⟩
  · exact Or.inl rfl

theorem joins_of_spaced {a b : Token} {lead : Text} (h : spaced a b lead = []) : joins a b = false := by
  unfold spaced at h
  split_ifs at h with hjoin
  simpa [h] using hjoin

theorem Respaced.contents_eq (h : Respaced gs i ts us) : contents us = contents ts := by
  induction h with
  | nil => rfl
  | cons _ _ _ ih => rw [contents_cons, contents_cons, ih, Token.content_withLead]

/-- A space in front of the first token, which stands right behind a group. -/
theorem Respaced.relead {lead : Text} (h : Respaced gs i ts us) (hends : endsBefore gs i = true)
    (hlead : ∀ u ∈ us.head?, Widens u.lead lead) : Respaced gs i ts (relead lead us) := by
  cases h with
  | nil => exact .nil i
  | cons hfirst _ hrest => exact .cons (hfirst.trans (hlead _ rfl)) (fun _ => Or.inr hends) hrest

theorem Unjoined.contents_eq {before : Option Token} (h : Unjoined T gs i before ts us) :
    contents us = contents ts := by
  induction h with
  | nil => rfl
  | cons _ _ _ _ ih => rw [contents_cons, contents_cons, ih, Token.content_withLead]

/-- A space in front of the first token does not bring anything together. -/
theorem Unjoined.relead {before : Option Token} {lead : Text} (h : Unjoined T gs i before ts us)
    (hlead : ∀ u ∈ us.head?, Widens u.lead lead) : Unjoined T gs i before ts (relead lead us) := by
  cases h with
  | nil => exact .nil i before
  | cons hfirst hstart hend hrest =>
    have hwidens := hlead _ rfl
    refine .cons (hfirst.trans hwidens) (fun hs hnil => hstart hs ?_) hend hrest
    rcases hwidens with heq | ⟨hempty, -⟩
    · exact heq.symm.trans hnil
    · exact hempty

/-- The first woven token has the lead of the first token. -/
theorem relead_weave (hT : T.left ≠ []) (lead : Text) :
    relead lead (weave T gs i us) = weave T gs i (relead lead us) := by
  obtain ⟨first, more, hleft⟩ := List.exists_cons_of_ne_nil hT
  cases us with
  | nil => rfl
  | cons u us =>
    by_cases hs : startsAt gs i = true <;> simp [weave, relead, hs, hleft, Token.withLead]

theorem relead_lead (t : Token) (ts : List Token) : relead t.lead (t :: ts) = t :: ts := rfl

/-- Woven tokens start with a left half or with the first token, and with the lead of the latter. -/
theorem exists_weave_eq_cons (hT : T.left ≠ []) (t : Token) (us : List Token) :
    ∃ next more, weave T gs i (t :: us) = next :: more ∧ next.lead = t.lead ∧
      (next = t ∨ ∃ first ∈ T.left.head?, next = first.withLead t.lead) := by
  obtain ⟨first, more, hleft⟩ := List.exists_cons_of_ne_nil hT
  by_cases hs : startsAt gs i = true
  · rw [weave, if_pos hs, hleft]
    exact ⟨first.withLead t.lead, _, rfl, rfl, Or.inr ⟨first, rfl, rfl⟩⟩
  · rw [weave, if_neg hs]
    exact ⟨t, _, rfl, rfl, Or.inl rfl⟩

theorem insertLeft_append (hT : T.left ≠ []) (A : List Token) (t : Token) (ts : List Token) :
    ∃ lead, Widens t.lead lead ∧ insertLeft T A.length (A ++ t :: ts) =
        A ++ (relead lead T.left ++ t.withLead T.payloadLead :: ts) ∧
      (lead = [] → ∀ a ∈ A.getLast?, ∀ first ∈ T.left.head?, joins a first = false) ∧
      ((∀ a ∈ A.getLast?, ∀ first ∈ T.left.head?, t.lead = [] → joins a first = false) →
        lead = t.lead) := by
  obtain ⟨first, more, hleft⟩ := List.exists_cons_of_ne_nil hT
  unfold insertLeft
  rw [List.drop_left, List.take_left, hleft]
  cases hA : A.getLast? with
  | none => exact ⟨t.lead, Or.inl rfl, by simp [relead, hA], by simp, fun _ => rfl⟩
  | some last =>
    refine ⟨spaced last first t.lead, widens_spaced _ _ _, by simp [relead, hA],
      fun hnil => by simpa using joins_of_spaced hnil, fun hjoin => ?_⟩
    have hno : ¬ (t.lead = [] ∧ joins last first = true) := by
      rintro ⟨hnil, hj⟩
      rw [hjoin last rfl first rfl hnil] at hj
      simp at hj
    rw [spaced, if_neg hno]

theorem insertRight_append (T : Template) (A ts : List Token) :
    ∃ lead, (∀ next ∈ ts.head?, Widens next.lead lead) ∧
      insertRight T A.length (A ++ ts) = A ++ (T.right ++ relead lead ts) ∧
      (lead = [] → ∀ next ∈ ts.head?, ∀ last ∈ T.right.getLast?, joins last next = false) ∧
      ((∀ next ∈ ts.head?, ∀ last ∈ T.right.getLast?, joins last next = false) →
        ∀ next ∈ ts.head?, lead = next.lead) := by
  unfold insertRight
  rw [List.drop_left, List.take_left]
  cases ts with
  | nil => exact ⟨[], by simp, by simp [relead], by simp, by simp⟩
  | cons next behind =>
    cases hR : T.right.getLast? with
    | none => exact ⟨next.lead, by simp [Widens], by simp [relead_lead], by simp, by simp⟩
    | some last =>
      refine ⟨spaced last next next.lead, by simp [widens_spaced], by simp [relead],
        fun hnil => by simpa using joins_of_spaced hnil, ?_⟩
      intro hjoin next' hnext'
      obtain rfl : next = next' := by simpa using hnext'
      simp [spaced, hjoin next (by simp) last (by simp)]

theorem insertRight_weave (hT : T.left ≠ []) (A us : List Token) :
    ∃ lead, (∀ u ∈ us.head?, Widens u.lead lead) ∧
      insertRight T A.length (A ++ weave T gs i us) =
        A ++ (T.right ++ weave T gs i (relead lead us)) ∧
      (∀ next ∈ (weave T gs i (relead lead us)).head?, next.lead = [] →
        ∀ last ∈ T.right.getLast?, joins last next = false) ∧
      ((∀ u ∈ us, ∀ last ∈ T.right.getLast?, joins last u = false) →
        (∀ first ∈ T.left.head?, ∀ last ∈ T.right.getLast?, joins last first = false) →
          relead lead us = us) := by
  obtain ⟨lead, hwidens, hins, hnil, hlead⟩ := insertRight_append T A (weave T gs i us)
  refine ⟨lead, ?_, by rw [hins, relead_weave hT], ?_, ?_⟩
  · intro u hu
    obtain ⟨us, rfl⟩ : ∃ rest, us = u :: rest := List.head?_eq_some_iff.1 hu
    obtain ⟨next, more, hweave, hnext, -⟩ := @exists_weave_eq_cons T gs i hT u us
    exact hnext ▸ hwidens next (by simp [hweave])
  · rw [← relead_weave hT]
    intro next hnext hempty last hlast
    cases hweave : weave T gs i us with
    | nil => simp [hweave, relead] at hnext
    | cons n more =>
      rw [hweave] at hnext
      obtain rfl : n.withLead lead = next := Option.some.inj hnext
      exact hnil hempty n (by simp [hweave]) last hlast
  · intro hbehind hbetween
    cases us with
    | nil => rfl
    | cons u us =>
      obtain ⟨next, more, hweave, hnext, hcases⟩ := @exists_weave_eq_cons T gs i hT u us
      have hjoin : lead = next.lead := by
        refine hlead (fun next' hmem last hlast => ?_) next (by simp [hweave])
        obtain rfl : next = next' := by simpa [hweave] using hmem
        rcases hcases with rfl | ⟨first, hfirst, rfl⟩
        · exact hbehind next (by simp) last hlast
        · exact hbetween first hfirst last hlast
      rw [hjoin, hnext, relead_lead]

/-- The edits that put halves in, in the order in which they are done. -/
abbrev insertions (gs : List Span) (i : Nat) (ts : List Token) : List Insertion :=
  sweep (fun i => ⟨i, .left⟩) (fun i => ⟨i + 1, .right⟩) gs i ts

/-- Doing the insertions of a sweep is weaving. -/
theorem foldl_insertions (hT : T.left ≠ []) (A B : List Token) :
    ∃ us, Respaced gs A.length B us ∧ Unjoined T gs A.length A.getLast? B us ∧
      (Settled T gs (A ++ B) → us = B) ∧
      (insertions gs A.length B).foldl (insertHalf T) (A ++ B) = A ++ weave T gs A.length us := by
  induction B generalizing A with
  | nil => exact ⟨[], .nil _, .nil _ _, fun _ => rfl, rfl⟩
  | cons t B ih =>
    obtain ⟨us, hus, hfree, hsettled, hrun⟩ := ih (A ++ [t])
    have hlen : (A ++ [t]).length = A.length + 1 := by simp
    rw [List.append_assoc, List.singleton_append, hlen] at hrun
    rw [List.append_assoc, List.singleton_append] at hsettled
    rw [hlen] at hus
    rw [hlen, List.getLast?_concat] at hfree
    -- the right half behind `t`
    obtain ⟨vs, hvs, hvfree, hvend, hvsettled, hright⟩ : ∃ vs, Respaced gs (A.length + 1) B vs ∧
        Unjoined T gs (A.length + 1) (some t) B vs ∧
        (endsAt gs A.length = true → ∀ next ∈ (weave T gs (A.length + 1) vs).head?, next.lead = [] →
          ∀ last ∈ T.right.getLast?, joins last next = false) ∧
        (Settled T gs (A ++ t :: B) → vs = B) ∧
        (if endsAt gs A.length then [(⟨A.length + 1, .right⟩ : Insertion)] else []).foldl
            (insertHalf T) ((A ++ [t]) ++ weave T gs (A.length + 1) us) =
          A ++ t :: ((if endsAt gs A.length then T.right else []) ++
            weave T gs (A.length + 1) vs) := by
      by_cases he : endsAt gs A.length = true
      · obtain ⟨lead, hlead, hins, hnil, hjoin⟩ :=
          @insertRight_weave T gs (A.length + 1) hT (A ++ [t]) us
        refine ⟨relead lead us, hus.relead he hlead, hfree.relead hlead, fun _ => hnil, fun h => ?_, ?_⟩
        · obtain rfl := hsettled h
          exact hjoin (fun u hu => h.behind u (by simp [hu])) h.between
        · rw [hlen] at hins
          rw [if_pos he, if_pos he]
          simpa [insertHalf] using hins
      · refine ⟨us, hus, hfree, fun hyes => absurd hyes he, hsettled, ?_⟩
        rw [if_neg he, if_neg he]
        simp
    -- the left half in front of `t`
    obtain ⟨lead, hwidens, hwhere, hstart, hlead, hleft⟩ : ∃ lead, Widens t.lead lead ∧
        (lead ≠ t.lead → startsAt gs A.length = true ∨ endsBefore gs A.length = true) ∧
        (startsAt gs A.length = true → lead = [] → ∀ a ∈ A.getLast?, ∀ first ∈ T.left.head?,
          joins a first = false) ∧
        (Settled T gs (A ++ t :: B) → lead = t.lead) ∧
        (if startsAt gs A.length then [(⟨A.length, .left⟩ : Insertion)] else []).foldl
            (insertHalf T) (A ++ t :: ((if endsAt gs A.length then T.right else []) ++
              weave T gs (A.length + 1) vs)) =
          A ++ weave T gs A.length (t.withLead lead :: vs) := by
      by_cases hs : startsAt gs A.length = true
      · obtain ⟨lead, hwidens, hins, hjoin, hlead⟩ := insertLeft_append hT A t
          ((if endsAt gs A.length then T.right else []) ++ weave T gs (A.length + 1) vs)
        refine ⟨lead, hwidens, fun _ => Or.inl hs, fun _ => hjoin,
          fun h => hlead fun a ha first hfirst hnil => ?_, ?_⟩
        · obtain ⟨A', rfl⟩ : ∃ A', A = A' ++ [a] := List.getLast?_eq_some_iff.1 ha
          exact h.before A' a t B (by simp) (by simpa using hs) hnil first hfirst
        · rw [if_pos hs, List.foldl_cons, List.foldl_nil, weave, if_pos hs]
          simpa [insertHalf, Token.withLead] using hins
      · refine ⟨t.lead, Or.inl rfl, fun hne => absurd rfl hne, fun hyes => absurd hyes hs,
          fun _ => rfl, ?_⟩
        rw [if_neg hs, weave, if_neg hs]
        rfl
    refine ⟨t.withLead lead :: vs, .cons hwidens hwhere hvs, .cons hwidens hstart hvend hvfree,
      fun h => ?_, ?_⟩
    · rw [hlead h, hvsettled h]
      rfl
    · rw [insertions, sweep, List.foldl_append, List.foldl_append, hrun, hright, hleft]

theorem ahead_iff {a b : Insertion} :
    a.ahead b = true ↔
      b.position < a.position ∨ b.position = a.position ∧ (a.side = .left ∨ b.side = .right) := by
  simp [Insertion.ahead]

/-- The sorted insertions of groups with different ends are those of the sweep. -/
theorem sortBy_insertionsOf (hfirst : (gs.map Span.first).Nodup) (hlast : (gs.map Span.last).Nodup)
    (hin : ∀ g ∈ gs, g.first < ts.length ∧ g.last < ts.length) :
    sortBy Insertion.ahead (gs.flatMap insertionsOf) = insertions gs 0 ts := by
  refine sortBy_eq ?_ ?_ ?_ ?_ ?_ ?_ ?_
  · rintro ⟨p, _ | _⟩ ⟨q, _ | _⟩ <;> simp [ahead_iff] <;> omega
  · rintro ⟨p, _ | _⟩ ⟨q, _ | _⟩ ⟨r, _ | _⟩ <;> simp [ahead_iff] <;> omega
  · rintro ⟨p, _ | _⟩ ⟨q, _ | _⟩ <;> simp [ahead_iff] <;> omega
  · rw [List.Nodup, List.pairwise_map] at hfirst hlast
    refine List.nodup_flatMap.2 ⟨fun g _ => by simp [insertionsOf], ?_⟩
    refine (hfirst.and hlast).imp fun {a b} hne => ?_
    obtain ⟨hf, hl⟩ := hne
    simp [Function.onFun, List.disjoint_left, insertionsOf, hf, hl]
  · exact pairwise_sweep (by simp; omega) (by simp) (by simp) (by simp; omega)
  · exact pairwise_sweep (by simp [ahead_iff]; omega) (by simp [ahead_iff]; omega)
      (by simp [ahead_iff]; omega) (by simp [ahead_iff]; omega)
  · intro a
    rw [mem_sweep]
    simp only [List.mem_flatMap, insertionsOf, List.mem_cons, List.not_mem_nil, or_false,
      startsAt_iff, endsAt_iff]
    constructor
    · rintro ⟨g, hg, rfl | rfl⟩
      · exact ⟨g.first, by omega, by have := hin g hg; omega, Or.inr ⟨⟨g, hg, rfl⟩, rfl⟩⟩
      · exact ⟨g.last, by omega, by have := hin g hg; omega, Or.inl ⟨⟨g, hg, rfl⟩, rfl⟩⟩
    · rintro ⟨j, -, -, ⟨⟨g, hg, rfl⟩, rfl⟩ | ⟨⟨g, hg, rfl⟩, rfl⟩⟩
      · exact ⟨g, hg, Or.inr rfl⟩
      · exact ⟨g, hg, Or.inl rfl⟩

/-- Wrapping is weaving.  It may put a single space between tokens that would join, and changes no
other layout. -/
theorem wrap_eq_weave (hT : T.left ≠ []) (hfirst : (gs.map Span.first).Nodup)
    (hlast : (gs.map Span.last).Nodup)
    (hin : ∀ g ∈ gs, g.first < ts.length ∧ g.last < ts.length) :
    ∃ us, Respaced gs 0 ts us ∧ (Settled T gs ts → us = ts) ∧ wrap T ts gs = weave T gs 0 us := by
  rw [wrap, sortBy_insertionsOf hfirst hlast hin]
  obtain ⟨us, hus, -, hsettled, hrun⟩ := foldl_insertions hT [] ts
  exact ⟨us, hus, hsettled, hrun⟩

/-- Wrapping is weaving, and where it leaves no blank next to a half nothing joins. -/
theorem wrap_eq_weave_unjoined (hT : T.left ≠ []) (hfirst : (gs.map Span.first).Nodup)
    (hlast : (gs.map Span.last).Nodup)
    (hin : ∀ g ∈ gs, g.first < ts.length ∧ g.last < ts.length) :
    ∃ us, Unjoined T gs 0 none ts us ∧ wrap T ts gs = weave T gs 0 us := by
  rw [wrap, sortBy_insertionsOf hfirst hlast hin]
  obtain ⟨us, -, hfree, -, hrun⟩ := foldl_insertions hT [] ts
  exact ⟨us, hfree, hrun⟩

end Wrap

/-! ## Taking halves out -/

/-- Give the first token the lead, if there is one to give. -/
def handOver (carry : Option Text) (tokens : List Token) : List Token :=
  match carry with
  | none => tokens
  | some lead => relead lead tokens

/-- What the half hands over: a left half hands over the lead of its first token. -/
def Half.hands (half : Half) (lead : Text) : Option Text :=
  match half.side with
  | .left => some lead
  | .right => none

section Strip

variable {T : Template} {gs : List Span} {i : Nat} {t : Token} {ts us A : List Token}

/-- One removal. -/
theorem removeHalf_append {half : Half} (A : List Token) {H : List Token} (B : List Token) (hH : H ≠ [])
    (hfirst : half.span.first = A.length) (hlast : half.span.last + 1 = A.length + H.length) :
    removeHalf (A ++ (H ++ B)) half = .ok (A ++ handOver (half.hands (leadAt (H ++ B) 0)) B) := by
  obtain ⟨side, first, last⟩ := half
  obtain rfl : first = A.length := hfirst
  have hpos := List.length_pos_iff.2 hH
  have hwithin : Half.Within ⟨side, A.length, last⟩ (A ++ (H ++ B)).length := by
    simp only [Half.Within, List.length_append] at hlast ⊢
    omega
  have hdrop : (A ++ (H ++ B)).drop (last + 1) = B := by
    rw [← List.append_assoc, List.drop_left' (by rw [List.length_append]; exact hlast.symm)]
  have hlead : leadAt (A ++ (H ++ B)) A.length = leadAt (H ++ B) 0 := by
    rw [leadAt, leadAt, List.getElem?_append_right (Nat.le_refl _), Nat.sub_self]
  rw [removeHalf, if_pos hwithin]
  cases side <;> simp only [cutHalf, hdrop, hlead, List.take_left] <;> rfl

theorem leadAt_relead (lead : Text) (hT : T.left ≠ []) (ts : List Token) :
    leadAt (relead lead T.left ++ ts) 0 = lead := by
  obtain ⟨first, more, hleft⟩ := List.exists_cons_of_ne_nil hT
  rw [hleft]
  rfl

/-- The woven halves, in the order in which they are taken out. -/
abbrev wovenHalves (T : Template) (gs : List Span) (i : Nat) (ts : List Token) : List Half :=
  sweep (fun i => ⟨.left, ⟨reach T gs i, reach T gs i + T.left.length - 1⟩⟩)
    (fun i => ⟨.right, ⟨place T gs i + 1, place T gs i + T.right.length⟩⟩) gs i ts

/-- Edits that went well are followed by the edits behind them. -/
theorem foldlM_append_of_ok {ε α β : Type} {f : β → α → Except ε β} {xs ys : List α} {a b : β}
    (h : xs.foldlM f a = .ok b) : (xs ++ ys).foldlM f a = ys.foldlM f b := by
  rw [List.foldlM_append, h]
  rfl

/-- Taking the woven halves out gives the tokens back, layout included. -/
theorem foldlM_wovenHalves (hleft : T.left ≠ []) (hright : T.right ≠ []) (hA : A.length = reach T gs i) :
    (wovenHalves T gs i us).foldlM removeHalf (A ++ weave T gs i us) = .ok (A ++ us) := by
  induction us generalizing i A with
  | nil => rfl
  | cons u us ih =>
    set X := if startsAt gs i then relead u.lead T.left ++ [u.withLead T.payloadLead] else [u] with hX
    set Y := if endsAt gs i then T.right else [] with hY
    have hXlen : (A ++ X).length = place T gs i + 1 := by
      rw [List.length_append, hA, hX, place, front]
      by_cases hs : startsAt gs i = true
      · rw [if_pos hs, if_pos hs, List.length_append, length_relead, List.length_singleton]
        omega
      · rw [if_neg hs, if_neg hs]
        rfl
    have hYlen : Y.length = back T gs i := by
      by_cases he : endsAt gs i = true <;> simp [hY, he, back]
    -- the halves further behind
    have hrest := @ih (i + 1) (A ++ X ++ Y) (by rw [List.length_append, hXlen, hYlen, reach_succ])
    have hcut : A ++ weave T gs i (u :: us) = A ++ X ++ Y ++ weave T gs (i + 1) us := by
      simp [weave, hX, hY]
    have hback : (if endsAt gs i then
        [(⟨.right, ⟨place T gs i + 1, place T gs i + T.right.length⟩⟩ : Half)] else []).foldlM
          removeHalf (A ++ X ++ Y ++ us) = .ok (A ++ X ++ us) := by
      by_cases he : endsAt gs i = true
      · rw [if_pos he, hY, if_pos he, List.append_assoc, List.foldlM_cons,
          removeHalf_append (A ++ X) us hright hXlen.symm (by rw [hXlen, Nat.add_right_comm])]
        rfl
      · rw [if_neg he, hY, if_neg he, List.append_nil]
        rfl
    have hfront : (if startsAt gs i then
        [(⟨.left, ⟨reach T gs i, reach T gs i + T.left.length - 1⟩⟩ : Half)] else []).foldlM
          removeHalf (A ++ X ++ us) = .ok (A ++ u :: us) := by
      by_cases hs : startsAt gs i = true
      · have hcut' : A ++ X ++ us = A ++ (relead u.lead T.left ++ u.withLead T.payloadLead :: us) := by
          simp [hX, hs]
        have hpos := List.length_pos_iff.2 hleft
        have hne : relead u.lead T.left ≠ [] := by
          rw [← List.length_pos_iff, length_relead]
          exact hpos
        rw [if_pos hs, hcut', List.foldlM_cons, removeHalf_append A _ hne hA.symm
          (by rw [length_relead]; simp only; omega), leadAt_relead u.lead hleft]
        rfl
      · rw [if_neg hs, hX, if_neg hs, List.append_assoc]
        rfl
    rw [wovenHalves, sweep, hcut, foldlM_append_of_ok hrest, foldlM_append_of_ok hback, hfront]

/-- Stripping undoes weaving, layout included. -/
theorem strip_weave {stale : List Half} (hleft : T.left ≠ []) (hright : T.right ≠ [])
    (hstale : ∀ h, h ∈ stale ↔ h ∈ wovenHalves T gs 0 us) :
    strip (weave T gs 0 us) stale = .ok us := by
  have hpos := List.length_pos_iff.2 hleft
  have hsorted : (wovenHalves T gs 0 us).Pairwise fun a b => b.span.last < a.span.last := by
    refine pairwise_sweep (fun j k hjk _ _ => ?_) (fun j k hjk hj _ => ?_) (fun j k hjk hj hk => ?_)
      (fun j k hjk _ _ => ?_)
    all_goals
      have hj' := reach_succ T gs j
      have hjp := reach_le_place T gs j
      have hkp := reach_le_place T gs k
      change _ < _
    · have := @reach_succ_le T gs j k hjk
      simp only
      omega
    · have := @reach_succ_le T gs j k hjk
      rw [back, if_pos hj] at hj'
      simp only
      omega
    · have hplace : place T gs j = reach T gs j + T.left.length := by simp [place, front, hj]
      rcases Nat.lt_or_eq_of_le hjk with hlt | rfl
      · have := @reach_succ_le T gs j k hlt
        simp only
        omega
      · simp only
        omega
    · have := @reach_succ_le T gs j k hjk
      simp only
      omega
  rw [strip, removals, @dropRepeats_sortBy Half stale _ _ (fun h => h.span.last) hsorted hstale]
  exact @foldlM_wovenHalves T gs 0 us [] hleft hright rfl

end Strip

end TagBox
