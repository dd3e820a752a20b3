import TagBox.Text.Blank

/-!
# The order of texts

Texts are ordered character by character, by code point; a text stands before its continuations.  The
bytes of texts in UTF-8 are ordered in the same way.

* `Text.atMost` — does a text stand before another one, or is it the same?
* `Text.before` — does it stand before the other one?
-/

namespace TagBox.Text

/-- Does the first text stand before the second one, or is it the same? -/
def atMost : Text → Text → Bool
  | [], _ => true
  | _ :: _, [] => false
  | c :: s, d :: t => if c = d then atMost s t else c.toNat < d.toNat

@[simp]
theorem atMost_nil (t : Text) : atMost [] t = true := by
  cases t <;> rfl

@[simp]
theorem atMost_self (t : Text) : atMost t t = true := by
  induction t with
  | nil => rfl
  | cons c t ih => simp [atMost, ih]

theorem atMost_antisymm {s t : Text} (h : atMost s t = true) (h' : atMost t s = true) : s = t := by
  induction s generalizing t with
  | nil =>
    cases t with
    | nil => rfl
    | cons d t => simp [atMost] at h'
  | cons c s ih =>
    cases t with
    | nil => simp [atMost] at h
    | cons d t =>
      by_cases hc : c = d
      · subst hc
        rw [atMost, if_pos rfl] at h h'
        rw [ih h h']
      · rw [atMost, if_neg hc, decide_eq_true_eq] at h
        rw [atMost, if_neg (Ne.symm hc), decide_eq_true_eq] at h'
        omega

theorem atMost_trans {s t u : Text} (h : atMost s t = true) (h' : atMost t u = true) :
    atMost s u = true := by
  induction s generalizing t u with
  | nil => exact atMost_nil u
  | cons c s ih =>
    cases t with
    | nil => simp [atMost] at h
    | cons d t =>
      cases u with
      | nil => simp [atMost] at h'
      | cons f u =>
        by_cases hcd : c = d
        · subst hcd
          rw [atMost, if_pos rfl] at h
          by_cases hcf : c = f
          · subst hcf
            rw [atMost, if_pos rfl] at h' ⊢
            exact ih h h'
          · rw [atMost, if_neg hcf] at h' ⊢
            exact h'
        · rw [atMost, if_neg hcd, decide_eq_true_eq] at h
          by_cases hdf : d = f
          · subst hdf
            rw [atMost, if_neg hcd, decide_eq_true_eq]
            exact h
          · rw [atMost, if_neg hdf, decide_eq_true_eq] at h'
            have hcf : c ≠ f := fun heq => by
              rw [heq] at h
              omega
            rw [atMost, if_neg hcf, decide_eq_true_eq]
            omega

/-- Does the first text stand before the second one? -/
def before (s t : Text) : Bool :=
  !atMost t s

theorem ne_of_before {s t : Text} (h : before s t = true) : s ≠ t := by
  rintro rfl
  simp [before] at h

theorem before_of_atMost {s t : Text} (h : atMost s t = true) (hne : s ≠ t) : before s t = true := by
  rw [before, Bool.not_eq_true', ← Bool.not_eq_true]
  exact fun h' => hne (atMost_antisymm h h')

theorem before_of_atMost_of_before {s t u : Text} (h : atMost s t = true) (h' : before t u = true) :
    before s u = true := by
  rw [before, Bool.not_eq_true', ← Bool.not_eq_true] at h' ⊢
  exact fun hus => h' (atMost_trans hus h)

end TagBox.Text
