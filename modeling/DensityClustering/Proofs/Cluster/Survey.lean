import Mathlib.Data.List.Count
import DensityClustering.Neighbor.ItemId

/-!
What the ids of a run count for, given the contacts made so far.
-/

namespace DensityClustering

/-- The contacts with one more, of `a` with `b`. -/
def meet (R : ItemId → ItemId → Bool) (a b : ItemId) (p q : ItemId) : Bool :=
  R p q || decide (p = a ∧ q = b)

/-- The stored ids, what each counts for by itself, and the size from which clusters merge. -/
structure Survey where
  ids : List ItemId
  distinct : ids.Nodup
  weight : ItemId → Nat
  threshold : Nat
  positive : 0 < threshold

namespace Survey

variable (v : Survey) (R : ItemId → ItemId → Bool) {a b p q : ItemId}

/-- The number of stored ids in contact with an id. -/
def degree (p : ItemId) : Nat := v.ids.countP (R p)

/-- What an id counts for together with its contacts. -/
def mass (p : ItemId) : Nat := v.weight p + v.degree R p

theorem meet_eq_true : meet R a b p q = true ↔ R p q = true ∨ (p = a ∧ q = b) := by
  rw [meet, Bool.or_eq_true, decide_eq_true_eq]

theorem meet_of_contact (h : R p q = true) : meet R a b p q = true :=
  (meet_eq_true R).mpr (Or.inl h)

theorem meet_self : meet R a b a b = true := (meet_eq_true R).mpr (Or.inr ⟨rfl, rfl⟩)

theorem mass_le_mass_meet : v.mass R p ≤ v.mass (meet R a b) p := by
  have h : v.degree R p ≤ v.degree (meet R a b) p :=
    List.countP_mono_left fun q _ hq => meet_of_contact R hq
  unfold mass
  omega

theorem mass_meet_of_ne (h : p ≠ a) : v.mass (meet R a b) p = v.mass R p := by
  have he : meet R a b p = R p := by
    funext q
    simp [meet, h]
  rw [mass, mass, degree, degree, he]

theorem countP_or_eq (f : ItemId → Bool) (hf : f b = false) (ids : List ItemId) :
    ids.countP (fun q => f q || decide (q = b)) = ids.countP f + ids.count b := by
  induction ids with
  | nil => rfl
  | cons q ids ih =>
    rw [List.countP_cons, List.countP_cons, List.count_cons, ih]
    by_cases hq : q = b
    · subst hq
      simp [hf]
      omega
    · simp [hq]
      omega

/-- A new contact with a stored id adds one. -/
theorem mass_meet_self (hnew : R a b = false) (hb : b ∈ v.ids) :
    v.mass (meet R a b) a = v.mass R a + 1 := by
  have he : meet R a b a = fun q => R a q || decide (q = b) := by
    funext q
    simp [meet]
  have hone : v.ids.count b = 1 := by
    rw [v.distinct.count, if_pos hb]
  have h := countP_or_eq (R a) hnew v.ids
  rw [mass, mass, degree, degree, he]
  omega

theorem mass_of_no_contact (h : ∀ t, R p t = false) : v.mass R p = v.weight p := by
  have hzero : v.degree R p = 0 := by
    rw [degree, List.countP_eq_zero]
    intro t _
    rw [h t]
    exact Bool.false_ne_true
  rw [mass, hzero, Nat.add_zero]

end Survey

end DensityClustering
