import Mathlib.Data.Prod.Lex
import Mathlib.Order.Compare

/-!
Comparisons of doubles. Every double that is a number has a rank in a linear order, and `<` and `≤`
compare ranks; with one that is no number both are false.
-/

namespace DensityClustering

namespace Comparison

open Float.Model (UnpackedFloat)

/-- The sign, with the infinities outermost, then the exponent and the mantissa as the sign
directs. -/
def rankOf : UnpackedFloat → ℤ ×ₗ ℤ ×ₗ ℤ
  | .infinity .negative => toLex (-2, toLex (0, 0))
  | .finite .negative m e _ => toLex (-1, toLex (-e, -m))
  | .zero _ => toLex (0, toLex (0, 0))
  | .finite .positive m e _ => toLex (1, toLex (e, m))
  | .infinity .positive => toLex (2, toLex (0, 0))
  | .notANumber => toLex (0, toLex (0, 0))

def rank (a : Float) : ℤ ×ₗ ℤ ×ₗ ℤ := rankOf a.toModel.unpack

theorem compare_toLex (s s' e e' m m' : ℤ) :
    compare (toLex (s, toLex (e, m))) (toLex (s', toLex (e', m'))) =
      (compare s s').then ((compare e e').then (compare m m')) := by
  rw [Prod.Lex.compare_def]
  show (compare s s').then (compare (toLex (e, m)) (toLex (e', m'))) = _
  rw [Prod.Lex.compare_def]
  rfl

theorem compare_neg (a b : ℤ) : compare (-a) (-b) = (compare a b).swap := by
  rcases lt_trichotomy a b with h | h | h
  · rw [compare_lt_iff_lt.mpr h, compare_gt_iff_gt.mpr (Int.neg_lt_neg h)]
    rfl
  · rw [compare_eq_iff_eq.mpr h, compare_eq_iff_eq.mpr (congrArg _ h)]
    rfl
  · rw [compare_gt_iff_gt.mpr h, compare_lt_iff_lt.mpr (Int.neg_lt_neg h)]
    rfl

theorem compare_cast (a b : ℕ) : compare (a : ℤ) (b : ℤ) = compare a b := by
  rcases lt_trichotomy a b with h | h | h
  · rw [compare_lt_iff_lt.mpr h, compare_lt_iff_lt.mpr (Int.ofNat_lt.mpr h)]
  · rw [compare_eq_iff_eq.mpr h, compare_eq_iff_eq.mpr (congrArg _ h)]
  · rw [compare_gt_iff_gt.mpr h, compare_gt_iff_gt.mpr (Int.ofNat_lt.mpr h)]

theorem compare_of_lt {s s' : ℤ} (h : s < s') (p p' : ℤ ×ₗ ℤ) :
    compare (toLex (s, p)) (toLex (s', p')) = .lt :=
  compare_lt_iff_lt.mpr (Prod.Lex.toLex_lt_toLex.mpr (Or.inl h))

theorem compare_of_gt {s s' : ℤ} (h : s' < s) (p p' : ℤ ×ₗ ℤ) :
    compare (toLex (s, p)) (toLex (s', p')) = .gt :=
  compare_gt_iff_gt.mpr (Prod.Lex.toLex_lt_toLex.mpr (Or.inl h))

/-- Numbers compare as their ranks do. -/
theorem compare_eq {a b : UnpackedFloat} (ha : a.isNaN = false) (hb : b.isNaN = false) :
    a.compare b = some (compare (rankOf a) (rankOf b)) := by
  cases a with
  | notANumber => cases ha
  | infinity s =>
    cases b with
    | notANumber => cases hb
    | infinity s' => cases s <;> cases s' <;> rfl
    | zero s' => cases s <;> rfl
    | finite s' m' e' hm' =>
      cases s with
      | negative => cases s' <;> exact congrArg some (compare_of_lt (by decide) _ _).symm
      | positive => cases s' <;> exact congrArg some (compare_of_gt (by decide) _ _).symm
  | zero s =>
    cases b with
    | notANumber => cases hb
    | infinity s' => cases s' <;> rfl
    | zero s' => rfl
    | finite s' m' e' hm' =>
      cases s' with
      | negative => exact congrArg some (compare_of_gt (by decide) _ _).symm
      | positive => exact congrArg some (compare_of_lt (by decide) _ _).symm
  | finite s m e hm =>
    cases b with
    | notANumber => cases hb
    | infinity s' =>
      cases s' with
      | negative => cases s <;> exact congrArg some (compare_of_gt (by decide) _ _).symm
      | positive => cases s <;> exact congrArg some (compare_of_lt (by decide) _ _).symm
    | zero s' =>
      cases s with
      | negative => exact congrArg some (compare_of_lt (by decide) _ _).symm
      | positive => exact congrArg some (compare_of_gt (by decide) _ _).symm
    | finite s' m' e' hm' =>
      cases s with
      | negative =>
        cases s' with
        | negative =>
          -- Among negative numbers the larger exponent or mantissa is the smaller number.
          show some ((compare e e').then (compare m m')).swap =
            some (compare (toLex (-1, toLex (-e, -(m : ℤ)))) (toLex (-1, toLex (-e', -(m' : ℤ)))))
          rw [compare_toLex, compare_neg e, compare_neg m, compare_cast, Ordering.swap_then]
          rfl
        | positive => exact congrArg some (compare_of_lt (by decide) _ _).symm
      | positive =>
        cases s' with
        | negative => exact congrArg some (compare_of_gt (by decide) _ _).symm
        | positive =>
          show some ((compare e e').then (compare m m')) =
            some (compare (toLex (1, toLex (e, (m : ℤ)))) (toLex (1, toLex (e', (m' : ℤ)))))
          rw [compare_toLex, compare_cast]
          rfl

theorem compare_eq_none {a b : UnpackedFloat} (h : a.isNaN = true ∨ b.isNaN = true) :
    a.compare b = none := by
  rcases h with h | h
  · cases a with
    | notANumber => rfl
    | _ => cases h
  · cases b with
    | notANumber => cases a <;> rfl
    | _ => cases h

/-- Two doubles compare when both are numbers, and then as their ranks do. -/
theorem compare_toModel (a b : Float) : a.toModel.unpack.compare b.toModel.unpack =
    if a.isNaN = false ∧ b.isNaN = false then some (compare (rank a) (rank b)) else none := by
  split
  · next h => exact compare_eq h.1 h.2
  · next h =>
    apply compare_eq_none
    rwa [not_and_or, Bool.not_eq_false, Bool.not_eq_false] at h

variable {a b c : Float}

theorem lt_iff : a < b ↔ a.isNaN = false ∧ b.isNaN = false ∧ rank a < rank b := by
  have hcompare : a < b ↔ a.toModel.unpack.compare b.toModel.unpack = some .lt := by
    show decide (a.toModel < b.toModel) = true ↔ _
    rw [decide_eq_true_iff]
    exact beq_iff_eq
  rw [hcompare, compare_toModel, ← and_assoc]
  split
  · next h => simp only [h, and_self, true_and, Option.some.injEq, compare_lt_iff_lt]
  · next h => simp only [h, false_and, reduceCtorEq]

theorem le_iff : a ≤ b ↔ a.isNaN = false ∧ b.isNaN = false ∧ rank a ≤ rank b := by
  have hcompare : a ≤ b ↔
      (a.toModel.unpack.compare b.toModel.unpack).any Ordering.isLE = true := by
    show decide (a.toModel ≤ b.toModel) = true ↔ _
    rw [decide_eq_true_iff]
    exact Iff.rfl
  rw [hcompare, compare_toModel, ← and_assoc]
  split
  · next h =>
    simp only [h, and_self, true_and, Option.any_some]
    rw [← compare_le_iff_le]
    exact Ordering.isLE_iff_ne_gt
  · next h => simp only [h, false_and, Option.any_none, reduceCtorEq]

theorem le_refl (h : a.isNaN = false) : a ≤ a := le_iff.mpr ⟨h, h, le_rfl⟩

theorem not_le_of_lt (h : a < b) : ¬b ≤ a := fun hle =>
  not_le.mpr (lt_iff.mp h).2.2 (le_iff.mp hle).2.2

theorem le_of_lt (h : a < b) : a ≤ b :=
  le_iff.mpr ((lt_iff.mp h).imp id (And.imp id fun hrank => hrank.le))

theorem le_trans (h : a ≤ b) (h' : b ≤ c) : a ≤ c :=
  le_iff.mpr ⟨(le_iff.mp h).1, (le_iff.mp h').2.1, (le_iff.mp h).2.2.trans (le_iff.mp h').2.2⟩

theorem lt_trans (h : a < b) (h' : b < c) : a < c :=
  lt_iff.mpr ⟨(lt_iff.mp h).1, (lt_iff.mp h').2.1, (lt_iff.mp h).2.2.trans (lt_iff.mp h').2.2⟩

/-- Numbers that are not less are at least as large. -/
theorem le_of_not_lt (ha : a.isNaN = false) (hb : b.isNaN = false) (h : ¬a < b) : b ≤ a :=
  le_iff.mpr ⟨hb, ha, not_lt.mp fun hrank => h (lt_iff.mpr ⟨ha, hb, hrank⟩)⟩

theorem isNaN_of_isFinite (h : a.isFinite = true) : a.isNaN = false := by
  change a.toModel.unpack.isFinite = true at h
  change a.toModel.unpack.isNaN = false
  cases ha : a.toModel.unpack with
  | notANumber => rw [ha] at h; cases h
  | _ => rfl

end Comparison

end DensityClustering
