import Mathlib
import DensityClustering.Geometry.Basic
import DensityClustering.Scalar.Instances

/-!
Differences of doubles. Rounding does not look at the sign, so that the difference of two doubles has
the same size from either side; whether two points are the same up to the tolerance does not depend on
which of them comes first.
-/

namespace DensityClustering

namespace Difference

open Float.Model (UnpackedFloat Format)
open Float.Model.UnpackedFloat

/-- The sign of a packed number is a bit of its own. -/
theorem abs_unpack_components (s s' : Sign) (w : BitVec 11) (v : BitVec 52) :
    (UnpackedFloat.unpack Format.binary64 (packComponents Format.binary64 s w v)).abs =
      (UnpackedFloat.unpack Format.binary64 (packComponents Format.binary64 s' w v)).abs := by
  unfold UnpackedFloat.unpack
  simp only [unpackMantissa_packComponents, unpackExponent_packComponents]
  by_cases hfull : w = -1#11
  · by_cases hzero : v = 0#52
    · simp only [if_pos hfull, if_pos hzero, UnpackedFloat.abs]
    · simp only [if_pos hfull, if_neg hzero]
  · by_cases hlow : w = 0#11
    · by_cases hzero : v = 0#52
      · simp only [if_neg hfull, if_pos hlow, dif_pos hzero, UnpackedFloat.abs]
      · simp only [if_neg hfull, if_pos hlow, dif_neg hzero, UnpackedFloat.abs]
    · simp only [if_neg hfull, if_neg hlow, UnpackedFloat.abs]

/-- Which form a number is packed in depends on its mantissa and exponent alone. -/
theorem exists_pack_finite (m : ℕ) (e : ℤ) (hm : 0 < m) : ∃ w v, ∀ s : Sign,
    UnpackedFloat.pack Format.binary64 (.finite s m e hm) =
      packComponents Format.binary64 s w v := by
  unfold UnpackedFloat.pack
  dsimp only
  split
  · exact ⟨_, _, fun s => rfl⟩
  · split
    · exact ⟨_, _, fun s => rfl⟩
    · exact ⟨_, _, fun s => rfl⟩

theorem abs_unpack_pack (x : UnpackedFloat) :
    (Float.Model.pack x).unpack.abs = (Float.Model.pack x.abs).unpack.abs := by
  cases x with
  | notANumber => rfl
  | infinity s => exact abs_unpack_components s .positive _ _
  | zero s => exact abs_unpack_components s .positive _ _
  | finite s m e hm =>
    obtain ⟨w, v, hpack⟩ := exists_pack_finite m e hm
    show (UnpackedFloat.unpack Format.binary64 (UnpackedFloat.pack Format.binary64 _)).abs =
      (UnpackedFloat.unpack Format.binary64 (UnpackedFloat.pack Format.binary64 _)).abs
    rw [UnpackedFloat.abs, hpack, hpack]
    exact abs_unpack_components s .positive w v

theorem abs_round (spec : Format) (s s' : Sign) (m : ℕ) (e : ℤ) :
    (UnpackedFloat.round spec s m e).abs = (UnpackedFloat.round spec s' m e).abs := by
  unfold UnpackedFloat.round roundWithAccuracy
  dsimp only
  split <;> rfl

theorem abs_normalize_neg (spec : Format) (m e : ℤ) (z : Sign) :
    (UnpackedFloat.normalize spec (-m) e z).abs = (UnpackedFloat.normalize spec m e z).abs := by
  unfold UnpackedFloat.normalize
  rcases lt_trichotomy m 0 with h | h | h
  · rw [compare_gt_iff_gt.mpr (Int.neg_pos_of_neg h), compare_lt_iff_lt.mpr h]
    exact abs_round ..
  · subst h
    rfl
  · rw [compare_lt_iff_lt.mpr (Int.neg_neg_of_pos h), compare_gt_iff_gt.mpr h]
    dsimp only
    rw [Int.neg_neg]
    exact abs_round ..

theorem abs_sub_comm (spec : Format) (x y : UnpackedFloat) :
    (UnpackedFloat.sub spec x y).abs = (UnpackedFloat.sub spec y x).abs := by
  cases x with
  | notANumber => cases y <;> rfl
  | infinity s =>
    cases y with
    | infinity s' => cases s <;> cases s' <;> rfl
    | _ => rfl
  | zero s =>
    cases y with
    | zero s' => cases s <;> cases s' <;> rfl
    | _ => rfl
  | finite s m e hm =>
    cases y with
    | finite s' m' e' hm' =>
      unfold UnpackedFloat.sub
      dsimp only
      rw [min_comm e' e, ← Int.neg_sub]
      exact abs_normalize_neg ..
    | _ => rfl

theorem size_sub_comm (x y : Float) : (x - y).abs = (y - x).abs := by
  show Float.ofModel (.pack (Float.Model.pack _).unpack.abs) =
    Float.ofModel (.pack (Float.Model.pack _).unpack.abs)
  rw [abs_unpack_pack, abs_sub_comm, ← abs_unpack_pack]

end Difference

/-- Two points are the same up to the tolerance from either side. -/
theorem Coord.near_comm (a b : Coord Float) : a.near b = b.near a := by
  show (decide ((a.x - b.x).abs ≤ Scalar.tolerance) && decide ((a.y - b.y).abs ≤ Scalar.tolerance)) =
    (decide ((b.x - a.x).abs ≤ Scalar.tolerance) && decide ((b.y - a.y).abs ≤ Scalar.tolerance))
  rw [Difference.size_sub_comm a.x, Difference.size_sub_comm a.y]

end DensityClustering
