import Mathlib.Tactic.FieldSimp
import Mathlib.Tactic.Positivity
import DensityClustering.Geometry.Nearest
import DensityClustering.Proofs.Geometry.Boundary
import DensityClustering.Proofs.Geometry.ConvexRing

/-!
The points of a segment in exact arithmetic: the convex combinations of its ends. Among them are the
points that the segment contains by the sides of its ends, the point that is taken for the closest
one to a given point, and the crossing with another segment, unless the two are nearly parallel.
-/

namespace DensityClustering

open Hull (cross_eq)

/-- The square of the distance of two points. -/
def Coord.squaredDistance (p q : Coord Rat) : Rat :=
  (p.x - q.x) * (p.x - q.x) + (p.y - q.y) * (p.y - q.y)

theorem Scalar.abs_eq (x : Rat) : Scalar.abs x = |x| := by
  show (if x < 0 then -x else x) = |x|
  split
  · next h => rw [abs_of_neg h]
  · next h => rw [abs_of_nonneg (not_lt.mp h)]

theorem Scalar.tolerance_pos : (0 : Rat) < Scalar.tolerance := by decide

theorem Pair.squaredDistance_eq (m : Pair Rat) :
    m.squaredDistance = m.first.squaredDistance m.second := rfl

namespace Coord

theorem squaredDistance_comm (p q : Coord Rat) : p.squaredDistance q = q.squaredDistance p := by
  rw [squaredDistance, squaredDistance]
  ring

theorem squaredDistance_self (p : Coord Rat) : p.squaredDistance p = 0 := by
  rw [squaredDistance, sub_self, sub_self, mul_zero, add_zero]

theorem squaredDistance_nonneg (p q : Coord Rat) : 0 ≤ p.squaredDistance q :=
  add_nonneg (mul_self_nonneg _) (mul_self_nonneg _)

theorem eq_of_squaredDistance {p q : Coord Rat} (h : p.squaredDistance q = 0) : p = q := by
  obtain ⟨hx, hy⟩ :=
    (add_eq_zero_iff_of_nonneg (mul_self_nonneg (p.x - q.x)) (mul_self_nonneg (p.y - q.y))).mp h
  exact congrArg₂ mk (sub_eq_zero.mp (mul_self_eq_zero.mp hx))
    (sub_eq_zero.mp (mul_self_eq_zero.mp hy))

/-- Two points whose difference is a fraction of another difference are not further apart. -/
theorem squaredDistance_le_of_scaled {p q p' q' : Coord Rat} {k : Rat} (hk : 0 ≤ k) (hk' : k ≤ 1)
    (hx : p'.x - q'.x = k * (p.x - q.x)) (hy : p'.y - q'.y = k * (p.y - q.y)) :
    p'.squaredDistance q' ≤ p.squaredDistance q := by
  have hscaled : p'.squaredDistance q' = k * k * p.squaredDistance q := by
    rw [squaredDistance, squaredDistance, hx, hy]
    ring
  have hsquare : k * k ≤ 1 := mul_le_one₀ hk' hk hk'
  rw [hscaled]
  exact mul_le_of_le_one_left (squaredDistance_nonneg p q) hsquare

end Coord

namespace Segment

variable {s p q : Segment Rat} {c x y : Coord Rat} {t u : Rat}

/-- A part of a whole. -/
def IsPart (t : Rat) : Prop := 0 ≤ t ∧ t ≤ 1

instance (t : Rat) : Decidable (IsPart t) := inferInstanceAs (Decidable (_ ∧ _))

theorem isPart_zero : IsPart 0 := ⟨le_rfl, zero_le_one⟩

theorem isPart_one : IsPart 1 := ⟨zero_le_one, le_rfl⟩

theorem IsPart.rest (h : IsPart t) : IsPart (1 - t) := ⟨sub_nonneg.mpr h.2, sub_le_self 1 h.1⟩

/-- What lies between two parts is a part. -/
theorem IsPart.between {v : Rat} (ht : IsPart t) (hu : IsPart u) (hv : IsPart v) :
    IsPart (t + v * (u - t)) := by
  have hmix : t + v * (u - t) = (1 - v) * t + v * u := by ring
  have hlow : 0 ≤ (1 - v) * t + v * u :=
    add_nonneg (mul_nonneg (sub_nonneg.mpr hv.2) ht.1) (mul_nonneg hv.1 hu.1)
  have hhigh : (1 - v) * t + v * u ≤ (1 - v) * 1 + v * 1 :=
    add_le_add (mul_le_mul_of_nonneg_left ht.2 (sub_nonneg.mpr hv.2))
      (mul_le_mul_of_nonneg_left hu.2 hv.1)
  rw [hmix]
  constructor <;> linarith

/-- The point at the part `t` of the way along the segment. -/
def pointAt (s : Segment Rat) (t : Rat) : Coord Rat := s.start + (s.finish - s.start).scale t

theorem pointAt_x (s : Segment Rat) (t : Rat) :
    (s.pointAt t).x = s.start.x + (s.finish.x - s.start.x) * t := rfl

theorem pointAt_y (s : Segment Rat) (t : Rat) :
    (s.pointAt t).y = s.start.y + (s.finish.y - s.start.y) * t := rfl

theorem pointAt_eq_iff :
    s.pointAt t = c ↔ s.start.x + (s.finish.x - s.start.x) * t = c.x ∧
      s.start.y + (s.finish.y - s.start.y) * t = c.y := Iff.of_eq (Coord.mk.injEq ..)

theorem pointAt_zero (s : Segment Rat) : s.pointAt 0 = s.start := by
  rw [pointAt_eq_iff, mul_zero, mul_zero, add_zero, add_zero]
  exact ⟨rfl, rfl⟩

theorem pointAt_one (s : Segment Rat) : s.pointAt 1 = s.finish := by
  rw [pointAt_eq_iff, mul_one, mul_one, add_sub_cancel, add_sub_cancel]
  exact ⟨rfl, rfl⟩

/-- The point lies on the segment. -/
def Holds (s : Segment Rat) (c : Coord Rat) : Prop := ∃ t, IsPart t ∧ s.pointAt t = c

/-- The segments share a point. -/
def Meets (p q : Segment Rat) : Prop := ∃ c, p.Holds c ∧ q.Holds c

theorem holds_pointAt (s : Segment Rat) (ht : IsPart t) : s.Holds (s.pointAt t) := ⟨t, ht, rfl⟩

theorem holds_start (s : Segment Rat) : s.Holds s.start := ⟨0, isPart_zero, s.pointAt_zero⟩

theorem holds_finish (s : Segment Rat) : s.Holds s.finish := ⟨1, isPart_one, s.pointAt_one⟩

theorem HasEnd.holds (h : s.HasEnd c) : s.Holds c := by
  rcases h with rfl | rfl
  · exact s.holds_start
  · exact s.holds_finish

theorem Meets.symm (h : p.Meets q) : q.Meets p :=
  h.imp fun _ => And.symm

/-- The determinant of the directions of two segments, zero where they are parallel. -/
def det (p q : Segment Rat) : Rat :=
  (p.finish.x - p.start.x) * (q.finish.y - q.start.y) -
    (p.finish.y - p.start.y) * (q.finish.x - q.start.x)

theorem det_swap (p q : Segment Rat) : q.det p = -p.det q := by
  rw [det, det]
  ring

/-- A value between two bounds is a part of the way from one to the other. -/
theorem isBetween_iff_exists {v a b : Rat} :
    isBetween v a b = true ↔ ∃ t, IsPart t ∧ a + (b - a) * t = v := by
  rw [Hull.isBetween_iff]
  constructor
  · rintro ⟨hlow, hhigh⟩
    rcases lt_trichotomy a b with h | rfl | h
    · rw [min_eq_left h.le] at hlow
      rw [max_eq_right h.le] at hhigh
      have hpos : 0 < b - a := sub_pos.mpr h
      refine ⟨(v - a) / (b - a), ⟨div_nonneg (sub_nonneg.mpr hlow) hpos.le, ?_⟩, ?_⟩
      · rw [div_le_one hpos]
        exact sub_le_sub_right hhigh a
      · rw [mul_div_cancel₀ _ hpos.ne', add_sub_cancel]
    · rw [min_self] at hlow
      rw [max_self] at hhigh
      refine ⟨0, isPart_zero, ?_⟩
      rw [mul_zero, add_zero]
      exact le_antisymm hlow hhigh
    · rw [min_eq_right h.le] at hlow
      rw [max_eq_left h.le] at hhigh
      have hneg : b - a < 0 := sub_neg.mpr h
      refine ⟨(v - a) / (b - a), ⟨div_nonneg_of_nonpos (sub_nonpos.mpr hhigh) hneg.le, ?_⟩, ?_⟩
      · rw [div_le_one_of_neg hneg]
        exact sub_le_sub_right hlow a
      · rw [mul_div_cancel₀ _ hneg.ne, add_sub_cancel]
  · rintro ⟨t, ⟨ht, ht'⟩, rfl⟩
    rcases le_total a b with h | h
    · have hlow : 0 ≤ (b - a) * t := mul_nonneg (sub_nonneg.mpr h) ht
      have hhigh : (b - a) * t ≤ b - a := mul_le_of_le_one_right (sub_nonneg.mpr h) ht'
      rw [min_eq_left h, max_eq_right h]
      constructor <;> linarith
    · have hhigh : (b - a) * t ≤ 0 := mul_nonpos_of_nonpos_of_nonneg (sub_nonpos.mpr h) ht
      have hlow : (a - b) * t ≤ a - b := mul_le_of_le_one_right (sub_nonneg.mpr h) ht'
      rw [min_eq_right h, max_eq_left h]
      constructor <;> linarith

/-- A segment holds the points that it contains by the sides and the ranges of its coordinates. -/
theorem contains_iff : s.contains c = true ↔ s.Holds c := by
  rw [contains, Bool.and_eq_true, Bool.and_eq_true, beq_iff_eq, Hull.turn_eq_straight, cross_eq]
  constructor
  · rintro ⟨⟨hx, hy⟩, hline⟩
    obtain ⟨t, ht, htx⟩ := isBetween_iff_exists.mp hx
    obtain ⟨u, hu, huy⟩ := isBetween_iff_exists.mp hy
    -- A coordinate in which the ends differ tells the part of the way.
    rcases eq_or_ne s.start.x s.finish.x with hsame | hne
    · refine ⟨u, hu, pointAt_eq_iff.mpr ⟨?_, huy⟩⟩
      rw [hsame, sub_self, zero_mul, add_zero] at htx ⊢
      exact htx
    · refine ⟨t, ht, pointAt_eq_iff.mpr ⟨htx, ?_⟩⟩
      have hcancel : (s.finish.x - s.start.x) *
          (s.start.y + (s.finish.y - s.start.y) * t - c.y) = 0 := by
        rw [← htx] at hline
        linear_combination -hline
      exact sub_eq_zero.mp ((mul_eq_zero.mp hcancel).resolve_left (sub_ne_zero.mpr hne.symm))
  · rintro ⟨t, ht, rfl⟩
    refine ⟨⟨isBetween_iff_exists.mpr ⟨t, ht, rfl⟩, isBetween_iff_exists.mpr ⟨t, ht, rfl⟩⟩, ?_⟩
    rw [pointAt_x, pointAt_y]
    ring

/-- What a segment holds is within its box. -/
theorem Holds.within (h : s.Holds c) :
    (min s.start.x s.finish.x ≤ c.x ∧ c.x ≤ max s.start.x s.finish.x) ∧
      min s.start.y s.finish.y ≤ c.y ∧ c.y ≤ max s.start.y s.finish.y := by
  obtain ⟨t, ht, rfl⟩ := h
  exact ⟨Hull.isBetween_iff.mp (isBetween_iff_exists.mpr ⟨t, ht, rfl⟩),
    Hull.isBetween_iff.mp (isBetween_iff_exists.mpr ⟨t, ht, rfl⟩)⟩

instance (s : Segment Rat) (c : Coord Rat) : Decidable (s.Holds c) :=
  decidable_of_iff (s.contains c = true) contains_iff

/-- The way between two points of a segment belongs to the segment. -/
theorem Holds.subsegment (hx : s.Holds x) (hy : s.Holds y) (hc : Holds ⟨x, y⟩ c) : s.Holds c := by
  obtain ⟨t, ht, rfl⟩ := hx
  obtain ⟨u, hu, rfl⟩ := hy
  obtain ⟨v, hv, rfl⟩ := hc
  refine ⟨t + v * (u - t), ht.between hu hv, pointAt_eq_iff.mpr ⟨?_, ?_⟩⟩
  · simp only [pointAt_x]
    ring
  · simp only [pointAt_y]
    ring

/-- Backwards a segment holds the same points. -/
theorem Holds.backwards (hc : s.Holds c) : Holds ⟨s.finish, s.start⟩ c := by
  obtain ⟨t, ht, rfl⟩ := hc
  refine ⟨1 - t, ht.rest, pointAt_eq_iff.mpr ⟨?_, ?_⟩⟩
  · rw [pointAt_x]
    ring
  · rw [pointAt_y]
    ring

section Closest

/-- How far `c` lies in the direction of the segment, times the length of the segment. -/
def advance (s : Segment Rat) (c : Coord Rat) : Rat :=
  (c.x - s.start.x) * (s.finish.x - s.start.x) + (c.y - s.start.y) * (s.finish.y - s.start.y)

/-- How the distance to the points of a segment changes from one to another. -/
theorem squaredDistance_sub (s : Segment Rat) (c : Coord Rat) (t u : Rat) :
    c.squaredDistance (s.pointAt t) - c.squaredDistance (s.pointAt u) =
      (t - u) * ((t + u) * s.finish.squaredDistance s.start - 2 * s.advance c) := by
  simp only [Coord.squaredDistance, advance, pointAt_x, pointAt_y]
  ring

/-- The number between zero and one that is closest to `t`. -/
def clamp (t : Rat) : Rat := if t < 0 then 0 else if 1 < t then 1 else t

theorem clamp_cases (t : Rat) :
    t < 0 ∧ clamp t = 0 ∨ 1 < t ∧ clamp t = 1 ∨ 0 ≤ t ∧ t ≤ 1 ∧ clamp t = t := by
  rw [clamp]
  split
  · next h => exact Or.inl ⟨h, rfl⟩
  · next h =>
    split
    · next h' => exact Or.inr (Or.inl ⟨h', rfl⟩)
    · next h' => exact Or.inr (Or.inr ⟨not_lt.mp h, not_lt.mp h', rfl⟩)

theorem isPart_clamp (t : Rat) : IsPart (clamp t) := by
  rcases clamp_cases t with ⟨-, h⟩ | ⟨-, h⟩ | ⟨hlow, hhigh, h⟩
  · rw [h]
    exact isPart_zero
  · rw [h]
    exact isPart_one
  · rw [h]
    exact ⟨hlow, hhigh⟩

/-- Between zero and one, away from the clamped number is away from the number. -/
theorem clamp_closest (t : Rat) (hu : IsPart u) :
    0 ≤ (u - clamp t) * (u + clamp t - 2 * t) := by
  obtain ⟨hu, hu'⟩ := hu
  rcases clamp_cases t with ⟨hlow, h⟩ | ⟨hhigh, h⟩ | ⟨-, -, h⟩
  · rw [h]
    apply mul_nonneg
    · linarith
    · linarith
  · rw [h]
    apply mul_nonneg_of_nonpos_of_nonpos
    · linarith
    · linarith
  · rw [h]
    have hsquare : (u - t) * (u + t - 2 * t) = (u - t) * (u - t) := by ring
    rw [hsquare]
    exact mul_self_nonneg (u - t)

theorem closestTo_eq (s : Segment Rat) (c : Coord Rat) : s.closestTo c =
    if s.finish.squaredDistance s.start ≤ 0 then s.start
    else s.pointAt (clamp (s.advance c / s.finish.squaredDistance s.start)) := rfl

theorem holds_closestTo (s : Segment Rat) (c : Coord Rat) : s.Holds (s.closestTo c) := by
  rw [closestTo_eq]
  split
  · exact s.holds_start
  · exact s.holds_pointAt (isPart_clamp _)

/-- A segment holds no point that is closer to `c`. -/
theorem closestTo_le (c : Coord Rat) (hx : s.Holds x) :
    c.squaredDistance (s.closestTo c) ≤ c.squaredDistance x := by
  obtain ⟨u, hu, rfl⟩ := hx
  rw [closestTo_eq]
  split
  · next hshort =>
    -- The segment is a single point.
    have hends : s.finish = s.start :=
      Coord.eq_of_squaredDistance (le_antisymm hshort (Coord.squaredDistance_nonneg _ _))
    have hpoint : s.pointAt u = s.start := by
      rw [pointAt_eq_iff, hends, sub_self, sub_self, zero_mul, add_zero, add_zero]
      exact ⟨rfl, rfl⟩
    rw [hpoint]
  · next hlong =>
    have hpos : 0 < s.finish.squaredDistance s.start := not_le.mp hlong
    have hchange := squaredDistance_sub s c u (clamp (s.advance c / s.finish.squaredDistance s.start))
    have hclosest := clamp_closest (s.advance c / s.finish.squaredDistance s.start) hu
    have hfactor : ∀ t, (u + t) * s.finish.squaredDistance s.start - 2 * s.advance c =
        (u + t - 2 * (s.advance c / s.finish.squaredDistance s.start)) *
          s.finish.squaredDistance s.start := by
      intro t
      rw [sub_mul, mul_assoc, div_mul_cancel₀ _ hpos.ne']
    rw [hfactor, ← mul_assoc] at hchange
    exact sub_nonneg.mp (hchange ▸ mul_nonneg hclosest hpos.le)

end Closest

section Crossing

/-- How far along `p` its line meets the line of `q`. -/
def partAt (p q : Segment Rat) : Rat :=
  cross p.start q.start (q.start + (q.finish - q.start)) / p.det q

theorem partAt_eq (p q : Segment Rat) : p.partAt q =
    ((q.start.x - p.start.x) * (q.finish.y - q.start.y) -
      (q.start.y - p.start.y) * (q.finish.x - q.start.x)) / p.det q := by
  have hnumerator : cross p.start q.start (q.start + (q.finish - q.start)) =
      (q.start.x - p.start.x) * (q.finish.y - q.start.y) -
        (q.start.y - p.start.y) * (q.finish.x - q.start.x) := by
    show (q.start.x - p.start.x) * (q.start.y + (q.finish.y - q.start.y) - p.start.y) -
      (q.start.y - p.start.y) * (q.start.x + (q.finish.x - q.start.x) - p.start.x) = _
    ring
  rw [partAt, hnumerator]

/-- Lines that are not parallel meet at these parts. -/
theorem pointAt_partAt (hdet : p.det q ≠ 0) :
    p.pointAt (p.partAt q) = q.pointAt (q.partAt p) := by
  rw [partAt_eq, partAt_eq, det_swap p q, pointAt_eq_iff, pointAt_x, pointAt_y]
  constructor
  · field_simp
    rw [det]
    ring
  · field_simp
    rw [det]
    ring

/-- Lines that are not parallel meet nowhere else. -/
theorem partAt_of_pointAt_eq (hdet : p.det q ≠ 0) (h : p.pointAt t = q.pointAt u) :
    t = p.partAt q := by
  obtain ⟨hx, hy⟩ := pointAt_eq_iff.mp h
  rw [pointAt_x] at hx
  rw [pointAt_y] at hy
  rw [partAt_eq, eq_div_iff hdet, det]
  linear_combination (q.finish.y - q.start.y) * hx - (q.finish.x - q.start.x) * hy

theorem crossing_eq (p q : Segment Rat) : p.crossing q =
    if |p.det q| < Scalar.tolerance then none
    else if IsPart (p.partAt q) ∧ IsPart (q.partAt p) then some (p.pointAt (p.partAt q))
    else none := by
  -- The part along `q` is computed with both signs turned round.
  have hother : cross p.start q.start (q.start + (p.finish - p.start)) / p.det q = q.partAt p := by
    rw [partAt_eq, det_swap p q, div_neg, ← neg_div]
    congr 1
    show (q.start.x - p.start.x) * (q.start.y + (p.finish.y - p.start.y) - p.start.y) -
      (q.start.y - p.start.y) * (q.start.x + (p.finish.x - p.start.x) - p.start.x) = _
    ring
  have hcrossing : p.crossing q = if Scalar.abs (p.det q) < Scalar.tolerance then none
      else if (0 ≤ p.partAt q && p.partAt q ≤ 1 &&
          0 ≤ cross p.start q.start (q.start + (p.finish - p.start)) / p.det q &&
          cross p.start q.start (q.start + (p.finish - p.start)) / p.det q ≤ 1) = true then
        some (p.pointAt (p.partAt q))
      else none := rfl
  rw [hcrossing, hother, Scalar.abs_eq]
  simp only [IsPart, Bool.and_eq_true, decide_eq_true_eq, and_assoc]

/-- The crossing of two segments is their common point, unless they are nearly parallel. -/
theorem crossing_eq_some : p.crossing q = some c ↔
    Scalar.tolerance ≤ |p.det q| ∧ p.Holds c ∧ q.Holds c := by
  rw [crossing_eq]
  split
  · next hsmall => exact iff_of_false nofun fun h => absurd hsmall h.1.not_gt
  · next hlarge =>
    have hdet : p.det q ≠ 0 := by
      intro hzero
      apply hlarge
      rw [hzero, abs_zero]
      exact Scalar.tolerance_pos
    have hdet' : q.det p ≠ 0 := by
      rw [det_swap]
      exact neg_ne_zero.mpr hdet
    split
    · next hparts =>
      obtain ⟨hpart, hpart'⟩ := hparts
      rw [Option.some_inj]
      constructor
      · rintro rfl
        refine ⟨not_lt.mp hlarge, p.holds_pointAt hpart, ?_⟩
        rw [pointAt_partAt hdet]
        exact q.holds_pointAt hpart'
      · rintro ⟨-, ⟨t, -, rfl⟩, u, -, hu⟩
        rw [← partAt_of_pointAt_eq hdet hu.symm]
    · next hparts =>
      refine iff_of_false nofun ?_
      rintro ⟨-, ⟨t, ht, rfl⟩, u, hu, heq⟩
      apply hparts
      rw [← partAt_of_pointAt_eq hdet heq.symm, ← partAt_of_pointAt_eq hdet' heq]
      exact ⟨ht, hu⟩

theorem crossing_eq_none : p.crossing q = none ↔ Scalar.tolerance ≤ |p.det q| → ¬p.Meets q := by
  rw [Option.eq_none_iff_forall_ne_some]
  constructor
  · rintro hnone hlarge ⟨c, hp, hq⟩
    exact hnone c (crossing_eq_some.mpr ⟨hlarge, hp, hq⟩)
  · intro hapart c hc
    obtain ⟨hlarge, hp, hq⟩ := crossing_eq_some.mp hc
    exact hapart hlarge ⟨c, hp, hq⟩

end Crossing

end Segment

end DensityClustering
