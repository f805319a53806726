import Mathlib.Analysis.Real.Pi.Bounds
import Mathlib.Analysis.SpecialFunctions.Trigonometric.Bounds
import DensityClustering.Cluster.Distance
import DensityClustering.Proofs.Geometry.Separation

/-!
The closest pair seen from the other side. Which pair is returned may depend on the side, because
ties go to the pair that was tried first; how far apart its points are does not.
-/

namespace DensityClustering

namespace Segment

variable {p q : Segment Rat}

theorem abs_det_swap (p q : Segment Rat) : |q.det p| = |p.det q| := by
  rw [det_swap, abs_neg]

/-- Which of two segments comes first does not matter to whether they cross. -/
theorem crossing_eq_none_swap : q.crossing p = none ↔ p.crossing q = none := by
  rw [crossing_eq_none, crossing_eq_none, abs_det_swap]
  exact forall_congr' fun _ => not_congr ⟨Meets.symm, Meets.symm⟩

end Segment

namespace Pair

variable {S : Type}

def swap (m : Pair S) : Pair S := ⟨m.second, m.first⟩

theorem squaredDistance_swap (m : Pair Rat) : m.swap.squaredDistance = m.squaredDistance :=
  Coord.squaredDistance_comm m.second m.first

theorem squaredDistance_same (c : Coord Rat) : (⟨c, c⟩ : Pair Rat).squaredDistance = 0 :=
  Coord.squaredDistance_self c

end Pair

/-- The length of a vector is rounded from the sum of the squares. -/
theorem CoordDistance.measure_euclidean (a b : Coord Rat) :
    euclidean.measure a b =
      Scalar.toDouble (Binary64.value (Binary64.nearestRoot (a.squaredDistance b))) := rfl

namespace Geometry

variable (a b : Geometry Rat)

theorem sharedPoint_eq_none_swap : b.sharedPoint a = none ↔ a.sharedPoint b = none := by
  rw [sharedPoint_eq_none, sharedPoint_eq_none]
  constructor
  · rintro ⟨hba, hab, hcross⟩
    exact ⟨hab, hba, fun p hp q hq => Segment.crossing_eq_none_swap.mpr (hcross q hq p hp)⟩
  · rintro ⟨hab, hba, hcross⟩
    exact ⟨hba, hab, fun p hp q hq => Segment.crossing_eq_none_swap.mpr (hcross q hq p hp)⟩

variable {a b} in
theorem swap_mem_vertexPairs {m : Pair Rat} (h : m ∈ a.vertexPairs b) :
    m.swap ∈ b.vertexPairs a := by
  rw [mem_vertexPairs] at h ⊢
  rcases h with ⟨p, hp, s, hs, rfl⟩ | ⟨q, hq, s, hs, rfl⟩
  · exact Or.inr ⟨p, hp, s, hs, rfl⟩
  · exact Or.inl ⟨q, hq, s, hs, rfl⟩

theorem map_squaredDistance_nearestPair :
    (a.nearestPair b).map Pair.squaredDistance = (b.nearestPair a).map Pair.squaredDistance := by
  by_cases hnone : a.coords = [] ∨ b.coords = []
  · rw [(nearestPair_eq_none_iff a b).mpr hnone, (nearestPair_eq_none_iff b a).mpr hnone.symm]
  · obtain ⟨ha, hb⟩ := not_or.mp hnone
    have hswap := sharedPoint_eq_none_swap a b
    rcases nearestPair_cases ha hb with ⟨c, hc, hpair⟩ | ⟨hc, m, hmem, hpair, hleast⟩
    · rcases nearestPair_cases hb ha with ⟨c', -, hpair'⟩ | ⟨hc', -⟩
      · rw [hpair, hpair', Option.map_some, Option.map_some, Pair.squaredDistance_same,
          Pair.squaredDistance_same]
      · rw [hswap.mp hc'] at hc
        cases hc
    · rcases nearestPair_cases hb ha with ⟨c', hc', -⟩ | ⟨-, m', hmem', hpair', hleast'⟩
      · rw [hswap.mpr hc] at hc'
        cases hc'
      · -- Turned round, the best pair of either side is one that the other side tries.
        have hle := hleast _ (swap_mem_vertexPairs hmem')
        have hle' := hleast' _ (swap_mem_vertexPairs hmem)
        rw [Pair.squaredDistance_swap] at hle hle'
        rw [hpair, hpair', Option.map_some, Option.map_some, le_antisymm hle hle']

end Geometry

open Real

namespace CoordDistance

/-- The distance of two points in exact arithmetic, where the radius is the only number that comes
as a double. -/
noncomputable def exact (d : CoordDistance) (a b : Coord Rat) : ℝ :=
  match d with
  | euclidean => √(a.squaredDistance b : ℚ)
  | haversine radius =>
    let radians := fun degrees : ℚ => (degrees : ℝ) * (π / 180)
    let h := sin ((radians b.y - radians a.y) / 2) ^ 2 +
      cos (radians a.y) * cos (radians b.y) * sin (radians (b.x - a.x) / 2) ^ 2
    2 * (Binary64.value radius : ℝ) * arcsin (min (√h) 1)

/-- On one parallel the difference of the longitudes is scaled by the cosine of the latitude. -/
theorem exact_parallel (radius : Float) (x x' y : Rat) :
    (haversine radius).exact ⟨x, y⟩ ⟨x', y⟩ = 2 * (Binary64.value radius : ℝ) *
      arcsin (min |cos (y * (π / 180)) * sin ((x' - x : ℚ) * (π / 180) / 2)| 1) := by
  unfold exact
  dsimp only
  rw [sub_self, zero_div, sin_zero, zero_pow two_ne_zero, zero_add, ← sq, ← mul_pow,
    sqrt_sq_eq_abs]

theorem sin_half_degree_nonneg : 0 ≤ sin (π / 180 / 2) :=
  (sin_pos_of_pos_of_lt_pi (by positivity) (by linarith [pi_pos])).le

/-- One degree of the equator is its share of the whole circle. -/
theorem exact_equator_degree (radius : Float) :
    (haversine radius).exact ⟨0, 0⟩ ⟨1, 0⟩ = Binary64.value radius * (π / 180) := by
  have harc : arcsin (sin (π / 180 / 2)) = π / 180 / 2 :=
    arcsin_sin (by linarith [pi_pos]) (by linarith [pi_pos])
  rw [exact_parallel, Rat.cast_zero, zero_mul, cos_zero, one_mul, sub_zero, Rat.cast_one,
    one_mul, abs_of_nonneg sin_half_degree_nonneg, min_eq_left (sin_le_one _), harc]
  ring

/-- The sine lies above its chord up to the right angle. -/
theorem arcsin_le {u : ℝ} (hzero : 0 ≤ u) (hone : u ≤ 1) : arcsin u ≤ π / 2 * u := by
  have hchord : 2 / π * arcsin u ≤ sin (arcsin u) :=
    mul_le_sin (arcsin_nonneg.mpr hzero) (arcsin_le_pi_div_two u)
  rw [sin_arcsin (by linarith) hone] at hchord
  calc arcsin u = π / 2 * (2 / π * arcsin u) := by field_simp
    _ ≤ π / 2 * u := by gcongr

/-- Sixty degrees to the north a degree is at most `π / 4` times as long. -/
theorem exact_northern_degree_le (radius : Float) (h : 0 ≤ Binary64.value radius) :
    (haversine radius).exact ⟨1, 60⟩ ⟨0, 60⟩ ≤ Binary64.value radius * (π / 180) * (π / 4) := by
  have hcos : cos ((60 : ℚ) * (π / 180)) = 1 / 2 := by
    rw [← cos_pi_div_three]
    congr 1
    push_cast
    ring
  have hsin : |1 / 2 * sin ((0 - 1 : ℚ) * (π / 180) / 2)| = sin (π / 180 / 2) / 2 := by
    have hneg : ((0 - 1 : ℚ) : ℝ) * (π / 180) / 2 = -(π / 180 / 2) := by
      push_cast
      ring
    rw [hneg, sin_neg, abs_mul, abs_neg, abs_of_nonneg sin_half_degree_nonneg,
      abs_of_pos (by norm_num)]
    ring
  have hle : sin (π / 180 / 2) ≤ π / 180 / 2 := sin_le (by positivity)
  have hhalf : 0 ≤ sin (π / 180 / 2) / 2 := div_nonneg sin_half_degree_nonneg zero_le_two
  have hone : sin (π / 180 / 2) / 2 ≤ 1 := by linarith [sin_le_one (π / 180 / 2)]
  rw [exact_parallel, hcos, hsin, min_eq_left hone]
  calc 2 * (Binary64.value radius : ℝ) * arcsin (sin (π / 180 / 2) / 2)
      ≤ 2 * (Binary64.value radius : ℝ) * (π / 2 * (sin (π / 180 / 2) / 2)) := by
        gcongr
        exact arcsin_le hhalf hone
    _ ≤ 2 * (Binary64.value radius : ℝ) * (π / 2 * (π / 180 / 2 / 2)) := by gcongr
    _ = Binary64.value radius * (π / 180) * (π / 4) := by ring

end CoordDistance

namespace ClusterItem

variable (x y : ClusterItem Rat)

/-- The distance that is measured in the plane is that of the closest pair. -/
theorem distance_profile_euclidean :
    (x.profile .euclidean y).toOption.map DistanceProfile.distance =
      ((x.geometry.nearestPair y.geometry).map Pair.squaredDistance).map fun d =>
        Scalar.toDouble (Binary64.value (Binary64.nearestRoot d)) := by
  rw [profile]
  cases x.geometry.nearestPair y.geometry with
  | none => rfl
  | some m => exact congrArg some (CoordDistance.measure_euclidean m.first m.second)

/-- Two geometries have a closest pair from either side or from none, and its points are equally far
apart. So two items are equally far apart in the plane, whichever of the two is visited first. (On
the sphere they need not be: pairs that tie in the plane may differ there, and which of them is
returned depends on the side.) -/
theorem distance_symmetric :
    (∀ a b : Geometry Rat, (a.nearestPair b = none ↔ b.nearestPair a = none) ∧
      (a.nearestPair b).map Pair.squaredDistance = (b.nearestPair a).map Pair.squaredDistance) ∧
    ∀ x y : ClusterItem Rat, (x.profile .euclidean y).toOption.map DistanceProfile.distance =
      (y.profile .euclidean x).toOption.map DistanceProfile.distance := by
  refine ⟨fun a b => ⟨?_, Geometry.map_squaredDistance_nearestPair a b⟩, fun x y => ?_⟩
  · rw [Geometry.nearestPair_eq_none_iff, Geometry.nearestPair_eq_none_iff]
    exact or_comm
  · rw [distance_profile_euclidean, distance_profile_euclidean,
      Geometry.map_squaredDistance_nearestPair]

/-- How far apart the two points are that a profile takes. -/
noncomputable def exactDistance (d : CoordDistance) (x y : ClusterItem Rat) : Option ℝ :=
  (x.profile d y).toOption.map fun p => d.exact p.context.firstPoint p.context.secondPoint

theorem exactDistance_of_nearestPair {x y : ClusterItem Rat} {m : Pair Rat} (d : CoordDistance)
    (h : x.geometry.nearestPair y.geometry = some m) :
    x.exactDistance d y = some (d.exact m.first m.second) := by
  rw [exactDistance, profile, h]
  rfl

/-- Two places of one meridian, and the places one degree to the east of them. -/
def meridian : ClusterItem Rat := ⟨⟨[0]⟩, .multiPoint [⟨0, 0⟩, ⟨0, 60⟩], 1, false⟩

@[inherit_doc meridian]
def nextMeridian : ClusterItem Rat := ⟨⟨[1]⟩, .multiPoint [⟨1, 60⟩, ⟨1, 0⟩], 1, false⟩

/-- Places on the equator and places in the north are equally far apart in the plane, so the side
chooses between them, and on the sphere one choice is within a hundred kilometres and the other is
not. -/
theorem side_decides_on_sphere : ∃ d d' : ℝ,
    meridian.exactDistance (.haversine 6371008.8) nextMeridian = some d ∧
    nextMeridian.exactDistance (.haversine 6371008.8) meridian = some d' ∧
    100000 < d ∧ d' ≤ 100000 := by
  have hradius : 6371008 ≤ Binary64.value 6371008.8 ∧ Binary64.value 6371008.8 ≤ 6371009 := by
    decide +kernel
  have hlow : (6371008 : ℝ) ≤ Binary64.value 6371008.8 := by exact_mod_cast hradius.1
  have hhigh : (Binary64.value 6371008.8 : ℝ) ≤ 6371009 := by exact_mod_cast hradius.2
  have hpair : meridian.geometry.nearestPair nextMeridian.geometry = some ⟨⟨0, 0⟩, ⟨1, 0⟩⟩ := by
    decide +kernel
  have hpair' : nextMeridian.geometry.nearestPair meridian.geometry = some ⟨⟨1, 60⟩, ⟨0, 60⟩⟩ := by
    decide +kernel
  refine ⟨_, _, exactDistance_of_nearestPair _ hpair, exactDistance_of_nearestPair _ hpair', ?_, ?_⟩
  · rw [CoordDistance.exact_equator_degree]
    nlinarith [pi_gt_d2]
  · have hsq : π ^ 2 < 10 := by nlinarith [pi_lt_d2, pi_pos]
    have h := CoordDistance.exact_northern_degree_le 6371008.8 (by linarith [hradius.1])
    nlinarith

end ClusterItem

end DensityClustering
