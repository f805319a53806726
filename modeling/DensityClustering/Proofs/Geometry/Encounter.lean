import Mathlib.Data.Finset.Max
import DensityClustering.Cluster.Distance
import DensityClustering.Proofs.Geometry.Separation
import DensityClustering.Proofs.Geometry.Winding

/-!
Geometries that have a point in common. Either two of their segments share a point, or the common
point lies inside one of them and from there a vertex of the other is reached without crossing a
ring; that vertex is covered. What remains is segments that share a point, which the search for
crossings leaves out when they are nearly parallel or very short.
-/

namespace DensityClustering

variable {c d : Coord Rat}

/-- On the way to a point no other one is as far away. -/
theorem Segment.eq_of_on_way {w : Coord Rat} (hw : Segment.Holds ⟨c, d⟩ w)
    (hfar : c.squaredDistance d ≤ c.squaredDistance w) : w = d := by
  obtain ⟨t, ht, rfl⟩ := hw
  have hscaled : c.squaredDistance (pointAt ⟨c, d⟩ t) = t * t * c.squaredDistance d := by
    simp only [Coord.squaredDistance, pointAt_x, pointAt_y]
    ring
  rw [hscaled] at hfar
  rcases (Coord.squaredDistance_nonneg c d).eq_or_lt with hzero | hpos
  · rw [← hzero, mul_zero] at hscaled
    rw [← Coord.eq_of_squaredDistance hscaled]
    exact Coord.eq_of_squaredDistance hzero.symm
  · have hsquare : 1 ≤ t * t := by
      rw [← one_mul (c.squaredDistance d)] at hfar
      exact le_of_mul_le_mul_right (by linarith) hpos
    have hall : t = 1 := by
      have hle : t * t ≤ t := mul_le_of_le_one_left ht.1 ht.2
      exact le_antisymm ht.2 (hsquare.trans hle)
    rw [hall, pointAt_one]

theorem Pair.eq_of_squaredDistance {m : Pair Rat} (h : m.squaredDistance = 0) :
    m = ⟨m.first, m.first⟩ :=
  congrArg (Pair.mk m.first) (Coord.eq_of_squaredDistance h).symm

/-- Two items with a single point as their closest pair are at distance zero in the plane. -/
theorem ClusterItem.profile_of_single {x y : ClusterItem Rat}
    (h : x.geometry.nearestPair y.geometry = some ⟨c, c⟩) :
    x.profile .euclidean y = .ok ⟨0, ⟨c, x.id, c, y.id⟩⟩ := by
  have hzero : CoordDistance.euclidean.measure c c = 0 := by
    have hlength : CoordDistance.euclidean.measure c c =
        Scalar.toDouble (Scalar.hypot (c.x - c.x) (c.y - c.y)) := rfl
    rw [hlength, sub_self, sub_self]
    decide +kernel
  rw [profile, h]
  dsimp only
  rw [hzero]

/-- The coordinates are multiples of a millionth. -/
def Coord.OnGrid (v : Coord Rat) : Prop := ∃ m n : ℤ, v.x * 10 ^ 6 = m ∧ v.y * 10 ^ 6 = n

/-- On the grid a determinant below the tolerance is zero. -/
theorem Segment.det_eq_zero_of_onGrid {p q : Segment Rat} (hps : p.start.OnGrid)
    (hpf : p.finish.OnGrid) (hqs : q.start.OnGrid) (hqf : q.finish.OnGrid)
    (hsmall : |p.det q| < Scalar.tolerance) : p.det q = 0 := by
  obtain ⟨m₁, n₁, hx₁, hy₁⟩ := hps
  obtain ⟨m₂, n₂, hx₂, hy₂⟩ := hpf
  obtain ⟨m₃, n₃, hx₃, hy₃⟩ := hqs
  obtain ⟨m₄, n₄, hx₄, hy₄⟩ := hqf
  have htolerance : (Scalar.tolerance : Rat) = 1 / (10 ^ 6 * 10 ^ 6) := by decide +kernel
  have hscaled : p.det q * (10 ^ 6 * 10 ^ 6) =
      (((m₂ - m₁) * (n₄ - n₃) - (n₂ - n₁) * (m₄ - m₃) : ℤ) : Rat) := by
    push_cast
    rw [← hx₁, ← hx₂, ← hx₃, ← hx₄, ← hy₁, ← hy₂, ← hy₃, ← hy₄, det]
    ring
  have hlt : |p.det q * (10 ^ 6 * 10 ^ 6)| < 1 := by
    rw [abs_mul, abs_of_pos (by norm_num : (0 : Rat) < 10 ^ 6 * 10 ^ 6), ← lt_div_iff₀ (by norm_num),
      ← htolerance]
    exact hsmall
  rw [hscaled, ← Int.cast_abs, ← Int.cast_one, Int.cast_lt, Int.abs_lt_one_iff] at hlt
  rw [hlt, Int.cast_zero] at hscaled
  exact (mul_eq_zero.mp hscaled).resolve_right (by norm_num)

namespace Polygon

variable {p : Polygon Rat}

/-- The point lies inside the outer ring and inside none of the holes. -/
def Encloses (p : Polygon Rat) (c : Coord Rat) : Prop :=
  p.exterior.position c = .inside ∧ ∀ h ∈ p.holes, h.position c ≠ .inside

theorem covers_of_encloses (h : p.Encloses c) : p.covers c = true := by
  obtain ⟨houter, hholes⟩ := h
  unfold covers
  rw [houter]
  apply decide_eq_true
  intro hfound
  obtain ⟨hole, hhole, hinside⟩ := List.mem_map.mp (List.mem_of_find?_eq_some hfound)
  exact hholes hole hhole hinside

theorem exists_ringSegment (h : p.Encloses c) : ∃ s, s ∈ Geometry.ringSegments p := by
  have hclosed : p.exterior.closed ≠ [] := by
    intro hnone
    have hinside := h.1
    unfold Ring.position at hinside
    rw [hnone] at hinside
    cases hinside
  obtain ⟨v, hv⟩ := List.exists_mem_of_ne_nil _ hclosed
  obtain ⟨s, hs, -⟩ := (Segment.endAt_path p.exterior.closed v).mp hv
  exact ⟨s, List.mem_flatMap.mpr ⟨p.exterior, List.mem_cons_self, hs⟩⟩

/-- A path that meets no ring of a polygon does not leave the inside. -/
theorem Encloses.along (h : p.Encloses c)
    (hapart : ∀ e ∈ Geometry.ringSegments p, ¬Segment.Meets ⟨c, d⟩ e) : p.Encloses d := by
  have hring : ∀ r ∈ p.rings, r.position c = r.position d := fun r hr =>
    Ring.position_eq fun e he => hapart e (List.mem_flatMap.mpr ⟨r, hr, he⟩)
  refine ⟨?_, fun hole hhole => ?_⟩
  · rw [← hring p.exterior List.mem_cons_self]
    exact h.1
  · rw [← hring hole (List.mem_cons_of_mem _ hhole)]
    exact h.2 hole hhole

end Polygon

namespace Geometry

variable {a b g : Geometry Rat}

mutual

/-- The polygons that a geometry consists of. -/
def areas : Geometry Rat → List (Polygon Rat)
  | point _ => []
  | multiPoint _ => []
  | line _ _ => []
  | lineString _ => []
  | multiLineString _ => []
  | polygon p => [p]
  | multiPolygon ps => ps
  | box b => [b.toPolygon]
  | triangle t => [t.toPolygon]
  | collection gs => areasOfAll gs

def areasOfAll : List (Geometry Rat) → List (Polygon Rat)
  | [] => []
  | g :: gs => areas g ++ areasOfAll gs

end

/-- The point belongs to the geometry: it lies on a segment or inside a polygon. -/
def Contains (g : Geometry Rat) (c : Coord Rat) : Prop :=
  g.Outline c ∨ ∃ p ∈ g.areas, p.Encloses c

def isCollection : Geometry Rat → Bool
  | collection _ => true
  | _ => false

mutual

/-- The rings of the polygons are among the segments. -/
theorem ringSegments_subset : ∀ (g : Geometry Rat), ∀ p ∈ g.areas, ringSegments p ⊆ g.segments
  | point _ | multiPoint _ | line _ _ | lineString _ | multiLineString _ => fun p hp => by
    rw [areas] at hp
    cases hp
  | polygon q => List.forall_mem_singleton.mpr (List.Subset.refl _)
  | multiPolygon ps => fun p hp s hs => List.mem_flatMap.mpr ⟨p, hp, hs⟩
  | box b => List.forall_mem_singleton.mpr (List.Subset.refl _)
  | triangle t => List.forall_mem_singleton.mpr (List.Subset.refl _)
  | collection gs => ringSegments_subset_all gs

theorem ringSegments_subset_all :
    ∀ (gs : List (Geometry Rat)), ∀ p ∈ areasOfAll gs, ringSegments p ⊆ segmentsOfAll gs
  | [] => fun p hp => by
    rw [areasOfAll] at hp
    cases hp
  | g :: gs => fun p hp s hs => by
    rw [areasOfAll, List.mem_append] at hp
    rw [segmentsOfAll, List.mem_append]
    rcases hp with hp | hp
    · exact Or.inl (ringSegments_subset g p hp hs)
    · exact Or.inr (ringSegments_subset_all gs p hp hs)

end

/-- A geometry covers what its polygons enclose, unless it is a collection, of which only the
vertices count. -/
theorem covers_of_encloses (hg : g.isCollection = false) {p : Polygon Rat} (hp : p ∈ g.areas)
    (h : p.Encloses c) : g.covers c = true := by
  have hcovers : p.covers c = true := Polygon.covers_of_encloses h
  cases g with
  | polygon q =>
    rw [areas, List.mem_singleton] at hp
    rw [covers, ← hp]
    exact hcovers
  | multiPolygon ps =>
    rw [areas] at hp
    exact List.any_eq_true.mpr ⟨p, hp, hcovers⟩
  | box b =>
    rw [areas, List.mem_singleton] at hp
    rw [covers, ← hp]
    exact hcovers
  | triangle t =>
    rw [areas, List.mem_singleton] at hp
    rw [covers, ← hp]
    exact hcovers
  | collection gs => cases hg
  | point _ | multiPoint _ | line _ _ | lineString _ | multiLineString _ =>
    rw [areas] at hp
    cases hp

theorem exists_segment_of_contains (h : g.Contains c) : ∃ s, s ∈ g.segments := by
  rcases h with ⟨s, hs, -⟩ | ⟨p, hp, hinside⟩
  · exact ⟨s, hs⟩
  · obtain ⟨s, hs⟩ := Polygon.exists_ringSegment hinside
    exact ⟨s, ringSegments_subset g p hp hs⟩

theorem coords_ne_nil_of_contains (h : g.Contains c) : g.coords ≠ [] := by
  obtain ⟨s, hs⟩ := exists_segment_of_contains h
  exact List.ne_nil_of_mem (start_mem_coords hs)

section Apart

variable (hapart : ∀ p ∈ a.segments, ∀ q ∈ b.segments, ¬p.Meets q)
include hapart

/-- From a point of `b` to a segment of `a` at least as close as any segment of `b`, and along it to
its start, one stays inside a polygon of `b`. -/
theorem encloses_start {s : Segment Rat} (hb : b.Contains c) (hs : s ∈ a.segments)
    (hclosest : ∀ e ∈ b.segments,
      c.squaredDistance (s.closestTo c) ≤ c.squaredDistance (e.closestTo c)) :
    ∃ p ∈ b.areas, p.Encloses s.start := by
  have hway : ∀ e ∈ b.segments, ¬Segment.Meets ⟨c, s.closestTo c⟩ e := by
    rintro e he ⟨w, hw, hew⟩
    have hsame : w = s.closestTo c :=
      Segment.eq_of_on_way hw ((hclosest e he).trans (Segment.closestTo_le c hew))
    exact hapart s hs e he ⟨w, hsame ▸ s.holds_closestTo c, hew⟩
  have hedge : ∀ e ∈ b.segments, ¬Segment.Meets ⟨s.closestTo c, s.start⟩ e := by
    rintro e he ⟨w, hw, hew⟩
    exact hapart s hs e he ⟨w, (s.holds_closestTo c).subsegment s.holds_start hw, hew⟩
  rcases hb with ⟨e, he, hec⟩ | ⟨p, hp, hinside⟩
  · exact absurd ⟨c, Segment.holds_start ⟨c, _⟩, hec⟩ (hway e he)
  · have hsub := ringSegments_subset b p hp
    exact ⟨p, hp, (hinside.along fun e he => hway e (hsub he)).along fun e he => hedge e (hsub he)⟩

/-- Of two geometries that have a point in common and no segments that share one, a polygon of one
has a vertex of the other inside. -/
theorem exists_vertex_inside (ha : a.Contains c) (hb : b.Contains c) :
    (∃ v ∈ a.coords, ∃ p ∈ b.areas, p.Encloses v) ∨ ∃ v ∈ b.coords, ∃ p ∈ a.areas, p.Encloses v := by
  have hnonempty : (a.segments ++ b.segments).toFinset.Nonempty := by
    obtain ⟨s, hs⟩ := exists_segment_of_contains ha
    exact ⟨s, List.mem_toFinset.mpr (List.mem_append_left _ hs)⟩
  obtain ⟨s, hs, hclosest⟩ := Finset.exists_min_image _
    (fun s : Segment Rat => c.squaredDistance (s.closestTo c)) hnonempty
  simp only [List.mem_toFinset] at hs hclosest
  rcases List.mem_append.mp hs with hs | hs
  · exact Or.inl ⟨s.start, start_mem_coords hs, encloses_start hapart hb hs fun e he =>
      hclosest e (List.mem_append_right _ he)⟩
  · have hapart' : ∀ q ∈ b.segments, ∀ p ∈ a.segments, ¬q.Meets p :=
      fun q hq p hp hmeets => hapart p hp q hq hmeets.symm
    exact Or.inr ⟨s.start, start_mem_coords hs, encloses_start hapart' ha hs fun e he =>
      hclosest e (List.mem_append_left _ he)⟩

end Apart

section Found

theorem sharedPoint_ne_none : a.sharedPoint b ≠ none ↔ (∃ v ∈ a.coords, b.covers v = true) ∨
    (∃ v ∈ b.coords, a.covers v = true) ∨
    ∃ p ∈ a.segments, ∃ q ∈ b.segments, p.Meets q ∧ Scalar.tolerance ≤ |p.det q| := by
  rw [ne_eq, sharedPoint_eq_none]
  simp only [Segment.crossing_eq_none, not_and_or, not_forall, Bool.not_eq_false, not_not,
    exists_prop, and_comm]

/-- A pair that is tried is a single point exactly where a vertex of one geometry lies on a segment
of the other. -/
theorem exists_vertexPair_zero : (∃ m ∈ a.vertexPairs b, m.squaredDistance = 0) ↔
    (∃ v ∈ a.coords, b.Outline v) ∨ ∃ v ∈ b.coords, a.Outline v := by
  have hzero : ∀ {s : Segment Rat} {v : Coord Rat},
      v.squaredDistance (s.closestTo v) = 0 ↔ s.Holds v := by
    intro s v
    constructor
    · intro hsame
      rw [Coord.eq_of_squaredDistance hsame]
      exact s.holds_closestTo v
    · intro hon
      have hle := Segment.closestTo_le v hon
      rw [Coord.squaredDistance_self] at hle
      exact le_antisymm hle (Coord.squaredDistance_nonneg _ _)
  constructor
  · rintro ⟨m, hm, hsame⟩
    rcases (mem_vertexPairs a b).mp hm with ⟨v, hv, s, hs, rfl⟩ | ⟨v, hv, s, hs, rfl⟩
    · exact Or.inl ⟨v, hv, s, hs, hzero.mp hsame⟩
    · refine Or.inr ⟨v, hv, s, hs, hzero.mp ?_⟩
      rw [Coord.squaredDistance_comm]
      exact hsame
  · rintro (⟨v, hv, s, hs, hon⟩ | ⟨v, hv, s, hs, hon⟩)
    · exact ⟨_, (mem_vertexPairs a b).mpr (Or.inl ⟨v, hv, s, hs, rfl⟩), hzero.mpr hon⟩
    · refine ⟨_, (mem_vertexPairs a b).mpr (Or.inr ⟨v, hv, s, hs, rfl⟩), ?_⟩
      rw [Pair.squaredDistance_eq, Coord.squaredDistance_comm]
      exact hzero.mpr hon

/-- The closest pair is a single point exactly if one is found at once or a pair that is tried is
one. -/
theorem exists_single_iff (ha : a.coords ≠ []) (hb : b.coords ≠ []) :
    (∃ v, a.nearestPair b = some ⟨v, v⟩) ↔
      a.sharedPoint b ≠ none ∨ ∃ m ∈ a.vertexPairs b, m.squaredDistance = 0 := by
  rcases nearestPair_cases ha hb with ⟨v, hshared, hpair⟩ | ⟨hshared, m, hmem, hpair, hleast⟩
  · refine iff_of_true ⟨v, hpair⟩ (Or.inl ?_)
    rw [hshared]
    exact nofun
  · rw [hshared, hpair]
    constructor
    · rintro ⟨v, hv⟩
      obtain rfl := Option.some_inj.mp hv
      exact Or.inr ⟨_, hmem, Coord.squaredDistance_self v⟩
    · rintro (hnot | ⟨m', hm', hzero⟩)
      · exact absurd rfl hnot
      · have hsame : m.squaredDistance = 0 :=
          le_antisymm (hzero ▸ hleast m' hm') (Coord.squaredDistance_nonneg _ _)
        exact ⟨m.first, congrArg some (Pair.eq_of_squaredDistance hsame)⟩

/-- Geometries that are no collections and have a point in common have a single point as their
closest pair, or segments that share a point but count as parallel without being so. -/
theorem exists_single_or_nearly_parallel (ha : a.isCollection = false)
    (hb : b.isCollection = false) (hac : a.Contains c) (hbc : b.Contains c) :
    (∃ v, a.nearestPair b = some ⟨v, v⟩) ∨ ∃ p ∈ a.segments, ∃ q ∈ b.segments,
      p.Meets q ∧ p.det q ≠ 0 ∧ |p.det q| < Scalar.tolerance := by
  rw [exists_single_iff (coords_ne_nil_of_contains hac) (coords_ne_nil_of_contains hbc)]
  by_cases hmeets : ∃ p ∈ a.segments, ∃ q ∈ b.segments, p.Meets q
  · obtain ⟨p, hp, q, hq, hmeet⟩ := hmeets
    by_cases hdet : p.det q = 0
    · -- Where parallel segments share a point, one has an end of the other on it.
      obtain ⟨x, hpx, hqx⟩ := hmeet
      obtain ⟨m, hm, hle⟩ := exists_vertexPair_le hp hq (Or.inl hdet) hpx hqx
      rw [Coord.squaredDistance_self] at hle
      exact Or.inl (Or.inr ⟨m, hm, le_antisymm hle (Coord.squaredDistance_nonneg _ _)⟩)
    · rcases lt_or_ge |p.det q| Scalar.tolerance with hsmall | hlarge
      · exact Or.inr ⟨p, hp, q, hq, hmeet, hdet, hsmall⟩
      · exact Or.inl (Or.inl (sharedPoint_ne_none.mpr (Or.inr (Or.inr
          ⟨p, hp, q, hq, hmeet, hlarge⟩))))
  · have hapart : ∀ p ∈ a.segments, ∀ q ∈ b.segments, ¬p.Meets q :=
      fun p hp q hq hmeet => hmeets ⟨p, hp, q, hq, hmeet⟩
    refine Or.inl (Or.inl (sharedPoint_ne_none.mpr ?_))
    rcases exists_vertex_inside hapart hac hbc with ⟨v, hv, p, hp, hinside⟩ | ⟨v, hv, p, hp, hinside⟩
    · exact Or.inl ⟨v, hv, covers_of_encloses hb hp hinside⟩
    · exact Or.inr (Or.inl ⟨v, hv, covers_of_encloses ha hp hinside⟩)

/-- Where all coordinates are multiples of a millionth, no two segments are nearly parallel: a common
point is always found. -/
theorem exists_single_of_onGrid (ha : a.isCollection = false) (hb : b.isCollection = false)
    (hac : a.Contains c) (hbc : b.Contains c) (hagrid : ∀ v ∈ a.coords, v.OnGrid)
    (hbgrid : ∀ v ∈ b.coords, v.OnGrid) : ∃ v, a.nearestPair b = some ⟨v, v⟩ := by
  refine (exists_single_or_nearly_parallel ha hb hac hbc).resolve_right ?_
  rintro ⟨p, hp, q, hq, -, hdet, hsmall⟩
  refine hdet (Segment.det_eq_zero_of_onGrid ?_ ?_ ?_ ?_ hsmall)
  · exact hagrid _ (start_mem_coords hp)
  · exact hagrid _ (mem_coords_of_hasEnd hp (Or.inr rfl))
  · exact hbgrid _ (start_mem_coords hq)
  · exact hbgrid _ (mem_coords_of_hasEnd hq (Or.inr rfl))

/-- Two geometries that are no collections and have a point in common. Their closest pair is a single
point exactly if a vertex of one is covered by the other or lies on one of its segments, or two
segments share a point and do not count as parallel. Otherwise two segments share a point that count
as parallel without being so. Items whose geometries have a single point as their closest pair are at
distance zero in the plane. -/
theorem common_point_found_iff (ha : a.isCollection = false) (hb : b.isCollection = false)
    (hac : a.Contains c) (hbc : b.Contains c) :
    ((∃ v, a.nearestPair b = some ⟨v, v⟩) ↔
      (∃ v ∈ a.coords, b.covers v = true ∨ b.Outline v) ∨
      (∃ v ∈ b.coords, a.covers v = true ∨ a.Outline v) ∨
      ∃ p ∈ a.segments, ∃ q ∈ b.segments, p.Meets q ∧ Scalar.tolerance ≤ |p.det q|) ∧
    ((∃ v, a.nearestPair b = some ⟨v, v⟩) ∨ ∃ p ∈ a.segments, ∃ q ∈ b.segments,
      p.Meets q ∧ p.det q ≠ 0 ∧ |p.det q| < Scalar.tolerance) ∧
    ∀ (x y : ClusterItem Rat) (v : Coord Rat), x.geometry = a → y.geometry = b →
      a.nearestPair b = some ⟨v, v⟩ → ∃ contact, x.profile .euclidean y = .ok ⟨0, contact⟩ := by
  refine ⟨?_, exists_single_or_nearly_parallel ha hb hac hbc, ?_⟩
  · rw [exists_single_iff (coords_ne_nil_of_contains hac) (coords_ne_nil_of_contains hbc),
      sharedPoint_ne_none, exists_vertexPair_zero]
    simp only [and_or_left, exists_or]
    exact or_or_or_comm.trans (or_congr_right or_right_comm)
  · rintro x y v rfl rfl hpair
    exact ⟨_, ClusterItem.profile_of_single hpair⟩

/-- A bar across a square with a square hole; neither has a vertex in the other one. -/
def bar : Geometry Rat := .polygon ⟨⟨[⟨-1, 4⟩, ⟨11, 4⟩, ⟨11, 6⟩, ⟨-1, 6⟩]⟩, []⟩

theorem bar_crosses_frame :
    ((∃ v, bar.nearestPair frame = some ⟨v, v⟩) ↔
      (∃ v ∈ bar.coords, frame.covers v = true ∨ frame.Outline v) ∨
      (∃ v ∈ frame.coords, bar.covers v = true ∨ bar.Outline v) ∨
      ∃ p ∈ bar.segments, ∃ q ∈ frame.segments, p.Meets q ∧ Scalar.tolerance ≤ |p.det q|) ∧
    ((∃ v, bar.nearestPair frame = some ⟨v, v⟩) ∨ ∃ p ∈ bar.segments, ∃ q ∈ frame.segments,
      p.Meets q ∧ p.det q ≠ 0 ∧ |p.det q| < Scalar.tolerance) ∧
    ∀ (x y : ClusterItem Rat) (v : Coord Rat), x.geometry = bar → y.geometry = frame →
      bar.nearestPair frame = some ⟨v, v⟩ → ∃ contact, x.profile .euclidean y = .ok ⟨0, contact⟩ := by
  have hbar : bar.Contains ⟨1, 5⟩ :=
    Or.inr ⟨_, List.mem_singleton_self _, by decide +kernel, by decide +kernel⟩
  have hframe : frame.Contains ⟨1, 5⟩ :=
    Or.inr ⟨_, List.mem_singleton_self _, by decide +kernel, by decide +kernel⟩
  exact common_point_found_iff rfl rfl hbar hframe

/-- A short line along the first axis, half of it on either side of the other axis. -/
def hairline : Geometry Rat := .line ⟨-1 / 2 ^ 24, 0⟩ ⟨1 / 2 ^ 24, 0⟩

/-- The same along the other axis. -/
def crossHairline : Geometry Rat := .line ⟨0, -1 / 2 ^ 24⟩ ⟨0, 1 / 2 ^ 24⟩

/-- Two lines that cross at right angles, but are so short that they count as parallel. -/
theorem crossing_hairlines_missed : hairline.Contains ⟨0, 0⟩ ∧ crossHairline.Contains ⟨0, 0⟩ ∧
    ¬∃ v, hairline.nearestPair crossHairline = some ⟨v, v⟩ := by
  have hdistance : (hairline.nearestPair crossHairline).map Pair.squaredDistance =
      some (1 / 2 ^ 48) := by decide +kernel
  refine ⟨Or.inl ⟨_, List.mem_cons_self, by decide +kernel⟩,
    Or.inl ⟨_, List.mem_cons_self, by decide +kernel⟩, ?_⟩
  rintro ⟨v, hv⟩
  rw [hv, Option.map_some, Option.some_inj] at hdistance
  exact absurd ((Coord.squaredDistance_self v).symm.trans hdistance) (by decide +kernel)

end Found

end Geometry

end DensityClustering
