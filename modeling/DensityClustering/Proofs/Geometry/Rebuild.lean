import DensityClustering.Proofs.Geometry.ConvexHull

/-!
Rebuilt hulls. A hull covers all points that it was made of, and it can stand for them: together
with further points it gives the hull that all of the points give at once.
-/

namespace DensityClustering

variable {points further : List (Coord Rat)} {p : Coord Rat} {g : Geometry Rat}

theorem Coord.near_self (p : Coord Rat) : p.near p = true := by
  have hzero : Scalar.abs (0 : Rat) ≤ Scalar.tolerance := by decide +kernel
  unfold near
  rw [sub_self, sub_self]
  exact Bool.and_eq_true_iff.mpr ⟨decide_eq_true hzero, decide_eq_true hzero⟩

theorem Geometry.ofHull_of_long {S : Type} {ring : List (Coord S)} (h : 3 ≤ ring.length) :
    ofHull ring = some (.polygon ⟨⟨ring⟩, []⟩) := by
  match ring, h with
  | _ :: _ :: _ :: _, _ => rfl

namespace Hull

theorem vertices_nil : vertices ([] : List (Coord Rat)) = [] := by
  simp [vertices, sites]

/-- The vertices can stand for the points. -/
theorem vertices_append (h : Apart (points ++ further)) :
    vertices (vertices points ++ further) = vertices (points ++ further) :=
  ((Spans.of_vertices (h.of_subset (List.subset_append_left ..))).append further).vertices_eq h

end Hull

/-- The geometry is the convex hull of the points: the point itself where there is but one, the two
ends of points on a line, and otherwise a ring that goes round all points. -/
structure Geometry.IsHull (g : Geometry Rat) (points : List (Coord Rat)) : Prop where
  single : ∀ p ∈ points, (∀ q ∈ points, q = p) → g = .point p
  line : Hull.Collinear points → (∃ a ∈ points, ∃ b ∈ points, a ≠ b) →
    ∃ first last, Hull.Foremost Hull.Before points first ∧
      Hull.Foremost (flip Hull.Before) points last ∧ g = .lineString [first, last]
  ring : ¬Hull.Collinear points → ∃ ring, Hull.Surrounds ring points ∧ g = .polygon ⟨⟨ring⟩, []⟩

/-- The convex hull covers all points. -/
theorem Geometry.IsHull.covers (h : g.IsHull points) (hp : p ∈ points) : g.covers p = true := by
  by_cases hline : Hull.Collinear points
  · by_cases hsome : ∃ a ∈ points, ∃ b ∈ points, a ≠ b
    · obtain ⟨first, last, hfirst, hlast, rfl⟩ := h.line hline hsome
      have hon : (⟨first, last⟩ : Segment Rat).contains p = true :=
        Hull.contains_of_line (hfirst.2 p hp) (hlast.2 p hp)
          (hline first hfirst.1 last hlast.1 p hp)
      show [(⟨first, last⟩ : Segment Rat)].any (·.contains p) = true
      rw [List.any_cons, hon, Bool.true_or]
    · push Not at hsome
      rw [h.single p hp fun q hq => hsome q hq p hp]
      exact Coord.near_self p
  · obtain ⟨ring, hring, rfl⟩ := h.ring hline
    exact hring.covers fun e he => hring.left e he p hp

/-- The geometry with the vertices is the convex hull. -/
theorem Hull.isHull_of_ofHull (h : Apart points) (hg : Geometry.ofHull (vertices points) = some g) :
    g.IsHull points := by
  refine ⟨fun p hp hsame => ?_, fun hline hsome => ?_, fun hnot => ?_⟩
  · rw [vertices_of_same h hp hsame] at hg
    cases hg
    rfl
  · obtain ⟨first, last, hfirst, hlast, hvertices⟩ := exists_vertices_of_collinear h hline hsome
    rw [hvertices] at hg
    cases hg
    exact ⟨first, last, hfirst, hlast, rfl⟩
  · have hring := surrounds_vertices h hnot
    rw [Geometry.ofHull_of_long hring.long] at hg
    cases hg
    exact ⟨vertices points, hring, rfl⟩

open Hull (Apart vertices)

variable {existing : Option (Geometry Rat)}

/-- Without any point the geometry stays as it was. -/
theorem hull_of_no_point (h : Geometry.corners existing ++ points = []) :
    hull existing points true = existing := by
  rw [hull_rebuilt, h, Hull.vertices_nil]
  rfl

/-- A rebuilt hull is the convex hull of all points, if there are any. -/
theorem hull_cases (h : Apart (Geometry.corners existing ++ points)) :
    (Geometry.corners existing ++ points = [] ∧ hull existing points true = existing) ∨
      ∃ g, hull existing points true = some g ∧ g.IsHull (Geometry.corners existing ++ points) := by
  by_cases hnone : Geometry.corners existing ++ points = []
  · exact Or.inl ⟨hnone, hull_of_no_point hnone⟩
  · obtain ⟨p, hp⟩ := List.exists_mem_of_ne_nil _ hnone
    obtain ⟨g, hg, hhull⟩ := exists_hull_rebuilt h hp
    exact Or.inr ⟨g, hhull, Hull.isHull_of_ofHull h hg⟩

/-- A rebuilt hull covers the vertices of the geometry that there was and all of the points. -/
theorem exists_hull_covers (h : Apart (Geometry.corners existing ++ points))
    (hp : p ∈ Geometry.corners existing ++ points) :
    ∃ g, hull existing points true = some g ∧ g.covers p = true := by
  obtain ⟨g, hg, hhull⟩ := exists_hull_rebuilt h hp
  exact ⟨g, hhull, (Hull.isHull_of_ofHull h hg).covers hp⟩

/-- The hull of a hull and further points is that of all points at once. -/
theorem hull_hull (h : Apart (Geometry.corners existing ++ points ++ further)) :
    hull (hull existing points true) further true = hull existing (points ++ further) true := by
  have hown : Apart (Geometry.corners existing ++ points) :=
    h.of_subset (List.subset_append_left ..)
  by_cases hnone : Geometry.corners existing ++ points = []
  · rw [hull_of_no_point hnone, (List.append_eq_nil_iff.mp hnone).2, List.nil_append]
  · obtain ⟨p, hp⟩ := List.exists_mem_of_ne_nil _ hnone
    obtain ⟨g, hg, hhull⟩ := exists_hull_rebuilt hown hp
    -- A ring repeats its first vertex, so that only the members are those of the vertices.
    have hcorners : ∀ q, q ∈ g.coords ++ further ↔
        q ∈ vertices (Geometry.corners existing ++ points) ++ further := by
      intro q
      rw [List.mem_append, List.mem_append, Geometry.mem_coords_ofHull hg]
    have hspans : Hull.Spans (g.coords ++ further)
        (Geometry.corners existing ++ points ++ further) :=
      (Hull.Spans.of_mem_iff hcorners).trans ((Hull.Spans.of_vertices hown).append further)
    have hall : Apart (Geometry.corners existing ++ (points ++ further)) := by
      rwa [← List.append_assoc]
    have hp' : p ∈ Geometry.corners existing ++ (points ++ further) := by
      rw [← List.append_assoc]
      exact List.mem_append_left further hp
    obtain ⟨g', hg', hhull'⟩ := exists_hull_rebuilt hall hp'
    calc hull (hull existing points true) further true
        = (Geometry.ofHull (vertices (g.coords ++ further))).or (some g) := by
          rw [hhull, hull_rebuilt]
          rfl
      _ = some g' := by rw [hspans.vertices_eq h, List.append_assoc, hg', Option.some_or]
      _ = hull existing (points ++ further) true := hhull'.symm

/-- The hull of points of which no two are close to each other: nothing for no points, the point
for one, the two ends for points on a line, and otherwise a ring that goes round all points once. A
rebuilt hull covers whatever it was made of, stays as it is when it is rebuilt again, and takes in
further points as if they had been there from the start. -/
theorem hull_goes_round_all_points :
    (∀ points : List (Coord Rat), Apart points →
      (points = [] → vertices points = []) ∧
      (∀ p ∈ points, (∀ q ∈ points, q = p) → vertices points = [p]) ∧
      (Hull.Collinear points → (∃ a ∈ points, ∃ b ∈ points, a ≠ b) →
        ∃ first last, Hull.Foremost Hull.Before points first ∧
          Hull.Foremost (flip Hull.Before) points last ∧ vertices points = [first, last]) ∧
      (¬Hull.Collinear points → Hull.Surrounds (vertices points) points)) ∧
    (∀ points further : List (Coord Rat), Apart (points ++ further) →
      vertices (vertices points) = vertices points ∧
      vertices (vertices points ++ further) = vertices (points ++ further)) ∧
    ∀ (existing : Option (Geometry Rat)) (points further : List (Coord Rat)),
      Apart (Geometry.corners existing ++ points ++ further) →
      (∀ p ∈ Geometry.corners existing ++ points,
        ∃ g, hull existing points true = some g ∧ g.covers p = true) ∧
      hull (hull existing points true) [] true = hull existing points true ∧
      hull (hull existing points true) further true = hull existing (points ++ further) true := by
  refine ⟨fun points h => ⟨?_, fun p hp => Hull.vertices_of_same h hp,
    Hull.exists_vertices_of_collinear h, Hull.surrounds_vertices h⟩,
    fun points further h => ⟨?_, Hull.vertices_append h⟩, fun existing points further h => ?_⟩
  · rintro rfl
    exact Hull.vertices_nil
  · have hown : Apart points := h.of_subset (List.subset_append_left ..)
    exact (Hull.Spans.of_vertices hown).vertices_eq hown
  · have hown : Apart (Geometry.corners existing ++ points) :=
      h.of_subset (List.subset_append_left ..)
    refine ⟨fun p => exists_hull_covers hown, ?_, hull_hull h⟩
    calc hull (hull existing points true) [] true
        = hull existing (points ++ []) true := hull_hull (by rwa [List.append_nil])
      _ = hull existing points true := by rw [List.append_nil]

/-- Three points of a diagonal. -/
def diagonal : List (Coord Rat) := [⟨1, 1⟩, ⟨2, 2⟩, ⟨0, 0⟩]

/-- The corners of a square, with points inside of it and on an edge among them. -/
def crowd : List (Coord Rat) := [⟨1, 1⟩, ⟨2, 2⟩, ⟨0, 0⟩, ⟨1, 0⟩, ⟨0, 2⟩, ⟨2, 0⟩]

/-- The square surrounds the crowd, the diagonal has two ends, and one more point comes to the hull
of both as it would have come to the points. -/
theorem crowd_in_its_square :
    Hull.Surrounds (vertices crowd) crowd ∧
    (∃ first last, Hull.Foremost Hull.Before diagonal first ∧
      Hull.Foremost (flip Hull.Before) diagonal last ∧ vertices diagonal = [first, last]) ∧
    vertices [(⟨1, 1⟩ : Coord Rat), ⟨1, 1⟩] = [⟨1, 1⟩] ∧
    vertices (vertices crowd ++ diagonal) = vertices (crowd ++ diagonal) ∧
    (∃ g, hull (some (.lineString diagonal)) crowd true = some g ∧ g.covers ⟨1, 0⟩ = true) ∧
    hull (hull (some (.lineString diagonal)) crowd true) [⟨3, 1⟩] true =
      hull (some (.lineString diagonal)) (crowd ++ [⟨3, 1⟩]) true := by
  have hcrowd : Apart crowd := by decide +kernel
  have hdiagonal : Apart diagonal := by decide +kernel
  have hall : Apart (Geometry.corners (some (.lineString diagonal)) ++ crowd ++ [⟨3, 1⟩]) := by
    decide +kernel
  obtain ⟨hshape, hstands, hrebuilt⟩ := hull_goes_round_all_points
  obtain ⟨-, -, -, hring⟩ := hshape crowd hcrowd
  obtain ⟨-, -, hends, -⟩ := hshape diagonal hdiagonal
  obtain ⟨-, hone, -, -⟩ := hshape [⟨1, 1⟩, ⟨1, 1⟩] (by decide +kernel)
  obtain ⟨hcovers, -, hmore⟩ := hrebuilt _ _ _ hall
  exact ⟨hring (by decide +kernel),
    hends (by decide +kernel) ⟨⟨1, 1⟩, by decide, ⟨0, 0⟩, by decide, by decide⟩,
    hone ⟨1, 1⟩ (by decide) (by decide), (hstands crowd diagonal (by decide +kernel)).2,
    hcovers ⟨1, 0⟩ (by decide), hmore⟩

example : vertices crowd = [⟨0, 0⟩, ⟨2, 0⟩, ⟨2, 2⟩, ⟨0, 2⟩] := by cbv

end DensityClustering
