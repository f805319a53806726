import DensityClustering.Geometry.Nearest
import DensityClustering.Proofs.Geometry.HullVertices

/-!
The vertices of a geometry and the segments that it consists of or is bounded by. The vertices are
the ends of the segments, whatever the kind of the geometry and whatever its coordinates hold; so a
geometry with a vertex has a segment, and two such geometries have a closest pair.
-/

namespace DensityClustering

variable {S : Type}

namespace Segment

/-- The segment starts or ends at the point. -/
def HasEnd (s : Segment S) (p : Coord S) : Prop := p = s.start ∨ p = s.finish

/-- The points are the ends of the segments. -/
def EndAt (segments : List (Segment S)) (points : List (Coord S)) : Prop :=
  ∀ p, p ∈ points ↔ ∃ s ∈ segments, s.HasEnd p

theorem EndAt.nil : EndAt ([] : List (Segment S)) [] := by
  intro p
  simp

theorem EndAt.append {segments segments' : List (Segment S)} {points points' : List (Coord S)}
    (h : EndAt segments points) (h' : EndAt segments' points') :
    EndAt (segments ++ segments') (points ++ points') := by
  intro p
  rw [List.mem_append, h p, h' p]
  simp only [List.mem_append, or_and_right, exists_or]

theorem EndAt.of_mem_iff {segments : List (Segment S)} {points points' : List (Coord S)}
    (h : EndAt segments points) (hmem : ∀ p, p ∈ points' ↔ p ∈ points) : EndAt segments points' :=
  fun p => (hmem p).trans (h p)

/-- What ends part by part at the points of the parts ends at the points of all. -/
theorem EndAt.flatMap {α : Type} {parts : List α} {f : α → List (Segment S)}
    {g : α → List (Coord S)} (h : ∀ x ∈ parts, EndAt (f x) (g x)) :
    EndAt (parts.flatMap f) (parts.flatMap g) := by
  induction parts with
  | nil => exact .nil
  | cons x parts ih =>
    obtain ⟨hfirst, hrest⟩ := List.forall_mem_cons.mp h
    rw [List.flatMap_cons, List.flatMap_cons]
    exact hfirst.append (ih hrest)

theorem endAt_chain (a b : Coord S) (rest : List (Coord S)) :
    EndAt (chain (a :: b :: rest)) (a :: b :: rest) := by
  induction rest generalizing a b with
  | nil =>
    intro p
    simp [chain, HasEnd]
  | cons c rest ih =>
    intro p
    -- The second point is an end of the first segment as well as of the second one.
    have hend : HasEnd ⟨a, b⟩ p ↔ p = a ∨ p = b := Iff.rfl
    rw [chain, List.exists_mem_cons_iff, ← ih b c p, hend]
    simp only [List.mem_cons]
    tauto

theorem endAt_path (ps : List (Coord S)) : EndAt (path ps) ps := by
  match ps with
  | [] => exact .nil
  | [a] =>
    intro p
    simp [path, HasEnd]
  | a :: b :: rest => exact endAt_chain a b rest

end Segment

namespace Geometry

variable [Scalar S]

theorem endAt_ringSegments (p : Polygon S) : Segment.EndAt (ringSegments p) p.coords :=
  .flatMap fun _ _ => Segment.endAt_path _

/-- Of a polygon of one ring the vertices are those that the ring was made from. -/
theorem mem_coords_ring (ring : List (Coord S)) (p : Coord S) :
    p ∈ (⟨⟨ring⟩, []⟩ : Polygon S).coords ↔ p ∈ ring := by
  rw [Polygon.coords, Polygon.rings, List.flatMap_singleton]
  exact Ring.mem_closed ⟨ring⟩ p

mutual

/-- The vertices of a geometry are the ends of its segments. -/
theorem endAt_segments : ∀ g : Geometry S, Segment.EndAt g.segments g.coords
  | point p => Segment.endAt_path [p]
  | multiPoint ps => by
    have hpoints : ps.flatMap (fun p => [p]) = ps := List.flatMap_singleton' ps
    have hends : Segment.EndAt (ps.flatMap fun p => Segment.path [p]) (ps.flatMap fun p => [p]) :=
      .flatMap fun p _ => Segment.endAt_path [p]
    rwa [hpoints] at hends
  | line a b => Segment.endAt_path [a, b]
  | lineString ps => Segment.endAt_path ps
  | multiLineString ls => by
    have hends : Segment.EndAt (ls.flatMap Segment.path) (ls.flatMap id) :=
      .flatMap fun ps _ => Segment.endAt_path ps
    rwa [List.flatMap_id] at hends
  | polygon p => endAt_ringSegments p
  | multiPolygon ps => .flatMap fun p _ => endAt_ringSegments p
  | box b => by
    -- The corners of the box come in another order than those of its polygon.
    refine (endAt_ringSegments b.toPolygon).of_mem_iff fun p => ?_
    rw [Box.toPolygon, mem_coords_ring]
    simp only [coords, Box.corners, List.mem_cons, List.not_mem_nil]
    tauto
  | triangle t =>
    (endAt_ringSegments t.toPolygon).of_mem_iff fun p => (mem_coords_ring t.corners p).symm
  | collection gs => endAt_segmentsOfAll gs

theorem endAt_segmentsOfAll :
    ∀ gs : List (Geometry S), Segment.EndAt (segmentsOfAll gs) (coordsOfAll gs)
  | [] => .nil
  | g :: gs => (endAt_segments g).append (endAt_segmentsOfAll gs)

end

theorem start_mem_coords {g : Geometry S} {s : Segment S} (hs : s ∈ g.segments) :
    s.start ∈ g.coords := (endAt_segments g s.start).mpr ⟨s, hs, Or.inl rfl⟩

theorem mem_coords_of_hasEnd {g : Geometry S} {s : Segment S} {p : Coord S} (hs : s ∈ g.segments)
    (hp : s.HasEnd p) : p ∈ g.coords := (endAt_segments g p).mpr ⟨s, hs, hp⟩

/-- A geometry without a segment has no vertex. -/
theorem segments_eq_nil_iff (g : Geometry S) : g.segments = [] ↔ g.coords = [] := by
  rw [List.eq_nil_iff_forall_not_mem, List.eq_nil_iff_forall_not_mem]
  constructor
  · intro hnone p hp
    obtain ⟨s, hs, -⟩ := (endAt_segments g p).mp hp
    exact hnone s hs
  · intro hnone s hs
    exact hnone s.start (start_mem_coords hs)

end Geometry

section Pair

variable [Scalar S]

theorem Pair.foldl_closer_some (ps : List (Pair S)) (best : Pair S) :
    ∃ m, ps.foldl closer (some best) = some m := by
  induction ps generalizing best with
  | nil => exact ⟨best, rfl⟩
  | cons p ps ih =>
    rw [List.foldl_cons, closer]
    split
    · exact ih p
    · exact ih best

theorem Pair.foldl_closer_eq_none {ps : List (Pair S)} : ps.foldl closer none = none ↔ ps = [] := by
  cases ps with
  | nil => exact iff_of_true rfl rfl
  | cons p ps =>
    obtain ⟨m, hm⟩ := foldl_closer_some ps p
    rw [List.foldl_cons, closer, hm]
    exact iff_of_false nofun nofun

namespace Geometry

variable (a b : Geometry S)

theorem vertexPairs_eq_nil_iff : a.vertexPairs b = [] ↔ a.coords = [] ∨ b.coords = [] := by
  rw [vertexPairs, List.append_eq_nil_iff, List.flatMap_eq_nil_iff, List.flatMap_eq_nil_iff]
  simp only [List.map_eq_nil_iff, segments_eq_nil_iff]
  constructor
  · rintro ⟨hfirst, -⟩
    cases hcoords : a.coords with
    | nil => exact Or.inl rfl
    | cons p ps => exact Or.inr (hfirst p (hcoords ▸ List.mem_cons_self))
  · rintro (hnone | hnone)
    · simp [hnone]
    · simp [hnone]

theorem isEmpty_iff (g : Geometry S) : g.isEmpty = true ↔ g.coords = [] := List.isEmpty_iff

/-- Two geometries have a closest pair unless one of them has no vertex. -/
theorem nearestPair_eq_none_iff : a.nearestPair b = none ↔ a.coords = [] ∨ b.coords = [] := by
  rw [← isEmpty_iff, ← isEmpty_iff, ← Bool.or_eq_true, nearestPair]
  split
  · next hempty => exact iff_of_true rfl hempty
  · next hsome =>
    refine iff_of_false ?_ hsome
    split
    · exact nofun
    · rw [Pair.foldl_closer_eq_none, vertexPairs_eq_nil_iff, ← isEmpty_iff, ← isEmpty_iff,
        ← Bool.or_eq_true]
      exact hsome

end Geometry

end Pair

end DensityClustering
