import Mathlib.Logic.Basic
import DensityClustering.Geometry.Cover
import DensityClustering.Scalar.Instances

/-!
Coverage by parts. Several polygons cover what one of them covers. Several line strings and
collections, though, are looked at through their vertices alone, so that they cover what one of their
parts covers only as far as the vertices tell it. Where they do is said point by point.
-/

namespace DensityClustering

namespace Geometry

variable {S : Type} [Scalar S] {g : Geometry S} {c : Coord S}

/-- The parts that a geometry is put together from; a single one is its own part. -/
def members : Geometry S → List (Geometry S)
  | multiPoint ps => ps.map point
  | multiLineString ls => ls.map lineString
  | multiPolygon ps => ps.map polygon
  | collection gs => gs
  | g => [g]

mutual

/-- The single parts of a geometry, out of collections that are nested to any depth. -/
def leaves : Geometry S → List (Geometry S)
  | collection gs => leavesOfAll gs
  | g => g.members

def leavesOfAll : List (Geometry S) → List (Geometry S)
  | [] => []
  | g :: gs => leaves g ++ leavesOfAll gs

end

/-- Only the vertices of the geometry count for what it covers. -/
def readsVertices : Geometry S → Bool
  | point _ | multiPoint _ | multiLineString _ | collection _ => true
  | _ => false

/-- A vertex of the geometry is the point, up to the tolerance. -/
def Touches (g : Geometry S) (c : Coord S) : Prop := ∃ v ∈ g.coords, v.near c = true

theorem covers_iff_touches (h : g.readsVertices = true) : g.covers c = true ↔ g.Touches c := by
  cases g with
  | point p => simp [covers, Touches, coords]
  | multiPoint ps => simp [covers, Touches, coords]
  | multiLineString ls => simp [covers, Touches]
  | collection gs => simp [covers, Touches]
  | line _ _ | lineString _ | polygon _ | multiPolygon _ | box _ | triangle _ => cases h

theorem coordsOfAll_eq (gs : List (Geometry S)) : coordsOfAll gs = gs.flatMap coords := by
  induction gs with
  | nil => rfl
  | cons g gs ih => rw [coordsOfAll, ih, List.flatMap_cons]

/-- The vertices of a geometry are those of its parts. -/
theorem flatMap_coords_members (g : Geometry S) : g.members.flatMap coords = g.coords := by
  cases g with
  | multiPoint ps =>
    rw [members, List.flatMap_map]
    exact List.flatMap_singleton' ps
  | multiLineString ls =>
    rw [members, List.flatMap_map]
    exact List.flatMap_id
  | multiPolygon ps =>
    rw [members, List.flatMap_map]
    rfl
  | collection gs => exact (coordsOfAll_eq gs).symm
  | point _ | line _ _ | lineString _ | polygon _ | box _ | triangle _ =>
    exact List.flatMap_singleton ..

mutual

theorem flatMap_coords_leaves (g : Geometry S) : g.leaves.flatMap coords = g.coords := by
  cases g with
  | collection gs => exact flatMap_coords_leavesOfAll gs
  | _ =>
    rw [leaves]
    · exact flatMap_coords_members _
    · exact nofun

theorem flatMap_coords_leavesOfAll (gs : List (Geometry S)) :
    (leavesOfAll gs).flatMap coords = coordsOfAll gs := by
  cases gs with
  | nil => rfl
  | cons g gs =>
    rw [leavesOfAll, List.flatMap_append, flatMap_coords_leaves g, flatMap_coords_leavesOfAll gs,
      coordsOfAll]

end

theorem touches_iff {ps : List (Geometry S)} (h : ps.flatMap coords = g.coords) :
    g.Touches c ↔ ∃ part ∈ ps, part.Touches c := by
  unfold Touches
  rw [← h]
  simp only [List.mem_flatMap]
  constructor
  · rintro ⟨v, ⟨part, hpart, hv⟩, hnear⟩
    exact ⟨part, hpart, v, hv, hnear⟩
  · rintro ⟨part, hpart, v, hv, hnear⟩
    exact ⟨v, ⟨part, hpart, hv⟩, hnear⟩

/-- A geometry of which more than the vertices counts has no parts but polygons. -/
theorem covers_iff_of_not_readsVertices (h : g.readsVertices = false) :
    g.leaves = g.members ∧ (g.covers c = true ↔ ∃ part ∈ g.members, part.covers c = true) := by
  cases g with
  | multiPolygon ps => simp [leaves, members, covers]
  | line _ _ | lineString _ | polygon _ | box _ | triangle _ => simp [leaves, members]
  | point _ | multiPoint _ | multiLineString _ | collection _ => cases h

/-- Of a geometry that is looked at through its vertices, the vertices of the parts must tell all of
what the parts cover, and nothing else. -/
theorem covers_iff_exists_iff {ps : List (Geometry S)} (hread : g.readsVertices = true)
    (hcoords : ps.flatMap coords = g.coords) :
    (g.covers c = true ↔ ∃ part ∈ ps, part.covers c = true) ↔
      ∀ part ∈ ps, part.readsVertices = false →
        (part.covers c = true → g.Touches c) ∧
        (part.Touches c → ∃ other ∈ ps, other.covers c = true) := by
  rw [covers_iff_touches hread]
  constructor
  · intro hiff part hpart _
    exact ⟨fun hcovers => hiff.mpr ⟨part, hpart, hcovers⟩,
      fun htouches => hiff.mp ((touches_iff hcoords).mpr ⟨part, hpart, htouches⟩)⟩
  · intro htell
    constructor
    · intro htouches
      obtain ⟨part, hpart, htouches⟩ := (touches_iff hcoords).mp htouches
      cases hkind : part.readsVertices with
      | true => exact ⟨part, hpart, (covers_iff_touches hkind).mpr htouches⟩
      | false => exact (htell part hpart hkind).2 htouches
    · rintro ⟨part, hpart, hcovers⟩
      cases hkind : part.readsVertices with
      | true => exact (touches_iff hcoords).mpr ⟨part, hpart, (covers_iff_touches hkind).mp hcovers⟩
      | false => exact (htell part hpart hkind).1 hcovers

/-- A geometry covers a point exactly if one of its parts does, unless it is looked at through its
vertices and a part of which more counts, a line string or a polygon of a collection, say, covers the
point away from every vertex or has a vertex near the point that no part covers. The same holds of the
single parts, however deep they are nested. So coverage is always that of the parts for several points
or polygons and for collections of points. -/
theorem covers_distributes_iff (g : Geometry S) (c : Coord S) :
    ((g.covers c = true ↔ ∃ part ∈ g.members, part.covers c = true) ↔
      g.readsVertices = false ∨ ∀ part ∈ g.members, part.readsVertices = false →
        (part.covers c = true → g.Touches c) ∧
        (part.Touches c → ∃ other ∈ g.members, other.covers c = true)) ∧
    ((g.covers c = true ↔ ∃ leaf ∈ g.leaves, leaf.covers c = true) ↔
      g.readsVertices = false ∨ ∀ leaf ∈ g.leaves, leaf.readsVertices = false →
        (leaf.covers c = true → g.Touches c) ∧
        (leaf.Touches c → ∃ other ∈ g.leaves, other.covers c = true)) := by
  cases hread : g.readsVertices with
  | true =>
    simp only [Bool.true_eq_false, false_or]
    exact ⟨covers_iff_exists_iff hread (flatMap_coords_members g),
      covers_iff_exists_iff hread (flatMap_coords_leaves g)⟩
  | false =>
    obtain ⟨hleaves, hcovers⟩ := covers_iff_of_not_readsVertices (c := c) hread
    rw [hleaves]
    exact ⟨iff_of_true hcovers (Or.inl rfl), iff_of_true hcovers (Or.inl rfl)⟩

/-- A single straight road, as a set of roads. -/
def road : Geometry Float := .multiLineString [[⟨0, 0⟩, ⟨2, 0⟩]]

/-- The road passes through its middle, which the set of roads does not cover. -/
theorem road_misses_middle :
    ¬(road.covers ⟨1, 0⟩ = true ↔ ∃ part ∈ road.members, part.covers ⟨1, 0⟩ = true) := by
  have hmissed : road.covers ⟨1, 0⟩ = false := by decide +kernel
  have hpassed : (lineString [⟨0, 0⟩, ⟨2, 0⟩] : Geometry Float).covers ⟨1, 0⟩ = true := by
    decide +kernel
  rw [hmissed]
  exact fun hiff => Bool.false_ne_true (hiff.mpr ⟨_, List.mem_singleton_self _, hpassed⟩)

end Geometry

end DensityClustering
